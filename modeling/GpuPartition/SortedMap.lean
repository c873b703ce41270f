/-
Maps kept as association lists, strictly increasing by key. A map has one form
only: two maps that answer every look-up alike are equal (`SortedMap.ext_find?`),
so equality of maps is equality of lists and printing a map needs no sorting.

`find?_insert` and `find?_erase` say what the two operations do to look-ups.
-/

namespace GpuPartition

/-- An association list whose keys are strictly increasing. -/
structure SortedMap (κ α : Type) [LT κ] where
  toList : List (κ × α)
  sorted : toList.Pairwise (fun a b => a.1 < b.1)

namespace SortedMap

variable {κ α : Type}

/-! ## Association lists -/

/-- Writes `v` under `k`: in front of the first greater key, or over the entry of `k`. -/
def insertEntry [LT κ] [DecidableLT κ] (k : κ) (v : α) : List (κ × α) → List (κ × α)
  | [] => [(k, v)]
  | (k', v') :: rest =>
    if k < k' then (k, v) :: (k', v') :: rest
    else if k' < k then (k', v') :: insertEntry k v rest
    else (k, v) :: rest

/-- The value of the first entry under `k`. -/
def lookupEntry [DecidableEq κ] (k : κ) : List (κ × α) → Option α
  | [] => none
  | (k', v) :: rest => if k' = k then some v else lookupEntry k rest

theorem mem_insertEntry [LT κ] [DecidableLT κ] {k : κ} {v : α} {e : κ × α} {l : List (κ × α)}
    (h : e ∈ insertEntry k v l) : e = (k, v) ∨ e ∈ l := by
  induction l with
  | nil => simpa [insertEntry] using h
  | cons hd tl ih =>
    rw [insertEntry] at h
    split at h
    · simpa using h
    · split at h
      · rcases List.mem_cons.1 h with rfl | h
        · simp
        · rcases ih h with rfl | h <;> simp [*]
      · rcases List.mem_cons.1 h with rfl | h <;> simp [*]

theorem lookupEntry_eq_none [DecidableEq κ] {k : κ} {l : List (κ × α)} (h : ∀ e ∈ l, e.1 ≠ k) :
    lookupEntry k l = none := by
  induction l with
  | nil => rfl
  | cons hd tl ih =>
    obtain ⟨k', v⟩ := hd
    rw [lookupEntry, if_neg (h _ List.mem_cons_self)]
    exact ih fun e he => h e (List.mem_cons_of_mem _ he)

theorem lookupEntry_filter_ne [DecidableEq κ] (k q : κ) (l : List (κ × α)) :
    lookupEntry q (l.filter fun e => e.1 ≠ k) = if k = q then none else lookupEntry q l := by
  induction l with
  | nil => simp [lookupEntry]
  | cons hd tl ih =>
    obtain ⟨k', v⟩ := hd
    by_cases hk : k' = k
    · subst hk
      by_cases hq : k' = q
      · subst hq; simpa using ih
      · simpa [lookupEntry, hq] using ih
    · by_cases hq : k' = q
      · subst hq
        have hne : k ≠ k' := fun h => hk h.symm
        simp [lookupEntry, hk, hne]
      · simpa [lookupEntry, hk, hq] using ih

/-! ## Maps -/

section Basic

variable [LT κ]

def empty : SortedMap κ α := ⟨[], .nil⟩

instance : EmptyCollection (SortedMap κ α) := ⟨empty⟩

def isEmpty (m : SortedMap κ α) : Bool := m.toList.isEmpty

def keys (m : SortedMap κ α) : List κ := m.toList.map (·.1)

def values (m : SortedMap κ α) : List α := m.toList.map (·.2)

def find? [DecidableEq κ] (m : SortedMap κ α) (k : κ) : Option α := lookupEntry k m.toList

def erase [DecidableEq κ] (m : SortedMap κ α) (k : κ) : SortedMap κ α :=
  ⟨m.toList.filter (fun e => e.1 ≠ k), m.sorted.filter _⟩

theorem toList_injective {m n : SortedMap κ α} (h : m.toList = n.toList) : m = n := by
  cases m; cases n; cases h; rfl

instance [DecidableEq κ] [DecidableEq α] : DecidableEq (SortedMap κ α) := fun m n =>
  if h : m.toList = n.toList then isTrue (toList_injective h)
  else isFalse (fun e => h (e ▸ rfl))

@[simp] theorem find?_empty [DecidableEq κ] (q : κ) : (empty : SortedMap κ α).find? q = none := rfl

theorem find?_erase [DecidableEq κ] (m : SortedMap κ α) (k q : κ) :
    (m.erase k).find? q = if k = q then none else m.find? q :=
  lookupEntry_filter_ne k q m.toList

theorem mem_erase [DecidableEq κ] {m : SortedMap κ α} {k : κ} {e : κ × α} :
    e ∈ (m.erase k).toList ↔ e ∈ m.toList ∧ e.1 ≠ k := by
  simp [erase]

end Basic

/-! ## Insertion keeps the order -/

section Ordered

variable [LT κ] [LE κ] [DecidableLT κ] [Std.IsLinearOrder κ] [Std.LawfulOrderLT κ]

theorem insertEntry_sorted (k : κ) (v : α) {l : List (κ × α)}
    (h : l.Pairwise (fun a b => a.1 < b.1)) :
    (insertEntry k v l).Pairwise (fun a b => a.1 < b.1) := by
  induction l with
  | nil => simp [insertEntry]
  | cons hd tl ih =>
    obtain ⟨k', v'⟩ := hd
    rw [List.pairwise_cons] at h
    rw [insertEntry]
    split
    case isTrue hk =>
      refine .cons (fun e he => ?_) (.cons h.1 h.2)
      rcases List.mem_cons.1 he with rfl | he
      · exact hk
      · exact Std.lt_trans hk (h.1 e he)
    case isFalse hk =>
      split
      case isTrue hk' =>
        refine .cons (fun e he => ?_) (ih h.2)
        rcases mem_insertEntry he with rfl | he
        · exact hk'
        · exact h.1 e he
      case isFalse hk' =>
        obtain rfl : k = k' := Std.le_antisymm (Std.not_lt.1 hk') (Std.not_lt.1 hk)
        exact .cons h.1 h.2

/-- Writes `v` under `k`, over any value that was there. -/
def insert (m : SortedMap κ α) (k : κ) (v : α) : SortedMap κ α :=
  ⟨insertEntry k v m.toList, insertEntry_sorted k v m.sorted⟩

/-- The map of a list of entries; of several under one key the last stays. -/
def ofList (l : List (κ × α)) : SortedMap κ α :=
  l.foldl (fun m e => m.insert e.1 e.2) empty

theorem mem_insert {m : SortedMap κ α} {k : κ} {v : α} {e : κ × α}
    (h : e ∈ (m.insert k v).toList) : e = (k, v) ∨ e ∈ m.toList :=
  mem_insertEntry h

theorem lookupEntry_insertEntry [DecidableEq κ] (k q : κ) (v : α) (l : List (κ × α)) :
    lookupEntry q (insertEntry k v l) = if k = q then some v else lookupEntry q l := by
  induction l with
  | nil => simp [insertEntry, lookupEntry]
  | cons hd tl ih =>
    obtain ⟨k', v'⟩ := hd
    rw [insertEntry]
    split
    case isTrue hk => simp only [lookupEntry]
    case isFalse hk =>
      split
      case isTrue hk' =>
        simp only [lookupEntry, ih]
        by_cases hq : k' = q
        · subst hq
          have hne : k ≠ k' := fun h => Std.lt_irrefl (h ▸ hk')
          simp [hne]
        · simp [hq]
      case isFalse hk' =>
        obtain rfl : k = k' := Std.le_antisymm (Std.not_lt.1 hk') (Std.not_lt.1 hk)
        by_cases hq : k = q <;> simp [lookupEntry, hq]

theorem find?_insert [DecidableEq κ] (m : SortedMap κ α) (k q : κ) (v : α) :
    (m.insert k v).find? q = if k = q then some v else m.find? q :=
  lookupEntry_insertEntry k q v m.toList

omit [DecidableLT κ] in
/-- Lists in order that answer every look-up alike are equal. -/
theorem eq_of_lookupEntry [DecidableEq κ] {l l' : List (κ × α)}
    (hl : l.Pairwise (fun a b => a.1 < b.1)) (hl' : l'.Pairwise (fun a b => a.1 < b.1))
    (h : ∀ k, lookupEntry k l = lookupEntry k l') : l = l' := by
  have below : ∀ {k : κ} {l : List (κ × α)}, (∀ e ∈ l, k < e.1) → lookupEntry k l = none :=
    fun h => lookupEntry_eq_none fun e he hk => Std.lt_irrefl (hk ▸ h e he)
  induction l generalizing l' with
  | nil =>
    cases l' with
    | nil => rfl
    | cons e tl => have := h e.1; simp [lookupEntry] at this
  | cons e tl ih =>
    cases l' with
    | nil => have := h e.1; simp [lookupEntry] at this
    | cons e' tl' =>
      obtain ⟨k, v⟩ := e
      obtain ⟨k', v'⟩ := e'
      rw [List.pairwise_cons] at hl hl'
      obtain rfl : k = k' := by
        apply Std.le_antisymm <;> apply Std.not_lt.1 <;> intro hlt
        · have := h k'
          rw [below fun x hx => (List.mem_cons.1 hx).elim (· ▸ hlt)
            (fun hx => Std.lt_trans hlt (hl.1 x hx))] at this
          simp [lookupEntry] at this
        · have := h k
          rw [below (l := (k', v') :: tl') fun x hx => (List.mem_cons.1 hx).elim (· ▸ hlt)
            (fun hx => Std.lt_trans hlt (hl'.1 x hx))] at this
          simp [lookupEntry] at this
      obtain rfl : v = v' := by simpa [lookupEntry] using h k
      rw [ih hl.2 hl'.2 fun q => ?_]
      by_cases hq : k = q
      · subst hq; rw [below hl.1, below hl'.1]
      · simpa [lookupEntry, hq] using h q

omit [DecidableLT κ] in
/-- Maps that answer every look-up alike are equal. -/
theorem ext_find? [DecidableEq κ] {m n : SortedMap κ α} (h : ∀ k, m.find? k = n.find? k) : m = n :=
  toList_injective (eq_of_lookupEntry m.sorted n.sorted h)

end Ordered

end SortedMap

end GpuPartition
