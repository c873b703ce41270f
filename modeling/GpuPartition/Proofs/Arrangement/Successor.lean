/-
The step from one arrangement to the next is the successor in lexicographic order, for
lists over any linear order, reached by the walk or not.

* `next?_eq_none_iff`: there is no next arrangement exactly of a non-increasing list, and
  such a list is the greatest of its rearrangements (`le_of_perm_nonincreasing`).
* `perm_of_next?`, `lt_of_next?`, `le_of_next?`: otherwise the next arrangement is a
  rearrangement, is greater, and is the least of those that are.
-/
import Mathlib.Data.List.Lex
import Mathlib.Data.List.TakeWhile
import Mathlib.Order.Lattice
import GpuPartition.Arrangement.Successor

namespace GpuPartition.Arrangement

variable {α : Type} [LinearOrder α]

/-! ## Lists in order are extreme -/

theorem cons_le_of_le {a c : α} {l u : List α} (hac : a ≤ c) (h : a = c → l ≤ u) :
    a :: l ≤ c :: u := by
  rcases hac.lt_or_eq with hlt | rfl
  · exact le_of_lt (List.Lex.rel hlt)
  · exact List.cons_le_cons a (h rfl)

/-- A non-decreasing list is the least of its rearrangements. -/
theorem le_of_perm_nondecreasing {l u : List α} (hl : l.Pairwise (· ≤ ·)) (hu : u.Perm l) :
    l ≤ u := by
  induction l generalizing u with
  | nil => rw [hu.eq_nil]
  | cons a l ih =>
    cases u with
    | nil => exact absurd hu (List.not_perm_nil_cons a l)
    | cons c u =>
      rw [List.pairwise_cons] at hl
      have hac : a ≤ c := by
        rcases List.mem_cons.1 (hu.subset List.mem_cons_self) with rfl | hc
        · exact le_rfl
        · exact hl.1 c hc
      refine cons_le_of_le hac fun he => ih hl.2 ?_
      subst he
      exact hu.cons_inv

/-- A non-increasing list is the greatest of its rearrangements. -/
theorem le_of_perm_nonincreasing {l u : List α} (hl : l.Pairwise (· ≥ ·)) (hu : u.Perm l) :
    u ≤ l := by
  induction l generalizing u with
  | nil => rw [hu.eq_nil]
  | cons a l ih =>
    cases u with
    | nil => exact absurd hu (List.not_perm_nil_cons a l)
    | cons c u =>
      rw [List.pairwise_cons] at hl
      have hca : c ≤ a := by
        rcases List.mem_cons.1 (hu.subset List.mem_cons_self) with rfl | hc
        · exact le_rfl
        · exact hl.1 c hc
      refine cons_le_of_le hca fun he => ih hl.2 ?_
      subst he
      exact hu.cons_inv

/-! ## Replacing the head -/

/-- What `replaceHead?` finds: the items above `a` end in `b`, which changes places with `a`
before the tail is turned round. -/
theorem replaceHead?_eq_some {a : α} {rest w : List α} (h : replaceHead? a rest = some w) :
    ∃ above b below, rest = above ++ b :: below ∧ (∀ x ∈ above, a < x) ∧ a < b ∧
      below = rest.dropWhile (a < ·) ∧ w = b :: (below.reverse ++ a :: above.reverse) := by
  unfold replaceHead? at h
  split at h
  · cases h
  next b above hrev =>
  have htake : rest.takeWhile (a < ·) = above.reverse ++ [b] := by
    rw [← List.reverse_reverse (rest.takeWhile (a < ·)), hrev, List.reverse_cons]
  have hall : ∀ x ∈ above.reverse ++ [b], a < x := by
    intro x hx
    rw [← htake] at hx
    have hd := List.mem_takeWhile_imp (p := fun x => decide (a < x)) hx
    simpa using hd
  refine ⟨above.reverse, b, rest.dropWhile (a < ·), ?_, fun x hx => hall x (by simp_all),
    hall b (by simp), rfl, ?_⟩
  · have := List.takeWhile_append_dropWhile (p := fun x => decide (a < x)) (l := rest)
    rw [htake] at this
    simpa using this.symm
  · simpa using h.symm

theorem replaceHead?_eq_none_iff {a : α} {rest : List α} (hrest : rest.Pairwise (· ≥ ·)) :
    replaceHead? a rest = none ↔ ∀ x ∈ rest, x ≤ a := by
  constructor
  · intro h
    unfold replaceHead? at h
    split at h
    next hrev =>
      cases rest with
      | nil => simp
      | cons c rest =>
        -- The first item is the greatest of `rest`, and it is not above `a`.
        have hc : c ≤ a := by
          by_contra hlt
          simp [not_le.1 hlt] at hrev
        intro x hx
        rcases List.mem_cons.1 hx with rfl | hx
        · exact hc
        · exact le_trans ((List.pairwise_cons.1 hrest).1 x hx) hc
    · cases h
  · intro h
    have : rest.takeWhile (a < ·) = [] := by
      cases rest with
      | nil => rfl
      | cons c rest => simp [h c List.mem_cons_self]
    simp [replaceHead?, this]

theorem perm_of_replaceHead? {a : α} {rest w : List α} (h : replaceHead? a rest = some w) :
    w.Perm (a :: rest) := by
  obtain ⟨above, b, below, hrest, -, -, -, rfl⟩ := replaceHead?_eq_some h
  rw [hrest]
  refine List.perm_iff_count.2 fun x => ?_
  simp only [List.count_cons, List.count_append, List.count_reverse]
  omega

/-- In a non-increasing tail nothing behind the items above `a` is above `a`. -/
theorem dropWhile_lt_le {a : α} {rest : List α} (hrest : rest.Pairwise (· ≥ ·)) :
    ∀ x ∈ rest.dropWhile (a < ·), x ≤ a := by
  induction rest with
  | nil => simp
  | cons c rest ih =>
    rw [List.pairwise_cons] at hrest
    by_cases hc : a < c
    · simpa [List.dropWhile_cons, hc] using ih hrest.2
    · intro x hx
      have hx : x ∈ c :: rest := by simpa [List.dropWhile_cons, hc] using hx
      rcases List.mem_cons.1 hx with rfl | hx
      · exact not_lt.1 hc
      · exact le_trans (hrest.1 x hx) (not_lt.1 hc)

/-- Replacing the head in front of a non-increasing tail gives the least greater rearrangement. -/
theorem le_of_replaceHead? {a : α} {rest w u : List α} (hrest : rest.Pairwise (· ≥ ·))
    (h : replaceHead? a rest = some w) (hu : u.Perm (a :: rest)) (hlt : a :: rest < u) : w ≤ u := by
  have hwu : w.Perm u := (perm_of_replaceHead? h).trans hu.symm
  obtain ⟨above, b, below, hsplit, habove, hab, hbelow, rfl⟩ := replaceHead?_eq_some h
  have hlow : ∀ x ∈ below, x ≤ a := hbelow ▸ dropWhile_lt_le hrest
  rw [hsplit, List.pairwise_append, List.pairwise_cons] at hrest
  obtain ⟨hdesc, ⟨-, hdesc'⟩, hcross⟩ := hrest
  cases u with
  | nil => exact absurd hu (List.not_perm_nil_cons a _)
  | cons c u =>
    -- The head of `u` is above `a`: the tail is the greatest of its rearrangements.
    have hac : a < c := by
      cases hlt with
      | rel hac => exact hac
      | cons htail =>
        have hdescRest : rest.Pairwise (· ≥ ·) := by
          rw [hsplit, List.pairwise_append, List.pairwise_cons]
          exact ⟨hdesc, ⟨fun x hx => le_trans (hlow x hx) hab.le, hdesc'⟩, hcross⟩
        exact absurd htail (not_lt.2 (le_of_perm_nonincreasing hdescRest hu.cons_inv))
    have hbc : b ≤ c := by
      have hc : c ∈ above ++ b :: below := by
        rcases List.mem_cons.1 (hu.subset List.mem_cons_self) with rfl | hc
        · exact absurd hac (lt_irrefl _)
        · exact hsplit ▸ hc
      rcases List.mem_append.1 hc with hc | hc
      · exact hcross c hc b List.mem_cons_self
      · rcases List.mem_cons.1 hc with rfl | hc
        · exact le_rfl
        · exact absurd hac (not_lt.2 (hlow c hc))
    refine cons_le_of_le hbc fun he => le_of_perm_nondecreasing ?_ ?_
    · simp only [List.pairwise_append, List.pairwise_cons, List.pairwise_reverse, List.mem_cons,
        List.mem_reverse]
      refine ⟨hdesc', ⟨fun x hx => (habove x hx).le, hdesc⟩, fun x hx y hy => ?_⟩
      rcases hy with rfl | hy
      · exact hlow x hx
      · exact le_trans (hlow x hx) (habove y hy).le
    · subst he
      exact hwu.cons_inv.symm

/-! ## The successor -/

theorem next?_cons_eq_some {a : α} {rest w : List α} (h : next? (a :: rest) = some w) :
    (∃ rest', next? rest = some rest' ∧ w = a :: rest') ∨
      next? rest = none ∧ replaceHead? a rest = some w := by
  rw [next?] at h
  split at h
  next rest' hr => exact .inl ⟨rest', hr, by simpa using h.symm⟩
  next hr => exact .inr ⟨hr, h⟩

/-- There is no next arrangement exactly of a non-increasing list. -/
theorem next?_eq_none_iff {v : List α} : next? v = none ↔ v.Pairwise (· ≥ ·) := by
  induction v with
  | nil => simp [next?]
  | cons a rest ih =>
    rw [List.pairwise_cons, ← ih, next?]
    split
    next rest' hr => simp [hr]
    next hr =>
      rw [replaceHead?_eq_none_iff (ih.1 hr)]
      simp [hr]

theorem perm_of_next? {v w : List α} (h : next? v = some w) : w.Perm v := by
  induction v generalizing w with
  | nil => simp [next?] at h
  | cons a rest ih =>
    rcases next?_cons_eq_some h with ⟨rest', hr, rfl⟩ | ⟨-, h⟩
    · exact (ih hr).cons a
    · exact perm_of_replaceHead? h

theorem lt_of_next? {v w : List α} (h : next? v = some w) : v < w := by
  induction v generalizing w with
  | nil => simp [next?] at h
  | cons a rest ih =>
    rcases next?_cons_eq_some h with ⟨rest', hr, rfl⟩ | ⟨-, h⟩
    · exact List.Lex.cons (ih hr)
    · obtain ⟨_, b, _, -, -, hab, -, rfl⟩ := replaceHead?_eq_some h
      exact List.Lex.rel hab

/-- No rearrangement lies between an arrangement and the next one. -/
theorem le_of_next? {v w u : List α} (h : next? v = some w) (hu : u.Perm v) (hlt : v < u) :
    w ≤ u := by
  induction v generalizing w u with
  | nil => simp [next?] at h
  | cons a rest ih =>
    rcases next?_cons_eq_some h with ⟨rest', hr, rfl⟩ | ⟨hr, h⟩
    · cases hlt with
      | rel hac => exact le_of_lt (List.Lex.rel hac)
      | cons htail => exact List.cons_le_cons a (ih hr hu.cons_inv htail)
    · exact le_of_replaceHead? (next?_eq_none_iff.1 hr) h hu hlt

/-! ## The first arrangement -/

theorem perm_first (items : List α) : (first items).Perm items := List.mergeSort_perm _ _

theorem first_nondecreasing (items : List α) : (first items).Pairwise (· ≤ ·) := by
  have htrans (a b c : α) (hab : !decide (b < a)) (hbc : !decide (c < b)) : !decide (c < a) := by
    simp only [Bool.not_eq_true', decide_eq_false_iff_not, not_lt] at *
    exact le_trans hab hbc
  have htotal (a b : α) : !decide (b < a) || !decide (a < b) := by simp [le_total]
  exact (List.pairwise_mergeSort htrans htotal items).imp fun h => by simpa using h

/-- Lists have the same first arrangement exactly when they hold the same items. -/
theorem first_eq_first_iff {items items' : List α} :
    first items = first items' ↔ items.Perm items' := by
  constructor
  · intro h
    exact (perm_first items).symm.trans (h ▸ perm_first items')
  · intro h
    have hp : (first items).Perm (first items') :=
      ((perm_first items).trans h).trans (perm_first items').symm
    exact le_antisymm (le_of_perm_nondecreasing (first_nondecreasing items) hp.symm)
      (le_of_perm_nondecreasing (first_nondecreasing items') hp)

end GpuPartition.Arrangement
