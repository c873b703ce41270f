/-
Walking through the arrangements hands out each distinct rearrangement of the items once,
in lexicographic order, and nothing after the last one.

`Cursor.Yields` says what a cursor hands out, call by call. The walk from an arrangement
yields the rearrangements from there on (`exists_yields`), because the next arrangement is
the successor; from the first arrangement these are all of them (`yields_all`,
`enumerates_all`).
-/
import GpuPartition.Arrangement.Cursor
import GpuPartition.Proofs.Arrangement.Count
import GpuPartition.Proofs.Arrangement.Successor

namespace GpuPartition.Arrangement

/-! ## What a cursor hands out -/

section Yields

variable {α : Type} [LT α] [DecidableLT α]

/-- The cursor hands out the members of the list, one at each call, and then nothing. -/
def Cursor.Yields : Cursor α → List (List α) → Prop
  | c, [] => c = ⟨none⟩
  | c, a :: l => c = ⟨some a⟩ ∧ Cursor.Yields ⟨next? a⟩ l

theorem Cursor.drop_end (n : Nat) : (⟨none⟩ : Cursor α).drop n = ⟨none⟩ := by
  induction n with
  | zero => rfl
  | succ n ih => exact ih

theorem Cursor.Yields.next_drop {c : Cursor α} {l : List (List α)} (h : c.Yields l) (n : Nat) :
    (c.drop n).next.1 = l[n]? := by
  induction l generalizing c n with
  | nil =>
    obtain rfl : c = ⟨none⟩ := h
    rw [Cursor.drop_end]
    rfl
  | cons a l ih =>
    obtain ⟨rfl, h⟩ := h
    cases n with
    | zero => rfl
    | succ n => exact ih h n

theorem Cursor.Yields.takeOnto {c : Cursor α} {l : List (List α)} (h : c.Yields l)
    (taken : List (List α)) {n : Nat} (hn : l.length ≤ n) :
    Cursor.takeOnto taken n c = (taken.reverse ++ l, ⟨none⟩) := by
  induction l generalizing c taken n with
  | nil =>
    obtain rfl : c = ⟨none⟩ := h
    cases n <;> simp [Cursor.takeOnto]
  | cons a l ih =>
    obtain ⟨rfl, h⟩ := h
    cases n with
    | zero => simp at hn
    | succ n =>
      simpa [Cursor.takeOnto, Cursor.next] using ih h (a :: taken) (by simpa using hn)

end Yields

/-! ## Enumerations -/

variable {α : Type} [LinearOrder α]

/-- The list holds the distinct rearrangements of the items, each once and in lexicographic
order. -/
structure Enumerates (items : List α) (l : List (List α)) : Prop where
  increasing : l.Pairwise (· < ·)
  mem_iff : ∀ u, u ∈ l ↔ u.Perm items

theorem Enumerates.nodup {items : List α} {l : List (List α)} (h : Enumerates items l) :
    l.Nodup :=
  h.increasing.imp ne_of_lt

theorem Enumerates.length_eq {items : List α} {l : List (List α)} (h : Enumerates items l) :
    l.length = multinomial (items.dedup.map items.count) :=
  length_eq_multinomial h.nodup h.mem_iff

theorem Enumerates.length_le {items : List α} {l : List (List α)} (h : Enumerates items l) :
    l.length ≤ Nat.factorial items.length := by
  rw [h.length_eq, ← sum_count_dedup items]
  exact multinomial_le_factorial _

/-! ## The walk -/

/-- Fewer rearrangements are above the next arrangement. -/
theorem card_above_next?_lt {v w : List α} (h : next? v = some w) :
    ((rearrangements w).filter (w < ·)).card < ((rearrangements v).filter (v < ·)).card := by
  have hperm := perm_of_next? h
  have hlt := lt_of_next? h
  refine Finset.card_lt_card (Finset.ssubset_iff_of_subset (fun u hu => ?_) |>.2 ⟨w, ?_, ?_⟩)
  · simp only [Finset.mem_filter, mem_rearrangements] at hu ⊢
    exact ⟨hu.1.trans hperm, hlt.trans hu.2⟩
  · simpa using ⟨hperm, hlt⟩
  · simp

/-- The walk from an arrangement yields the rearrangements from there on, in order. -/
theorem exists_yields (v : List α) :
    ∃ l, (⟨some v⟩ : Cursor α).Yields l ∧ l.Pairwise (· < ·) ∧
      ∀ u, u ∈ l ↔ u.Perm v ∧ v ≤ u := by
  induction hn : ((rearrangements v).filter (v < ·)).card using Nat.strong_induction_on
    generalizing v with
  | _ n ih =>
  cases h : next? v with
  | none =>
    refine ⟨[v], ⟨rfl, by simp [Cursor.Yields, h]⟩, List.pairwise_singleton _ _, fun u => ?_⟩
    rw [List.mem_singleton]
    constructor
    · rintro rfl
      exact ⟨List.Perm.refl _, le_rfl⟩
    · rintro ⟨hu, hle⟩
      exact le_antisymm (le_of_perm_nonincreasing (next?_eq_none_iff.1 h) hu) hle
  | some w =>
    obtain ⟨l, hyields, hpair, hmem⟩ := ih _ (hn ▸ card_above_next?_lt h) w rfl
    have hlt := lt_of_next? h
    refine ⟨v :: l, ⟨rfl, h ▸ hyields⟩, List.pairwise_cons.2 ⟨fun u hu => ?_, hpair⟩, fun u => ?_⟩
    · exact hlt.trans_le ((hmem u).1 hu).2
    · rw [List.mem_cons, hmem]
      constructor
      · rintro (rfl | ⟨hu, hle⟩)
        · exact ⟨List.Perm.refl _, le_rfl⟩
        · exact ⟨hu.trans (perm_of_next? h), hlt.le.trans hle⟩
      · rintro ⟨hu, hle⟩
        rcases hle.lt_or_eq with hvu | rfl
        · exact .inr ⟨hu.trans (perm_of_next? h).symm, le_of_next? h hu hvu⟩
        · exact .inl rfl

theorem factorial_eq (n : Nat) : factorial n = Nat.factorial n := by
  induction n with
  | zero => rfl
  | succ n ih => rw [factorial, ih, Nat.factorial_succ]

theorem all_spec (items : List α) :
    (Cursor.start items).Yields (all items) ∧ Enumerates items (all items) := by
  obtain ⟨l, hyields, hpair, hmem⟩ := exists_yields (first items)
  have henum : Enumerates items l := ⟨hpair, fun u => by
    rw [hmem]
    refine ⟨fun h => h.1.trans (perm_first items), fun h => ?_⟩
    have hu := h.trans (perm_first items).symm
    exact ⟨hu, le_of_perm_nondecreasing (first_nondecreasing items) hu⟩⟩
  have hall : all items = l := by
    have hlen : l.length ≤ factorial items.length := factorial_eq _ ▸ henum.length_le
    rw [all, Cursor.take, Cursor.start, hyields.takeOnto [] hlen]
    rfl
  rw [hall]
  exact ⟨hyields, henum⟩

theorem yields_all (items : List α) : (Cursor.start items).Yields (all items) :=
  (all_spec items).1

theorem enumerates_all (items : List α) : Enumerates items (all items) := (all_spec items).2

/-- **The walk is an exact enumeration.** Call by call a cursor hands out the members of
`all items` and then nothing for ever; these are the distinct rearrangements of the items in
strictly increasing lexicographic order, `n! / (c₁! ⋯ cₖ!)` in number, and where a walk starts
depends on the multiset of items alone. -/
theorem walk_enumerates_rearrangements (items : List α) :
    (∀ n, ((Cursor.start items).drop n).next.1 = (all items)[n]?) ∧
    (all items).Pairwise (· < ·) ∧
    (∀ u, u ∈ all items ↔ u.Perm items) ∧
    (all items).length = multinomial (items.dedup.map items.count) ∧
    ∀ items' : List α, Cursor.start items' = Cursor.start items ↔ items'.Perm items := by
  have henum := enumerates_all items
  refine ⟨(yields_all items).next_drop, henum.increasing, henum.mem_iff, henum.length_eq,
    fun items' => ?_⟩
  rw [← first_eq_first_iff]
  simp [Cursor.start]

example : all [2, 1, 1] = [[1, 1, 2], [1, 2, 1], [2, 1, 1]] := by cbv

end GpuPartition.Arrangement
