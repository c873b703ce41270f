/-
Layouts and lists of profiles: a layout flattens to a list that holds each profile as often
as the layout counts it (`count_flatten`), counting a list makes the layout with its counts
(`count_ofProfiles`), so a list counts to a layout exactly when it is a rearrangement of the
layout's flat form (`ofProfiles_eq_iff`).

`Layout.orderings` is the number of distinct orders of the instances of a layout, counted
off the flat form by `orderings_eq`.
-/
import Mathlib.Data.List.Dedup
import GpuPartition.Proofs.Arrangement.Count
import GpuPartition.Proofs.SortedMap

namespace GpuPartition

instance : LinearOrder Profile where
  le_refl p := Nat.le_refl p.rank
  le_trans _ _ _ := Nat.le_trans
  le_antisymm _ _ h h' := Profile.rank_injective (Nat.le_antisymm h h')
  le_total p q := Nat.le_total p.rank q.rank
  lt_iff_le_not_ge _ _ := Nat.lt_iff_le_and_not_ge
  toDecidableLE := inferInstance
  toDecidableLT := inferInstance
  toDecidableEq := inferInstance

namespace Layout

/-! ## Counting a list -/

theorem count_foldl_increment (ps : List Profile) (l : Layout) (p : Profile) :
    (ps.foldl increment l).count p = l.count p + ps.count p := by
  induction ps generalizing l with
  | nil => simp
  | cons q ps ih =>
    rw [List.foldl_cons, ih, increment, count_add, List.count_cons]
    simp only [beq_iff_eq]
    omega

theorem count_ofProfiles (ps : List Profile) (p : Profile) :
    (ofProfiles ps).count p = ps.count p := by
  rw [ofProfiles, count_foldl_increment]
  simp

theorem count_ofCounts (pairs : List (Profile × Nat)) (p : Profile) :
    (ofCounts pairs).count p = (pairs.map fun e => if e.1 = p then e.2 else 0).sum := by
  have hfold : ∀ l : Layout, (pairs.foldl (fun l e => l.add e.1 e.2) l).count p =
      l.count p + (pairs.map fun e => if e.1 = p then e.2 else 0).sum := by
    induction pairs with
    | nil => simp
    | cons e pairs ih =>
      intro l
      rw [List.foldl_cons, ih, count_add, List.map_cons, List.sum_cons, Nat.add_assoc]
  rw [ofCounts, hfold, count_empty, Nat.zero_add]

theorem sum_eq_zero_of_not_mem {pairs : List (Profile × Nat)} {p : Profile}
    (h : p ∉ pairs.map (·.1)) : (pairs.map fun e => if e.1 = p then e.2 else 0).sum = 0 := by
  refine List.sum_eq_zero fun n hn => ?_
  obtain ⟨e, he, rfl⟩ := List.mem_map.1 hn
  exact if_neg fun heq => h (List.mem_map.2 ⟨e, he, heq⟩)

/-! ## Flattening -/

theorem count_flatMap_replicate {es : List (Profile × Nat)}
    (hes : es.Pairwise (fun a b => a.1 < b.1)) (p : Profile) :
    (es.flatMap fun e => List.replicate e.2 e.1).count p =
      (SortedMap.lookupEntry p es).getD 0 := by
  induction es with
  | nil => simp [SortedMap.lookupEntry]
  | cons e es ih =>
    obtain ⟨q, n⟩ := e
    rw [List.pairwise_cons] at hes
    rw [List.flatMap_cons, List.count_append, ih hes.2, List.count_replicate,
      SortedMap.lookupEntry]
    by_cases hq : q = p
    · subst hq
      have hnone : SortedMap.lookupEntry q es = none :=
        SortedMap.lookupEntry_eq_none fun e he => (hes.1 e he).ne'
      simp [hnone]
    · simp [hq]

theorem count_flatten (l : Layout) (p : Profile) : l.flatten.count p = l.count p :=
  count_flatMap_replicate l.counts.sorted p

/-- A list counts to a layout exactly when it is a rearrangement of the layout's flat form. -/
theorem ofProfiles_eq_iff {ps : List Profile} {l : Layout} :
    ofProfiles ps = l ↔ ps.Perm l.flatten := by
  rw [List.perm_iff_count]
  constructor
  · rintro rfl p
    rw [count_flatten, count_ofProfiles]
  · intro h
    refine ext_count fun p => ?_
    rw [count_ofProfiles, h, count_flatten]

theorem mem_flatten {l : Layout} {p : Profile} : p ∈ l.flatten ↔ 0 < l.count p := by
  rw [← List.count_pos_iff, count_flatten]

/-! ## The number of orders -/

/-- The number of distinct orders of the instances of a layout, `n! / (c₁! ⋯ cₖ!)`. -/
def orderings (l : Layout) : Nat := Arrangement.multinomial l.multiplicities

theorem mem_keys {l : Layout} {p : Profile} : p ∈ l.counts.keys ↔ 0 < l.count p := by
  rw [SortedMap.keys, List.mem_map]
  constructor
  · rintro ⟨e, he, rfl⟩
    have := SortedMap.lookupEntry_of_mem l.counts.sorted he
    rw [count, SortedMap.find?, this]
    exact l.positive e he
  · intro h
    by_contra hne
    have : SortedMap.lookupEntry p l.counts.toList = none :=
      SortedMap.lookupEntry_eq_none fun e he hep => hne ⟨e, he, hep⟩
    simp [count, SortedMap.find?, this] at h

theorem multiplicities_eq_map (l : Layout) : l.multiplicities = l.counts.keys.map l.count := by
  rw [multiplicities, SortedMap.values, SortedMap.keys, List.map_map]
  refine List.map_congr_left fun e he => ?_
  have := SortedMap.lookupEntry_of_mem l.counts.sorted he
  simp [count, SortedMap.find?, this]

/-- The orders of a layout are the arrangements of its flat form. -/
theorem orderings_eq (l : Layout) :
    l.orderings = Arrangement.multinomial (l.flatten.dedup.map l.flatten.count) := by
  have hkeys : l.counts.keys.Perm l.flatten.dedup := by
    refine (List.perm_ext_iff_of_nodup l.counts.keys_nodup l.flatten.nodup_dedup).2 fun p => ?_
    rw [mem_keys, List.mem_dedup, mem_flatten]
  have hcount : l.flatten.count = l.count := funext l.count_flatten
  rw [orderings, multiplicities_eq_map, hcount]
  exact Arrangement.multinomial_perm (hkeys.map _)

/-- The entries of a layout are the profiles it counts, with their counts. -/
theorem mem_toList_iff {l : Layout} {p : Profile} {n : Nat} :
    (p, n) ∈ l.toList ↔ 0 < n ∧ n = l.count p := by
  rw [toList, SortedMap.mem_toList_iff, count]
  constructor
  · intro h
    exact ⟨count_pos_of_find? h, by rw [h]; rfl⟩
  · rintro ⟨hpos, rfl⟩
    cases h : l.counts.find? p with
    | none => rw [h] at hpos; exact absurd hpos (by decide)
    | some n => rfl

theorem fits_iff {l : Layout} : l.fits = true ↔ ∀ p, l.count p ≤ wordMax := by
  rw [fits, multiplicities_eq_map, List.all_eq_true]
  simp only [List.mem_map, forall_exists_index, and_imp, forall_apply_eq_imp_iff₂,
    decide_eq_true_eq]
  refine ⟨fun h p => ?_, fun h p _ => h p⟩
  by_cases hp : p ∈ l.counts.keys
  · exact h p hp
  · rw [mem_keys] at hp
    omega

theorem flatten_eq_nil_iff {l : Layout} : l.flatten = [] ↔ l = empty := by
  constructor
  · intro h
    refine ext_count fun p => ?_
    rw [← count_flatten, h, count_empty, List.count_nil]
  · rintro rfl
    rfl

end Layout

end GpuPartition
