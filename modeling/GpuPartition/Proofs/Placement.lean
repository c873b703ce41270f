/-
Placements that share no slice. What does not overlap lies apart, and a run that is not
empty overlaps whatever it shares a slice with (`overlaps_eq_false_iff`). Runs that lie
apart below some slice have no more slices in all than there are (`sum_size_le`).

An empty run shares no slice with any other, but it overlaps a run that goes on at both sides of it
(`overlaps_iff`).
-/
import Mathlib.Algebra.BigOperators.Group.List.Basic
import Mathlib.Algebra.GroupWithZero.Nat
import Mathlib.Data.List.Nodup
import Mathlib.Data.List.Perm.Subperm
import GpuPartition.Placement

namespace GpuPartition.Placement

variable {a b : Placement}

theorem overlaps_eq_true : a.overlaps b = true ↔ a.start < b.stop ∧ b.start < a.stop := by
  simp [overlaps]

/-- No slice is covered by both. -/
def Apart (a b : Placement) : Prop := ∀ slice, ¬ (a.Covers slice ∧ b.Covers slice)

theorem Apart.symm (h : a.Apart b) : b.Apart a := fun slice hboth => h slice hboth.symm

theorem apart_iff_of_size :
    a.Apart b ↔ a.size = 0 ∨ b.size = 0 ∨ a.stop ≤ b.start ∨ b.stop ≤ a.start := by
  simp only [Apart, Covers, stop]
  constructor
  · intro h
    have hstart := h (max a.start b.start)
    omega
  · intro h slice
    omega

instance (a b : Placement) : Decidable (a.Apart b) := decidable_of_iff' _ apart_iff_of_size

/-- For runs that are not empty, lying apart is that one stops before the other starts. -/
theorem apart_iff (ha : 0 < a.size) (hb : 0 < b.size) :
    a.Apart b ↔ a.stop ≤ b.start ∨ b.stop ≤ a.start := by
  rw [apart_iff_of_size]
  omega

theorem overlaps_eq_false_iff (ha : 0 < a.size) (hb : 0 < b.size) :
    a.overlaps b = false ↔ a.Apart b := by
  rw [apart_iff ha hb, ← Bool.not_eq_true, overlaps_eq_true]
  omega

/-! ## Shared slices -/

/-- Some slice is covered by both. -/
def Shares (a b : Placement) : Prop := ∃ slice, a.Covers slice ∧ b.Covers slice

/-- The first of the two is empty and stands between slices of the other. -/
def EmptyInside (a b : Placement) : Prop := a.size = 0 ∧ b.start < a.start ∧ a.start < b.stop

theorem shares_iff :
    a.Shares b ↔ a.size ≠ 0 ∧ b.size ≠ 0 ∧ a.start < b.stop ∧ b.start < a.stop := by
  have hapart : a.Shares b ↔ ¬ a.Apart b := not_forall_not.symm
  rw [hapart, apart_iff_of_size]
  omega

/-- Runs overlap where they share a slice, and where one is empty inside the other. -/
theorem overlaps_iff :
    a.overlaps b = true ↔ a.Shares b ∨ a.EmptyInside b ∨ b.EmptyInside a := by
  rw [overlaps_eq_true, shares_iff]
  simp only [EmptyInside, stop]
  omega

theorem EmptyInside.not_shares (h : a.EmptyInside b) : ¬ a.Shares b :=
  fun hshares => (shares_iff.1 hshares).1 h.1

theorem Shares.symm (h : a.Shares b) : b.Shares a :=
  let ⟨slice, ha, hb⟩ := h
  ⟨slice, hb, ha⟩

theorem overlaps?_eq (ha : a.stop < UInt32.size) (hb : b.stop < UInt32.size) :
    a.overlaps? b = some (a.overlaps b) := by
  have hstop : a.stop? = some a.stop := if_pos ha
  have hstop' : b.stop? = some b.stop := if_pos hb
  rw [overlaps?, hstop, hstop', overlaps]
  by_cases hstart : a.start < b.stop <;> simp [hstart]

/-- **What the comparison tells.** In 32 bits, runs that stop there are compared without overflow
and alike from both sides. The answer is that they overlap if they share a slice, or if one is empty
and stands between slices of the other; so it tells whether they share one exactly if neither of
them stands so. -/
theorem overlaps_tells_shared_iff (a b : Placement) (ha : a.stop < UInt32.size)
    (hb : b.stop < UInt32.size) :
    a.overlaps? b = some (a.overlaps b) ∧
    b.overlaps a = a.overlaps b ∧
    (a.overlaps b = true ↔ a.Shares b ∨ a.EmptyInside b ∨ b.EmptyInside a) ∧
    ((a.overlaps b = true ↔ a.Shares b) ↔ ¬ a.EmptyInside b ∧ ¬ b.EmptyInside a) := by
  refine ⟨overlaps?_eq ha hb, overlaps_comm b a, overlaps_iff, ?_, ?_⟩
  · intro htells
    exact ⟨fun h => h.not_shares (htells.1 (overlaps_iff.2 (.inr (.inl h)))),
      fun h => h.not_shares (htells.1 (overlaps_iff.2 (.inr (.inr h)))).symm⟩
  · rintro ⟨hab, hba⟩
    rw [overlaps_iff]
    exact or_iff_left (not_or.2 ⟨hab, hba⟩)

/-- An empty run between the second and the third of four slices. -/
theorem overlaps_tells_shared_iff_empty :
    let a : Placement := ⟨2, 0⟩
    let b : Placement := ⟨0, 4⟩
    a.stop < UInt32.size ∧ b.stop < UInt32.size ∧ a.overlaps? b = some true ∧
      b.overlaps a = true ∧ ¬ (a.overlaps b = true ↔ a.Shares b) := by
  intro a b
  have ha : a.stop < UInt32.size := by decide
  have hb : b.stop < UInt32.size := by decide
  obtain ⟨hwords, hcomm, -, htells⟩ := overlaps_tells_shared_iff a b ha hb
  refine ⟨ha, hb, hwords, hcomm, fun h => (htells.1 h).1 ?_⟩
  exact ⟨rfl, by decide, by decide⟩

/-- An empty run overlaps a run that it shares no slice with. -/
theorem overlaps_without_shared_slice :
    let a : Placement := ⟨2, 0⟩
    let b : Placement := ⟨0, 4⟩
    a.stop < UInt32.size ∧ b.stop < UInt32.size ∧ a.size = 0 ∧ a.overlaps b = true ∧
      ¬ ∃ slice, a.Covers slice ∧ b.Covers slice := by
  refine ⟨by decide, by decide, rfl, rfl, ?_⟩
  rintro ⟨slice, hcovers, -⟩
  simp only [Covers, stop] at hcovers
  omega

/-! ## Room -/

/-- The slices that are covered. -/
def slices (p : Placement) : List Nat := List.range' p.start p.size

theorem mem_slices {p : Placement} {slice : Nat} : slice ∈ p.slices ↔ p.Covers slice :=
  List.mem_range'_1

/-- Runs that lie apart below slice `n` have at most `n` slices in all. -/
theorem sum_size_le {n : Nat} {ps : List Placement} (hbelow : ∀ p ∈ ps, p.stop ≤ n)
    (hapart : ps.Pairwise Apart) : (ps.map size).sum ≤ n := by
  have hnodup : (ps.flatMap slices).Nodup := by
    refine List.nodup_flatMap.2 ⟨fun p _ => List.nodup_range', hapart.imp fun h slice ha hb => ?_⟩
    exact h slice ⟨mem_slices.1 ha, mem_slices.1 hb⟩
  have hsub : ps.flatMap slices ⊆ List.range n := fun slice hslice => by
    obtain ⟨p, hp, hmem⟩ := List.mem_flatMap.1 hslice
    exact List.mem_range.2 (Nat.lt_of_lt_of_le (mem_slices.1 hmem).2 (hbelow p hp))
  calc (ps.map size).sum = (ps.flatMap slices).length := by
        rw [List.length_flatMap]
        congr 1
        exact List.map_congr_left fun p _ => List.length_range'.symm
    _ ≤ (List.range n).length := (List.subperm_of_subset hnodup hsub).length_le
    _ = n := List.length_range

end GpuPartition.Placement
