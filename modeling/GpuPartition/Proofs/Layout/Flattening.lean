/-
Flattening a layout and counting a list of profiles undo each other.

The flat form of a layout is in order (`flatten_sorted`), and its maximal runs of equal profiles are
the entries of the layout, one after the other (`splitBy_flatten_eq`), so the counts of a layout are
the lengths of the runs. A list counts to the layout whose flat form is the list in order
(`flatten_ofProfiles`). Where no count outgrows a machine word, none does on the way
(`ofProfiles?_eq_some`).
-/
import Mathlib.Data.List.SplitBy
import GpuPartition.Proofs.Arrangement.Successor
import GpuPartition.Proofs.Layout

namespace GpuPartition.Layout

/-! ## The flat form -/

theorem flatten_sorted (l : Layout) : l.flatten.Pairwise (· ≤ ·) := by
  refine List.pairwise_flatMap.2 ⟨fun e _ => List.pairwise_replicate.2 (.inr le_rfl), ?_⟩
  refine l.counts.sorted.imp fun hlt p hp q hq => ?_
  rw [List.eq_of_mem_replicate hp, List.eq_of_mem_replicate hq]
  exact hlt.le

/-- The flat form is the first of its arrangements. -/
theorem first_flatten (l : Layout) : Arrangement.first l.flatten = l.flatten :=
  List.mergeSort_of_pairwise (l.flatten_sorted.imp fun h => by simpa using h)

/-- The maximal runs of equal profiles are the entries of the layout. -/
theorem splitBy_flatten_eq (l : Layout) :
    l.flatten.splitBy (· == ·) = l.toList.map fun e => List.replicate e.2 e.1 := by
  rw [flatten, List.flatMap_def]
  refine List.splitBy_flatten ?_ ?_ ?_
  · intro hnil
    obtain ⟨e, he, hempty⟩ := List.mem_map.1 hnil
    exact (l.positive e he).ne' (List.replicate_eq_nil_iff _ |>.1 hempty)
  · intro run hrun
    obtain ⟨e, -, rfl⟩ := List.mem_map.1 hrun
    exact List.isChain_replicate_of_rel _ (beq_self_eq_true e.1)
  · rw [List.isChain_map]
    -- Entries have different profiles, so the runs of two neighbours do not join.
    have hapart := l.counts.sorted.imp_of_mem (S := fun e e' => ∃ hlast hhead,
      ((List.replicate e.2 e.1).getLast hlast == (List.replicate e'.2 e'.1).head hhead) = false)
      fun {e e'} he he' hlt => by
        have hpos := (l.positive e he).ne'
        have hpos' := (l.positive e' he').ne'
        refine ⟨by simpa using hpos, by simpa using hpos', ?_⟩
        rw [List.getLast_replicate, List.head_replicate]
        exact beq_eq_false_iff_ne.2 hlt.ne
    exact hapart.isChain

theorem length_flatten (l : Layout) : l.flatten.length = l.total := by
  rw [flatten, List.length_flatMap]
  simp only [List.length_replicate]
  rfl

/-! ## Counting a list -/

theorem flatten_ofProfiles (ps : List Profile) :
    (ofProfiles ps).flatten = Arrangement.first ps := by
  have hperm : (ofProfiles ps).flatten.Perm (Arrangement.first ps) :=
    (ofProfiles_eq_iff.1 rfl).symm.trans (Arrangement.perm_first ps).symm
  exact hperm.eq_of_pairwise' (flatten_sorted _) (Arrangement.first_nondecreasing ps)

/-- Where the counts stay within a machine word in the end, they do so on the way. -/
theorem foldlM_increment? {ps : List Profile} {l : Layout}
    (h : ∀ p, l.count p + ps.count p ≤ wordMax) :
    ps.foldlM increment? l = some (ps.foldl increment l) := by
  induction ps generalizing l with
  | nil => rfl
  | cons q ps ih =>
    have hroom : l.count q < wordMax := by
      have := h q
      rw [List.count_cons_self] at this
      omega
    have hone : l.increment? q = some (l.increment q) := if_pos hroom
    rw [List.foldlM_cons, hone, List.foldl_cons]
    refine ih fun p => ?_
    have := h p
    simp only [List.count_cons, beq_iff_eq] at this
    rw [increment, count_add]
    omega

theorem ofProfiles?_eq_some {ps : List Profile} (h : ∀ p, ps.count p ≤ wordMax) :
    ofProfiles? ps = some (ofProfiles ps) :=
  foldlM_increment? fun p => by rw [count_empty, Nat.zero_add]; exact h p

theorem ofProfiles?_of_length {ps : List Profile} (h : ps.length ≤ wordMax) :
    ofProfiles? ps = some (ofProfiles ps) :=
  ofProfiles?_eq_some fun _ => List.count_le_length.trans h

/-- **Flattening and counting undo each other.** The flat form of a layout of so many instances as a
machine word can count is in order by slices and memory, holds each profile as often as the layout
counts it, is as long as the layout has instances, and its maximal runs of equal profiles are as
long as the multiplicities say. Whatever the order of its members, they count to the layout, and no
count outgrows a machine word on the way. A list of profiles counts to a layout whose flat form is
the list in order. -/
theorem flatten_inverts_counting :
    (∀ l : Layout, l.total ≤ wordMax →
      l.flatten.Pairwise (fun p q =>
        p.slices < q.slices ∨ p.slices = q.slices ∧ p.memory ≤ q.memory) ∧
      (∀ p, l.flatten.count p = l.count p) ∧
      l.total? = some l.flatten.length ∧
      (l.flatten.splitBy (· == ·)).map List.length = l.multiplicities ∧
      ∀ ps : List Profile, ps.Perm l.flatten → ofProfiles ps = l ∧ ofProfiles? ps = some l) ∧
    ∀ ps : List Profile, (ofProfiles ps).flatten = Arrangement.first ps ∧
      (ps.length ≤ wordMax → ofProfiles? ps = some (ofProfiles ps)) := by
  refine ⟨fun l htotal => ⟨?_, l.count_flatten, ?_, ?_, fun ps hperm => ?_⟩, fun ps =>
    ⟨flatten_ofProfiles ps, ofProfiles?_of_length⟩⟩
  · exact l.flatten_sorted.imp Profile.le_iff.1
  · rw [total?, if_pos htotal, length_flatten]
  · rw [splitBy_flatten_eq, List.map_map]
    simp only [Function.comp_def, List.length_replicate]
    rfl
  · have hps : ofProfiles ps = l := ofProfiles_eq_iff.2 hperm
    have hlen : ps.length ≤ wordMax := by rw [hperm.length_eq, length_flatten]; exact htotal
    exact ⟨hps, by rw [ofProfiles?_of_length hlen, hps]⟩

/-- Three kinds of profiles, two of them with the same slices, and their instances in some other
order. -/
theorem flatten_inverts_counting_three_kinds :
    let l := ofCounts [(⟨3, 20⟩, 1), (⟨1, 10⟩, 1), (⟨1, 5⟩, 2)]
    let ps : List Profile := [⟨1, 10⟩, ⟨1, 5⟩, ⟨3, 20⟩, ⟨1, 5⟩]
    l.total ≤ wordMax ∧ ps.Perm l.flatten ∧ l.total? = some 4 ∧
      (l.flatten.splitBy (· == ·)).map List.length = [2, 1, 1] ∧ ofProfiles? ps = some l ∧
      ps.length ≤ wordMax ∧ ofProfiles? ps = some (ofProfiles ps) := by
  intro l ps
  have htotal : l.total ≤ wordMax := by decide
  have hperm : ps.Perm l.flatten := by decide
  have hlen : ps.length ≤ wordMax := by decide
  obtain ⟨hlayouts, hlists⟩ := flatten_inverts_counting
  obtain ⟨-, -, hcount, hruns, hback⟩ := hlayouts l htotal
  exact ⟨htotal, hperm, hcount, hruns, (hback ps hperm).2, hlen, (hlists ps).2 hlen⟩

end GpuPartition.Layout
