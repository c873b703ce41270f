/-
A simulated GPU is safe in every state that can come about. What lives is offered by the
model and lies where the offer says, inside the memory; no two instances share a slice;
limits and compute slices are respected; and nothing lives while the mode is off (`Safe`).

Only a creation has to be looked at closely. It checks limit and compute slices itself;
that instances lie apart, and so that the memory is never overdrawn, follows from first fit
(`Safe.create`). Everything else takes instances away or leaves them alone.
-/
import Mathlib.Algebra.Order.BigOperators.Group.List
import Mathlib.Algebra.Order.Group.Nat
import GpuPartition.Proofs.Simulator.Lawful
import GpuPartition.Proofs.Simulator.Placing

namespace GpuPartition.Simulator

variable {s : Simulator} {p : Profile} {o : Offer} {placement : Placement}

/-! ## The invariant -/

/-- What lives respects the model, and nothing lives while the mode is off. -/
structure Safe (s : Simulator) : Prop where
  placed : ∀ i ∈ s.live, ∃ o, s.model.offer? i.profile = some o ∧ i.placement.start ∈ o.starts ∧
    i.placement.size = o.memory ∧ i.placement.stop ≤ s.model.memorySlices
  apart : s.live.Pairwise fun i j => i.placement.Apart j.placement
  limits : ∀ p o, s.model.offer? p = some o → s.live.countP (·.profile = p) ≤ o.limit
  compute : s.computeUsed ≤ s.model.computeSlices
  off : s.enabled = false → s.live = []

theorem Safe.size_pos (h : s.Safe) {i : Instance} (hi : i ∈ s.live) : 0 < i.placement.size := by
  obtain ⟨o, ho, -, hsize, -⟩ := h.placed i hi
  exact hsize ▸ Model.memory_pos ho

theorem safe_of_live_nil (h : s.live = []) : s.Safe where
  placed i hi := absurd (h ▸ hi) List.not_mem_nil
  apart := h ▸ .nil
  limits p o _ := by simp [h]
  compute := by simp [computeUsed, h]
  off _ := h

theorem computeUsed_le_of_sublist {s' : Simulator} (h : s'.live.Sublist s.live) :
    s'.computeUsed ≤ s.computeUsed := by
  rw [computeUsed_eq_sum, computeUsed_eq_sum]
  exact ((h.map _).map _).sum_le_sum fun _ _ => Nat.zero_le _

/-- Taking instances away is safe, and so is whatever leaves them alone and the mode on. -/
theorem Safe.of_sublist (h : s.Safe) {s' : Simulator} (hmodel : s'.model = s.model)
    (hlive : s'.live.Sublist s.live) (hmode : s'.enabled = false → s.enabled = false ∨ s'.live = []) :
    s'.Safe where
  placed i hi := hmodel ▸ h.placed i (hlive.subset hi)
  apart := h.apart.sublist hlive
  limits p o ho := (hlive.countP_le).trans (h.limits p o (hmodel ▸ ho))
  compute := hmodel ▸ (computeUsed_le_of_sublist hlive).trans h.compute
  off hoff := by
    rcases hmode hoff with hs | hnil
    · exact List.eq_nil_of_sublist_nil (h.off hs ▸ hlive)
    · exact hnil

/-- Nothing overlaps what is free, and as nothing is empty, nothing shares a slice with it. -/
theorem isFree_iff_apart (h : s.Safe) (hsize : 0 < placement.size) :
    s.isFree placement = true ↔ ∀ i ∈ s.live, i.placement.Apart placement := by
  rw [isFree_iff]
  exact forall₂_congr fun i hi => Placement.overlaps_eq_false_iff (h.size_pos hi) hsize

/-- A creation that is granted is safe. -/
theorem Safe.create (h : s.Safe) (hgrants : s.Grants p o placement) (id nextId : Nat)
    (calls : CallCounts) :
    Safe { s with calls, nextId, live := s.live ++ [⟨id, p, placement⟩] } := by
  obtain ⟨before, start, after, hstarts, rfl, hfree, -⟩ := firstFit_eq_some.1 hgrants.fit
  have hstart : start ∈ o.starts := by simp [hstarts]
  constructor
  · intro i hi
    rcases List.mem_append.1 hi with hi | hi
    · exact h.placed i hi
    · rw [List.mem_singleton.1 hi]
      exact ⟨o, hgrants.offer, hstart, rfl, Model.starts_inside hgrants.offer hstart⟩
  · -- First fit looked at every live instance.
    refine List.pairwise_append.2 ⟨h.apart, List.pairwise_singleton _ _, fun i hi j hj => ?_⟩
    rw [List.mem_singleton.1 hj]
    exact (isFree_iff_apart h (Model.memory_pos hgrants.offer)).1 hfree i hi
  · intro q o' ho'
    rw [countP_append]
    split
    next hq =>
      obtain rfl : p = q := hq
      obtain rfl : o = o' := Option.some.inj (hgrants.offer.symm.trans ho')
      exact hgrants.limit
    next => exact h.limits q o' ho'
  · rw [computeUsed_append (s := s) rfl]
    exact Model.compute_eq_slices hgrants.offer ▸ hgrants.compute
  · intro hoff
    cases hgrants.on.symm.trans hoff

/-! ## Runs -/

theorem Safe.changes {s' : Simulator} (hs : s.Safe) (h : Changes s s') : s'.Safe := by
  cases h with
  | mode enabled calls hoff => exact hs.of_sublist rfl (List.Sublist.refl _) hoff
  | created calls hplace =>
    obtain ⟨o, hgrants⟩ := place_eq_ok.1 hplace
    exact hs.create hgrants _ _ _
  | destroyed id calls => exact hs.of_sublist rfl List.eraseP_sublist .inl

theorem Reachable.safe (h : s.Reachable) : s.Safe :=
  h.invariant (fun _ _ => safe_of_live_nil rfl) (keptByCalls_of_changes fun h hs => hs.changes h)
    fun _ _ _ _ hmode hs => hs.of_sublist rfl (List.Sublist.refl _) fun hoff =>
      .inl (Bool.eq_false_iff.2 fun hon => Bool.eq_false_iff.1 hoff (hmode hon))

/-! ## What lives is an admitted layout -/

/-- Instances that lie apart inside the memory take no more of it than there is. -/
theorem Safe.memory_le (h : s.Safe) :
    ((view.profiles s).map s.model.memoryOf).sum ≤ s.model.memorySlices := by
  have hsizes : (view.profiles s).map s.model.memoryOf =
      (s.live.map (·.placement)).map Placement.size := by
    rw [View.profiles, List.map_map, List.map_map]
    refine List.map_congr_left fun i hi => ?_
    obtain ⟨o, ho, -, hsize, -⟩ := h.placed i hi
    exact (Model.memoryOf_eq ho).trans hsize.symm
  rw [hsizes]
  refine Placement.sum_size_le (fun placement hmem => ?_) (List.pairwise_map.2 h.apart)
  obtain ⟨i, hi, rfl⟩ := List.mem_map.1 hmem
  exact (h.placed i hi).choose_spec.2.2.2

theorem Safe.fits (h : s.Safe) : s.model.Fits (view.profiles s) where
  offered p hp := by
    obtain ⟨i, hi, rfl⟩ := List.mem_map.1 hp
    obtain ⟨o, ho, -⟩ := h.placed i hi
    exact ⟨o, ho, (count_profiles s.live _).trans_le (h.limits _ o ho)⟩
  compute := by
    refine (computeUsed_eq fun p hp => ?_) ▸ h.compute
    obtain ⟨i, hi, rfl⟩ := List.mem_map.1 hp
    exact (h.placed i hi).imp fun _ ho => ho.1
  memory := h.memory_le

/-- **Safety.** In every state that can come about, the device is safe, and its instances counted
by profile make a layout that the model admits. -/
theorem safe_and_admitted (h : s.Reachable) :
    s.Safe ∧ ∃ used, s.model.check (Layout.ofProfiles (view.profiles s)) = .ok used := by
  refine ⟨h.safe, _, Model.check_eq_ok_iff.2 ⟨?_, rfl⟩⟩
  exact h.safe.fits.perm (Layout.ofProfiles_eq_iff.1 rfl)

/-- A device whose clearing breaks off halfway, on the way to a layout it then does not get. -/
theorem safe_and_admitted_after_failure :
    let created := (Action.create ⟨3, 20⟩).run ((Action.create ⟨1, 5⟩).run
      (Action.enable.run (.new 0 .a100With40)))
    let s := (Action.setLayout (.ofProfiles [⟨4, 20⟩])).run
      ((Action.setFaults ⟨false, some 1, false⟩).run created)
    s.Reachable ∧ s.live = [⟨1, ⟨3, 20⟩, ⟨4, 4⟩⟩] ∧
      s.Safe ∧ ∃ used, s.model.check (Layout.ofProfiles (view.profiles s)) = .ok used := by
  intro created s
  have hreach : s.Reachable := .run _ (.run _ (.run _ (.run _ (.run _ (.new 0 .a100With40)))))
  exact ⟨hreach, by decide, safe_and_admitted hreach⟩

end GpuPartition.Simulator
