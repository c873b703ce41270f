/-
A device chooses where a new instance goes, by first fit, and it may choose badly: a 1g put
into slice 0 keeps a 3g out although the 1g could have gone elsewhere. Yet choosing the order
is enough. Where new instances could be accommodated at all beside what lives, and no limit
and no compute slice stands against it (`Possible`), they can be created one by one in some
order (`exists_order_created`).

On a device that holds something, larger instances first will do. The first is granted, and
if it is not put where it was planned, the rest of the plan is changed by an exchange
(`Possible.next`). An empty device has no exchange to offer; there, an order that packs is
taken.
-/
import GpuPartition.Proofs.Exchange
import GpuPartition.Proofs.Simulator.Creating
import GpuPartition.Proofs.Simulator.Safety

namespace GpuPartition.Simulator

variable {s : Simulator} {p : Profile} {o : Offer} {placement : Placement} {ps : List Profile}

/-- Legal starts can be chosen for instances of all the profiles, so that they lie apart from each
other and from what lives; and limits and compute slices would be respected. -/
structure Possible (s : Simulator) (ps : List Profile) : Prop where
  seats : ∃ plan : List (Profile × Nat), plan.map (·.1) = ps ∧
    s.model.Accommodates (s.live.map (·.placement)) plan
  limits : ∀ o ∈ s.model.offers,
    s.live.countP (·.profile = o.profile) + ps.count o.profile ≤ o.limit
  compute : s.computeUsed + (ps.map s.model.computeOf).sum ≤ s.model.computeSlices

/-- The device is on, keeps to its model, and has no rules of its own. -/
structure Compliant (s : Simulator) : Prop where
  safe : s.Safe
  on : s.enabled = true
  rules : s.rules = []

theorem Possible.exists_seat (h : s.Possible (p :: ps)) : ∃ a plan, plan.map (·.1) = ps ∧
    s.model.Accommodates (s.live.map (·.placement)) ((p, a) :: plan) := by
  obtain ⟨plan, hprofiles, hseats⟩ := h.seats
  obtain ⟨⟨q, a⟩, plan, rfl, hqp, htail⟩ := List.map_eq_cons_iff.1 hprofiles
  obtain rfl : q = p := hqp
  exact ⟨a, plan, htail, hseats⟩

theorem Possible.grants (h : s.Possible (p :: ps)) (hs : s.Compliant) :
    ∃ o placement, s.Grants p o placement := by
  obtain ⟨a, plan, -, hseats⟩ := h.exists_seat
  obtain ⟨o, ho, ha⟩ := hseats.legal _ List.mem_cons_self
  obtain ⟨hmem, rfl⟩ := Model.mem_offers_of_offer? ho
  have hfree : s.isFree ⟨a, o.memory⟩ = true := isFree_iff.2 fun i hi => by
    have hapart := hseats.free _ List.mem_cons_self _ (List.mem_map_of_mem hi)
    rw [Model.seat_eq ho] at hapart
    exact (Placement.overlaps_eq_false_iff (hs.safe.size_pos hi) (Model.memory_pos ho)).2 hapart
  obtain ⟨placement, hfit⟩ := exists_firstFit ha hfree
  have hlimit := h.limits o hmem
  have hcompute := h.compute
  rw [List.count_cons_self] at hlimit
  rw [List.map_cons, List.sum_cons, Model.computeOf_eq ho] at hcompute
  exact ⟨o, placement, hs.on, ho, by omega, by omega, refusal_eq_none hs.rules _, hfit⟩

/-- If nothing that is left is larger, the rest stays possible. -/
theorem Possible.next (h : s.Possible (p :: ps)) (hs : s.Compliant) (hbusy : s.live ≠ [])
    (hlargest : ∀ q ∈ ps, s.model.memoryOf q ≤ s.model.memoryOf p)
    (hgrants : s.Grants p o placement) (id nextId : Nat) (calls : CallCounts) :
    Possible { s with calls, nextId, live := s.live ++ [⟨id, p, placement⟩] } ps := by
  have ho := hgrants.offer
  constructor
  · obtain ⟨before, start, after, hstarts, rfl, hfree, -⟩ := firstFit_eq_some.1 hgrants.fit
    obtain ⟨a, plan, rfl, hseats⟩ := h.exists_seat
    -- Whatever lives is the busy slice that an exchange needs.
    obtain ⟨i, hi⟩ := List.exists_mem_of_ne_nil s.live hbusy
    have hcovers : i.placement.Covers i.placement.start :=
      ⟨le_rfl, Nat.lt_add_of_pos_right (hs.safe.size_pos hi)⟩
    have hbelow := hcovers.2.trans_le (hs.safe.placed i hi).choose_spec.2.2.2
    have hstart : start ∈ o.starts := by simp [hstarts]
    have hapart : ∀ t ∈ s.live.map (·.placement), t.Apart ⟨start, o.memory⟩ :=
      List.forall_mem_map.2 ((isFree_iff_apart hs.safe (Model.memory_pos ho)).1 hfree)
    rw [Model.memoryOf_eq ho] at hlargest
    obtain ⟨plan', hplan', hseats'⟩ := hseats.exchange ho
      (fun e he => hlargest _ (List.mem_map_of_mem he)) (List.mem_map_of_mem hi) hcovers hbelow
      hstart hapart
    exact ⟨plan', hplan', by simpa using hseats'⟩
  · intro o' ho'
    have hlimit := h.limits o' ho'
    rw [List.count_cons] at hlimit
    rw [countP_append]
    simpa [Nat.add_assoc, Nat.add_comm] using hlimit
  · have hcompute := h.compute
    rw [List.map_cons, List.sum_cons, Model.computeOf_eq ho,
      Model.compute_eq_slices ho, ← Nat.add_assoc] at hcompute
    rwa [computeUsed_append (s := s) rfl]

/-! ## A device that holds something -/

/-- Larger instances first, all can be created. -/
theorem Possible.creates (h : s.Possible ps) (hs : s.Compliant) (hbusy : s.live ≠ [])
    (hlarger : ps.Pairwise fun p q => s.model.memoryOf q ≤ s.model.memoryOf p) :
    s.Creates ps := by
  induction ps generalizing s with
  | nil => exact creates_nil s
  | cons p ps ih =>
    obtain ⟨hlargest, hlarger⟩ := List.pairwise_cons.1 hlarger
    obtain ⟨o, placement, hgrants⟩ := h.grants hs
    exact .cons (create_eq_ok.2 ⟨placement, place_eq_ok.2 ⟨o, hgrants⟩, rfl, rfl⟩)
      (ih (h.next hs hbusy hlargest hgrants _ _ _) ⟨hs.safe.create hgrants _ _ _, hs.on, hs.rules⟩
        (by simp) hlarger)

/-- Larger instances come first in a plan. -/
def largerFirst (m : Model) (e e' : Profile × Nat) : Bool :=
  decide (m.memoryOf e'.1 ≤ m.memoryOf e.1)

theorem Possible.exists_sorted (h : s.Possible ps) : ∃ order, order.Perm ps ∧ s.Possible order ∧
    order.Pairwise fun p q => s.model.memoryOf q ≤ s.model.memoryOf p := by
  obtain ⟨plan, rfl, hseats⟩ := h.seats
  have hperm : (plan.mergeSort (largerFirst s.model)).Perm plan := List.mergeSort_perm plan _
  have hprofiles := hperm.map (·.1)
  have hsorted : (plan.mergeSort (largerFirst s.model)).Pairwise (largerFirst s.model · · = true) :=
    List.pairwise_mergeSort (fun a b c => by simpa [largerFirst] using fun h₁ h₂ => h₂.trans h₁)
      (fun a b => by simpa [largerFirst] using Nat.le_total _ _) plan
  refine ⟨_, hprofiles, ⟨⟨_, rfl, hseats.perm hperm.symm⟩, fun o ho => ?_, ?_⟩, ?_⟩
  · rw [hprofiles.count_eq]
    exact h.limits o ho
  · rw [(hprofiles.map s.model.computeOf).sum_eq]
    exact h.compute
  · exact List.pairwise_map.2 (hsorted.imp of_decide_eq_true)

/-! ## An empty device -/

theorem Possible.fits (h : s.Possible ps) : s.model.Fits ps where
  offered p hp := by
    obtain ⟨plan, rfl, hseats⟩ := h.seats
    obtain ⟨e, he, rfl⟩ := List.mem_map.1 hp
    obtain ⟨o, ho, -⟩ := hseats.legal e he
    obtain ⟨hmem, hprofile⟩ := Model.mem_offers_of_offer? ho
    exact ⟨o, ho, hprofile ▸ (Nat.le_add_left _ _).trans (h.limits o hmem)⟩
  compute := (Nat.le_add_left _ _).trans h.compute
  memory := by
    obtain ⟨plan, rfl, hseats⟩ := h.seats
    exact hseats.memory_le

/-! ## Reordering is enough -/

/-- **Reordering.** On a device in any reachable state whose mode is on and that has no rules,
whatever could be accommodated beside what lives, within limits and compute slices, can be created
one by one in some order. -/
theorem exists_order_created (hreach : s.Reachable) (hon : s.enabled = true)
    (hrules : s.rules = []) (h : s.Possible ps) :
    ∃ order, order.Perm ps ∧ s.Creates order := by
  by_cases hempty : s.live = []
  · obtain ⟨order, hperm, hcreates⟩ := exists_order_created_of_fits h.fits
    exact ⟨order, hperm, hcreates s rfl hon hrules hempty⟩
  · obtain ⟨order, hperm, hpossible, hlarger⟩ := h.exists_sorted
    exact ⟨order, hperm, hpossible.creates ⟨hreach.safe, hon, hrules⟩ hempty hlarger⟩

/-- Beside a 1g at slice 4, a 1g at slice 5 and a 3g are possible, but not in this order: the second
1g would go to slice 0. -/
theorem exists_order_created_a100 :
    let created := (Action.create ⟨1, 5⟩).run ((Action.create ⟨4, 20⟩).run
      (Action.enable.run (.new 0 .a100With40)))
    let s := (Action.destroy 0).run created
    let ps : List Profile := [⟨1, 5⟩, ⟨3, 20⟩]
    s.Reachable ∧ s.live = [⟨1, ⟨1, 5⟩, ⟨4, 1⟩⟩] ∧ s.Possible ps ∧ ¬ s.Creates ps ∧
      ∃ order, order.Perm ps ∧ s.Creates order := by
  intro created s ps
  have hreach : s.Reachable := .run _ (.run _ (.run _ (.run _ (.new 0 .a100With40))))
  have hlive : s.live = [⟨1, ⟨1, 5⟩, ⟨4, 1⟩⟩] := by decide
  have hfails : createEach ps s = .error _ _ := rfl
  have hpossible : s.Possible ps :=
    ⟨⟨[(⟨1, 5⟩, 5), (⟨3, 20⟩, 0)], rfl, by decide, by decide, by decide⟩, by decide, by decide⟩
  exact ⟨hreach, hlive, hpossible, not_creates_of_error hfails,
    exists_order_created hreach rfl rfl hpossible⟩

end GpuPartition.Simulator
