/-
On a simulated device without rules and faults, a layout that the model admits can be set,
and is read back. Some order of it packs, and creating in that order goes well on every empty
device (`exists_order_accepted`); so the search cannot exhaust itself, since it would have
tried that order.
-/
import GpuPartition.Proofs.Simulator.Creating
import GpuPartition.Proofs.Simulator.Setup

namespace GpuPartition.Simulator

variable {m : Model} {s : Simulator}

/-! ## Devices without rules and faults -/

/-- A device of the model, without rules and faults. -/
structure Plain (m : Model) (s : Simulator) : Prop where
  model : s.model = m
  rules : s.rules = []
  faults : s.faults = .none

theorem keptByCalls_plain : KeptByCalls (Plain m) :=
  keptByCalls_of_setup fun hsetup hs => by
    obtain ⟨-, hmodel, hrules, hfaults⟩ := Setup.mk.inj hsetup
    exact ⟨hmodel.trans hs.model, hrules.trans hs.rules, hfaults.trans hs.faults⟩

/-- Some order of an admitted layout is accepted by every empty device. -/
theorem exists_order_accepted {target : Layout} {used : Usage}
    (hcheck : m.check target = .ok used) :
    ∃ order, order.Perm target.flatten ∧ ∀ s : Simulator, Plain m s → s.enabled = true →
      s.live = [] → (Manager.createInOrder order s).1 = .accepted := by
  obtain ⟨order, hperm, hcreates⟩ := exists_order_created_of_fits (Model.fits_of_check hcheck)
  exact ⟨order, hperm, fun s hplain hon hlive =>
    (hcreates s hplain.model hon hplain.rules hlive).accepted⟩

/-! ## The round trip -/

theorem not_queryFailed_instances {e : DeviceError} :
    ¬ (view.restrict (Plain m)).QueryFailed Device.instances e s :=
  not_listFailed fun hs => hs.faults

theorem not_destroyFailed (hon : s.enabled = true) {e : DeviceError} :
    ¬ (view.restrict (Plain m)).DestroyFailed e s :=
  not_destroyFailed_of_faults (fun hs => hs.faults) hon

theorem layout_of_plain (hplain : Plain m s) : Manager.layout s =
    .ok (Layout.ofProfiles (view.profiles s)) { s with calls.list := s.calls.list + 1 } :=
  layout_of_faults hplain.faults

/-- **The round trip.** On a device in any reachable state whose mode is on, and that has no rules
and no faults, an admitted layout can be set, and is read back; and there is an order of it that
every empty device accepts. -/
theorem setLayout_then_layout (hreach : s.Reachable) (hon : s.enabled = true)
    (hrules : s.rules = []) (hfaults : s.faults = .none) {target : Layout} {used : Usage}
    (hcheck : s.model.check target = .ok used) :
    (∃ report s' s'', Manager.setLayout target s = .ok report s' ∧
      report.order.Perm target.flatten ∧ Manager.layout s' = .ok target s'') ∧
    ∃ order, order.Perm target.flatten ∧ ∀ s₀ : Simulator, Plain s.model s₀ → s₀.enabled = true →
      s₀.live = [] → (Manager.createInOrder order s₀).1 = .accepted := by
  obtain ⟨order, hperm, haccepted⟩ := exists_order_accepted hcheck
  refine ⟨?_, order, hperm, haccepted⟩
  have hsound : (view.restrict (Plain s.model)).Sound s :=
    View.sound_restrict.2 ⟨hreach.sound, rfl, hrules, hfaults⟩
  have hout := Manager.setLayout_outcome (view_lawful.restrict keptByCalls_plain) hsound target
  cases h : Manager.setLayout target s with
  | ok report s' =>
    rw [h] at hout
    cases hout with
    | ok on sound live mode order_perm attempts_le =>
      have hread := layout_of_plain (View.sound_restrict.1 sound).2
      have hlive : Layout.ofProfiles (view.profiles s') = target := live
      rw [hlive] at hread
      exact ⟨_, s', _, rfl, order_perm, hread⟩
  | error e s' =>
    rw [h] at hout
    cases hout with
    | capacity check => cases hcheck.symm.trans check
    | modeOff off call same => cases hon.symm.trans off
    | exhausted on cleared tried =>
      obtain ⟨s₁, e₁, s₂, hs₁, hretry⟩ := tried order hperm
      have := haccepted s₁ hs₁.valid.2 hs₁.mode hs₁.live
      rw [hretry] at this
      cases this
    | fatalQuery failed same => exact absurd failed not_queryFailed_isEnabled
    | fatalList on failed same => exact absurd failed not_queryFailed_instances
    | fatalDestroy on failed part mode => exact absurd failed (not_destroyFailed mode)
    | fatalRollback on failed part mode attempts_pos attempts_le =>
      exact absurd failed (not_destroyFailed mode)

/-- A device that holds a 1g instance in the way of the 4g of the target. -/
theorem setLayout_then_layout_a100 :
    let s := (Action.create ⟨1, 5⟩).run (Action.enable.run (.new 0 .a100With40))
    let target := Layout.ofProfiles [⟨1, 5⟩, ⟨4, 20⟩, ⟨2, 10⟩]
    s.Reachable ∧ s.enabled = true ∧ s.rules = [] ∧ s.faults = .none ∧
      s.model.check target = .ok ⟨7, 7⟩ ∧
      (∃ report s' s'', Manager.setLayout target s = .ok report s' ∧
        report.order.Perm target.flatten ∧ Manager.layout s' = .ok target s'') := by
  intro s target
  have hreach : s.Reachable := .run _ (.run _ (.new 0 .a100With40))
  have hcheck : s.model.check target = .ok ⟨7, 7⟩ := by decide
  exact ⟨hreach, rfl, rfl, rfl, hcheck, (setLayout_then_layout hreach rfl rfl rfl hcheck).1⟩

end GpuPartition.Simulator
