/-
On a simulated GPU whose plan is without faults nothing the manager does ends fatally
(`spared_without_faults`), whatever the rules refuse: what is destroyed lives and the mode is on,
and the mode goes off when nothing lives. These are facts about the calls the manager makes, so
they are read off a watched device.
-/
import GpuPartition.Proofs.Device.Watched
import GpuPartition.Proofs.Simulator.Targets

namespace GpuPartition.Simulator

variable {s s' : Simulator}

/-! ## Calls in order -/

/-- The call is not out of order in the state: a destruction is of an instance that lives, while the
mode is on, and the mode goes off when nothing lives. -/
def InOrder (s : Simulator) : Call → Prop
  | .destroy id => s.enabled = true ∧ id ∈ view.ids s
  | .setMode false => s.live = []
  | _ => True

theorem inOrder_of_succeeds {call : Call} (h : call.Succeeds s) : s.InOrder call := by
  cases call with
  | destroy id =>
    obtain ⟨u, s', h⟩ := h
    obtain ⟨hon, -, hlive, -⟩ := destroy_eq_ok.1 h
    exact ⟨hon, List.mem_map.2 hlive⟩
  | setMode on =>
    cases on with
    | true => trivial
    | false =>
      obtain ⟨u, s', h⟩ := h
      obtain ⟨-, hlive, -⟩ := setMode_eq_ok.1 h
      exact hlive rfl
  | isEnabled | instances | create p => trivial

/-- The operation does not end fatally, and the calls it makes on the way are in order. -/
structure Spared {α : Type} (x : ∀ (δ : Type) [Device δ], ManagerM δ α) (s : Simulator) : Prop where
  not_fatal : ∀ e s', x Simulator s = .error e s' → e.isFatal = false
  in_order : Matched (fun w s' => w.device = s' ∧ ∀ c ∈ w.seen, c.2.InOrder c.1) (fun _ => False)
    (x (Watched Simulator) ⟨s, []⟩) (x Simulator s)

/-- What does not end fatally makes no calls out of order. -/
theorem Spared.of_not_fatal {α : Type} {x : ∀ (δ : Type) [Device δ], ManagerM δ α}
    (hmanaged : Managed Watched.Shows (fun _ => True) (x (Watched Simulator)) (x Simulator))
    (h : ∀ e s', x Simulator s = .error e s' → e.isFatal = false) : Spared x s := by
  refine ⟨h, ?_⟩
  have hshows : (Watched.mk s []).Shows s := ⟨rfl, fun c hc => absurd hc List.not_mem_nil⟩
  have hmatched := hmanaged _ _ hshows
  generalize hr : x (Watched Simulator) ⟨s, []⟩ = r, hr' : x Simulator s = r' at hmatched
  cases hmatched with
  | ok h => exact .ok ⟨h.device, fun c hc => inOrder_of_succeeds (h.succeeds c hc)⟩
  | error h => exact .error ⟨h.device, fun c hc => inOrder_of_succeeds (h.succeeds c hc)⟩
  | excused he =>
    obtain ⟨device, operation, target, attempts, cause, rfl, -⟩ := he
    cases h _ _ hr'

/-! ## Operations on a device without faults -/

/-- A device in a state that can come about, with nothing planned to fail. -/
structure Faultless (s : Simulator) : Prop where
  reachable : s.Reachable
  faults : s.faults = .none

theorem keptByCalls_faults : KeptByCalls fun s : Simulator => s.faults = .none :=
  keptByCalls_of_setup fun hsetup hs => (Setup.mk.inj hsetup).2.2.2.trans hs

namespace Faultless

variable (h : s.Faultless)

include h

theorem sound : (view.restrict (·.faults = .none)).Sound s :=
  View.sound_restrict.2 ⟨h.reachable.sound, h.faults⟩

/-- Clearing goes well and leaves nothing. -/
theorem clear_ok : ∃ s', Manager.clear s = .ok () s' ∧ s'.live = [] := by
  cases hon : s.enabled with
  | false =>
    refine ⟨s, ?_, h.reachable.safe.off hon⟩
    rw [Manager.clear_eq, mode_eq, hon]
  | true =>
    have hclear := Manager.clear_outcome (view_lawful.restrict keptByCalls_faults) h.sound hon
    rcases hresult : Manager.clear s with ⟨⟨⟩, s'⟩ | ⟨e, s'⟩
    · rw [hresult] at hclear
      cases hclear with
      | ok valid live mode => exact ⟨s', rfl, live⟩
    · rw [hresult] at hclear
      cases hclear with
      | queryMode failed same => exact absurd failed not_queryFailed_isEnabled
      | list failed same => exact absurd failed (not_listFailed id)
      | destroy failed part mode =>
        exact absurd failed (not_destroyFailed_of_faults id (mode.trans hon))

theorem calling_setMode_ok {on : Bool} (hlive : on = false → s.live = []) :
    ∃ s', Manager.calling .setMode (Device.setMode on) s = .ok () s' :=
  have hplan : s.faults.modeChange = false := by rw [h.faults]; rfl
  ⟨_, Manager.calling_eq_ok.2 (setMode_eq_ok.2 ⟨hplan, hlive, rfl⟩)⟩

/-- Changing the mode goes well. -/
theorem setMode_ok (on : Bool) : ∃ s', Manager.setMode on s = .ok () s' := by
  rw [Manager.setMode_eq, mode_eq]
  dsimp only
  split
  · exact ⟨s, rfl⟩
  · cases on with
    | true => exact h.calling_setMode_ok (fun hon => by cases hon)
    | false =>
      obtain ⟨s', hclear, hlive⟩ := h.clear_ok
      have h' : s'.Faultless := ⟨after_of_ok hclear ▸ h.reachable.run .clear,
        (Manager.keeps_clear keptByCalls_faults.toKeptInMode).of_ok h.faults hclear⟩
      simp only [hclear]
      exact h'.calling_setMode_ok fun _ => hlive

theorem setLayout_not_fatal {target : Layout} {e : ManagerError}
    (herror : Manager.setLayout target s = .error e s') : e.isFatal = false := by
  have hout :=
    Manager.setLayout_outcome (view_lawful.restrict keptByCalls_faults) h.sound target
  rw [herror] at hout
  cases hout with
  | capacity | modeOff | exhausted => rfl
  | fatalQuery failed same => exact absurd failed not_queryFailed_isEnabled
  | fatalList on failed same => exact absurd failed (not_listFailed id)
  | fatalDestroy on failed part mode =>
    exact absurd failed (not_destroyFailed_of_faults id mode)
  | fatalRollback on failed part mode attempts_pos attempts_le =>
    exact absurd failed (not_destroyFailed_of_faults id mode)

theorem applyTarget_not_fatal {t : Target} {e : ManagerError}
    (herror : Manager.applyTarget t s = .error e s') : e.isFatal = false := by
  rcases Manager.applyTarget_eq_error.1 herror with herror | ⟨s₁, hmode, -, herror⟩
  · obtain ⟨s₁, hmode⟩ := h.setMode_ok t.enabled
    cases hmode.symm.trans herror
  · have h₁ : s₁.Faultless := ⟨h.reachable.of_setMode hmode,
      (Manager.keeps_setMode keptByCalls_faults _).of_ok h.faults hmode⟩
    exact h₁.setLayout_not_fatal herror

theorem assertLayout_not_fatal {expected : Layout} {e : ManagerError}
    (herror : Manager.assertLayout expected s = .error e s') : e.isFatal = false := by
  rcases bind_eq_error.1 herror with hlayout | ⟨actual, s₁, -, herror⟩
  · cases (layout_of_faults h.faults).symm.trans hlayout
  · split at herror
    · cases herror
    · obtain ⟨rfl, -⟩ := EStateM.Result.error.inj herror
      rfl

end Faultless

/-- Every operation is spared, with any argument. -/
structure AllSpared (s : Simulator) : Prop where
  mode : Spared (fun _ _ => Manager.mode) s
  layout : Spared (fun _ _ => Manager.layout) s
  clear : Spared (fun _ _ => Manager.clear) s
  assertLayout : ∀ expected, Spared (fun _ _ => Manager.assertLayout expected) s
  setMode : ∀ on, Spared (fun _ _ => Manager.setMode on) s
  setLayout : ∀ target, Spared (fun _ _ => Manager.setLayout target) s
  applyTarget : ∀ t, Spared (fun _ _ => Manager.applyTarget t) s

/-- **Nothing is fatal without faults.** In every state that can come about, when nothing is planned
to fail, every operation is spared, and clearing goes well and leaves nothing. -/
theorem spared_without_faults (hs : s.Reachable) (hfaults : s.faults = .none) :
    s.AllSpared ∧ ∃ s', Manager.clear s = .ok () s' ∧ s'.live = [] := by
  have h : s.Faultless := ⟨hs, hfaults⟩
  have htracking := Watched.tracking (δ := Simulator)
  obtain ⟨s₁, hclear, hlive⟩ := h.clear_ok
  refine ⟨?_, s₁, hclear, hlive⟩
  constructor
  case mode =>
    refine .of_not_fatal (Manager.managed_mode htracking) fun e s' herror => ?_
    cases (mode_eq s).symm.trans herror
  case layout =>
    refine .of_not_fatal (Manager.managed_layout htracking) fun e s' herror => ?_
    cases (layout_of_faults hfaults).symm.trans herror
  case clear =>
    refine .of_not_fatal (Manager.managed_clear htracking) fun e s' herror => ?_
    cases hclear.symm.trans herror
  case assertLayout =>
    exact fun expected => .of_not_fatal (Manager.managed_assertLayout htracking expected)
      fun _ _ => h.assertLayout_not_fatal
  case setMode =>
    refine fun on => .of_not_fatal (Manager.managed_setMode htracking on) fun e s' herror => ?_
    obtain ⟨s₂, hmode⟩ := h.setMode_ok on
    cases hmode.symm.trans herror
  case setLayout =>
    exact fun target => .of_not_fatal (Manager.managed_setLayout htracking target)
      fun _ _ => h.setLayout_not_fatal
  case applyTarget =>
    exact fun t => .of_not_fatal (Manager.managed_applyTarget htracking t)
      fun _ _ => h.applyTarget_not_fatal

/-- A device with a rule, on which a clearing has ended fatally, once its faults are gone. -/
theorem spared_without_faults_after_failure :
    let rule : CreateRule := fun live _ => if live.isEmpty then none else some "one at a time"
    let created := (Action.create ⟨3, 20⟩).run ((Action.create ⟨1, 5⟩).run
      (Action.enable.run (.new 0 .a100With40)))
    let cleared := Action.clear.run ((Action.setFaults ⟨false, some 1, false⟩).run
      ((Action.addRule rule).run created))
    let s := (Action.setFaults .none).run cleared
    s.Reachable ∧ s.faults = .none ∧ s.live = [⟨1, ⟨3, 20⟩, ⟨4, 4⟩⟩] ∧
      s.AllSpared ∧ ∃ s', Manager.clear s = .ok () s' ∧ s'.live = [] := by
  intro rule created cleared s
  have hs : s.Reachable :=
    .run _ (.run _ (.run _ (.run _ (.run _ (.run _ (.run _ (.new 0 .a100With40)))))))
  exact ⟨hs, rfl, by decide, spared_without_faults hs rfl⟩

end GpuPartition.Simulator
