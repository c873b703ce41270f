/-
Switching the mode of a simulated GPU through the manager (`Switched`). A device in the mode already
is not called. Otherwise the mode is changed with one call, after a clearing that leaves the mode
alone, and if either fails, it stays what it was.
-/
import GpuPartition.Proofs.Simulator.Lawful

namespace GpuPartition.Simulator

variable {s s' s₁ : Simulator} {on : Bool} {n : Nat} {e : ManagerError}

theorem mode_eq (s : Simulator) : (Manager.mode : ManagerM Simulator Bool) s = .ok s.enabled s :=
  Manager.calling_eq_ok.2 rfl

/-! ## Operations that leave the mode -/

/-- The device has this mode, and so many changes of mode have been called for. -/
structure InMode (on : Bool) (n : Nat) (s : Simulator) : Prop where
  mode : s.enabled = on
  count : s.calls.setMode = n

theorem keptInMode_inMode (on : Bool) (n : Nat) : KeptInMode (InMode on n) where
  isEnabled _ h := h
  instances s h := by
    change InMode on n (after instances s)
    rw [after_instances]
    exact ⟨h.mode, h.count⟩
  create p s h := by
    change InMode on n (after (create p) s)
    rcases after_create p s with ⟨placement, -, hafter⟩ | hafter <;> rw [hafter]
    · exact ⟨h.mode, h.count⟩
    · exact ⟨h.mode, h.count⟩
  destroy id s h := by
    change InMode on n (after (destroy id) s)
    rcases after_destroy id s with hafter | hafter <;> rw [hafter]
    · exact ⟨h.mode, h.count⟩
    · exact ⟨h.mode, h.count⟩

/-! ## Switching -/

/-- How setting the mode ends. -/
inductive Switched (s : Simulator) (on : Bool) : EStateM.Result ManagerError Simulator Unit → Prop
  | same (same : s.enabled = on) : Switched s on (.ok () s)
  | changed {s' : Simulator} (differs : s.enabled ≠ on)
    (mode : InMode on (s.calls.setMode + 1) s') : Switched s on (.ok () s')
  | failed {e : ManagerError} {s' : Simulator} (differs : s.enabled ≠ on)
    (mode : s'.enabled = s.enabled) : Switched s on (.error e s')

theorem switched_of_calling (differs : s.enabled ≠ on)
    (h : InMode s.enabled s.calls.setMode s₁) :
    Switched s on (Manager.calling .setMode (Device.setMode on) s₁) := by
  cases hcall : Manager.calling .setMode (Device.setMode on) s₁ with
  | ok u s' =>
    obtain ⟨-, -, rfl⟩ := setMode_eq_ok.1 (Manager.calling_eq_ok.1 hcall)
    exact .changed differs ⟨rfl, congrArg (· + 1) h.count⟩
  | error e s' =>
    obtain ⟨cause, hcause, -⟩ := Manager.calling_eq_error.1 hcall
    obtain rfl := setMode_of_error hcause
    exact .failed differs h.mode

theorem setMode_switched (on : Bool) (s : Simulator) : Switched s on (Manager.setMode on s) := by
  rw [Manager.setMode_eq, mode_eq]
  dsimp only
  by_cases hsame : s.enabled = on
  · rw [if_pos hsame]
    exact .same hsame
  · rw [if_neg hsame]
    have hmode : InMode s.enabled s.calls.setMode s := ⟨rfl, rfl⟩
    cases on with
    | true => exact switched_of_calling hsame hmode
    | false =>
      have hkept := Manager.keeps_clear (keptInMode_inMode s.enabled s.calls.setMode)
      cases hclear : Manager.clear s with
      | error e s₁ => exact .failed hsame (hkept.of_error hmode hclear).mode
      | ok u s₁ => exact switched_of_calling hsame (hkept.of_ok hmode hclear)

theorem setMode_same (s : Simulator) : Manager.setMode s.enabled s = .ok () s := by
  rw [Manager.setMode_eq, mode_eq]
  exact if_pos rfl

theorem enabled_of_setMode_error (h : Manager.setMode on s = .error e s') :
    s'.enabled = s.enabled := by
  cases h ▸ setMode_switched on s with
  | failed differs mode => exact mode

/-- Once the mode has been set, it is as wanted. -/
theorem enabled_of_setMode (h : Manager.setMode on s = .ok () s') : s'.enabled = on := by
  cases h ▸ setMode_switched on s with
  | same same => exact same
  | changed differs mode => exact mode.mode

theorem Reachable.of_setMode (hs : s.Reachable) (h : Manager.setMode on s = .ok () s') :
    s'.Reachable :=
  after_of_ok h ▸ hs.run (.setMode on)

end GpuPartition.Simulator
