/-
What a refusal for lack of room leaves behind. On any device, replacing a layout refuses it before
the first call and leaves the device as it is (`Manager.setLayout_eq_capacity`). A target is
different: its mode is set before its layout is looked at, so a refused target leaves a device alone
whose mode was on, and one whose mode was off with the mode on and one call more
(`Simulator.applyTarget_eq_capacity`).
-/
import GpuPartition.Proofs.Simulator.Targets

namespace GpuPartition

namespace Manager

variable {δ : Type} [Device δ] {d d' : δ} {target : Layout} {device : String} {layout : Layout}
  {cause : AdmissionError}

omit [Device δ] in
theorem naming_ne_capacity {e : ManagerError} (h : e.isFatal = true) :
    e.naming target ≠ .capacity device layout cause := by
  obtain ⟨device', operation, named, attempts, cause', rfl⟩ := isFatal_iff.1 h
  cases named <;> simp [ManagerError.naming]

theorem createLayout_ne_capacity :
    createLayout target d ≠ .error (.capacity device layout cause) d' := by
  unfold createLayout
  dsimp only
  split <;> simp

/-- A layout is refused where the model has no room for it, and then no call is made. -/
theorem setLayout_eq_capacity : setLayout target d = .error (.capacity device layout cause) d' ↔
    (Device.model d).check target = .error cause ∧ device = Device.identifier d ∧ layout = target ∧
      d' = d := by
  rw [setLayout_eq]
  cases hcheck : (Device.model d).check target with
  | error cause' =>
    simp only [EStateM.Result.error.injEq, ManagerError.capacity.injEq, Except.error.injEq]
    constructor
    · rintro ⟨⟨rfl, rfl, rfl⟩, rfl⟩
      exact ⟨rfl, rfl, rfl, rfl⟩
    · rintro ⟨rfl, rfl, rfl, rfl⟩
      exact ⟨⟨rfl, rfl, rfl⟩, rfl⟩
  | ok used =>
    refine iff_of_false (fun h => ?_) (fun h => by cases h.1)
    cases hmode : mode d with
    | error e d₁ =>
      simp only [hmode] at h
      exact naming_ne_capacity (failsFatally_calling _ _ _ _ _ hmode) (EStateM.Result.error.inj h).1
    | ok on d₁ =>
      simp only [hmode] at h
      cases on with
      | false => cases h
      | true =>
        cases hclear : clear d₁ with
        | error e d₂ =>
          simp only [hclear] at h
          exact naming_ne_capacity (failsFatally_clear _ _ _ hclear) (EStateM.Result.error.inj h).1
        | ok u d₂ =>
          simp only [hclear] at h
          exact createLayout_ne_capacity h

end Manager

namespace Simulator

variable {s s' : Simulator} {t : Target} {device : String} {layout : Layout}
  {cause : AdmissionError}

/-- The device with its mode on. Turning it on takes a call. -/
def turnedOn (s : Simulator) : Simulator :=
  if s.enabled then s else { s with enabled := true, calls.setMode := s.calls.setMode + 1 }

theorem enabled_turnedOn (s : Simulator) : s.turnedOn.enabled = true := by
  rw [turnedOn]
  split
  next hon => exact hon
  next => rfl

theorem setMode_true_eq_ok : Manager.setMode true s = .ok () s' ↔
    (s.enabled = false → s.faults.modeChange = false) ∧ s' = s.turnedOn := by
  rw [Manager.setMode_eq, mode_eq, turnedOn]
  cases s.enabled with
  | true =>
    simp only [if_true, EStateM.Result.ok.injEq, true_and, reduceCtorEq, false_implies]
    exact eq_comm
  | false =>
    refine (Manager.calling_eq_ok.trans setMode_eq_ok).trans ?_
    simp only [reduceCtorEq, false_implies, true_and, if_false, forall_const]

/-- A target is refused for its layout once its mode has been turned on. -/
theorem applyTarget_eq_capacity :
    Manager.applyTarget t s = .error (.capacity device layout cause) s' ↔
      (t.enabled = true ∧ s.model.check t.layout = .error cause ∧
        (s.enabled = false → s.faults.modeChange = false)) ∧
        device = s.identifier ∧ layout = t.layout ∧ s' = s.turnedOn := by
  have hmodel : Device.model s.turnedOn = s.model := by
    rw [turnedOn]
    split <;> rfl
  have hname : Device.identifier s.turnedOn = s.identifier := by
    rw [turnedOn]
    split <;> rfl
  rw [Manager.applyTarget_eq_error]
  constructor
  · rintro (hmode | ⟨s₁, hmode, hon, hset⟩)
    · cases Manager.failsFatally_setMode _ _ _ _ hmode
    · rw [hon] at hmode
      obtain ⟨hplan, rfl⟩ := setMode_true_eq_ok.1 hmode
      obtain ⟨hcheck, rfl, rfl, rfl⟩ := Manager.setLayout_eq_capacity.1 hset
      exact ⟨⟨hon, hmodel ▸ hcheck, hplan⟩, hname, rfl, rfl⟩
  · rintro ⟨⟨hon, hcheck, hplan⟩, rfl, rfl, rfl⟩
    refine .inr ⟨s.turnedOn, ?_, hon, ?_⟩
    · rw [hon]
      exact setMode_true_eq_ok.2 ⟨hplan, rfl⟩
    · exact Manager.setLayout_eq_capacity.2 ⟨hmodel ▸ hcheck, hname.symm, rfl, rfl⟩

/-- **A refusal for lack of room.** Replacing the layout leaves the device as it was. Applying a
target leaves it with its mode on, which is as it was exactly if the mode was on before. -/
theorem untouched_by_refusal_iff (s s' : Simulator) (device : String) (layout : Layout)
    (cause : AdmissionError) :
    (∀ target, Manager.setLayout target s = .error (.capacity device layout cause) s' → s' = s) ∧
    ∀ t, Manager.applyTarget t s = .error (.capacity device layout cause) s' →
      s' = s.turnedOn ∧
      (s'.enabled = s.enabled ∧ s'.live = s.live ∧ s'.calls = s.calls ↔ s.enabled = true) := by
  refine ⟨fun target h => (Manager.setLayout_eq_capacity.1 h).2.2.2, fun t h => ?_⟩
  obtain ⟨-, -, -, rfl⟩ := applyTarget_eq_capacity.1 h
  refine ⟨rfl, fun h => ?_, fun hon => ?_⟩
  · rw [← h.1]
    exact enabled_turnedOn s
  · rw [turnedOn, if_pos hon]
    exact ⟨rfl, rfl, rfl⟩

/-- A new device has its mode on after a target was refused, and the call has been counted. -/
theorem touched_by_refused_target :
    let s := Simulator.new 0 .a100With40
    let t : Target := ⟨0, true, Layout.ofProfiles [⟨1, 6⟩]⟩
    ∃ device layout cause s',
      Manager.applyTarget t s = .error (.capacity device layout cause) s' ∧
        s'.enabled ≠ s.enabled ∧ s'.live = s.live ∧ s'.calls ≠ s.calls := by
  intro s t
  have hrefused : s.model.check t.layout = .error (.unsupported .a100With40 ⟨1, 6⟩) := by decide
  exact ⟨_, _, _, _, applyTarget_eq_capacity.2 ⟨⟨rfl, hrefused, fun _ => rfl⟩, rfl, rfl, rfl⟩,
    by decide, rfl, by decide⟩

end Simulator

end GpuPartition
