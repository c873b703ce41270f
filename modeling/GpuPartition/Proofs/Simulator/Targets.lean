/-
Bringing simulated GPUs to their targets. A target that is applied is reached (`Reached`): the
device has its mode and holds its layout, and the report says so. A target that suits the model
fails only after every order of its layout was tried, or fatally (`applyTarget_error`), since
its layout is admitted and the mode is on by the time the layout is replaced.

The targets of a config that resolves suit the model and name devices that exist, so nothing
else can come of applying them (`applyTargets_of_resolved`).
-/
import GpuPartition.Proofs.Config
import GpuPartition.Proofs.Manager.Targets
import GpuPartition.Proofs.Simulator.Safety
import GpuPartition.Proofs.Simulator.Setup
import GpuPartition.Proofs.Simulator.Switching

namespace GpuPartition

/-- The layout the device is to hold: none when the mode is to be off. -/
def Target.wanted (t : Target) : Layout := if t.enabled then t.layout else .empty

theorem Target.Suits.wanted_eq {m : Model} {t : Target} (h : t.Suits m) : t.wanted = t.layout := by
  rw [wanted]
  split
  next => rfl
  next hoff => exact (h.off (Bool.eq_false_iff.2 hoff)).symm

namespace Simulator

variable {s s' : Simulator} {t : Target} {report : Report}

/-! ## One target -/

/-- The device is as the target says, and so does the report. -/
structure Reached (t : Target) (report : Report) (s : Simulator) : Prop where
  enabled : s.enabled = t.enabled
  layout : Layout.ofProfiles (view.profiles s) = t.wanted
  report_enabled : report.enabled = t.enabled
  report_layout : report.layout = t.wanted
  report_order : report.order.Perm t.wanted.flatten

/-- A target that is applied is reached. -/
theorem applyTarget_ok (hs : s.Reachable) (h : Manager.applyTarget t s = .ok report s') :
    Reached t report s' := by
  obtain ⟨s₁, hmode, ⟨hon, hset⟩ | ⟨hoff, rfl, rfl⟩⟩ := Manager.applyTarget_eq_ok.1 h
  · have hwanted : t.wanted = t.layout := if_pos hon
    have hout := Manager.setLayout_outcome view_lawful (hs.of_setMode hmode).sound t.layout
    rw [hset] at hout
    cases hout with
    | ok on sound live mode order_perm attempts_le =>
      have mode : s'.enabled = true := mode
      exact ⟨mode.trans hon.symm, live.trans hwanted.symm, hon.symm, hwanted.symm,
        hwanted ▸ order_perm⟩
  · have henabled := enabled_of_setMode hmode
    have hwanted : t.wanted = .empty := if_neg (by simp [hoff])
    have hlive : s'.live = [] := (hs.of_setMode hmode).safe.off (henabled.trans hoff)
    have hprofiles : view.profiles s' = [] := List.map_eq_nil_iff.2 hlive
    refine ⟨henabled, ?_, hoff.symm, hwanted.symm, ?_⟩
    · rw [hwanted, hprofiles]
      rfl
    · rw [hwanted]
      exact .refl _

/-- How often the mode is changed once the target has been applied. -/
theorem setModeCalls_of_applyTarget (h : Manager.applyTarget t s = .ok report s') :
    s'.calls.setMode = s.calls.setMode + if s.enabled = t.enabled then 0 else 1 := by
  obtain ⟨s₁, hmode, hrest⟩ := Manager.applyTarget_eq_ok.1 h
  have hswitched : InMode t.enabled
      (s.calls.setMode + if s.enabled = t.enabled then 0 else 1) s₁ := by
    cases hmode ▸ setMode_switched t.enabled s with
    | same same => exact ⟨same, by rw [if_pos same]; rfl⟩
    | changed differs mode => rwa [if_neg differs]
  rcases hrest with ⟨-, hset⟩ | ⟨-, -, rfl⟩
  · exact ((Manager.keeps_setLayout (keptInMode_inMode _ _) t.layout).of_ok hswitched hset).count
  · exact hswitched.count

/-- Where applying a target fails, its mode is not set, and stays what it was, or it is. -/
theorem applyTarget_error_mode {e : ManagerError} (h : Manager.applyTarget t s = .error e s') :
    Manager.setMode t.enabled s = .error e s' ∧ s'.enabled = s.enabled ∨
      (∃ s₁, Manager.setMode t.enabled s = .ok () s₁) ∧ s'.enabled = t.enabled := by
  rcases Manager.applyTarget_eq_error.1 h with hmode | ⟨s₁, hmode, -, hset⟩
  · exact .inl ⟨hmode, enabled_of_setMode_error hmode⟩
  · have hswitched : InMode t.enabled s₁.calls.setMode s₁ := ⟨enabled_of_setMode hmode, rfl⟩
    exact .inr ⟨⟨s₁, hmode⟩,
      ((Manager.keeps_setLayout (keptInMode_inMode _ _) t.layout).of_error hswitched hset).mode⟩

/-- **Applying a target.** On a device in a reachable state, whatever its rules and its fault plan,
a target that is applied is reached, its order counts back to the layout reported, a target that is
off leaves nothing, and the mode was changed by one call if it differed and by none if not. Where
setting the mode fails, by itself or for the target, the mode stays what it was; and where the
device is in the mode already, it is left as it is. -/
theorem applyTarget_exact (hs : s.Reachable) (t : Target) :
    (∀ report s', Manager.applyTarget t s = .ok report s' →
      Reached t report s' ∧ Layout.ofProfiles report.order = report.layout ∧
        (t.enabled = false → s'.live = []) ∧
        s'.calls.setMode = s.calls.setMode + if s.enabled = t.enabled then 0 else 1) ∧
    (∀ e s', Manager.applyTarget t s = .error e s' →
      Manager.setMode t.enabled s = .error e s' ∧ s'.enabled = s.enabled ∨
        (∃ s₁, Manager.setMode t.enabled s = .ok () s₁) ∧ s'.enabled = t.enabled) ∧
    (∀ on e s', Manager.setMode on s = .error e s' → s'.enabled = s.enabled) ∧
    Manager.setMode s.enabled s = .ok () s := by
  refine ⟨fun report s' h => ?_, fun e s' => applyTarget_error_mode,
    fun on e s' => enabled_of_setMode_error, setMode_same s⟩
  have hreached := applyTarget_ok hs h
  have hs' : s'.Reachable := after_of_ok h ▸ hs.run (.applyTarget t)
  refine ⟨hreached, ?_, fun hoff => hs'.safe.off (hreached.enabled.trans hoff),
    setModeCalls_of_applyTarget h⟩
  rw [Layout.ofProfiles_eq_iff, hreached.report_layout]
  exact hreached.report_order

/-- A target that is off clears a device and turns its mode off, whatever layout it carries. If the
mode cannot be changed, the device is cleared and its mode stays on. -/
theorem applyTarget_exact_a100 :
    let s (modeChange : Bool) := (Action.setFaults ⟨false, none, modeChange⟩).run
      ((Action.create ⟨1, 5⟩).run (Action.enable.run (.new 0 .a100With40)))
    let t : Target := ⟨0, false, .ofProfiles [⟨4, 20⟩]⟩
    (∀ modeChange, (s modeChange).Reachable) ∧
      (∃ report s', Manager.applyTarget t (s false) = .ok report s' ∧ Reached t report s' ∧
        s'.live = [] ∧ s'.calls.setMode = 1) ∧
      (∃ e s', Manager.applyTarget t (s true) = .error e s' ∧
        Manager.setMode false (s true) = .error e s' ∧ s'.enabled = true) ∧
      Manager.setMode true (s true) = .ok () (s true) := by
  intro s t
  have hs (modeChange : Bool) : (s modeChange).Reachable := .run _ (.run _ (.run _ (.new _ _)))
  obtain ⟨hok, -, -, -⟩ := applyTarget_exact (hs false) t
  obtain ⟨hreached, -, hlive, hcalls⟩ := hok _ _ rfl
  obtain ⟨-, -, herror, hsame⟩ := applyTarget_exact (hs true) t
  have hfailed := herror false _ _ rfl
  exact ⟨hs, ⟨_, _, rfl, hreached, hlive rfl, hcalls⟩, ⟨_, _, rfl, rfl, hfailed⟩, hsame⟩

/-- Why a target that suits the model is not reached: every order of its layout was tried to no
avail on a device with the property, or a call failed that is not tried again. -/
inductive TargetFailure (P : Simulator → Prop) (t : Target) : ManagerError → Prop
  | exhausted {device cause} (on : t.enabled = true)
      (tried : ∀ order, order.Perm t.layout.flatten →
        Manager.createInOrder.Retries (view.restrict P).Cleared order) :
    TargetFailure P t
      (.exhausted device t.layout t.layout.orderings t.layout.orderings (some cause))
  | fatal {e} (fatal : e.isFatal = true) : TargetFailure P t e

theorem applyTarget_error {P : Simulator → Prop} (hP : KeptByCalls P)
    (hs : (view.restrict P).Sound s) (hsuits : t.Suits s.model) {e : ManagerError}
    (h : Manager.applyTarget t s = .error e s') : TargetFailure P t e := by
  rcases Manager.applyTarget_eq_error.1 h with hmode | ⟨s₁, hmode, hon, hset⟩
  · exact .fatal (Manager.failsFatally_setMode _ _ _ _ hmode)
  · have henabled : s₁.enabled = true := (enabled_of_setMode hmode).trans hon
    have hmodel : s₁.model = s.model :=
      (Manager.keeps_setMode (keptByCalls_of_setup fun hsetup hm =>
        (Setup.mk.inj hsetup).2.1.trans hm) _).of_ok rfl hmode
    have hs₁ : (view.restrict P).Sound s₁ := by
      obtain ⟨hsound, hPs⟩ := View.sound_restrict.1 hs
      exact View.sound_restrict.2 ⟨(Manager.keeps_setMode keptByCalls_sound _).of_ok hsound hmode,
        (Manager.keeps_setMode hP _).of_ok hPs hmode⟩
    have hout := Manager.setLayout_outcome (view_lawful.restrict hP) hs₁ t.layout
    rw [hset] at hout
    cases hout with
    | capacity check =>
      obtain ⟨used, hadmitted⟩ := hsuits.on hon
      rw [← hmodel] at hadmitted
      cases hadmitted.symm.trans check
    | modeOff off call same => cases henabled.symm.trans off
    | exhausted on cleared tried => exact .exhausted hon tried
    | fatalQuery | fatalList | fatalDestroy | fatalRollback => exact .fatal rfl

/-! ## The targets of a config -/

/-- **Targets of a config that resolves.** On devices of the model in any reachable states, whatever
their rules and faults, applying the targets gives a report for each target, by which it is reached;
or it ends with an exhausted search or a fatal error. -/
theorem applyTargets_of_resolved {c : Config} {name : String} {m : Model} {ds : List Simulator}
    {ts : List Target} (hresolve : c.resolve name m ds.length = .ok ts)
    (hds : ∀ d ∈ ds, d.Reachable ∧ d.model = m) :
    (∃ reports ds', Manager.applyTargets ts ds = .ok reports ds' ∧
      List.Forall₂ (fun t report => ∃ s, ds'[t.index]? = some s ∧ Reached t report s) ts reports) ∨
    ∃ e ds', Manager.applyTargets ts ds = .error e ds' ∧ (e.isFatal = true ∨
      ∃ device layout attempts distinct last,
        e = .exhausted device layout attempts distinct last) := by
  obtain ⟨entries, -, hresolved⟩ := Config.resolve_eq_ok hresolve
  cases h : Manager.applyTargets ts ds with
  | ok reports ds' =>
    left
    refine ⟨reports, ds', rfl, ?_⟩
    refine ((Manager.applyTargets_eq_ok_iff hresolved.distinct).1 h).1.imp ?_
    rintro t report ⟨s, s', hs, happly, hs'⟩
    exact ⟨s', hs', applyTarget_ok (hds s (List.mem_of_getElem? hs)).1 happly⟩
  | error e ds' =>
    right
    refine ⟨e, ds', rfl, ?_⟩
    obtain ⟨done, t, rest, reports, rfl, -, hfails, -⟩ :=
      Manager.applyTargets_eq_error hresolved.distinct h
    have ht : t ∈ done ++ t :: rest := List.mem_append_right _ List.mem_cons_self
    cases hfails with
    | noDevice hnone =>
      exact absurd (hresolved.index_lt ht) (not_lt.2 (List.getElem?_eq_none_iff.1 hnone))
    | failed hs happly _ =>
      obtain ⟨hreach, hmodel⟩ := hds _ (List.mem_of_getElem? hs)
      have hsound : (view.restrict fun _ => True).Sound _ :=
        View.sound_restrict.2 ⟨hreach.sound, trivial⟩
      have htrue : KeptByCalls fun _ : Simulator => True :=
        keptByCalls_of_changes fun _ _ => trivial
      cases applyTarget_error htrue hsound (hmodel ▸ hresolved.suits ht) happly with
      | exhausted on tried => exact .inr ⟨_, _, _, _, _, rfl⟩
      | fatal fatal => exact .inl fatal

/-- Of two devices, one is to have its mode turned off, and the other refuses a `4g.20gb` while
anything lives and lets a single instance be destroyed. -/
theorem applyTargets_of_resolved_a100 :
    let target := Layout.ofProfiles [⟨1, 5⟩, ⟨4, 20⟩]
    let c : Config := ⟨"v1", .ofList [("mixed", [⟨.indices [1], true, target⟩,
      ⟨.indices [0], false, .empty⟩])]⟩
    let rule : CreateRule := fun live p =>
      if p.slices = 4 && !live.isEmpty then some "the device is not empty" else none
    let ds : List Simulator := [Action.enable.run (.new 0 .a100With40),
      (Action.setFaults ⟨false, some 1, false⟩).run ((Action.addRule rule).run
        ((Action.create ⟨1, 5⟩).run (Action.enable.run (.new 1 .a100With40))))]
    let ts : List Target := [⟨0, false, .empty⟩, ⟨1, true, target⟩]
    c.resolve "mixed" .a100With40 ds.length = .ok ts ∧
      (∀ d ∈ ds, d.Reachable ∧ d.model = .a100With40) ∧
      ((∃ reports ds', Manager.applyTargets ts ds = .ok reports ds' ∧
        List.Forall₂ (fun t report => ∃ s, ds'[t.index]? = some s ∧ Reached t report s) ts
          reports) ∨
      ∃ e ds', Manager.applyTargets ts ds = .error e ds' ∧ (e.isFatal = true ∨
        ∃ device layout attempts distinct last,
          e = .exhausted device layout attempts distinct last)) := by
  intro target c rule ds ts
  have hresolve : c.resolve "mixed" .a100With40 ds.length = .ok ts := rfl
  have hds : ∀ d ∈ ds, d.Reachable ∧ d.model = .a100With40 := by
    refine List.forall_mem_cons.2 ⟨⟨.run _ (.new _ _), rfl⟩, List.forall_mem_singleton.2 ⟨?_, rfl⟩⟩
    exact .run _ (.run _ (.run _ (.run _ (.new _ _))))
  exact ⟨hresolve, hds, applyTargets_of_resolved hresolve hds⟩

end Simulator

end GpuPartition
