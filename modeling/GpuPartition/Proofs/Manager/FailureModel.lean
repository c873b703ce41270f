/-
The failure model of replacing a layout, on any device that keeps the promises of its calls
while no two live instances share a number: each way it may end (`SetLayoutOutcome`), with
what is left on the device then. A refusal leaves the device alone, a search without
success leaves it empty, and a fatal error tells which call was made last, and failed.

The device may be a simulated one, whatever its rules and faults, and stand in a rig that
makes nothing up.
-/
import GpuPartition.Device.Rig
import GpuPartition.Proofs.Manager.Attempt
import GpuPartition.Proofs.Model
import GpuPartition.Proofs.Search
import GpuPartition.Proofs.Simulator.Lawful

namespace GpuPartition

open Arrangement

variable {δ : Type}

/-! ## Ways to end -/

/-- A query has failed with `e`, and has left `d'`. -/
def View.QueryFailed {α : Type} (v : View δ) (query : DeviceM δ α) (e : DeviceError) (d' : δ) :
    Prop :=
  ∃ d₁, v.Sound d₁ ∧ query d₁ = .error e d'

/-- Nothing lives on the device, and its mode is on. -/
structure View.Cleared (v : View δ) (d : δ) : Prop where
  valid : v.valid d
  live : v.live d = []
  mode : v.enabled d = true

theorem View.Cleared.sound {v : View δ} {d : δ} (h : v.Cleared d) : v.Sound d :=
  ⟨h.valid, by rw [View.ids, h.live]; exact List.nodup_nil⟩

theorem View.Cleared.profiles {v : View δ} {d : δ} (h : v.Cleared d) : v.profiles d = [] := by
  rw [View.profiles, h.live, List.map_nil]

variable [Device δ]

/-- How clearing a device may end whose mode is on. -/
inductive ClearOutcome (v : View δ) (d : δ) : EStateM.Result ManagerError δ Unit → Prop
  | ok {d' : δ} (valid : v.valid d') (live : v.live d' = []) (mode : v.enabled d' = v.enabled d) :
    ClearOutcome v d (.ok () d')
  | queryMode {device cause} {d' : δ} (failed : v.QueryFailed Device.isEnabled cause d')
    (same : v.Same d d') : ClearOutcome v d (.error (.fatal device .queryMode none 0 cause) d')
  | list {device cause} {d' : δ} (failed : v.QueryFailed Device.instances cause d')
    (same : v.Same d d') : ClearOutcome v d (.error (.fatal device .list none 0 cause) d')
  | destroy {device cause} {d' : δ} (failed : v.DestroyFailed cause d')
    (part : (v.live d').Subperm (v.live d)) (mode : v.enabled d' = v.enabled d) :
    ClearOutcome v d (.error (.fatal device .destroy none 0 cause) d')

/-- How replacing the layout of a device in state `d` by `target` may end. -/
inductive SetLayoutOutcome (v : View δ) (d : δ) (target : Layout) :
    EStateM.Result ManagerError δ Report → Prop
  /-- What lives is the target. -/
  | ok {device attempts order} {d' : δ} (on : v.enabled d = true) (sound : v.Sound d')
    (live : Layout.ofProfiles (v.profiles d') = target) (mode : v.enabled d' = true)
    (order_perm : order.Perm target.flatten) (attempts_le : attempts ≤ target.orderings) :
    SetLayoutOutcome v d target (.ok ⟨device, true, target, attempts, order⟩ d')
  /-- No call was made. -/
  | capacity {device cause} (check : (Device.model d).check target = .error cause) :
    SetLayoutOutcome v d target (.error (.capacity device target cause) d)
  /-- No call was made but the one query. -/
  | modeOff {device} {d' : δ} (off : v.enabled d = false) (call : Device.isEnabled d = .ok false d')
    (same : v.Same d d') : SetLayoutOutcome v d target (.error (.modeOff device) d')
  /-- Every order was tried on the cleared device, to no avail. -/
  | exhausted {device cause} {d' : δ} (on : v.enabled d = true) (cleared : v.Cleared d')
    (tried : ∀ order, order.Perm target.flatten → Manager.createInOrder.Retries v.Cleared order) :
    SetLayoutOutcome v d target
      (.error (.exhausted device target target.orderings target.orderings (some cause)) d')
  /-- Nothing has changed yet. -/
  | fatalQuery {device cause} {d' : δ} (failed : v.QueryFailed Device.isEnabled cause d')
    (same : v.Same d d') :
    SetLayoutOutcome v d target (.error (.fatal device .queryMode (some target) 0 cause) d')
  /-- Nothing has changed yet. -/
  | fatalList {device cause} {d' : δ} (on : v.enabled d = true)
    (failed : v.QueryFailed Device.instances cause d') (same : v.Same d d') :
    SetLayoutOutcome v d target (.error (.fatal device .list (some target) 0 cause) d')
  /-- Some of what had lived before lives still. -/
  | fatalDestroy {device cause} {d' : δ} (on : v.enabled d = true)
    (failed : v.DestroyFailed cause d') (part : (v.live d').Subperm (v.live d))
    (mode : v.enabled d' = true) :
    SetLayoutOutcome v d target (.error (.fatal device .destroy (some target) 0 cause) d')
  /-- Of the target some lives, and at least one instance is missing. -/
  | fatalRollback {device cause attempts p} {d' : δ} (on : v.enabled d = true)
    (failed : v.DestroyFailed cause d') (part : (p :: v.profiles d').Subperm target.flatten)
    (mode : v.enabled d' = true) (attempts_pos : 0 < attempts)
    (attempts_le : attempts ≤ target.orderings) :
    SetLayoutOutcome v d target
      (.error (.fatal device .rollback (some target) attempts cause) d')

namespace Manager

variable {v : View δ} {d d' : δ}

/-! ## Clearing -/

theorem clear_outcome (hv : v.Lawful) (hd : v.Sound d) (on : v.enabled d = true) :
    ClearOutcome v d (clear d) := by
  rw [clear_eq]
  split
  next e d₁ hmode =>
    obtain ⟨cause, hcall, rfl⟩ := calling_eq_error.1 hmode
    exact .queryMode ⟨d, hd, hcall⟩ (hv.isEnabled_error hd hcall)
  next d₁ hmode =>
    have := (hv.isEnabled_ok hd (calling_eq_ok.1 hmode)).1
    simp [on] at this
  next d₁ hmode =>
    have hsame₁ := (hv.isEnabled_ok hd (calling_eq_ok.1 hmode)).2
    have hd₁ := hsame₁.sound hd
    split
    next e d₂ hlist =>
      obtain ⟨cause, hcall, rfl⟩ := calling_eq_error.1 hlist
      exact .list ⟨d₁, hd₁, hcall⟩ (hsame₁.trans (hv.instances_error hd₁ hcall))
    next l d₂ hlist =>
      obtain ⟨hperm, hsame₂⟩ := hv.instances_ok hd₁ (calling_eq_ok.1 hlist)
      have hsame := hsame₁.trans hsame₂
      have hids : (v.ids d₂).Perm (l.map (·.id)) :=
        hsame₂.ids.trans (hperm.map Instance.id).symm
      cases hroll : calling .destroy (rollback (l.map (·.id))) d₂ with
      | ok u d₃ =>
        obtain ⟨hvalid, hlive, hmode⟩ :=
          rollback_ok hv (hsame.sound hd) hids (calling_eq_ok.1 hroll)
        exact .ok hvalid hlive (hmode.trans hsame.enabled)
      | error e d₃ =>
        obtain ⟨cause, hcall, rfl⟩ := calling_eq_error.1 hroll
        obtain ⟨hfailed, hpart, hmode⟩ := rollback_error hv (hsame.sound hd) hids hcall
        exact .destroy hfailed (hpart.trans hsame.live.subperm) (hmode.trans hsame.enabled)

/-! ## Searching -/

theorem createInOrder_restores (hv : v.Lawful) : createInOrder.Restores (v.Cleared) := by
  intro order d e d' hd hattempt
  cases hattempt ▸ createInOrder_outcome hv order hd.sound hd.live with
  | retry valid mode live => exact ⟨valid, live, mode.trans hd.mode⟩

theorem createLayout_outcome (hv : v.Lawful) (on : v.enabled d = true) {d₁ : δ}
    (hd₁ : v.Cleared d₁) {target : Layout} (hcount : target.orderings < UInt64.size) :
    SetLayoutOutcome v d target (createLayout target d₁) := by
  have hperm {before after : List (List Profile)} {order : List Profile}
      (hall : all target.flatten = before ++ order :: after) :
      order.Perm target.flatten ∧ before.length + 1 ≤ target.orderings := by
    have hmem : order ∈ all target.flatten := by simp [hall]
    refine ⟨((enumerates_all _).mem_iff _).1 hmem, ?_⟩
    rw [← length_all_flatten, hall, List.length_append, List.length_cons]
    omega
  rw [createLayout]
  rcases hrun : (searchOrders target createInOrder).run d₁ with ⟨result, d'⟩
  cases hrun ▸ searchOrders_outcome hcount (createInOrder_restores hv) hd₁ with
  | empty hempty hs =>
    refine .ok on hs.sound ?_ hs.mode ?_ (Nat.zero_le _)
    · rw [hs.profiles, hempty]
      rfl
    · rw [Layout.flatten_eq_nil_iff.2 hempty]
  | @accepted before order after d₂ _ hall hbefore hs hattempt =>
    obtain ⟨hord, hlen⟩ := hperm hall
    cases hattempt ▸ createInOrder_outcome hv order hs.sound hs.live with
    | accepted sound mode profiles =>
      rw [hs.profiles, List.append_nil] at profiles
      exact .ok on sound (Layout.ofProfiles_eq_iff.2 (profiles.trans hord)) (mode.trans hs.mode)
        hord hlen
  | @aborted before order after d₂ _ e hall hbefore hs hattempt =>
    obtain ⟨hord, hlen⟩ := hperm hall
    cases hattempt ▸ createInOrder_outcome hv order hs.sound hs.live with
    | fatal failed mode part =>
      rw [hs.profiles, List.append_nil] at part
      exact .fatalRollback on failed (part.trans hord.subperm) (mode.trans hs.mode)
        (Nat.succ_pos _) hlen
  | @exhausted before last d₂ _ e hall hbefore hs hattempt hs' =>
    refine .exhausted on hs' fun order hord => ?_
    have hmem := ((enumerates_all _).mem_iff order).2 hord
    rw [hall, List.mem_append, List.mem_singleton] at hmem
    rcases hmem with hmem | rfl
    · exact hbefore order hmem
    · exact ⟨d₂, e, d', hs, hattempt⟩

/-! ## Replacing the layout -/

theorem setLayout_outcome (hv : v.Lawful) (hd : v.Sound d) (target : Layout) :
    SetLayoutOutcome v d target (setLayout target d) := by
  rw [setLayout_eq]
  split
  next cause hcheck => exact .capacity hcheck
  next used hcheck =>
    split
    next e d₁ hmode =>
      obtain ⟨cause, hcall, rfl⟩ := calling_eq_error.1 hmode
      exact .fatalQuery ⟨d, hd, hcall⟩ (hv.isEnabled_error hd hcall)
    next d₁ hmode =>
      have hcall := calling_eq_ok.1 hmode
      obtain ⟨hoff, hsame⟩ := hv.isEnabled_ok hd hcall
      exact .modeOff hoff.symm hcall hsame
    next d₁ hmode =>
      obtain ⟨hon, hsame⟩ := hv.isEnabled_ok hd (calling_eq_ok.1 hmode)
      have on : v.enabled d = true := hon.symm
      have on₁ : v.enabled d₁ = true := hsame.enabled.trans on
      rcases hclear : clear d₁ with ⟨⟨⟩, d₂⟩ | ⟨e, d₂⟩
      · cases hclear ▸ clear_outcome hv (hsame.sound hd) on₁ with
        | ok valid live mode =>
          exact createLayout_outcome hv on ⟨valid, live, mode.trans on₁⟩
            (Model.orderings_lt_of_check hcheck)
      · cases hclear ▸ clear_outcome hv (hsame.sound hd) on₁ with
        | queryMode failed same => exact .fatalQuery failed (hsame.trans same)
        | list failed same => exact .fatalList on failed (hsame.trans same)
        | destroy failed part mode =>
          exact .fatalDestroy on failed (part.trans hsame.live.subperm) (mode.trans on₁)

/-- **The failure model.** On a lawful device whose live instances have distinct numbers, replacing
the layout ends in one of the ways told. Simulated devices are lawful, and their numbers are
distinct in every reachable state; a rig around a device leaves both as they are. -/
theorem setLayout_failure_model :
    (∀ {δ : Type} [Device δ] {v : View δ}, v.Lawful → ∀ {d}, v.Sound d → ∀ target,
      SetLayoutOutcome v d target (setLayout target d)) ∧
    (Simulator.view.Lawful ∧ ∀ {s : Simulator}, s.Reachable → Simulator.view.Sound s) ∧
    (∀ {δ : Type} [Device δ] {v : View δ}, v.Lawful → (Rig.view v).Lawful ∧
      ∀ {d}, v.Sound d → ∀ queryLimit badCreates,
        (Rig.view v).Sound (Rig.around d queryLimit badCreates [])) := by
  refine ⟨?_, ⟨Simulator.view_lawful, fun h => h.sound⟩, ?_⟩
  · intro δ _ v hv d hd target
    exact setLayout_outcome hv hd target
  · intro δ _ v hv
    exact ⟨Rig.view_lawful hv, fun hd _ _ => Rig.sound_view.2 ⟨hd, rfl⟩⟩

/-- A simulated device that holds an instance and will not let go of it, in a rig that blocks the
first creation. -/
theorem setLayout_failure_model_of_rig :
    let s : Simulator := ((Simulator.Action.create ⟨1, 5⟩).run
      (Simulator.Action.enable.run
        ((Simulator.Action.setFaults ⟨false, some 0, false⟩).run (.new 0 .a100With40))))
    let rig := Rig.around s none [1] []
    let target := Layout.ofProfiles [⟨2, 10⟩, ⟨1, 5⟩]
    s.Reachable ∧ Simulator.view.Lawful ∧ (Rig.view Simulator.view).Sound rig ∧
      SetLayoutOutcome (Rig.view Simulator.view) rig target (setLayout target rig) := by
  intro s rig target
  obtain ⟨houtcome, ⟨hlawful, hsound⟩, hrig⟩ := setLayout_failure_model
  have hs : s.Reachable := .run _ (.run _ (.run _ (.new 0 .a100With40)))
  have hrigSound := (hrig hlawful).2 (hsound hs) none [1]
  exact ⟨hs, hlawful, hrigSound, houtcome (hrig hlawful).1 hrigSound target⟩

end Manager

end GpuPartition
