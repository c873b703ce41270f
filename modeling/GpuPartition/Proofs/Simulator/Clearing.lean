/-
How clearing a simulated GPU ends under every fault plan (`ClearEnds`).

The instances go in the order in which they were created. A plan that limits the destructions in
the life of the device counts those of earlier clearings and rollbacks too (`tallied_watchRun`), so
how many instances are left depends on the whole run before (`clear_after_run`).
-/
import GpuPartition.Proofs.Simulator.Destroying
import GpuPartition.Proofs.Simulator.Numbers
import GpuPartition.Proofs.Simulator.Switching

namespace GpuPartition.Simulator

variable {s s' : Simulator}

/-! ## Step by step -/

theorem clear_of_off (hoff : s.enabled = false) : Manager.clear s = .ok () s := by
  rw [Manager.clear_eq, mode_eq, hoff]

theorem clear_of_unlisted (hon : s.enabled = true) (hfault : s.faults.list = true) :
    Manager.clear s = .error (.fatal s.identifier .list none 0 (s.fails (injected .list)))
      { s with calls.list := s.calls.list + 1 } := by
  have hlist : Manager.instances s = .error
      (.fatal s.identifier .list none 0 (s.fails (injected .list)))
      { s with calls.list := s.calls.list + 1 } :=
    Manager.calling_eq_error.2 ⟨_, (instances_eq s).trans (if_pos hfault), rfl⟩
  have hmode : Manager.mode s = .ok true s := hon ▸ mode_eq s
  rw [Manager.clear_eq, hmode]
  simp only [hlist]

theorem clear_of_listed (hon : s.enabled = true) (hlisted : s.faults.list = false) :
    Manager.clear s = Manager.calling .destroy (Manager.rollback (s.live.map Instance.id))
      { s with calls.list := s.calls.list + 1 } := by
  have hlist : Manager.instances s = .ok s.live { s with calls.list := s.calls.list + 1 } :=
    Manager.calling_eq_ok.2 ((instances_eq s).trans (if_neg (by simp [hlisted])))
  have hmode : Manager.mode s = .ok true s := hon ▸ mode_eq s
  rw [Manager.clear_eq, hmode]
  simp only [hlist]

/-! ## How it ends -/

/-- How clearing the device ends, if so many destructions have gone well in its life before. -/
inductive ClearEnds (s : Simulator) (before : Nat) :
    EStateM.Result ManagerError Simulator Unit → Prop
  /-- With the mode off, nothing is done. -/
  | off (off : s.enabled = false) : ClearEnds s before (.ok () s)
  | unlisted (on : s.enabled = true) (fault : s.faults.list = true) : ClearEnds s before
      (.error (.fatal s.identifier .list none 0 (s.fails (injected .list)))
        { s with calls.list := s.calls.list + 1 })
  /-- The limit, if there is one, is high enough for all that lives. -/
  | all (on : s.enabled = true) (listed : s.faults.list = false)
    (room : ∀ limit, s.faults.destroyAfter = some limit →
      s.live = [] ∨ before + s.live.length ≤ limit) : ClearEnds s before
      (.ok () { s with
        live := []
        destroyed := s.destroyed + s.live.length
        calls.list := s.calls.list + 1
        calls.destroy := s.calls.destroy + s.live.length })
  /-- Only the first instances have gone, as many as the limit has left. -/
  | part {limit : Nat} (on : s.enabled = true) (listed : s.faults.list = false)
    (plan : s.faults.destroyAfter = some limit) (living : s.live ≠ [])
    (short : limit < before + s.live.length) : ClearEnds s before
      (.error (.fatal s.identifier .destroy none 0 (s.fails (injected .destroy))) { s with
        live := s.live.drop (limit - before)
        destroyed := s.destroyed + (limit - before)
        calls.list := s.calls.list + 1
        calls.destroy := s.calls.destroy + (limit - before) + 1 })

/-- Destroying the first instances in order leaves the later ones. -/
theorem without_take (hs : view.Sound s) {n : Nat} (hn : n ≤ s.live.length) :
    s.without ((s.live.map Instance.id).take n) = { s with
      live := s.live.drop n
      destroyed := s.destroyed + n
      calls.destroy := s.calls.destroy + n } := by
  have hsplit : s.live = [] ++ s.live.take n ++ s.live.drop n := (List.take_append_drop n _).symm
  have hlength : ((s.live.map Instance.id).take n).length = n := by
    rw [List.length_take, List.length_map, Nat.min_eq_left hn]
  rw [without_eq hs hsplit fun id => by rw [List.map_take], hlength, List.nil_append]

theorem clear_ends_of_listed (hs : view.Sound s) (hon : s.enabled = true)
    (hlisted : s.faults.list = false) : ClearEnds s s.destroyed (Manager.clear s) := by
  have hs₁ : view.Sound { s with calls.list := s.calls.list + 1 } := ⟨hs.valid, hs.distinct⟩
  have hout : Destroyed _ _ (Manager.rollback (s.live.map Instance.id)
      { s with calls.list := s.calls.list + 1 }) :=
    rollback_outcome hs₁ (fun _ => hon) hs.distinct fun _ hid => hid
  rw [clear_of_listed hon hlisted, Manager.calling]
  generalize Manager.rollback (s.live.map Instance.id)
    { s with calls.list := s.calls.list + 1 } = r at hout
  cases hout with
  | all affords =>
    have hleft := without_take hs₁ (le_refl s.live.length)
    rw [List.take_of_length_le (by rw [List.length_map]), List.drop_length] at hleft
    dsimp only
    rw [hleft]
    refine .all hon hlisted fun limit hplan => ?_
    have hroom := affords limit hplan
    rw [List.length_map] at hroom
    change s.live.length ≤ limit - s.destroyed at hroom
    rw [← List.length_eq_zero_iff]
    omega
  | @part gone rest id limit s' plan split number stuck =>
    -- The instances are destroyed in the order of the listing, so its first part has gone.
    have hgone : gone = (s.live.map Instance.id).take (limit - s.destroyed) := by
      rw [split, List.take_left' number]
    have hlength := congrArg List.length split
    rw [List.length_map, List.length_append, List.length_cons, number] at hlength
    change _ = limit - s.destroyed + _ at hlength
    have hleft := without_take hs₁ (n := limit - s.destroyed) (by dsimp only; omega)
    obtain rfl := destroy_of_error stuck
    rw [hgone, hleft]
    have hliving : s.live ≠ [] := by
      rw [← List.length_pos_iff]
      omega
    exact .part hon hlisted plan hliving (by omega)

theorem clear_ends (hs : view.Sound s) : ClearEnds s s.destroyed (Manager.clear s) := by
  cases hon : s.enabled with
  | false =>
    rw [clear_of_off hon]
    exact .off hon
  | true =>
    cases hlisted : s.faults.list with
    | true =>
      rw [clear_of_unlisted hon hlisted]
      exact .unlisted hon hlisted
    | false => exact clear_ends_of_listed hs hon hlisted

/-- However clearing ends, it has only destroyed. -/
theorem after_clear (hs : view.Sound s) :
    let s' := after Manager.clear s
    s'.enabled = s.enabled ∧ s'.nextId = s.nextId ∧ s'.calls.create = s.calls.create ∧
      s'.calls.setMode = s.calls.setMode := by
  have h := clear_ends hs
  simp only [after]
  generalize Manager.clear s = r at h
  cases h <;> exact ⟨rfl, rfl, rfl, rfl⟩

/-- Where nothing is left to clear, no destruction is called for. -/
theorem destroyCalls_of_cleared (hs : view.Sound s) (hlive : s.enabled = true → s.live = []) :
    (after Manager.clear s).calls.destroy = s.calls.destroy := by
  have h := clear_ends hs
  rw [after]
  generalize Manager.clear s = r at h
  cases h with
  | off off => rfl
  | unlisted on fault => rfl
  | all on listed room => exact congrArg (s.calls.destroy + List.length ·) (hlive on)
  | part on listed plan living short => exact absurd (hlive on) living

theorem cleared_of_clear_ok (hs : view.Sound s) (h : Manager.clear s = .ok () s') :
    s'.enabled = true → s'.live = [] := by
  have hends := clear_ends hs
  rw [h] at hends
  cases hends with
  | off off => exact fun on => absurd (off.symm.trans on) Bool.false_ne_true
  | all on listed room => exact fun _ => rfl

/-! ## Over runs -/

/-- The device has counted the destructions that have gone well in its life. -/
def Tallied (w : Watched Simulator) : Prop := w.device.destroyed = w.destroyed.length

theorem Noted.tallied {w w' : Watched Simulator} (h : Noted w w') (hw : Tallied w) :
    Tallied w' := by
  cases h with
  | idle created destroyed live next count =>
    rw [Tallied, Watched.destroyed_of_none destroyed]
    exact count.trans hw
  | create_ok created destroyed live next count =>
    rw [Tallied, Watched.destroyed_of_none destroyed]
    exact count.trans hw
  | destroy_ok created destroyed mem live next count =>
    rw [Tallied, Watched.destroyed_of_some destroyed, List.length_append]
    exact count.trans (congrArg (· + 1) hw)

theorem tallied_watchRun (index : Nat) (model : Model) (actions : List Action) :
    Tallied (watchRun index model actions) :=
  watchRun_invariant (P := Tallied) rfl
    (fun action => action.keeps_watch (keptByCalls_of_noted Noted.tallied) fun _ _ _ _ h => h)
    actions

/-- **Clearing after a run.** Take any run of a device, in which calls and operations of the manager
may fail as they will. What lives at its end stands in the order of creation, and clearing ends as
the mode, the fault plan and the number of destructions in the run say. The mode, the next number
and the creations are not touched, and clearing a cleared device again destroys nothing. -/
theorem clear_after_run (index : Nat) (model : Model) (actions : List Action) :
    let w := watchRun index model actions
    let s := w.device
    s = actions.foldl (fun s action => action.run s) (new index model) ∧
    s.live.Pairwise (·.id < ·.id) ∧
    ClearEnds s w.destroyed.length (Manager.clear s) ∧
    (let s' := after Manager.clear s;
      s'.enabled = s.enabled ∧ s'.nextId = s.nextId ∧ s'.calls.create = s.calls.create ∧
        s'.calls.setMode = s.calls.setMode) ∧
    ∀ s', Manager.clear s = .ok () s' →
      (after Manager.clear s').calls.destroy = s'.calls.destroy := by
  intro w s
  have haccounted : Accounted w := (throughout_watchRun index model actions).now
  have htallied : s.destroyed = w.destroyed.length := tallied_watchRun index model actions
  have hs : view.Sound s :=
    ⟨fun i hi => haccounted.lt_next hi, List.pairwise_map.2 (haccounted.increasing.imp ne_of_lt)⟩
  refine ⟨device_foldl_watch actions _, haccounted.increasing, htallied ▸ clear_ends hs,
    after_clear hs, fun s' hclear => ?_⟩
  have hs' : view.Sound s' :=
    (Manager.keeps_clear keptByCalls_sound.toKeptInMode).of_ok hs hclear
  exact destroyCalls_of_cleared hs' (cleared_of_clear_ok hs hclear)

/-- Of three instances one is destroyed in the run, and of the other two the plan lets one more go;
without a plan both go. -/
theorem clear_after_run_a100 :
    let w (limit : Option Nat) := watchRun 0 .a100With40 [.enable, .create ⟨1, 5⟩, .create ⟨1, 5⟩,
      .create ⟨1, 5⟩, .destroy 0, .setFaults ⟨false, limit, false⟩]
    (w (some 2)).destroyed = [0] ∧
      ClearEnds (w (some 2)).device 1 (Manager.clear (w (some 2)).device) ∧
      view.ids (after Manager.clear (w (some 2)).device) = [2] ∧
      ∃ s', Manager.clear (w none).device = .ok () s' ∧ view.ids s' = [] ∧
        (after Manager.clear s').calls.destroy = s'.calls.destroy := by
  intro w
  obtain ⟨-, -, hends, -, -⟩ := clear_after_run 0 .a100With40 [.enable, .create ⟨1, 5⟩,
    .create ⟨1, 5⟩, .create ⟨1, 5⟩, .destroy 0, .setFaults ⟨false, some 2, false⟩]
  obtain ⟨-, -, -, -, hagain⟩ := clear_after_run 0 .a100With40 [.enable, .create ⟨1, 5⟩,
    .create ⟨1, 5⟩, .create ⟨1, 5⟩, .destroy 0, .setFaults ⟨false, none, false⟩]
  refine ⟨by decide +kernel, hends, by decide +kernel, _, rfl, by decide +kernel, hagain _ rfl⟩

end GpuPartition.Simulator
