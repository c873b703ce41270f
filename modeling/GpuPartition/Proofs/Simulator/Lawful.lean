/-
A simulated GPU keeps the promises of a device, whatever its rules refuse and its fault plan
breaks: what each of its calls does when it goes well or fails, and from that the laws
(`Simulator.view_lawful`). What a call may change at all is said once (`Simulator.Changes`).

They are promised while every number in use is below the next one. That, and that no two
instances share a number, holds in every state that can come about (`Reachable.sound`).
-/
import GpuPartition.Simulator
import GpuPartition.Proofs.Device.Lawful
import GpuPartition.Proofs.Manager.Keeps

namespace GpuPartition.Simulator

variable {s s' : Simulator} {p : Profile} {id : Nat} {e : DeviceError}

/-! ## The calls -/

theorem create_eq_ok : create p s = .ok id s' ↔ ∃ placement, s.place p = .ok placement ∧
    id = s.nextId ∧ s' = { s with
      calls.create := s.calls.create + 1
      live := s.live ++ [⟨s.nextId, p, placement⟩]
      nextId := s.nextId + 1 } := by
  have hplace : place { s with calls.create := s.calls.create + 1 } p = s.place p := rfl
  simp only [create, hplace]
  cases s.place p with
  | error fault => simp
  | ok placement => simp [eq_comm]

theorem create_eq_error : create p s = .error e s' ↔ ∃ fault, s.place p = .error fault ∧
    e = s.fails fault ∧ s' = { s with calls.create := s.calls.create + 1 } := by
  have hplace : place { s with calls.create := s.calls.create + 1 } p = s.place p := rfl
  simp only [create, hplace]
  cases s.place p with
  | error fault =>
    simp only [EStateM.Result.error.injEq, Except.error.injEq, exists_eq_left']
    exact ⟨fun h => ⟨h.1.symm, h.2.symm⟩, fun h => ⟨h.1.symm, h.2.symm⟩⟩
  | ok placement => simp

theorem destroy_eq_ok {u : Unit} : destroy id s = .ok u s' ↔
    s.enabled = true ∧ s.destroyBlocked = false ∧ (∃ i ∈ s.live, i.id = id) ∧
      s' = { s with
        calls.destroy := s.calls.destroy + 1
        live := s.live.eraseP (·.id = id)
        destroyed := s.destroyed + 1 } := by
  have hlive : (∃ i ∈ s.live, i.id = id) ↔ s.live.any (·.id = id) = true := by simp
  rw [hlive]
  change (if !s.enabled then _ else if s.destroyBlocked then _ else
    if s.live.any (·.id = id) then _ else _) = _ ↔ _
  cases s.enabled
  · simp
  cases s.destroyBlocked
  · cases s.live.any (·.id = id)
    · simp
    · simp [eq_comm]
  · simp

/-- However a destruction fails, it has only been counted. -/
theorem destroy_of_error (h : destroy id s = .error e s') :
    s' = { s with calls.destroy := s.calls.destroy + 1 } := by
  change (if !s.enabled then _ else if s.destroyBlocked then _ else
    if s.live.any (·.id = id) then _ else _) = _ at h
  split at h
  · exact (EStateM.Result.error.inj h).2.symm
  · split at h
    · exact (EStateM.Result.error.inj h).2.symm
    · split at h
      · cases h
      · exact (EStateM.Result.error.inj h).2.symm

/-- However a creation ends, it has been counted, and it has added an instance or nothing. -/
theorem after_create (p : Profile) (s : Simulator) :
    (∃ placement, s.place p = .ok placement ∧ after (create p) s = { s with
      calls.create := s.calls.create + 1
      live := s.live ++ [⟨s.nextId, p, placement⟩]
      nextId := s.nextId + 1 }) ∨
    after (create p) s = { s with calls.create := s.calls.create + 1 } := by
  cases h : create p s with
  | ok id s' =>
    obtain ⟨placement, hplace, -, rfl⟩ := create_eq_ok.1 h
    exact .inl ⟨placement, hplace, after_of_ok h⟩
  | error e s' =>
    obtain ⟨fault, -, -, rfl⟩ := create_eq_error.1 h
    exact .inr (after_of_error h)

/-- However a destruction ends, it has been counted, and it has taken an instance away or nothing. -/
theorem after_destroy (id : Nat) (s : Simulator) :
    after (destroy id) s = { s with
      calls.destroy := s.calls.destroy + 1
      live := s.live.eraseP (·.id = id)
      destroyed := s.destroyed + 1 } ∨
    after (destroy id) s = { s with calls.destroy := s.calls.destroy + 1 } := by
  cases h : destroy id s with
  | ok u s' =>
    obtain ⟨-, -, -, rfl⟩ := destroy_eq_ok.1 h
    exact .inl (after_of_ok h)
  | error e s' =>
    obtain rfl := destroy_of_error h
    exact .inr (after_of_error h)

/-- A listing shows what lives, unless the fault plan breaks it; either way it is counted. -/
theorem instances_eq (s : Simulator) :
    instances s = if s.faults.list then
      .error (s.fails (injected .list)) { s with calls.list := s.calls.list + 1 }
    else .ok s.live { s with calls.list := s.calls.list + 1 } := rfl

theorem after_instances (s : Simulator) :
    after instances s = { s with calls.list := s.calls.list + 1 } := by
  rw [after, instances_eq]
  cases s.faults.list <;> rfl

theorem setMode_eq (on : Bool) (s : Simulator) : setMode on s =
    if s.faults.modeChange then
      .error (s.fails (injected .setMode)) { s with calls.setMode := s.calls.setMode + 1 }
    else if !on && !s.live.isEmpty then
      .error (s.fails (.busy s.live.length)) { s with calls.setMode := s.calls.setMode + 1 }
    else .ok () { s with calls.setMode := s.calls.setMode + 1, enabled := on } := rfl

theorem setMode_eq_ok {on : Bool} {u : Unit} : setMode on s = .ok u s' ↔
    s.faults.modeChange = false ∧ (on = false → s.live = []) ∧
      s' = { s with calls.setMode := s.calls.setMode + 1, enabled := on } := by
  rw [setMode_eq]
  by_cases hfault : s.faults.modeChange = true
  · simp [hfault]
  by_cases hbusy : (!on && !s.live.isEmpty) = true
  · have hlive : ¬ (on = false → s.live = []) := by simpa using hbusy
    simp [hfault, hbusy, hlive]
  · have hlive : on = false → s.live = [] := by simpa using hbusy
    rw [if_neg hfault, if_neg hbusy]
    simp [hfault, and_iff_right hlive, eq_comm]

/-- However a change of mode fails, it has only been counted. -/
theorem setMode_of_error {on : Bool} (h : setMode on s = .error e s') :
    s' = { s with calls.setMode := s.calls.setMode + 1 } := by
  rw [setMode_eq] at h
  split at h
  · exact (EStateM.Result.error.inj h).2.symm
  · split at h
    · exact (EStateM.Result.error.inj h).2.symm
    · cases h

/-- A change of mode is counted, and nothing else changes but the mode, which does not go off while
instances live. -/
theorem after_setMode (on : Bool) (s : Simulator) : ∃ enabled, after (setMode on) s =
    { s with calls.setMode := s.calls.setMode + 1, enabled := enabled } ∧
      (enabled = false → s.enabled = false ∨ s.live = []) := by
  rw [after, setMode_eq]
  by_cases hfault : s.faults.modeChange = true
  · exact ⟨s.enabled, by rw [if_pos hfault], .inl⟩
  by_cases hbusy : (!on && !s.live.isEmpty) = true
  · exact ⟨s.enabled, by rw [if_neg hfault, if_pos hbusy], .inl⟩
  · refine ⟨on, by rw [if_neg hfault, if_neg hbusy], fun hoff => .inr ?_⟩
    simpa [hoff] using hbusy

/-! ## What a call changes -/

/-- What a call may do to the device, besides counting itself: change the mode, which does not go off
while instances live, add an instance where there is a place for it, or take one away. -/
inductive Changes (s : Simulator) : Simulator → Prop
  | mode (enabled : Bool) (calls : CallCounts)
    (off : enabled = false → s.enabled = false ∨ s.live = []) :
    Changes s { s with enabled, calls }
  | created {p : Profile} {placement : Placement} (calls : CallCounts)
    (place : s.place p = .ok placement) : Changes s { s with
      calls, live := s.live ++ [⟨s.nextId, p, placement⟩], nextId := s.nextId + 1 }
  | destroyed (id : Nat) (calls : CallCounts) : Changes s { s with
      calls, live := s.live.eraseP (·.id = id), destroyed := s.destroyed + 1 }

theorem changes_counted (s : Simulator) (calls : CallCounts) : Changes s { s with calls } :=
  .mode s.enabled calls .inl

theorem changes_setMode (on : Bool) (s : Simulator) : Changes s (after (setMode on) s) := by
  obtain ⟨enabled, h, hoff⟩ := after_setMode on s
  exact h ▸ .mode enabled _ hoff

theorem changes_create (p : Profile) (s : Simulator) : Changes s (after (create p) s) := by
  rcases after_create p s with ⟨placement, hplace, h⟩ | h
  · exact h ▸ .created _ hplace
  · exact h ▸ changes_counted s _

theorem changes_destroy (id : Nat) (s : Simulator) : Changes s (after (destroy id) s) := by
  rcases after_destroy id s with h | h
  · exact h ▸ .destroyed id _
  · exact h ▸ changes_counted s _

/-- What no change breaks, every call keeps. -/
theorem keptByCalls_of_changes {P : Simulator → Prop}
    (hP : ∀ {s s'}, Changes s s' → P s → P s') : KeptByCalls P where
  isEnabled _ hs := hs
  setMode on s hs := hP (changes_setMode on s) hs
  instances s hs := hP (after_instances s ▸ changes_counted s _) hs
  create p s hs := hP (changes_create p s) hs
  destroy id s hs := hP (changes_destroy id s) hs

/-! ## The laws -/

/-- What is to be seen of a simulated GPU. The next number has never been used. -/
def view : View Simulator where
  valid s := ∀ i ∈ s.live, i.id < s.nextId
  live := live
  enabled := enabled

theorem not_mem_ids (h : view.valid s) : s.nextId ∉ view.ids s := by
  intro hmem
  obtain ⟨i, hi, heq⟩ := List.mem_map.1 hmem
  exact absurd heq (h i hi).ne

/-- The instance of a number is taken out of its place in the list. -/
theorem eraseP_splits {live : List Instance} (h : ∃ i ∈ live, i.id = id) : ∃ before i after,
    live = before ++ i :: after ∧ i.id = id ∧ live.eraseP (·.id = id) = before ++ after := by
  obtain ⟨i, hi, hid⟩ := h
  obtain ⟨j, before, after, -, hj, hlive, herase⟩ :=
    List.exists_of_eraseP (p := (·.id = id)) hi (by simpa using hid)
  exact ⟨before, j, after, hlive, by simpa using hj, herase⟩

theorem perm_eraseP {live : List Instance} (h : ∃ i ∈ live, i.id = id) :
    ∃ i, i.id = id ∧ live.Perm (i :: live.eraseP (·.id = id)) := by
  obtain ⟨before, i, after, hlive, hid, herase⟩ := eraseP_splits h
  refine ⟨i, hid, ?_⟩
  rw [herase, hlive]
  exact List.perm_middle

theorem view_lawful : view.Lawful where
  isEnabled_ok {s on s'} hs h := by
    obtain ⟨rfl, rfl⟩ := EStateM.Result.ok.inj h
    exact ⟨rfl, hs.valid, .refl _, rfl⟩
  isEnabled_error hs h := by cases h
  instances_ok {s l s'} hs h := by
    change instances s = _ at h
    rw [instances_eq] at h
    split at h
    · cases h
    · obtain ⟨rfl, rfl⟩ := EStateM.Result.ok.inj h
      exact ⟨.refl _, hs.valid, .refl _, rfl⟩
  instances_error {s e s'} hs h := by
    change instances s = _ at h
    rw [instances_eq] at h
    split at h
    · obtain ⟨-, rfl⟩ := EStateM.Result.error.inj h
      exact ⟨hs.valid, .refl _, rfl⟩
    · cases h
  create_ok {p s id s'} hs h := by
    obtain ⟨placement, -, rfl, rfl⟩ := create_eq_ok.1 h
    refine ⟨fun i hi => ?_, not_mem_ids hs.valid, ⟨placement, List.perm_append_singleton _ _⟩, rfl⟩
    rcases List.mem_append.1 hi with hi | hi
    · exact Nat.lt_succ_of_lt (hs.valid i hi)
    · rw [List.mem_singleton.1 hi]
      exact Nat.lt_succ_self _
  create_error {p s e s'} hs h := by
    obtain ⟨fault, -, -, rfl⟩ := create_eq_error.1 h
    exact ⟨hs.valid, .refl _, rfl⟩
  destroy_ok {id s s'} hs h := by
    obtain ⟨-, -, hlive, rfl⟩ := destroy_eq_ok.1 h
    exact ⟨fun i hi => hs.valid i (List.mem_of_mem_eraseP hi), perm_eraseP hlive, rfl⟩
  destroy_error {id s e s'} hs h := by
    obtain rfl := destroy_of_error h
    exact ⟨hs.valid, .refl _, rfl⟩

/-! ## Reachable states -/

/-- What may be done to a simulated GPU: its calls, the manager's operations, and changes to its
setup. -/
inductive Action where
  | isEnabled
  | turn (on : Bool)
  | list
  | create (p : Profile)
  | destroy (id : Nat)
  | readMode
  | readLayout
  | clear
  | assertLayout (expected : Layout)
  | setMode (on : Bool)
  | setLayout (target : Layout)
  | applyTarget (target : Target)
  | enable
  | addRule (rule : CreateRule)
  | setFaults (faults : FaultPlan)
  | resetCalls

/-- The state an action leaves, whether it goes well or fails. -/
def Action.run : Action → Simulator → Simulator
  | isEnabled => after Simulator.isEnabled
  | turn on => after (Simulator.setMode on)
  | list => after Simulator.instances
  | create p => after (Simulator.create p)
  | destroy id => after (Simulator.destroy id)
  | readMode => after Manager.mode
  | readLayout => after Manager.layout
  | clear => after Manager.clear
  | assertLayout expected => after (Manager.assertLayout expected)
  | setMode on => after (Manager.setMode on)
  | setLayout target => after (Manager.setLayout target)
  | applyTarget target => after (Manager.applyTarget target)
  | enable => fun s => { s with enabled := true }
  | addRule rule => fun s => { s with rules := s.rules ++ [rule] }
  | setFaults faults => fun s => { s with faults }
  | resetCalls => Simulator.resetCalls

/-- The states that can come about. -/
inductive Reachable : Simulator → Prop
  | new (index : Nat) (model : Model) : Reachable (new index model)
  | run (action : Action) {s : Simulator} (h : Reachable s) : Reachable (action.run s)

/-- What new devices have and calls and changes of setup keep, every reachable state has. A change of
setup does not turn the mode off. -/
theorem Reachable.invariant {P : Simulator → Prop}
    (hnew : ∀ index model, P (Simulator.new index model))
    (hcalls : KeptByCalls P)
    (hsetup : ∀ {s} enabled rules faults calls, (s.enabled = true → enabled = true) → P s →
      P { s with enabled, rules, faults, calls })
    (h : Reachable s) : P s := by
  induction h with
  | new index model => exact hnew index model
  | @run action s h ih =>
    cases action with
    | isEnabled => exact hcalls.isEnabled s ih
    | turn on => exact hcalls.setMode on s ih
    | list => exact hcalls.instances s ih
    | create p => exact hcalls.create p s ih
    | destroy id => exact hcalls.destroy id s ih
    | readMode => exact Manager.keeps_mode hcalls.toKeptInMode s ih
    | readLayout => exact Manager.keeps_layout hcalls.toKeptInMode s ih
    | clear => exact Manager.keeps_clear hcalls.toKeptInMode s ih
    | assertLayout expected => exact Manager.keeps_assertLayout hcalls.toKeptInMode expected s ih
    | setMode on => exact Manager.keeps_setMode hcalls on s ih
    | setLayout target => exact Manager.keeps_setLayout hcalls.toKeptInMode target s ih
    | applyTarget target => exact Manager.keeps_applyTarget hcalls target s ih
    | enable => exact hsetup true s.rules s.faults s.calls (fun _ => rfl) ih
    | addRule rule => exact hsetup s.enabled _ s.faults s.calls id ih
    | setFaults faults => exact hsetup s.enabled s.rules faults s.calls id ih
    | resetCalls => exact hsetup s.enabled s.rules s.faults _ id ih

theorem keptByCalls_sound : KeptByCalls view.Sound := by
  refine view_lawful.keptByCalls_sound fun on s hs => ?_
  obtain ⟨enabled, h, -⟩ := after_setMode on s
  change view.Sound (after (setMode on) s)
  rw [h]
  exact ⟨hs.valid, hs.distinct⟩

theorem sound_new (index : Nat) (model : Model) : view.Sound (new index model) :=
  ⟨fun _ hi => absurd hi List.not_mem_nil, List.nodup_nil⟩

/-- In every reachable state the laws are in force. -/
theorem Reachable.sound (h : Reachable s) : view.Sound s :=
  h.invariant sound_new keptByCalls_sound fun _ _ _ _ _ hs => ⟨hs.valid, hs.distinct⟩

end GpuPartition.Simulator
