/-
The numbers of instances over a whole run of a simulated GPU, through rollbacks, clearings and
failures of every kind. A run is watched, so that all calls of the device are noted, those that the
manager makes among them; watching changes nothing (`Action.device_watch`).

What is noted of a call, and what it changes, is said once (`Noted`). Creations hand out the numbers
from zero on, each once. What was handed out either lives or has been taken away (`Accounted`).
Every call keeps this, so it holds whenever a call is made, also in the midst of an operation, and
a destruction goes well exactly for the numbers that are handed out and not taken away
(`numbers_accounted`).
-/
import GpuPartition.Proofs.Device.Watched
import GpuPartition.Proofs.Layout.Flattening
import GpuPartition.Proofs.Simulator.Lawful
import GpuPartition.Simulator.Rules

namespace GpuPartition.Simulator

/-! ## Watched runs -/

/-- What an action leaves of a watched device. -/
def Action.watch (action : Action) (w : Watched Simulator) : Watched Simulator :=
  match action with
  | isEnabled => after Device.isEnabled w
  | turn on => after (Device.setMode on) w
  | list => after Device.instances w
  | create p => after (Device.create p) w
  | destroy id => after (Device.destroy id) w
  | readMode => after Manager.mode w
  | readLayout => after Manager.layout w
  | clear => after Manager.clear w
  | assertLayout expected => after (Manager.assertLayout expected) w
  | setMode on => after (Manager.setMode on) w
  | setLayout target => after (Manager.setLayout target) w
  | applyTarget target => after (Manager.applyTarget target) w
  | enable | addRule _ | setFaults _ | resetCalls => { w with device := action.run w.device }

/-- A new device after a run of actions, and the calls made in it. -/
def watchRun (index : Nat) (model : Model) (actions : List Action) : Watched Simulator :=
  actions.foldl (fun w action => action.watch w) ⟨new index model, []⟩

/-- What a new device has and every action keeps holds after every run. -/
theorem watchRun_invariant {P : Watched Simulator → Prop} {index : Nat} {model : Model}
    (hnew : P ⟨new index model, []⟩) (hstep : ∀ (action : Action) {w}, P w → P (action.watch w))
    (actions : List Action) : P (watchRun index model actions) :=
  List.foldlRecOn actions _ hnew fun _ hw action _ => hstep action hw

/-- Operations that are tracked with nothing excused leave the same device. -/
theorem device_after {α : Type} {x : ManagerM (Watched Simulator) α} {y : ManagerM Simulator α}
    (hxy : Managed (fun w s => w.device = s) (fun _ => False) x y) (w : Watched Simulator) :
    (after x w).device = after y w.device :=
  hxy.related_after (fun _ ⟨_, _, _, _, _, _, hnone⟩ => hnone) rfl

theorem Action.device_watch (action : Action) (w : Watched Simulator) :
    (action.watch w).device = action.run w.device := by
  have herasing := Watched.erasing (δ := Simulator)
  cases action with
  | isEnabled => exact herasing.isEnabled.related_after (fun _ => id) rfl
  | turn on => exact (herasing.setMode on).related_after (fun _ => id) rfl
  | list => exact herasing.instances.related_after (fun _ => id) rfl
  | create p => exact (herasing.create p).related_after (fun _ => id) rfl
  | destroy id => exact (herasing.destroy id).related_after (fun _ h => h) rfl
  | readMode => exact device_after (Manager.managed_mode herasing) w
  | readLayout => exact device_after (Manager.managed_layout herasing) w
  | clear => exact device_after (Manager.managed_clear herasing) w
  | assertLayout expected => exact device_after (Manager.managed_assertLayout herasing expected) w
  | setMode on => exact device_after (Manager.managed_setMode herasing on) w
  | setLayout target => exact device_after (Manager.managed_setLayout herasing target) w
  | applyTarget target => exact device_after (Manager.managed_applyTarget herasing target) w
  | enable | addRule _ | setFaults _ | resetCalls => rfl

/-- A run comes to the same whether it is watched or not. -/
theorem device_foldl_watch (actions : List Action) (w : Watched Simulator) :
    (actions.foldl (fun w action => action.watch w) w).device =
      actions.foldl (fun s action => action.run s) w.device := by
  induction actions generalizing w with
  | nil => rfl
  | cons action actions ih =>
    rw [List.foldl_cons, List.foldl_cons, ih, action.device_watch]

/-- What every call keeps and no change of setup breaks, an action keeps. -/
theorem Action.keeps_watch {P : Watched Simulator → Prop} (hcalls : KeptByCalls P)
    (hsetup : ∀ {w : Watched Simulator} enabled rules faults calls, P w →
      P { w with device := { w.device with enabled, rules, faults, calls } })
    (action : Action) {w : Watched Simulator} (hw : P w) : P (action.watch w) := by
  cases action with
  | isEnabled => exact hcalls.isEnabled w hw
  | turn on => exact hcalls.setMode on w hw
  | list => exact hcalls.instances w hw
  | create p => exact hcalls.create p w hw
  | destroy id => exact hcalls.destroy id w hw
  | readMode => exact Manager.keeps_mode hcalls.toKeptInMode w hw
  | readLayout => exact Manager.keeps_layout hcalls.toKeptInMode w hw
  | clear => exact Manager.keeps_clear hcalls.toKeptInMode w hw
  | assertLayout expected => exact Manager.keeps_assertLayout hcalls.toKeptInMode expected w hw
  | setMode on => exact Manager.keeps_setMode hcalls on w hw
  | setLayout target => exact Manager.keeps_setLayout hcalls.toKeptInMode target w hw
  | applyTarget target => exact Manager.keeps_applyTarget hcalls target w hw
  | enable => exact hsetup true _ _ _ hw
  | addRule rule => exact hsetup _ (_ ++ [rule]) _ _ hw
  | setFaults faults => exact hsetup _ _ faults _ hw
  | resetCalls => exact hsetup _ _ _ .zero hw

/-! ## What a call changes -/

/-- What is noted of a call of a watched device, and what has then changed: nothing but counters and
the mode, unless the call has handed out a number or taken one away. -/
inductive Noted (w : Watched Simulator) : Watched Simulator → Prop
  | idle {call : Call} {s' : Simulator} (created : call.created? w.device = none)
    (destroyed : call.destroyed? w.device = none) (live : s'.live = w.device.live)
    (next : s'.nextId = w.device.nextId) (count : s'.destroyed = w.device.destroyed) :
    Noted w ⟨s', (call, w.device) :: w.seen⟩
  | create_ok {call : Call} {s' : Simulator} {p : Profile} {placement : Placement}
    (created : call.created? w.device = some w.device.nextId)
    (destroyed : call.destroyed? w.device = none)
    (live : s'.live = w.device.live ++ [⟨w.device.nextId, p, placement⟩])
    (next : s'.nextId = w.device.nextId + 1) (count : s'.destroyed = w.device.destroyed) :
    Noted w ⟨s', (call, w.device) :: w.seen⟩
  | destroy_ok {call : Call} {s' : Simulator} {id : Nat} (created : call.created? w.device = none)
    (destroyed : call.destroyed? w.device = some id) (mem : ∃ i ∈ w.device.live, i.id = id)
    (live : s'.live = w.device.live.eraseP (·.id = id)) (next : s'.nextId = w.device.nextId)
    (count : s'.destroyed = w.device.destroyed + 1) : Noted w ⟨s', (call, w.device) :: w.seen⟩

/-- What no noted call breaks, every call keeps. -/
theorem keptByCalls_of_noted {P : Watched Simulator → Prop}
    (hP : ∀ {w w'}, Noted w w' → P w → P w') : KeptByCalls P where
  isEnabled w h := by
    change P (after (Watched.note .isEnabled isEnabled) w)
    rw [Watched.after_note]
    exact hP (.idle rfl rfl rfl rfl rfl) h
  setMode on w h := by
    obtain ⟨enabled, hafter, -⟩ := after_setMode on w.device
    change P (after (Watched.note (.setMode on) (setMode on)) w)
    rw [Watched.after_note, hafter]
    exact hP (.idle rfl rfl rfl rfl rfl) h
  instances w h := by
    change P (after (Watched.note .instances instances) w)
    rw [Watched.after_note, after_instances]
    exact hP (.idle rfl rfl rfl rfl rfl) h
  create p w h := by
    change P (after (Watched.note (.create p) (create p)) w)
    rw [Watched.after_note]
    cases hcreate : create p w.device with
    | ok id s' =>
      have hcreated : (Call.create p).created? w.device = some id := Call.created?_of_ok hcreate
      obtain ⟨placement, -, rfl, rfl⟩ := create_eq_ok.1 hcreate
      rw [after_of_ok hcreate]
      exact hP (.create_ok hcreated rfl rfl rfl rfl) h
    | error e s' =>
      have hcreated : (Call.create p).created? w.device = none := Call.created?_of_error hcreate
      obtain ⟨fault, -, -, rfl⟩ := create_eq_error.1 hcreate
      rw [after_of_error hcreate]
      exact hP (.idle hcreated rfl rfl rfl rfl) h
  destroy id w h := by
    change P (after (Watched.note (.destroy id) (destroy id)) w)
    rw [Watched.after_note]
    cases hdestroy : destroy id w.device with
    | ok u s' =>
      have hdestroyed : (Call.destroy id).destroyed? w.device = some id :=
        Call.destroyed?_of_ok hdestroy
      obtain ⟨-, -, hmem, rfl⟩ := destroy_eq_ok.1 hdestroy
      rw [after_of_ok hdestroy]
      exact hP (.destroy_ok rfl hdestroyed hmem rfl rfl rfl) h
    | error e s' =>
      have hdestroyed : (Call.destroy id).destroyed? w.device = none :=
        Call.destroyed?_of_error hdestroy
      obtain rfl := destroy_of_error hdestroy
      rw [after_of_error hdestroy]
      exact hP (.idle rfl hdestroyed rfl rfl rfl) h

/-! ## The account -/

/-- The numbers handed out are those from zero up to the next; what lives stands in their order; and
each of them either lives or has been taken away, once. -/
structure Accounted (w : Watched Simulator) : Prop where
  numbered : w.created = List.range w.device.nextId
  increasing : w.device.live.Pairwise (·.id < ·.id)
  conserved : (view.ids w.device ++ w.destroyed).Perm w.created

variable {w : Watched Simulator} {s s' : Simulator} {id : Nat} {call : Call}

theorem accounted_new (index : Nat) (model : Model) : Accounted ⟨new index model, []⟩ :=
  ⟨rfl, .nil, .nil⟩

namespace Accounted

theorem lt_next (h : Accounted w) {i : Instance} (hi : i ∈ w.device.live) :
    i.id < w.device.nextId := by
  have hmem := h.conserved.subset (List.mem_append_left _ (List.mem_map_of_mem hi))
  rwa [h.numbered, List.mem_range] at hmem

/-- A call that hands out no number and takes none away leaves the account as it is. -/
theorem idle (h : Accounted w) (hcreated : call.created? w.device = none)
    (hdestroyed : call.destroyed? w.device = none) (hlive : s'.live = w.device.live)
    (hnext : s'.nextId = w.device.nextId) : Accounted ⟨s', (call, w.device) :: w.seen⟩ where
  numbered := by
    rw [Watched.created_of_none hcreated, hnext]
    exact h.numbered
  increasing := hlive ▸ h.increasing
  conserved := by
    have hids : view.ids s' = view.ids w.device := congrArg (List.map Instance.id) hlive
    rw [Watched.created_of_none hcreated, Watched.destroyed_of_none hdestroyed, hids]
    exact h.conserved

theorem create_ok (h : Accounted w) {p : Profile} {placement : Placement}
    (hcreated : call.created? w.device = some w.device.nextId)
    (hdestroyed : call.destroyed? w.device = none)
    (hlive : s'.live = w.device.live ++ [⟨w.device.nextId, p, placement⟩])
    (hnext : s'.nextId = w.device.nextId + 1) : Accounted ⟨s', (call, w.device) :: w.seen⟩ where
  numbered := by
    rw [Watched.created_of_some hcreated, hnext, List.range_succ]
    exact congrArg (· ++ [w.device.nextId]) h.numbered
  increasing := by
    rw [hlive, List.pairwise_append]
    refine ⟨h.increasing, List.pairwise_singleton _ _, fun i hi j hj => ?_⟩
    rw [List.mem_singleton.1 hj]
    exact h.lt_next hi
  conserved := by
    have hids : view.ids s' = view.ids w.device ++ [w.device.nextId] :=
      (congrArg (List.map Instance.id) hlive).trans List.map_append
    rw [Watched.created_of_some hcreated, Watched.destroyed_of_none hdestroyed, hids,
      List.append_assoc]
    calc (view.ids w.device ++ ([w.device.nextId] ++ w.destroyed)).Perm
          (view.ids w.device ++ (w.destroyed ++ [w.device.nextId])) :=
        List.perm_append_comm.append_left _
      _ = (view.ids w.device ++ w.destroyed) ++ [w.device.nextId] := (List.append_assoc _ _ _).symm
      List.Perm _ (w.created ++ [w.device.nextId]) := h.conserved.append_right _

theorem destroy_ok (h : Accounted w) (hcreated : call.created? w.device = none)
    (hdestroyed : call.destroyed? w.device = some id) (hmem : ∃ i ∈ w.device.live, i.id = id)
    (hlive : s'.live = w.device.live.eraseP (·.id = id))
    (hnext : s'.nextId = w.device.nextId) : Accounted ⟨s', (call, w.device) :: w.seen⟩ where
  numbered := by
    rw [Watched.created_of_none hcreated, hnext]
    exact h.numbered
  increasing := hlive ▸ h.increasing.sublist List.eraseP_sublist
  conserved := by
    have hids : (view.ids w.device).Perm (id :: view.ids s') := by
      obtain ⟨i, rfl, hperm⟩ := perm_eraseP hmem
      rw [← hlive] at hperm
      exact hperm.map Instance.id
    rw [Watched.created_of_none hcreated, Watched.destroyed_of_some hdestroyed,
      ← List.append_assoc]
    calc ((view.ids s' ++ w.destroyed) ++ [id]).Perm (id :: (view.ids s' ++ w.destroyed)) :=
        List.perm_append_singleton _ _
      List.Perm _ (view.ids w.device ++ w.destroyed) := hids.symm.append_right _
      List.Perm _ w.created := h.conserved

/-- Numbers are not used again, so what lives has not been taken away. -/
theorem mem_ids_iff (h : Accounted w) :
    id ∈ view.ids w.device ↔ id ∈ w.created ∧ id ∉ w.destroyed := by
  have hnodup : (view.ids w.device ++ w.destroyed).Nodup :=
    h.conserved.nodup_iff.2 (h.numbered ▸ List.nodup_range)
  rw [← h.conserved.mem_iff, List.mem_append]
  constructor
  · intro hid
    exact ⟨.inl hid, fun hgone => (List.disjoint_of_nodup_append hnodup) hid hgone⟩
  · rintro ⟨hid | hgone, hnot⟩
    · exact hid
    · exact absurd hgone hnot

theorem length_eq (h : Accounted w) :
    w.device.live.length + w.destroyed.length = w.created.length := by
  have hlength := h.conserved.length_eq
  rwa [List.length_append, View.ids, List.length_map] at hlength

end Accounted

/-! ## Every call keeps the account -/

theorem Noted.accounted {w' : Watched Simulator} (h : Noted w w') (hw : Accounted w) :
    Accounted w' := by
  cases h with
  | idle created destroyed live next count => exact hw.idle created destroyed live next
  | create_ok created destroyed live next count => exact hw.create_ok created destroyed live next
  | destroy_ok created destroyed mem live next count =>
    exact hw.destroy_ok created destroyed mem live next

theorem keptByCalls_accounted : KeptByCalls Accounted := keptByCalls_of_noted Noted.accounted

/-- The numbers are accounted for at the end of a run and whenever a call is made in it. -/
theorem throughout_watchRun (index : Nat) (model : Model) (actions : List Action) :
    (watchRun index model actions).Throughout Accounted := by
  have hstart : (Watched.mk (new index model) []).Throughout Accounted := by
    rintro (_ | _) <;> exact accounted_new index model
  refine watchRun_invariant hstart (fun action {w} hw => ?_) actions
  refine action.keeps_watch (Watched.keptByCalls_throughout keptByCalls_accounted) ?_ hw
  -- A change of setup touches no number, and no call is noted for it.
  exact fun _ _ _ _ hw => hw.replace ⟨hw.now.numbered, hw.now.increasing, hw.now.conserved⟩

/-! ## Destructions -/

/-- A destruction that goes well takes the instance of that number out of its place. -/
theorem destroy_splits (h : destroy id s = .ok () s') : ∃ before i after,
    s.live = before ++ i :: after ∧ i.id = id ∧ s' = { s with
      calls.destroy := s.calls.destroy + 1
      live := before ++ after
      destroyed := s.destroyed + 1 } := by
  obtain ⟨-, -, hmem, rfl⟩ := destroy_eq_ok.1 h
  obtain ⟨before, i, after, hlive, hid, herase⟩ := eraseP_splits hmem
  exact ⟨before, i, after, hlive, hid, by rw [herase]⟩

theorem Accounted.destroy_iff (h : Accounted w) (hon : w.device.enabled = true)
    (hfree : w.device.destroyBlocked = false) :
    (∃ s', destroy id w.device = .ok () s') ↔ id ∈ w.created ∧ id ∉ w.destroyed := by
  rw [← h.mem_ids_iff, View.ids, List.mem_map]
  constructor
  · rintro ⟨s', hdestroy⟩
    exact (destroy_eq_ok.1 hdestroy).2.2.1
  · intro hlive
    exact ⟨_, destroy_eq_ok.2 ⟨hon, hfree, hlive, rfl⟩⟩

/-- **Numbers over a run.** Take any run of a device, in which calls and operations of the manager
may fail as they will. At its end, and whenever a call is made in it, the numbers handed out are
those from zero on, in order; what lives stands in increasing order, and there are as many instances
as were created and not destroyed. With the mode on and no fault in the way, a destruction goes well
exactly if the number was handed out and not taken away, and takes that instance alone; one that
fails has only been counted, and so has a change of mode that fails. -/
theorem numbers_accounted (index : Nat) (model : Model) (actions : List Action) :
    (watchRun index model actions).device =
      actions.foldl (fun s action => action.run s) (new index model) ∧
    ∀ n, let w := (watchRun index model actions).rewind n
      w.created = List.range w.device.nextId ∧
      w.device.live.Pairwise (·.id < ·.id) ∧
      w.device.live.length + w.destroyed.length = w.created.length ∧
      (∀ id, w.device.enabled = true → w.device.destroyBlocked = false →
        ((∃ s', destroy id w.device = .ok () s') ↔ id ∈ w.created ∧ id ∉ w.destroyed)) ∧
      (∀ id s', destroy id w.device = .ok () s' → ∃ before i after,
        w.device.live = before ++ i :: after ∧ i.id = id ∧ s' = { w.device with
          calls.destroy := w.device.calls.destroy + 1
          live := before ++ after
          destroyed := w.device.destroyed + 1 }) ∧
      (∀ id e s', destroy id w.device = .error e s' →
        s' = { w.device with calls.destroy := w.device.calls.destroy + 1 }) ∧
      ∀ on e s', setMode on w.device = .error e s' →
        s' = { w.device with calls.setMode := w.device.calls.setMode + 1 } := by
  refine ⟨device_foldl_watch actions _, fun n => ?_⟩
  have h := throughout_watchRun index model actions n
  exact ⟨h.numbered, h.increasing, h.length_eq, fun _ => h.destroy_iff, fun _ _ => destroy_splits,
    fun _ _ _ => destroy_of_error, fun _ _ _ => setMode_of_error⟩

/-- A run with a clearing, an attempt that is rolled back and another that is accepted, in which
later a destruction and a change of mode fail. -/
def rolledBackRun : List Action :=
  [.enable, .addRule (.after ⟨4, 20⟩ ⟨1, 5⟩), .create ⟨1, 5⟩,
    .setLayout (.ofProfiles [⟨1, 5⟩, ⟨4, 20⟩]), .destroy 2, .setFaults ⟨false, some 0, false⟩,
    .destroy 3, .turn false, .create ⟨2, 10⟩]

/-- Seven calls before its end the rollback is about to destroy number 1, and can. -/
theorem numbers_accounted_a100 :
    (watchRun 0 .a100With40 rolledBackRun).created = [0, 1, 2, 3, 4] ∧
      (watchRun 0 .a100With40 rolledBackRun).destroyed = [0, 1, 2] ∧
      ((watchRun 0 .a100With40 rolledBackRun).rewind 7).created = [0, 1] ∧
      ((watchRun 0 .a100With40 rolledBackRun).rewind 7).destroyed = [0] ∧
      ∃ s', destroy 1 ((watchRun 0 .a100With40 rolledBackRun).rewind 7).device = .ok () s' := by
  -- Sorting is not decided by evaluation, but a flat form is in order already.
  obtain ⟨hend, hcreated, hdestroyed, hon, hfree⟩ :
      ((watchRun 0 .a100With40 rolledBackRun).created = [0, 1, 2, 3, 4] ∧
        (watchRun 0 .a100With40 rolledBackRun).destroyed = [0, 1, 2]) ∧
      ((watchRun 0 .a100With40 rolledBackRun).rewind 7).created = [0, 1] ∧
      ((watchRun 0 .a100With40 rolledBackRun).rewind 7).destroyed = [0] ∧
      ((watchRun 0 .a100With40 rolledBackRun).rewind 7).device.enabled = true ∧
      ((watchRun 0 .a100With40 rolledBackRun).rewind 7).device.destroyBlocked = false := by
    simp only [watchRun, rolledBackRun, List.foldl_cons, List.foldl_nil, Action.watch,
      Manager.setLayout]
    unfold Manager.createLayout
    simp only [searchOrders, Arrangement.Cursor.start, Layout.first_flatten]
    decide +kernel
  refine ⟨hend.1, hend.2, hcreated, hdestroyed, ?_⟩
  obtain ⟨-, -, -, hdestroy, -⟩ := (numbers_accounted 0 .a100With40 rolledBackRun).2 7
  refine (hdestroy 1 hon hfree).2 ?_
  rw [hcreated, hdestroyed]
  decide

end GpuPartition.Simulator
