/-
One attempt of the manager at an order, on a simulated GPU that may hold instances already. It adds
an instance for each profile (`Made`), or takes away what it has added when a creation fails, up to
the first destruction that fails (`Tried`). What lived before keeps its place: no call of the attempt
finds it changed (`attempt_exact`).
-/
import GpuPartition.Proofs.Simulator.Creating
import GpuPartition.Proofs.Simulator.Destroying
import GpuPartition.Proofs.Simulator.Numbers

namespace GpuPartition.Simulator

variable {s s' : Simulator} {order : List Profile} {made : List Instance} {p : Profile}

/-! ## What creations add -/

/-- Creating the instances of the order has added `made`, one for each profile. -/
structure Made (s : Simulator) (order : List Profile) (made : List Instance) (s' : Simulator) :
    Prop where
  profiles : made.map Instance.profile = order
  ids : made.map Instance.id = List.range' s.nextId order.length
  device : s' = { s with
    live := s.live ++ made
    nextId := s.nextId + order.length
    calls.create := s.calls.create + order.length }

theorem Made.length_eq (h : Made s order made s') : made.length = order.length := by
  rw [← h.profiles, List.length_map]

theorem made_nil (s : Simulator) : Made s [] [] s where
  profiles := rfl
  ids := rfl
  device := by rw [List.append_nil]; rfl

theorem Made.cons {placement : Placement} (h : Made { s with
      calls.create := s.calls.create + 1
      live := s.live ++ [⟨s.nextId, p, placement⟩]
      nextId := s.nextId + 1 } order made s') :
    Made s (p :: order) (⟨s.nextId, p, placement⟩ :: made) s' where
  profiles := congrArg (p :: ·) h.profiles
  ids := congrArg (s.nextId :: ·) h.ids
  device := by
    rw [h.device]
    simp only [List.append_assoc, List.singleton_append, List.length_cons, Nat.add_assoc,
      Nat.add_comm 1]

theorem createEach_ok {u : Unit} (h : createEach order s = .ok u s') :
    ∃ made, Made s order made s' := by
  induction order generalizing s with
  | nil =>
    obtain ⟨-, rfl⟩ := EStateM.Result.ok.inj h
    exact ⟨[], made_nil s⟩
  | cons p order ih =>
    obtain ⟨id, s₁, hcreate, hrest⟩ := bind_eq_ok.1 h
    obtain ⟨placement, -, -, rfl⟩ := create_eq_ok.1 hcreate
    obtain ⟨made, hmade⟩ := ih hrest
    exact ⟨_, hmade.cons⟩

theorem enabled_of_createEach {u : Unit} (h : createEach order s = .ok u s') (hne : order ≠ []) :
    s.enabled = true := by
  obtain ⟨p, order, rfl⟩ := List.exists_cons_of_ne_nil hne
  obtain ⟨id, s₁, hcreate, -⟩ := bind_eq_ok.1 h
  obtain ⟨placement, hplace, -⟩ := create_eq_ok.1 hcreate
  obtain ⟨o, hgrants⟩ := place_eq_ok.1 hplace
  exact hgrants.on

/-! ## How it ends -/

/-- How an attempt at the order ends on a device that may hold instances already. -/
inductive Tried (s : Simulator) (order : List Profile) : Verdict DeviceError × Simulator → Prop
  | accepted {made : List Instance} {s' : Simulator} (all : createEach order s = .ok () s')
    (made : Made s order made s') : Tried s order (.accepted, s')
  /-- The creation of `p` fails, and all that was created before it is taken away again. -/
  | retry {before : List Profile} {p : Profile} {after : List Profile} {s₁ s₂ : Simulator}
    {e : DeviceError} (split : order = before ++ p :: after)
    (before_ok : createEach before s = .ok () s₁) (fails : create p s₁ = .error e s₂)
    (affords : s.Affords before.length) : Tried s order (.retry e, { s with
      nextId := s.nextId + before.length
      destroyed := s.destroyed + before.length
      calls.create := s.calls.create + before.length + 1
      calls.destroy := s.calls.destroy + before.length })
  /-- The rollback breaks off at the last instance of those that are kept. -/
  | fatal {before : List Profile} {p : Profile} {after : List Profile} {s₁ s₂ s₃ s' : Simulator}
    {e e' : DeviceError} {kept gone : List Instance} {i : Instance} {limit : Nat}
    (split : order = before ++ p :: after) (before_ok : createEach before s = .ok () s₁)
    (made : Made s before (kept ++ i :: gone) s₁) (fails : create p s₁ = .error e s₂)
    (plan : s.faults.destroyAfter = some limit) (number : gone.length = limit - s.destroyed)
    (stuck : destroy i.id s₃ = .error e' s') (left : s' = { s with
      live := s.live ++ (kept ++ [i])
      nextId := s.nextId + before.length
      destroyed := s.destroyed + gone.length
      calls.create := s.calls.create + before.length + 1
      calls.destroy := s.calls.destroy + gone.length + 1 }) :
    Tried s order (.fatal e', s')

theorem keeps_createEach {P : Simulator → Prop} (hP : ∀ p, Keeps P (create p))
    (order : List Profile) : Keeps P (createEach order) := by
  induction order with
  | nil => exact .pure ()
  | cons p order ih => exact (hP p).bind fun _ => ih

theorem attempt_ends (hs : view.Sound s) (order : List Profile) :
    Tried s order (Manager.createInOrder order s) := by
  have hout := createOnto_attempted order [] s
  change Tried s order (Manager.createOnto [] order s)
  generalize Manager.createOnto [] order s = r at hout
  cases hout with
  | accepted all =>
    obtain ⟨made, hmade⟩ := createEach_ok all
    exact .accepted all hmade
  | @undone before p after s₁ s₂ e split before_ok fails =>
    obtain ⟨made, hmade⟩ := createEach_ok before_ok
    obtain ⟨-, -, -, hs₂⟩ := create_eq_error.1 fails
    rw [hmade.device] at hs₂
    have hsound : view.Sound s₂ := (keptByCalls_sound.create p).of_error
      ((keeps_createEach keptByCalls_sound.create before).of_ok hs before_ok) fails
    have hon : made ≠ [] → s₂.enabled = true := fun hne => by
      have hbefore : before ≠ [] := fun hnil =>
        hne (List.map_eq_nil_iff.1 (hmade.profiles.trans hnil))
      rw [hs₂]
      exact (enabled_of_createEach before_ok hbefore :)
    have hlive : s₂.live = s.live ++ made := by rw [hs₂]
    have hback := rollback_last hsound hon hlive
    rw [List.append_nil, ← hmade.ids]
    generalize Manager.rollback (made.map Instance.id).reverse s₂ = r at hback
    cases hback with
    | all affords =>
      rw [hs₂, hmade.length_eq] at affords
      rw [hmade.length_eq, hs₂]
      exact .retry split before_ok fails affords
    | part hmadeSplit plan number stuck stopped =>
      rw [hs₂] at plan number
      refine .fatal split before_ok (hmadeSplit ▸ hmade) fails plan number stuck
        (stopped.trans ?_)
      rw [hs₂]

/-! ## What lives already -/

/-- What lived on the device is found in its place, and the mode as it was. -/
structure Spares (s s' : Simulator) : Prop where
  live : s.live <+: s'.live
  mode : s'.enabled = s.enabled
  next : s.nextId ≤ s'.nextId

theorem keeps_spares_create (p : Profile) : Keeps s.Spares (create p) := by
  intro s₁ h
  rcases after_create p s₁ with ⟨placement, -, hafter⟩ | hafter <;> rw [hafter]
  · exact ⟨h.live.trans (List.prefix_append _ _), h.mode, h.next.trans (Nat.le_succ _)⟩
  · exact ⟨h.live, h.mode, h.next⟩

/-- No destruction touches what lived before, of a number that has been handed out since. -/
theorem keeps_spares_destroy (hs : view.valid s) {id : Nat} (hid : s.nextId ≤ id) :
    Keeps s.Spares (destroy id) := by
  intro s₁ h
  rcases after_destroy id s₁ with hafter | hafter <;> rw [hafter]
  · refine ⟨?_, h.mode, h.next⟩
    obtain ⟨since, hsince⟩ := h.live
    have hother : ∀ i ∈ s.live, ¬ decide (i.id = id) = true := fun i hi => by
      rw [decide_eq_true_iff]
      exact ((hs i hi).trans_le hid).ne
    rw [← hsince, List.eraseP_append_right since hother]
    exact List.prefix_append _ _
  · exact ⟨h.live, h.mode, h.next⟩

theorem spares_throughout (hs : view.valid s) (order : List Profile) :
    (Manager.createInOrder order (Watched.mk s [])).2.Throughout (s.Spares ·.device) := by
  have hstart : (Watched.mk s []).Throughout (s.Spares ·.device) := by
    rintro (_ | _) <;> exact ⟨List.prefix_rfl, rfl, le_rfl⟩
  have hnone : ∀ id ∈ ([] : List Nat), s.nextId ≤ id := fun id hid => absurd hid List.not_mem_nil
  refine Manager.keeps_createOnto_own (fun p => ?_) (fun {p w id w'} hw h => ?_) (fun id hid => ?_)
    order hnone hstart
  · exact Watched.keeps_throughout (Watched.keeps_note (keeps_spares_create p) _)
  · obtain ⟨placement, -, rfl, -⟩ := create_eq_ok.1 (Watched.note_eq_ok h)
    exact hw.now.next
  · exact Watched.keeps_throughout (Watched.keeps_note (keeps_spares_destroy hs hid) _)

/-- **One attempt.** Whatever lives on a device in a reachable state, whatever its rules and its
fault plan: an attempt adds one instance for each profile of the order, or fails with the error of
the first creation that fails and leaves what lived before, or breaks off with the error of a
destruction and leaves the first of its own instances, at least one, besides. Watching the attempt
changes nothing, and whenever a call is made in it, what lived before is in its place, and the mode
is as it was. -/
theorem attempt_exact (hs : s.Reachable) (order : List Profile) :
    Tried s order (Manager.createInOrder order s) ∧
    let watched := Manager.createInOrder order (Watched.mk s [])
    Manager.createInOrder order s = (watched.1, watched.2.device) ∧
      ∀ n, s.live <+: (watched.2.rewind n).device.live ∧
        (watched.2.rewind n).device.enabled = s.enabled := by
  refine ⟨attempt_ends hs.sound order, Watched.createInOrder_eq order ⟨s, []⟩, fun n => ?_⟩
  have hspares := spares_throughout hs.sound.valid order n
  exact ⟨hspares.live, hspares.mode⟩

/-- A device that holds a `2g.10gb`, refuses a `4g.20gb` next to a `1g.5gb`, and lets one instance
be destroyed. -/
def fragile : Simulator :=
  (Action.setFaults ⟨false, some 1, false⟩).run ((Action.create ⟨2, 10⟩).run
    ((Action.addRule (.after ⟨4, 20⟩ ⟨1, 5⟩)).run (Action.enable.run (new 0 .a100With40))))

/-- Two instances are created before one is refused, and the rollback takes only the second away. -/
theorem attempt_exact_fragile :
    fragile.Reachable ∧ view.ids fragile = [0] ∧
      Tried fragile [⟨1, 5⟩, ⟨1, 5⟩, ⟨4, 20⟩]
        (Manager.createInOrder [⟨1, 5⟩, ⟨1, 5⟩, ⟨4, 20⟩] fragile) ∧
      view.ids (Manager.createInOrder [⟨1, 5⟩, ⟨1, 5⟩, ⟨4, 20⟩] fragile).2 = [0, 1] := by
  have hs : fragile.Reachable := .run _ (.run _ (.run _ (.run _ (.new _ _))))
  exact ⟨hs, by decide +kernel, (attempt_exact hs [⟨1, 5⟩, ⟨1, 5⟩, ⟨4, 20⟩]).1, by decide +kernel⟩

end GpuPartition.Simulator
