/-
A device that is watched. Each call made to it is noted, with the state it met, and then answered
as ever. So an operation comes to the same on it as on the device by itself (`Watched.erasing`),
and what is noted in the end are the calls the operation has made. Unless it ends fatally, none of
them has failed but creations (`Watched.tracking`).

The notes tell which numbers were handed out and taken back (`Watched.created`,
`Watched.destroyed`), and how it all stood when a call was made (`Watched.rewind`). What every call
keeps has held each time (`Watched.keptByCalls_throughout`).
-/
import GpuPartition.Proofs.Manager.Tracking

namespace GpuPartition

variable {δ α : Type}

inductive Call where
  | isEnabled
  | setMode (on : Bool)
  | instances
  | create (p : Profile)
  | destroy (id : Nat)
  deriving DecidableEq, Repr

/-- The call goes well in the state. Of a creation that is not asked. -/
def Call.Succeeds [Device δ] (d : δ) : Call → Prop
  | .isEnabled => ∃ on d', Device.isEnabled d = .ok on d'
  | .setMode on => ∃ u d', Device.setMode on d = .ok u d'
  | .instances => ∃ l d', Device.instances d = .ok l d'
  | .create _ => True
  | .destroy id => ∃ u d', Device.destroy id d = .ok u d'

/-- The number that the call hands out in the state, as a creation does that goes well. -/
def Call.created? [Device δ] (d : δ) : Call → Option Nat
  | .create p =>
    match Device.create p d with
    | .ok id _ => some id
    | .error _ _ => none
  | _ => none

/-- The number of the instance that the call takes away in the state. -/
def Call.destroyed? [Device δ] (d : δ) : Call → Option Nat
  | .destroy id =>
    match Device.destroy id d with
    | .ok _ _ => some id
    | .error _ _ => none
  | _ => none

namespace Call

variable [Device δ] {d d' : δ} {p : Profile} {id : Nat} {u : Unit} {e : DeviceError}

theorem created?_of_ok (h : Device.create p d = .ok id d') : (create p).created? d = some id := by
  rw [created?, h]

theorem created?_of_error (h : Device.create p d = .error e d') : (create p).created? d = none := by
  rw [created?, h]

theorem destroyed?_of_ok (h : Device.destroy id d = .ok u d') :
    (destroy id).destroyed? d = some id := by
  rw [destroyed?, h]

theorem destroyed?_of_error (h : Device.destroy id d = .error e d') :
    (destroy id).destroyed? d = none := by
  rw [destroyed?, h]

end Call

/-- A device and the calls made to it, the latest first, each with the state it met. -/
structure Watched (δ : Type) where
  device : δ
  seen : List (Call × δ)

namespace Watched

/-- Takes note of a call and makes it. -/
def note (call : Call) (x : DeviceM δ α) : DeviceM (Watched δ) α := fun w =>
  let seen := (call, w.device) :: w.seen
  match x w.device with
  | .ok a d => .ok a ⟨d, seen⟩
  | .error e d => .error e ⟨d, seen⟩

theorem after_note (call : Call) (x : DeviceM δ α) (w : Watched δ) :
    after (note call x) w = ⟨after x w.device, (call, w.device) :: w.seen⟩ := by
  rw [after, after, note]
  cases x w.device <;> rfl

theorem note_eq_ok {call : Call} {x : DeviceM δ α} {a : α} {w w' : Watched δ}
    (h : note call x w = .ok a w') : x w.device = .ok a w'.device := by
  rw [note] at h
  split at h
  next b d hx =>
    obtain ⟨rfl, rfl⟩ := EStateM.Result.ok.inj h
    exact hx
  next => cases h

/-- A noted call keeps of the device what the call keeps. -/
theorem keeps_note {P : δ → Prop} {x : DeviceM δ α} (hx : Keeps P x) (call : Call) :
    Keeps (P ·.device) (note call x) := by
  intro w hw
  rw [after_note]
  exact hx w.device hw

theorem erases_note (call : Call) (x : DeviceM δ α) (excused : DeviceError → Prop) :
    Tracks (fun w d => w.device = d) excused (note call x) x := by
  rintro w _ rfl
  rw [note]
  cases x w.device with
  | ok a d => exact .ok rfl
  | error e d => exact .error rfl

/-! ## Looking back -/

/-- How it stood before the last so many calls: in the state that the first of them met, with the
notes taken until then. -/
def rewind : Nat → Watched δ → Watched δ
  | 0, w => w
  | _ + 1, ⟨d, []⟩ => ⟨d, []⟩
  | n + 1, ⟨_, (_, d) :: seen⟩ => rewind n ⟨d, seen⟩

/-- The property holds now and has held when each call was made. -/
def Throughout (P : Watched δ → Prop) (w : Watched δ) : Prop := ∀ n, P (w.rewind n)

theorem Throughout.now {P : Watched δ → Prop} {w : Watched δ} (h : Throughout P w) : P w := h 0

/-- What is done to the device other than by a call leaves all as it was before. -/
theorem Throughout.replace {P : Watched δ → Prop} {w : Watched δ} (h : Throughout P w) {d : δ}
    (hd : P ⟨d, w.seen⟩) : Throughout P ⟨d, w.seen⟩ := by
  obtain ⟨d₀, seen⟩ := w
  rintro (_ | n)
  · exact hd
  · cases seen with
    | nil => exact hd
    | cons c seen => exact h (n + 1)

theorem keeps_throughout {P : Watched δ → Prop} {call : Call} {x : DeviceM δ α}
    (hx : Keeps P (note call x)) : Keeps (Throughout P) (note call x) := by
  intro w hw
  have hnow := hx w hw.now
  rw [after_note] at hnow ⊢
  rintro (_ | n)
  · exact hnow
  · exact hw n

/-! ## Managing it -/

variable [Device δ]

instance : Device (Watched δ) where
  identifier w := Device.identifier w.device
  model w := Device.model w.device
  isEnabled := note .isEnabled Device.isEnabled
  setMode on := note (.setMode on) (Device.setMode on)
  instances := note .instances Device.instances
  create p := note (.create p) (Device.create p)
  destroy id := note (.destroy id) (Device.destroy id)

/-- It is this device that is watched, and no call seen has failed but creations. -/
structure Shows (w : Watched δ) (d : δ) : Prop where
  device : w.device = d
  succeeds : ∀ c ∈ w.seen, c.1.Succeeds c.2

/-- A call that goes well, or is excused where it fails, is tracked by its note. -/
theorem tracks_note {call : Call} {x : DeviceM δ α} {excused : DeviceError → Prop}
    (h : ∀ d, call.Succeeds d ∨ ∃ e d', x d = .error e d' ∧ excused e) :
    Tracks Shows excused (note call x) x := by
  rintro ⟨d, seen⟩ _ ⟨rfl, hseen⟩
  rcases h d with hok | ⟨e, d', hx, he⟩
  · have hseen' : ∀ c ∈ (call, d) :: seen, c.1.Succeeds c.2 := List.forall_mem_cons.2 ⟨hok, hseen⟩
    rw [note]
    dsimp only
    cases x d with
    | ok a d' => exact .ok ⟨rfl, hseen'⟩
    | error e d' => exact .error ⟨rfl, hseen'⟩
  · dsimp only
    rw [hx]
    exact .excused he

omit [Device δ] in
theorem succeeds_or_fails (x : DeviceM δ α) (d : δ) :
    (∃ a d', x d = .ok a d') ∨ ∃ e d', x d = .error e d' ∧ True := by
  cases x d with
  | ok a d' => exact .inl ⟨a, d', rfl⟩
  | error e d' => exact .inr ⟨e, d', rfl, trivial⟩

/-- A watched device is managed as the device by itself. -/
theorem tracking : Tracking (Shows (δ := δ)) (fun _ => True) where
  identifier h := by
    obtain ⟨rfl, -⟩ := h
    rfl
  model h := by
    obtain ⟨rfl, -⟩ := h
    rfl
  isEnabled := tracks_note (succeeds_or_fails _)
  setMode _ := tracks_note (succeeds_or_fails _)
  instances := tracks_note (succeeds_or_fails _)
  create _ := tracks_note fun _ => .inl trivial
  destroy _ := tracks_note (succeeds_or_fails _)

/-- But for the notes, all comes to the same on a watched device, fatal errors too. -/
theorem erasing : Tracking (fun (w : Watched δ) d => w.device = d) (fun _ => False) where
  identifier h := congrArg Device.identifier h
  model h := congrArg Device.model h
  isEnabled := erases_note _ _ _
  setMode _ := erases_note _ _ _
  instances := erases_note _ _ _
  create _ := erases_note _ _ _
  destroy _ := erases_note _ _ _

/-- An attempt comes to the same whether it is watched or not. -/
theorem createInOrder_eq (order : List Profile) (w : Watched δ) :
    Manager.createInOrder order w.device =
      ((Manager.createInOrder order w).1, (Manager.createInOrder order w).2.device) := by
  have h := Manager.coincide_createOnto erasing order [] (rfl : w.device = w.device)
  change Coincide _ _ (Manager.createInOrder order w) (Manager.createInOrder order w.device) at h
  generalize Manager.createInOrder order w = r, Manager.createInOrder order w.device = r' at h
  cases h with
  | same h => rw [h]
  | excused he =>
    obtain ⟨e, -, hnone⟩ := he
    exact hnone.elim

theorem keptByCalls_throughout {P : Watched δ → Prop} (hP : KeptByCalls P) :
    KeptByCalls (Throughout P) where
  isEnabled := keeps_throughout hP.isEnabled
  setMode on := keeps_throughout (hP.setMode on)
  instances := keeps_throughout hP.instances
  create p := keeps_throughout (hP.create p)
  destroy id := keeps_throughout (hP.destroy id)

/-! ## Numbers -/

/-- The numbers handed out, in the order in which they were. -/
def created (w : Watched δ) : List Nat := (w.seen.filterMap fun c => c.1.created? c.2).reverse

/-- The numbers of the instances taken away, in the order in which they were. -/
def destroyed (w : Watched δ) : List Nat := (w.seen.filterMap fun c => c.1.destroyed? c.2).reverse

variable {call : Call} {d d' : δ} {seen : List (Call × δ)} {id : Nat}

theorem created_of_none (h : call.created? d = none) :
    (Watched.mk d' ((call, d) :: seen)).created = (Watched.mk d seen).created := by
  rw [created, created, List.filterMap_cons, h]

theorem created_of_some (h : call.created? d = some id) :
    (Watched.mk d' ((call, d) :: seen)).created = (Watched.mk d seen).created ++ [id] := by
  rw [created, created, List.filterMap_cons, h]
  exact List.reverse_cons

theorem destroyed_of_none (h : call.destroyed? d = none) :
    (Watched.mk d' ((call, d) :: seen)).destroyed = (Watched.mk d seen).destroyed := by
  rw [destroyed, destroyed, List.filterMap_cons, h]

theorem destroyed_of_some (h : call.destroyed? d = some id) :
    (Watched.mk d' ((call, d) :: seen)).destroyed = (Watched.mk d seen).destroyed ++ [id] := by
  rw [destroyed, destroyed, List.filterMap_cons, h]
  exact List.reverse_cons

end Watched

end GpuPartition
