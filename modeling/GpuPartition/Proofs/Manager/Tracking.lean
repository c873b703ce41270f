/-
Two devices that answer alike are managed alike. The manager knows a device by its answers only,
so if one device gives the answers of another, call by call, every operation comes to the same on
both (`managed_applyTarget` and the lemmas before it). Some failures may be excused: where the
other's call fails so, the answers need not agree. But a creation has to fail alike. Any other
failure is fatal, so nothing is claimed where the other ends fatally for an excused cause. With
nothing excused the two never part (`Tracks.related_after`).
-/
import GpuPartition.Proofs.Manager.Steps
import GpuPartition.Proofs.Search

namespace GpuPartition

variable {ε σ τ α β : Type} {R : σ → τ → Prop}

/-! ## Results alike -/

/-- Both results are the same and leave related states, unless the second is a failure that is
excused. -/
inductive Matched (R : σ → τ → Prop) (excused : ε → Prop) :
    EStateM.Result ε σ α → EStateM.Result ε τ α → Prop
  | ok {a s t} (h : R s t) : Matched R excused (.ok a s) (.ok a t)
  | error {e s t} (h : R s t) : Matched R excused (.error e s) (.error e t)
  | excused {r e t} (h : excused e) : Matched R excused r (.error e t)

/-- From related states `x` comes to what `y` comes to. -/
def Tracks (R : σ → τ → Prop) (excused : ε → Prop) (x : EStateM ε σ α) (y : EStateM ε τ α) : Prop :=
  ∀ s t, R s t → Matched R excused (x s) (y t)

namespace Tracks

variable {excused : ε → Prop}

theorem pure (a : α) : Tracks R excused (Pure.pure a) (Pure.pure a) := fun _ _ h => .ok h

theorem throw (e : ε) :
    Tracks R excused (MonadExcept.throw e : EStateM ε σ α) (MonadExcept.throw e) :=
  fun _ _ h => .error h

theorem get_bind {f : σ → EStateM ε σ α} {g : τ → EStateM ε τ α}
    (hf : ∀ s t, R s t → Tracks R excused (f s) (g t)) :
    Tracks R excused (MonadState.get >>= f) (MonadState.get >>= g) :=
  fun s t h => hf s t h s t h

theorem bind {x : EStateM ε σ α} {y : EStateM ε τ α} {f : α → EStateM ε σ β}
    {g : α → EStateM ε τ β} (hx : Tracks R excused x y) (hf : ∀ a, Tracks R excused (f a) (g a)) :
    Tracks R excused (x >>= f) (y >>= g) := by
  intro s t h
  have hx := hx s t h
  generalize hxs : x s = r, hyt : y t = r' at hx
  cases hx with
  | ok h =>
    rw [bind_of_ok hxs, bind_of_ok hyt]
    exact hf _ _ _ h
  | error h =>
    rw [bind_of_error hxs, bind_of_error hyt]
    exact .error h
  | excused he =>
    rw [bind_of_error hyt]
    exact .excused he

/-- Where nothing is excused, related states are left however both end. -/
theorem related_after {x : EStateM ε σ α} {y : EStateM ε τ α} (hxy : Tracks R excused x y)
    (hnone : ∀ e, ¬ excused e) {s : σ} {t : τ} (h : R s t) : R (after x s) (after y t) := by
  have hxy := hxy s t h
  rw [after, after]
  generalize x s = r, y t = r' at hxy
  cases hxy with
  | ok h => exact h
  | error h => exact h
  | excused he => exact absurd he (hnone _)

end Tracks

/-- Both pairs have the same value and related states, unless the second value is excused. -/
inductive Coincide (R : σ → τ → Prop) (excused : α → Prop) : α × σ → α × τ → Prop
  | same {a s t} (h : R s t) : Coincide R excused (a, s) (a, t)
  | excused {r a t} (h : excused a) : Coincide R excused r (a, t)

/-! ## Searches -/

/-- The attempt may not be followed by another, for a cause that is excused. -/
def Verdict.FatalBy (excused : ε → Prop) (v : Verdict ε) : Prop := ∃ e, v = .fatal e ∧ excused e

/-- The search was broken off, for a cause that is excused. -/
def SearchError.AbortedBy (excused : ε → Prop) (r : Except (SearchError ε) Found) : Prop :=
  ∃ layout attempts e, r = .error (.aborted layout attempts e) ∧ excused e

variable {excused : ε → Prop}

theorem coincide_searchFrom {x : Attempt σ ε} {y : Attempt τ ε}
    (hxy : ∀ order s t, R s t → Coincide R (Verdict.FatalBy excused) (x order s) (y order t))
    (layout : Layout) (distinct fuel attempts : Nat) (last : Option ε)
    (cursor : Arrangement.Cursor Profile) {s : σ} {t : τ} (h : R s t) :
    Coincide R (SearchError.AbortedBy excused)
      (searchFrom x layout distinct fuel attempts last cursor s)
      (searchFrom y layout distinct fuel attempts last cursor t) := by
  induction fuel generalizing attempts last cursor s t with
  | zero => exact .same h
  | succ fuel ih =>
    obtain ⟨_ | order⟩ := cursor
    · exact .same h
    · rw [searchFrom_some, searchFrom_some]
      have hxy := hxy order s t h
      generalize x order s = r, y order t = r' at hxy
      cases hxy with
      | @same v s t h =>
        cases v with
        | accepted => exact .same h
        | retry e => exact ih _ _ _ h
        | fatal e => exact .same h
      | excused hv =>
        obtain ⟨e, rfl, he⟩ := hv
        exact .excused ⟨_, _, e, rfl, he⟩

theorem coincide_searchOrders {x : Attempt σ ε} {y : Attempt τ ε}
    (hxy : ∀ order s t, R s t → Coincide R (Verdict.FatalBy excused) (x order s) (y order t))
    (layout : Layout) {s : σ} {t : τ} (h : R s t) :
    Coincide R (SearchError.AbortedBy excused) (searchOrders layout x s)
      (searchOrders layout y t) := by
  rw [searchOrders, searchOrders]
  dsimp only
  split
  · exact .same h
  · exact coincide_searchFrom hxy _ _ _ _ _ _ h

/-! ## Devices -/

variable {δ δ' : Type} [Device δ] [Device δ'] {R : δ → δ' → Prop} {excused : DeviceError → Prop}

/-- The first device answers as the second does, unless the second's call fails in a way that is
excused; a creation is not. -/
structure Tracking (R : δ → δ' → Prop) (excused : DeviceError → Prop) : Prop where
  identifier : ∀ {d d'}, R d d' → Device.identifier d = Device.identifier d'
  model : ∀ {d d'}, R d d' → Device.model d = Device.model d'
  isEnabled : Tracks R excused (Device.isEnabled : DeviceM δ Bool) Device.isEnabled
  setMode : ∀ on, Tracks R excused (Device.setMode on : DeviceM δ Unit) (Device.setMode on)
  instances : Tracks R excused (Device.instances : DeviceM δ _) Device.instances
  create : ∀ p, Tracks R (fun _ => False) (Device.create p : DeviceM δ Nat) (Device.create p)
  destroy : ∀ id, Tracks R excused (Device.destroy id : DeviceM δ Unit) (Device.destroy id)

/-- A fatal error for a cause that is excused. -/
def ManagerError.FatalBy (excused : DeviceError → Prop) (e : ManagerError) : Prop :=
  ∃ device operation target attempts cause,
    e = .fatal device operation target attempts cause ∧ excused cause

/-- On the first device the operation comes to what it comes to on the second, unless that is a
fatal error for a cause that is excused. -/
abbrev Managed (R : δ → δ' → Prop) (excused : DeviceError → Prop) (x : ManagerM δ α)
    (y : ManagerM δ' α) : Prop :=
  Tracks R (ManagerError.FatalBy excused) x y

namespace Manager

theorem managed_calling {x : DeviceM δ α} {y : DeviceM δ' α} (hR : Tracking R excused)
    (hxy : Tracks R excused x y) (operation : Operation) :
    Managed R excused (calling operation x) (calling operation y) := by
  intro d d' h
  have hxy := hxy d d' h
  rw [calling, calling]
  generalize x d = r, y d' = r' at hxy
  cases hxy with
  | ok h => exact .ok h
  | error h =>
    dsimp only
    rw [hR.identifier h]
    exact .error h
  | excused he => exact .excused ⟨_, _, _, _, _, rfl, he⟩

variable (hR : Tracking R excused)

include hR

/-! ## Reading and clearing -/

theorem managed_mode : Managed R excused (mode : ManagerM δ Bool) mode :=
  managed_calling hR hR.isEnabled _

theorem managed_layout : Managed R excused (layout : ManagerM δ Layout) layout :=
  (managed_calling hR hR.instances _).bind fun _ => .pure _

theorem managed_destroyAll (ids : List Nat) :
    Managed R excused (destroyAll ids : ManagerM δ Unit) (destroyAll ids) := by
  induction ids with
  | nil => exact .pure ()
  | cons id ids ih => exact (managed_calling hR (hR.destroy id) _).bind fun _ => ih

theorem managed_clear : Managed R excused (clear : ManagerM δ Unit) clear := by
  refine (managed_mode hR).bind fun on => ?_
  cases on with
  | false => exact .pure ()
  | true => exact (managed_calling hR hR.instances _).bind fun l => managed_destroyAll hR _

theorem managed_assertLayout (expected : Layout) :
    Managed R excused (assertLayout expected : ManagerM δ Unit) (assertLayout expected) := by
  refine (managed_layout hR).bind fun actual => ?_
  split
  · exact .pure ()
  · refine .get_bind fun d d' h => ?_
    rw [hR.identifier h]
    exact .throw _

theorem managed_setMode (on : Bool) :
    Managed R excused (setMode on : ManagerM δ Unit) (setMode on) := by
  refine (managed_mode hR).bind fun on' => ?_
  split
  · exact .pure ()
  · cases on with
    | false => exact (managed_clear hR).bind fun _ => managed_calling hR (hR.setMode false) _
    | true => exact managed_calling hR (hR.setMode true) _

/-! ## Replacing the layout -/

theorem tracks_rollback (ids : List Nat) :
    Tracks R excused (rollback ids : DeviceM δ Unit) (rollback ids) := by
  induction ids with
  | nil => exact .pure ()
  | cons id ids ih => exact (hR.destroy id).bind fun _ => ih

theorem coincide_createOnto (order : List Profile) (created : List Nat) {d : δ} {d' : δ'}
    (h : R d d') : Coincide R (Verdict.FatalBy excused) (createOnto created order d)
      (createOnto created order d') := by
  induction order generalizing created d d' with
  | nil => exact .same h
  | cons p order ih =>
    rw [createOnto_cons, createOnto_cons]
    have hcreate := hR.create p d d' h
    generalize Device.create p d = r, Device.create p d' = r' at hcreate
    cases hcreate with
    | ok h => exact ih _ h
    | @error e d d' h =>
      have hroll := tracks_rollback hR created d d' h
      dsimp only
      generalize rollback created d = r, rollback created d' = r' at hroll
      cases hroll with
      | ok h => exact .same h
      | error h => exact .same h
      | excused he => exact .excused ⟨_, rfl, he⟩
    | excused h => exact h.elim

omit [Device δ] [Device δ'] hR in
theorem managed_preparing {x : ManagerM δ α} {y : ManagerM δ' α} (hxy : Managed R excused x y)
    (target : Layout) : Managed R excused (preparing target x) (preparing target y) := by
  intro d d' h
  have hxy := hxy d d' h
  rw [preparing_eq, preparing_eq]
  generalize x d = r, y d' = r' at hxy
  cases hxy with
  | ok h => exact .ok h
  | error h => exact .error h
  | excused he =>
    obtain ⟨device, operation, target', attempts, cause, rfl, hcause⟩ := he
    cases target' <;> exact .excused ⟨_, _, _, _, _, rfl, hcause⟩

theorem managed_createLayout (target : Layout) :
    Managed R excused (createLayout target : ManagerM δ Report) (createLayout target) := by
  intro d d' h
  have hsearch := coincide_searchOrders (fun order _ _ => coincide_createOnto hR order []) target h
  rw [createLayout, createLayout, StateT.run, StateT.run, hR.identifier h]
  change Coincide R _ (searchOrders target createInOrder d)
    (searchOrders target createInOrder d') at hsearch
  generalize searchOrders target createInOrder d = r,
    searchOrders target createInOrder d' = r' at hsearch
  cases hsearch with
  | @same result d d' h =>
    rcases result with cause | found
    · cases cause <;> exact .error h
    · exact .ok h
  | excused hr =>
    obtain ⟨layout, attempts, e, rfl, he⟩ := hr
    exact .excused ⟨_, _, _, _, _, rfl, he⟩

theorem managed_setLayout (target : Layout) :
    Managed R excused (setLayout target : ManagerM δ Report) (setLayout target) := by
  refine .get_bind fun d d' h => ?_
  rw [hR.identifier h, hR.model h]
  split
  · exact .throw _
  · refine (managed_preparing (managed_mode hR) target).bind fun on => ?_
    cases on with
    | false => exact .throw _
    | true =>
      exact (managed_preparing (managed_clear hR) target).bind fun _ =>
        managed_createLayout hR target

theorem managed_applyTarget (target : Target) :
    Managed R excused (applyTarget target : ManagerM δ Report) (applyTarget target) := by
  refine (managed_setMode hR _).bind fun _ => ?_
  split
  · exact managed_setLayout hR _
  · refine .get_bind fun d d' h => ?_
    rw [hR.identifier h]
    exact .pure _

end Manager

end GpuPartition
