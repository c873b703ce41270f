/-
Calls that end with a value or an error and leave a state either way: how two calls in a
row end, and what a call keeps however it ends (`Keeps`). What every call of a device keeps
is said by `KeptByCalls`, and what all but a change of its mode keep by `KeptInMode`.
-/
import GpuPartition.Device

namespace GpuPartition

variable {ε σ α β : Type}

/-! ## Two calls in a row -/

theorem bind_eq_ok {x : EStateM ε σ α} {f : α → EStateM ε σ β} {b : β} {s s'' : σ} :
    (x >>= f) s = .ok b s'' ↔ ∃ a s', x s = .ok a s' ∧ f a s' = .ok b s'' := by
  change EStateM.bind x f s = _ ↔ _
  unfold EStateM.bind
  cases x s <;> simp [and_assoc]

theorem bind_eq_error {x : EStateM ε σ α} {f : α → EStateM ε σ β} {e : ε} {s s'' : σ} :
    (x >>= f) s = .error e s'' ↔
      x s = .error e s'' ∨ ∃ a s', x s = .ok a s' ∧ f a s' = .error e s'' := by
  change EStateM.bind x f s = _ ↔ _
  unfold EStateM.bind
  cases x s <;> simp [and_assoc]

/-- A call goes on after one that went well. -/
theorem bind_of_ok {x : EStateM ε σ α} {a : α} {s s' : σ} (h : x s = .ok a s')
    (f : α → EStateM ε σ β) : (x >>= f) s = f a s' := by
  change EStateM.bind x f s = _
  rw [EStateM.bind, h]

/-- A failure ends the calls after it. -/
theorem bind_of_error {x : EStateM ε σ α} {e : ε} {s s' : σ} (h : x s = .error e s')
    (f : α → EStateM ε σ β) : (x >>= f) s = .error e s' := by
  change EStateM.bind x f s = _
  rw [EStateM.bind, h]

/-! ## What calls keep -/

/-- The state a call leaves, however it ends. -/
def after (x : EStateM ε σ α) (s : σ) : σ :=
  match x s with
  | .ok _ s' => s'
  | .error _ s' => s'

/-- The call keeps the property, whether it goes well or fails. -/
def Keeps (P : σ → Prop) (x : EStateM ε σ α) : Prop := ∀ s, P s → P (after x s)

theorem after_of_ok {x : EStateM ε σ α} {a : α} {s s' : σ} (h : x s = .ok a s') :
    after x s = s' := by
  rw [after, h]

theorem after_of_error {x : EStateM ε σ α} {e : ε} {s s' : σ} (h : x s = .error e s') :
    after x s = s' := by
  rw [after, h]

namespace Keeps

variable {P : σ → Prop}

theorem of_ok {x : EStateM ε σ α} {a : α} {s s' : σ} (hx : Keeps P x) (hs : P s)
    (h : x s = .ok a s') : P s' :=
  after_of_ok h ▸ hx s hs

theorem of_error {x : EStateM ε σ α} {e : ε} {s s' : σ} (hx : Keeps P x) (hs : P s)
    (h : x s = .error e s') : P s' :=
  after_of_error h ▸ hx s hs

theorem pure (a : α) : Keeps P (Pure.pure a : EStateM ε σ α) := fun _ hs => hs

theorem throw (e : ε) : Keeps P (MonadExcept.throw e : EStateM ε σ α) := fun _ hs => hs

theorem get : Keeps P (MonadState.get : EStateM ε σ σ) := fun _ hs => hs

theorem bind {x : EStateM ε σ α} {f : α → EStateM ε σ β} (hx : Keeps P x)
    (hf : ∀ a, Keeps P (f a)) : Keeps P (x >>= f) := by
  intro s hs
  cases h : x s with
  | ok a s' =>
    rw [after, bind_of_ok h]
    exact hf a s' (hx.of_ok hs h)
  | error e s' =>
    rw [after, bind_of_error h]
    exact hx.of_error hs h

end Keeps

/-- Every call of the device but a change of its mode keeps the property, whether it goes well or
fails. -/
structure KeptInMode {δ : Type} [Device δ] (P : δ → Prop) : Prop where
  isEnabled : Keeps P (Device.isEnabled : DeviceM δ Bool)
  instances : Keeps P (Device.instances : DeviceM δ (List Instance))
  create : ∀ p, Keeps P (Device.create p : DeviceM δ Nat)
  destroy : ∀ id, Keeps P (Device.destroy id : DeviceM δ Unit)

/-- Every call of the device keeps the property, whether it goes well or fails. -/
structure KeptByCalls {δ : Type} [Device δ] (P : δ → Prop) : Prop extends KeptInMode P where
  setMode : ∀ on, Keeps P (Device.setMode on : DeviceM δ Unit)

end GpuPartition
