/-
A test rig around a device: it passes calls on, except that chosen calls fail on the way
without reaching the device, and that made-up instances appear in every listing.
-/
import GpuPartition.Device

namespace GpuPartition

/-- A device in a rig. Queries of the mode fail once `queryLimit` of them were made, creations
fail whose number is in `badCreates`, both counted by the rig. -/
structure Rig (δ : Type) where
  device : δ
  queryLimit : Option Nat
  badCreates : List Nat
  ghosts : List Instance
  queries : Nat
  creates : Nat

namespace Rig

variable {δ : Type}

/-- A rig that has seen no calls. -/
def around (device : δ) (queryLimit : Option Nat) (badCreates : List Nat)
    (ghosts : List Instance) : Rig δ :=
  ⟨device, queryLimit, badCreates, ghosts, 0, 0⟩

/-- Passes a call on to the device. -/
def pass {α : Type} (call : DeviceM δ α) : DeviceM (Rig δ) α := fun r =>
  match call r.device with
  | .ok a d => .ok a { r with device := d }
  | .error e d => .error e { r with device := d }

variable [Device δ]

/-- Lets a call fail on the way. -/
def block {α : Type} (call : DeviceCall) : DeviceM (Rig δ) α := fun r =>
  .error ⟨Device.identifier r.device, .callFailed call "rig fault"⟩ r

/-- Whether the next query of the mode fails. -/
def queryBlocked (r : Rig δ) : Bool :=
  match r.queryLimit with
  | none => false
  | some n => n ≤ r.queries

instance : Device (Rig δ) where
  identifier r := Device.identifier r.device
  model r := Device.model r.device
  isEnabled := fun r =>
    let counted := { r with queries := r.queries + 1 }
    if r.queryBlocked then block .queryMode counted else pass Device.isEnabled counted
  setMode on := pass (Device.setMode on)
  instances := do return (← pass Device.instances) ++ (← get).ghosts
  create p := fun r =>
    let counted := { r with creates := r.creates + 1 }
    if counted.creates ∈ r.badCreates then block .create counted
    else pass (Device.create p) counted
  destroy id := pass (Device.destroy id)

end Rig

end GpuPartition
