/-
The calls that a GPU answers, as seen by whoever manages it, and the ways they fail.

A device is any type with an instance of `Device`. Its calls run in `DeviceM`: a call
ends with a value or an error, and leaves a device state behind either way, so a failing
call may have had an effect.
-/
import GpuPartition.Model
import GpuPartition.Placement

namespace GpuPartition

/-- The calls that can fail in the driver. -/
inductive DeviceCall where
  | queryMode
  | setMode
  | list
  | create
  | destroy
  deriving DecidableEq, Repr

/-- What a device lacks to create an instance. -/
inductive Shortage where
  | limit (limit : Nat)
  | compute
  | placement
  deriving DecidableEq, Repr

/-- Why a call failed. -/
inductive DeviceFault where
  | modeOff
  | unsupported (profile : Profile)
  | insufficient (profile : Profile) (shortage : Shortage)
  | rejected (profile : Profile) (reason : String)
  | notFound (id : Nat)
  | busy (instances : Nat)
  | callFailed (call : DeviceCall) (detail : String)
  deriving DecidableEq, Repr

/-- The error of a call: the device and what went wrong there. -/
structure DeviceError where
  device : String
  fault : DeviceFault
  deriving DecidableEq, Repr

abbrev DeviceM (δ : Type) := EStateM DeviceError δ

class Device (δ : Type) where
  identifier : δ → String
  model : δ → Model
  isEnabled : DeviceM δ Bool
  setMode : Bool → DeviceM δ Unit
  instances : DeviceM δ (List Instance)
  create : Profile → DeviceM δ Nat
  destroy : Nat → DeviceM δ Unit

/-! ## Messages -/

def DeviceCall.name : DeviceCall → String
  | .queryMode => "is_mig_enabled"
  | .setMode => "set_mig_mode"
  | .list => "list_instances"
  | .create => "create_instance"
  | .destroy => "destroy_instance"

def Shortage.reason : Shortage → String
  | .limit n => s!"limit of {n} reached"
  | .compute => "no free compute slices"
  | .placement => "no free placement"

/-- The message leaves out the device; who reports it names the device. -/
def DeviceError.message (e : DeviceError) : String :=
  match e.fault with
  | .modeOff => "MIG mode is disabled"
  | .unsupported p => s!"profile {p} is not supported"
  | .insufficient p shortage => s!"insufficient resources for {p}: {shortage.reason}"
  | .rejected p reason => s!"creation of {p} rejected: {reason}"
  | .notFound id => s!"no instance with id {id}"
  | .busy n => s!"busy, {n} instances still exist"
  | .callFailed call detail => s!"driver call {call.name} returned: {detail}"

end GpuPartition
