/-
Managing the layout of a device through its calls alone: reading it, clearing it,
replacing it, and bringing devices to their targets. The manager keeps no state of its
own; whatever it needs to know it asks the device.

Replacing a layout checks it against the model first, then asks for the mode, clears the
device, and searches for a creation order. A failed creation is rolled back before the
next order is tried. Any other failed call ends the operation with a `fatal` error, after
which the device may hold something else than the target or nothing.
-/
import GpuPartition.Config
import GpuPartition.Device
import GpuPartition.Search

namespace GpuPartition

/-- What the manager was doing when a call failed. -/
inductive Operation where
  | queryMode
  | setMode
  | list
  | destroy
  | rollback
  deriving DecidableEq, Repr

/-- Why an operation failed. -/
inductive ManagerError where
  | capacity (device : String) (layout : Layout) (cause : AdmissionError)
  | modeOff (device : String)
  | exhausted (device : String) (layout : Layout) (attempts distinct : Nat)
      (last : Option DeviceError)
  | fatal (device : String) (operation : Operation) (target : Option Layout) (attempts : Nat)
      (cause : DeviceError)
  | mismatch (device : String) (expected actual : Layout)
  | noSuchDevice (index count : Nat)
  | config (cause : ConfigError)

/-- Names the layout that was being applied in a fatal error that names none. -/
def ManagerError.naming (target : Layout) : ManagerError → ManagerError
  | .fatal device operation none attempts cause =>
    .fatal device operation (some target) attempts cause
  | e => e

/-- What an operation brought about. -/
structure Report where
  device : String
  enabled : Bool
  layout : Layout
  attempts : Nat
  order : List Profile
  deriving DecidableEq

abbrev ManagerM (δ : Type) := EStateM ManagerError δ

namespace Manager

variable {δ : Type} [Device δ]

/-! ## Reading and clearing -/

/-- Makes a call that is not tried again: its failure is fatal. -/
def calling {α : Type} (operation : Operation) (call : DeviceM δ α) : ManagerM δ α := fun d =>
  match call d with
  | .ok a d => .ok a d
  | .error e d => .error (.fatal (Device.identifier d) operation none 0 e) d

def mode : ManagerM δ Bool := calling .queryMode Device.isEnabled

def instances : ManagerM δ (List Instance) := calling .list Device.instances

/-- The live layout: the instances counted by profile. -/
def layout : ManagerM δ Layout := do
  return .ofProfiles ((← instances).map (·.profile))

/-- Destroys the instances numbered so, in this order, until a call fails. -/
def destroyAll : List Nat → ManagerM δ Unit
  | [] => pure ()
  | id :: ids => do
    calling .destroy (Device.destroy id)
    destroyAll ids

/-- Destroys every live instance. With the mode off there are none. -/
def clear : ManagerM δ Unit := do
  if ← mode then
    destroyAll ((← instances).map (·.id))

/-- Checks that the live layout is the expected one. -/
def assertLayout (expected : Layout) : ManagerM δ Unit := do
  let actual ← layout
  if actual = expected then pure ()
  else throw (.mismatch (Device.identifier (← get)) expected actual)

/-- Turns the mode on or off, clearing the device before it goes off. A device already in the
mode is left alone. -/
def setMode (on : Bool) : ManagerM δ Unit := do
  if (← mode) = on then pure ()
  else
    if !on then clear
    calling .setMode (Device.setMode on)

/-! ## Replacing the layout -/

/-- Destroys what an attempt created. -/
def rollback : List Nat → DeviceM δ Unit
  | [] => pure ()
  | id :: ids => do
    Device.destroy id
    rollback ids

/-- Creates instances one by one, on top of those in `created`, latest first. If a creation
fails, all of them are destroyed, latest first, and another order may be tried; if that fails
too, none may. -/
def createOnto : (created : List Nat) → Attempt δ DeviceError
  | _, [] => pure .accepted
  | created, p :: ps => fun d =>
    match Device.create p d with
    | .ok id d => createOnto (id :: created) ps d
    | .error e d =>
      match rollback created d with
      | .ok () d => (.retry e, d)
      | .error e' d => (.fatal e', d)

/-- Creates instances in the order given, or none. -/
def createInOrder : Attempt δ DeviceError := createOnto []

/-- Runs the steps that come before the search for the layout named. -/
def preparing {α : Type} (target : Layout) (steps : ManagerM δ α) : ManagerM δ α :=
  steps.adaptExcept (ManagerError.naming target)

/-- Searches for an order in which the instances of the layout can be created. -/
def createLayout (target : Layout) : ManagerM δ Report := fun d =>
  let device := Device.identifier d
  match (searchOrders target createInOrder).run d with
  | (.ok found, d) => .ok ⟨device, true, target, found.attempts, found.order⟩ d
  | (.error (.exhausted layout attempts distinct last), d) =>
    .error (.exhausted device layout attempts distinct last) d
  | (.error (.aborted layout attempts e), d) =>
    .error (.fatal device .rollback (some layout) attempts e) d

/-- Replaces whatever is on the device by the layout. -/
def setLayout (target : Layout) : ManagerM δ Report := do
  let d ← get
  match (Device.model d).check target with
  | .error cause => throw (.capacity (Device.identifier d) target cause)
  | .ok _ =>
    if ← preparing target mode then
      preparing target clear
      createLayout target
    else
      throw (.modeOff (Device.identifier d))

/-! ## Targets -/

/-- Brings the device to its target: the mode first, then the layout. -/
def applyTarget (target : Target) : ManagerM δ Report := do
  setMode target.enabled
  if target.enabled then setLayout target.layout
  else return ⟨Device.identifier (← get), false, .empty, 0, []⟩

/-- Operates on one device of several. -/
def onDevice {α : Type} (index : Nat) (operation : ManagerM δ α) :
    EStateM ManagerError (List δ) α := fun ds =>
  match ds[index]? with
  | none => .error (.noSuchDevice index ds.length) ds
  | some d =>
    match operation d with
    | .ok a d => .ok a (ds.set index d)
    | .error e d => .error e (ds.set index d)

/-- Applies the targets in order, up to the first that fails. -/
def applyTargets : List Target → EStateM ManagerError (List δ) (List Report)
  | [] => return []
  | t :: ts => do
    let report ← onDevice t.index (applyTarget t)
    return report :: (← applyTargets ts)

/-- Applies a named config to the devices, taken to be of the model. -/
def applyConfig (config : Config) (name : String) (model : Model) :
    EStateM ManagerError (List δ) (List Report) := fun ds =>
  match config.resolve name model ds.length with
  | .error e => .error (.config e) ds
  | .ok targets => applyTargets targets ds

end Manager

/-! ## Messages -/

def Operation.name : Operation → String
  | .queryMode => "query_mig_mode"
  | .setMode => "set_mig_mode"
  | .list => "list_instances"
  | .destroy => "destroy_instance"
  | .rollback => "rollback"

namespace ManagerError

/-- Whether the device may be left in an unknown state. -/
def isFatal : ManagerError → Bool
  | .fatal .. => true
  | _ => false

/-- Says which layout was being applied, and at which attempt. -/
def targetNote : Option Layout → Nat → String
  | none, _ => ""
  | some l, 0 => s!" while applying {l.text}"
  | some l, attempts => s!" while applying {l.text} (ordering attempt {attempts})"

def message : ManagerError → String
  | .capacity device layout cause =>
    s!"{device}: layout {layout.text} is not admissible: {cause.message}"
  | .modeOff device => s!"{device}: MIG mode is disabled; enable it before applying a layout"
  | .exhausted device layout attempts distinct last =>
    s!"{device}: no viable ordering for layout {layout.text} after {attempts} of {distinct} " ++
    s!"distinct orderings{lastErrorNote (last.map DeviceError.message)}; the device topology " ++
    "cannot currently host it"
  | .fatal device operation target attempts cause =>
    s!"{device}: {operation.name} failed{targetNote target attempts}: {cause.message}; " ++
    "device state may be inconsistent"
  | .mismatch device expected actual =>
    s!"{device}: expected layout {expected.text}, found {actual.text}"
  | .noSuchDevice index count => s!"no device with index {index} ({count} devices present)"
  | .config cause => s!"configuration error: {cause.message}"

end ManagerError

end GpuPartition
