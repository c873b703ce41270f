/-
Rolling a named config out to a server of simulated GPUs. The config is loaded and
resolved first; only then are devices configured, each targeted one by itself, so that a
failure on one does not keep the others from their targets.
-/
import GpuPartition.Config.File
import GpuPartition.Manager
import GpuPartition.Simulator

namespace GpuPartition

/-- A named config from a file, and the server it is meant for. -/
structure Rollout where
  path : String
  select : String
  model : Model
  gpus : Nat
  deriving DecidableEq, Repr

namespace Rollout

/-- Why no device was configured. -/
inductive Failure where
  | load (path : String) (cause : ConfigError)
  | resolve (select : String) (cause : ConfigError)
  | noDevice (index : Nat)
  | overflow

/-- What became of one targeted device. -/
structure Outcome where
  target : Target
  device : Simulator
  result : Except ManagerError Report

/-- What a device looks like when it is compared with its target afterwards. -/
inductive Finding where
  | matching
  | notApplied (cause : ManagerError)
  | otherMode (mode : Bool)
  | otherLayout (cause : ManagerError)

/-! ## Configuring devices -/

/-- Brings a device to its target. -/
def settle (target : Target) (device : Simulator) : Outcome :=
  match Manager.applyTarget target device with
  | .ok report device => ⟨target, device, .ok report⟩
  | .error e device => ⟨target, device, .error e⟩

/-- Takes a device from its place. A place that is empty or not there has none. -/
def take (places : List (Option Simulator)) (index : Nat) :
    Option (Simulator × List (Option Simulator)) :=
  match places[index]? with
  | some (some device) => some (device, places.set index none)
  | _ => none

/-- Gives every target a device of its own, in order. -/
def assign (places : List (Option Simulator)) :
    List Target → Except Failure (List (Target × Simulator))
  | [] => .ok []
  | t :: ts =>
    match take places t.index with
    | none => .error (.noDevice t.index)
    | some (device, places) => (assign places ts).map ((t, device) :: ·)

/-- Loads the config from what its path leads to. -/
def load (r : Rollout) (source : Source) : Except Failure Config :=
  match Config.ofFile r.path source with
  | .ok c => .ok c
  | .error (.config cause) => .error (.load r.path cause)
  | .error .overflow => .error .overflow

/-- The targets of the selected config. -/
def targets (r : Rollout) (c : Config) : Except Failure (List Target) :=
  match c.resolve r.select r.model r.gpus with
  | .ok ts => .ok ts
  | .error cause => .error (.resolve r.select cause)

/-- Rolls out a config that is loaded: an outcome for each target, in order of device indices. -/
def runConfig (r : Rollout) (c : Config) : Except Failure (List Outcome) := do
  let places := (Simulator.server r.model r.gpus).map some
  let pairs ← assign places (← r.targets c)
  return pairs.map fun (target, device) => settle target device

/-- Rolls out the config that the path leads to. -/
def run (r : Rollout) (source : Source) : Except Failure (List Outcome) := do
  r.runConfig (← r.load source)

/-! ## Looking at the outcome -/

/-- Whether the device was brought to its target. -/
def Outcome.applied (o : Outcome) : Bool :=
  match o.result with
  | .ok _ => true
  | .error _ => false

/-- Reads the device back and compares it with its target, the mode before the layout. -/
def Outcome.finding (o : Outcome) : Finding :=
  match o.result with
  | .error cause => .notApplied cause
  | .ok _ =>
    if o.device.enabled ≠ o.target.enabled then .otherMode o.device.enabled
    else
      match Manager.assertLayout o.target.layout o.device with
      | .ok () _ => .matching
      | .error cause _ => .otherLayout cause

/-- Whether the device is as its target says. -/
def Finding.isMatching : Finding → Bool
  | .matching => true
  | _ => false

/-! ## Messages -/

/-- The message of a failure, followed by those of its causes. -/
def Failure.messages : Failure → List String
  | .load path cause => s!"failed to load '{path}'" :: cause.messages
  | .resolve select cause => s!"cannot resolve config '{select}'" :: cause.messages
  | .noDevice index => [s!"gpu{index} has no free device handle"]
  | .overflow => ["a count outgrows a machine word"]

end Rollout

end GpuPartition
