/-
The inspection text of simulated GPUs: one line that shows the fields of a device and of
what it holds, written `Name { field: value, … }`.
-/
import GpuPartition.Simulator

namespace GpuPartition

/-- A record by its name and fields. -/
def inspectRecord (name : String) (fields : List (String × String)) : String :=
  name ++ " \x7b " ++ ", ".intercalate (fields.map fun f => f.1 ++ ": " ++ f.2) ++ " \x7d"

def inspectList (items : List String) : String := "[" ++ ", ".intercalate items ++ "]"

/-- The name of a model without hyphens. -/
def Model.inspect : Model → String
  | .a100With40 => "A100Sxm4_40gb"
  | .a100With80 => "A100Sxm4_80gb"
  | .h100With80 => "H100Sxm5_80gb"
  | .a30With24 => "A30_24gb"

def Profile.inspect (p : Profile) : String :=
  inspectRecord "Profile"
    [("slices", toString p.slices.toNat), ("memory_gb", toString p.memory.toNat)]

def Placement.inspect (p : Placement) : String :=
  inspectRecord "Placement" [("start", toString p.start), ("size", toString p.size)]

def Instance.inspect (i : Instance) : String :=
  inspectRecord "Instance" [("id", s!"InstanceId({i.id})"), ("profile", i.profile.inspect),
    ("placement", i.placement.inspect)]

def FaultPlan.inspect (f : FaultPlan) : String :=
  let after := match f.destroyAfter with
    | .none => "None"
    | some n => s!"Some({n})"
  inspectRecord "FaultPlan" [("fail_list", toString f.list), ("fail_destroy_after", after),
    ("fail_mode_change", toString f.modeChange)]

/-- The fields of a device; of its rules only the number, and nothing of its counters. -/
def Simulator.inspect (s : Simulator) : String :=
  inspectRecord "SimulatedDevice" [("index", toString s.index), ("model", s.model.inspect),
    ("mig_enabled", toString s.enabled), ("instances", inspectList (s.live.map Instance.inspect)),
    ("create_rules", toString s.rules.length), ("faults", s.faults.inspect)]

def Simulator.inspectServer (devices : List Simulator) : String :=
  inspectRecord "SimulatedNode" [("devices", inspectList (devices.map Simulator.inspect))]

end GpuPartition
