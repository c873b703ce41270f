/-
What the command line asks for. There are four commands: listing the profiles of a model,
listing the layouts that fit it, applying a named config to a server, and applying it and
then asserting that every targeted device is as its target says.
-/
import GpuPartition.Command.Help
import GpuPartition.Rollout
import GpuPartition.Text.Natural

namespace GpuPartition.Command

inductive Request where
  | catalog (model : Model)
  | enumerate (model : Model) (json : Bool)
  | apply (rollout : Rollout)
  | check (rollout : Rollout)
  deriving DecidableEq, Repr

/-- What a command line comes to. -/
inductive Invocation where
  | request (r : Request)
  | page (text : String)
  | misuse
  deriving DecidableEq, Repr

/-- A subcommand: its name, its options in the order of its help page, and how its request is made
from their values. -/
structure Subcommand where
  name : String
  about : String
  flags : List Flag
  request : (String → Option String) → (String → Bool) → Option Request

/-! ## Values -/

def programName : String := "mig-parted"

def programVersion : String := "0.1.0"

def readModel (s : String) : Option Model := (Model.parse s).toOption

def readGpus (s : String) : Option Nat := Text.readBelow (wordMax + 1) s.toList

def readRollout (value : String → Option String) : Option Rollout := do
  let path ← value "config"
  let select ← value "select"
  let model ← readModel (← value "model")
  let gpus ← readGpus (← value "gpus")
  return ⟨path, select, model, gpus⟩

/-! ## Options -/

/-- More words about what goes on; any number of times, anywhere. -/
def verboseFlag : Flag :=
  ⟨some 'v', "verbose", .counter, "Enable verbose logging (repeat for more: -v, -vv, -vvv)"⟩

def helpFlag : Flag := ⟨some 'h', "help", .help, "Print help"⟩

def versionFlag : Flag := ⟨some 'V', "version", .version, "Print version"⟩

def modelFlag (about : String) : Flag :=
  ⟨some 'm', "model",
    .value "MODEL" (some Model.a100With40.name) fun s => (readModel s).isSome, about⟩

def jsonFlag : Flag := ⟨none, "json", .switch, "Emit JSON instead of a table"⟩

/-- The options of a rollout. A path is never empty. -/
def rolloutFlags : List Flag := [
  ⟨some 'c', "config", .value "CONFIG" none fun s => !s.isEmpty,
    "Path to the TOML partition configuration"⟩,
  verboseFlag,
  ⟨some 's', "select", .value "SELECT" none fun _ => true, "Name of the config to apply"⟩,
  modelFlag "Device model of every GPU in the node",
  ⟨some 'g', "gpus", .value "GPUS" (some "8") fun s => (readGpus s).isSome,
    "Number of GPUs in the node"⟩,
  helpFlag]

/-! ## Subcommands -/

/-- The words for the model of a listing. -/
def listedModel : String := "Device model, e.g. \"A100-SXM4-40GB\""

/-- The subcommands that make requests. -/
def subcommands : List Subcommand := [
  ⟨"catalog", "List the profiles a device model supports",
    [modelFlag listedModel, verboseFlag, helpFlag],
    fun value _ => do return .catalog (← readModel (← value "model"))⟩,
  ⟨"enumerate", "Print every admissible layout of a device model",
    [modelFlag listedModel, verboseFlag, jsonFlag, helpFlag],
    fun value isOn => do return .enumerate (← readModel (← value "model")) (isOn "json")⟩,
  ⟨"apply", "Apply a named config from a TOML file to a simulated node", rolloutFlags,
    fun value _ => do return .apply (← readRollout value)⟩,
  ⟨"assert", "Apply a named config, then assert every device holds its target", rolloutFlags,
    fun value _ => do return .check (← readRollout value)⟩]

def subcommand? (name : String) : Option Subcommand := subcommands.find? (·.name = name)

/-- The name of the subcommand that shows help pages. -/
def helpName : String := "help"

/-- What that subcommand does. -/
def helpAbout : String := "Print this message or the help of the given subcommand(s)"

/-- The options ahead of a subcommand. -/
def topFlags : List Flag := [verboseFlag, helpFlag, versionFlag]

/-! ## Pages -/

def topPage : HelpPage :=
  ⟨"MIG partition manager for multi-instance GPUs", programName ++ " [OPTIONS] <COMMAND>",
    [⟨"Commands", subcommands.map (fun s => (s.name, s.about)) ++ [(helpName, helpAbout)]⟩,
      flagTable topFlags]⟩

def Subcommand.page (s : Subcommand) : HelpPage :=
  ⟨s.about, usageLine s!"{programName} {s.name}" s.flags, [flagTable s.flags]⟩

def helpPage : HelpPage :=
  ⟨helpAbout, s!"{programName} {helpName} [COMMAND]...",
    [⟨"Arguments", [("[COMMAND]...", "Print help for the subcommand(s)")]⟩]⟩

/-- The page on a topic; no subcommand has subcommands of its own. -/
def pageOn : List String → Invocation
  | [] => .page topPage.text
  | [name] =>
    if name = helpName then .page helpPage.text
    else
      match subcommand? name with
      | some s => .page s.page.text
      | none => .misuse
  | _ => .misuse

/-! ## Reading a command line -/

def Subcommand.parse (s : Subcommand) (args : List String) : Invocation :=
  let grammar : Grammar := ⟨s.flags, []⟩
  let scan := grammar.scan args
  if grammar.permitsAll scan.settings then
    match scan.ending with
    | .complete =>
      match s.request (grammar.value? scan.settings) (Grammar.isOn scan.settings) with
      | some r => .request r
      | none => .misuse
    | .help => .page s.page.text
    | _ => .misuse
  else .misuse

def parse (args : List String) : Invocation :=
  let grammar : Grammar := ⟨topFlags, subcommands.map (·.name) ++ [helpName]⟩
  let scan := grammar.scan args
  match scan.ending with
  | .help => .page topPage.text
  | .version => .page s!"{programName} {programVersion}\n"
  | .subcommand name rest =>
    if name = helpName then pageOn rest
    else
      match subcommand? name with
      | some s => s.parse rest
      | none => .misuse
  | _ => .misuse

end GpuPartition.Command
