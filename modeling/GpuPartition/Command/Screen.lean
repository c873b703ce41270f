/-
The screens of the commands: a banner, a table or a list of results, and a closing line.
-/
import GpuPartition.Command.Output
import GpuPartition.Enumeration
import GpuPartition.Json.Printer
import GpuPartition.Rollout

namespace GpuPartition.Command

/-! ## Listings -/

def offerRow (o : Offer) : String :=
  let starts := ",".intercalate (o.starts.map toString)
  s!"  {Text.atLeft 10 o.profile.text} {Text.atRight 8 (toString o.compute)} " ++
    s!"{Text.atRight 8 (toString o.memory)} {Text.atRight 6 (toString o.limit)}  [{starts}]"

def catalogScreen (m : Model) : List String :=
  banner "Profile Catalog" ++ [
    s!"  Model:          {m}",
    s!"  Compute slices: {m.computeSlices}",
    s!"  Memory slices:  {m.memorySlices}",
    "",
    "  Profile     Compute   Memory    Max  Placements",
    "  " ++ Text.run 56 '-'] ++
  m.offers.map offerRow ++ [""]

/-- The row of a layout in the list of layouts of a model: what it takes of what there is. -/
def layoutRow (m : Model) (index : Nat) (l : Layout) (used : Usage) : String :=
  let share := fun (taken all : Nat) =>
    s!"{Text.atRight 5 (toString taken)}/{Text.atLeft 2 (toString all)}"
  s!"  {Text.atLeft 4 (toString index)} {share used.compute m.computeSlices} " ++
    s!"{share used.memory m.memorySlices} {Text.atRight 6 (toString l.total)}  {l.text}"

/-- The rows of layouts, up to the first that the model does not admit. -/
def layoutRows (m : Model) : (index : Nat) → List Layout → List String × Option AdmissionError
  | _, [] => ([], none)
  | index, l :: ls =>
    match m.check l with
    | .error e => ([], some e)
    | .ok used =>
      let (rows, e) := layoutRows m (index + 1) ls
      (layoutRow m index l used :: rows, e)

def layoutScreen (m : Model) : Output :=
  let heading := banner "Layout Enumerator" ++ [
    s!"  Model:   {m}",
    s!"  Layouts: {m.layouts.length}",
    "",
    "  Idx   Compute   Memory  Inst.  Layout",
    "  " ++ Text.run 64 '-']
  match layoutRows m 0 m.layouts with
  | (rows, none) => .success (heading ++ rows ++ [""])
  | (rows, some e) => .failure (heading ++ rows) [e.message]

def layoutJson (m : Model) : List String :=
  [Json.pretty "" (.list (m.layouts.map Layout.toTree))]

/-! ## Rollouts -/

def deviceLabel (index : Nat) : String := s!"  gpu{Text.atLeft 3 (toString index)}"

/-- The rows on one device of a rollout: the layout it has got and in which order its instances
were created, or the error. -/
def outcomeRows (o : Rollout.Outcome) : List String :=
  match o.result with
  | .error e => [s!"{deviceLabel o.target.index} FAILED: {e.message}"]
  | .ok r =>
    let name := Text.atLeft 6 r.device
    if r.enabled then
      let plural := if r.attempts = 1 then "" else "s"
      let order := " → ".intercalate (r.order.map Profile.text)
      s!"  {name} {r.layout.text}  ({r.attempts} attempt{plural})" ::
        if r.order.isEmpty then [] else [s!"         order: {order}"]
    else [s!"  {name} MIG disabled"]

/-- What is being rolled out. -/
def rolloutHeading (r : Rollout) : List String :=
  banner "Apply Config" ++ [
    s!"  Config:  {r.path}",
    s!"  Select:  {r.select}",
    s!"  Node:    {r.gpus} × {r.model}",
    ""]

/-- The end of a rollout: its counts, and a failure if a device failed. -/
def rolloutScreen (r : Rollout) (outcomes : List Rollout.Outcome) : Output :=
  let failed := outcomes.countP (!·.applied)
  let lines := rolloutHeading r ++ outcomes.flatMap outcomeRows ++ ["",
    s!"  Applied: {outcomes.length - failed}   Failed: {failed}   " ++
      s!"Untouched: {r.gpus - outcomes.length}"]
  if failed = 0 then .success lines
  else .failure lines [s!"{failed} of {outcomes.length} devices failed"]

def modeWord (on : Bool) : String := if on then "enabled" else "disabled"

/-- The row on one device after a rollout: whether it is as its target says. -/
def findingRow (o : Rollout.Outcome) : String :=
  let text := match o.finding with
    | .matching => s!"OK  {o.target.layout.text}"
    | .notApplied e => s!"NOT APPLIED: {e.message}"
    | .otherMode on =>
      s!"MISMATCH: MIG mode is {modeWord on}, expected {modeWord o.target.enabled}"
    | .otherLayout e => s!"MISMATCH: {e.message}"
  s!"{deviceLabel o.target.index} {text}"

/-- The findings after a rollout, and a failure if a device is not as its target says. -/
def findingScreen (r : Rollout) (outcomes : List Rollout.Outcome) : Output :=
  let others := outcomes.countP (!·.finding.isMatching)
  let lines := banner "Assert Config" ++ outcomes.map findingRow ++ [""]
  if others = 0 then
    .success (lines ++ [s!"  All {outcomes.length} targeted devices match '{r.select}'."])
  else
    .failure lines [s!"{others} of {outcomes.length} devices do not match config '{r.select}'"]

end GpuPartition.Command
