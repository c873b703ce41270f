/-
Running the command line against whatever its paths lead to.
-/
import GpuPartition.Command.Request
import GpuPartition.Command.Screen

namespace GpuPartition.Command

/-- The output on arguments that make no sense. -/
def misuse : Output :=
  ⟨2, "", "error: the arguments make no sense\n\nFor more information, try '--help'.\n"⟩

/-- Rolls out a config and shows the outcomes, below a heading in any case. -/
def rollOut (r : Rollout) (source : Source) (heading : List String)
    (screen : List Rollout.Outcome → Output) : Output :=
  match r.run source with
  | .ok outcomes => screen outcomes
  | .error .overflow => .overflow heading
  | .error failure => .failure heading failure.messages

/-- Carries out a request, given what is found under each path. -/
def Request.run (files : String → Source) : Request → Output
  | .catalog m => .success (catalogScreen m)
  | .enumerate m false => layoutScreen m
  | .enumerate m true => .success (layoutJson m)
  | .apply r => rollOut r (files r.path) (rolloutHeading r) (rolloutScreen r)
  | .check r => rollOut r (files r.path) (banner "Assert Config") (findingScreen r)

def run (files : String → Source) (args : List String) : Output :=
  match parse args with
  | .request r => r.run files
  | .page text => ⟨0, text, ""⟩
  | .misuse => misuse

end GpuPartition.Command
