/-
The program: runs its arguments against the files of the system.
-/
import GpuPartition.Command

namespace GpuPartition.Command

/-- What the system has under a path. -/
def findFile (path : String) : IO Source := do
  try
    return .bytes (← IO.FS.readBinFile path)
  catch
    | .inappropriateType _ code _ => return if code = 20 then .blocked else .directory
    | _ => return .missing

end GpuPartition.Command

open GpuPartition

def main (args : List String) : IO UInt32 := do
  let source ← match Command.parse args with
    | .request (.apply r) | .request (.check r) => Command.findFile r.path
    | _ => pure .missing
  let output := Command.run (fun _ => source) args
  IO.print output.out
  IO.eprint output.err
  return UInt32.ofNat output.code
