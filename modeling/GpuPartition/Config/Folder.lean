/-
A folder held in memory: what is found under a path that is relative to it.

The names in a path are separated by slashes; an empty name and a single dot stay where they
are. A path may lead through folders only, and one that ends in a slash or a dot has to end
at a folder.
-/
import GpuPartition.Config.File

namespace GpuPartition

/-- The contents of a folder by relative path. Folders on the way to them need no mention. -/
abbrev Folder := List (String × Source)

namespace Folder

/-- The names in a path that lead somewhere. -/
def names (path : String) : List String :=
  (path.splitOn "/").filter fun name => name ≠ "" ∧ name ≠ "."

/-- Whether a path can only end at a folder. -/
def endsAtFolder (path : String) : Bool :=
  match (path.splitOn "/").getLast? with
  | some name => name = "" ∨ name = "."
  | none => false

/-- What is found under the names, whether or not it has to be a folder. -/
def locate (folder : Folder) (wanted : List String) (isFolder : Bool) : Source :=
  let found := folder.findSome? fun (path, source) =>
    let held := names path
    match source with
    | .bytes _ =>
      if held = wanted then some (if isFolder then .blocked else source)
      else if held.isPrefixOf wanted then some .blocked
      else none
    | _ => if held = wanted then some source else none
  let onTheWay := folder.any fun (path, _) => wanted.isPrefixOf (names path)
  found.getD (if wanted.isEmpty || onTheWay then .directory else .missing)

/-- What is found under a path. Nothing is known of what lies outside the folder. -/
def find (folder : Folder) (path : String) : Source :=
  if path.isEmpty then .missing
  else if path.startsWith "/" && !(names path).isEmpty then .missing
  else folder.locate (names path) (endsAtFolder path)

end Folder

end GpuPartition
