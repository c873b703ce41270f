/-
Reading a TOML document. A document is a list of sections, the first without a header,
each a list of assignments; the sections are put into the root table one after the other,
at the place that their header names.
-/
import GpuPartition.Toml.Value

namespace GpuPartition.Toml

/-- A header in brackets: a table, or one more table of an array, under a key. -/
structure Header where
  array : Bool
  path : List String
  name : String

/-- One line of a document that says something. -/
inductive Statement where
  | header (h : Header)
  | assignment (a : Assignment)

/-! ## Lines -/

/-- Reads a header from behind its first bracket. -/
def header? : List Char → Option (Header × List Char)
  | '[' :: cs => do
    let ((path, name), rest) ← key? depthLimit cs
    match rest with
    | ']' :: ']' :: rest => return (⟨true, path, name⟩, rest)
    | _ => none
  | cs => do
    let ((path, name), rest) ← key? depthLimit cs
    match rest with
    | ']' :: rest => return (⟨false, path, name⟩, rest)
    | _ => none

def statement? : List Char → Option (Statement × List Char)
  | '[' :: rest => (header? rest).map fun (h, r) => (.header h, r)
  | cs => (assignment? (value? depthLimit) cs).map fun (a, r) => (.assignment a, r)

/-- Reads the lines of a document. The fuel bounds the characters ahead. -/
def statements? : Nat → List Char → Option (List Statement)
  | 0, _ => none
  | fuel + 1, cs =>
    match skipSpace cs with
    | [] => some []
    | '#' :: rest => do statements? fuel (← lineEnd? ('#' :: rest))
    | cs =>
      match newline? cs with
      | some rest => statements? fuel rest
      | none => do
        let (s, rest) ← statement? cs
        let rest ← lineEnd? rest
        return s :: (← statements? fuel rest)

/-! ## Sections -/

/-- The assignments in front of the first header, and what follows them. -/
def spanAssignments : List Statement → List Assignment × List Statement
  | .assignment a :: rest =>
    let (as, rest) := spanAssignments rest
    (a :: as, rest)
  | rest => ([], rest)

/-- A header and the assignments below it. -/
abbrev Section := Header × List Assignment

/-- Groups statements that start with a header. -/
def sections : List Statement → List Section
  | [] => []
  | .header h :: rest => (h, (spanAssignments rest).1) :: sections rest
  | .assignment _ :: rest => sections rest

/-- Puts a table at the end of the members. A table that came about on the way to another one is
taken over with what it holds; any other member of the name is in the way. -/
def placeTable (name : String) (as : List Assignment) (fields : Fields) : Option Fields :=
  match fields.find? (·.1 = name) with
  | none => do return fields ++ [(name, .table false false (← assignAll [] as))]
  | some (_, .table true false inner) => do
    let inner ← assignAll inner as
    return fields.filter (·.1 ≠ name) ++ [(name, .table false false inner)]
  | some _ => none

/-- Puts a table at the end of an array of tables. -/
def placeItem (name : String) (as : List Assignment) (fields : Fields) : Option Fields := do
  let item ← assignAll [] as
  alter name (fun
    | none => some (.tables [item])
    | some (.tables items) => some (.tables (items ++ [item]))
    | some _ => none) fields

/-- Follows a path, of an array of tables into its last one, and puts something there. -/
def placeAt (place : Fields → Option Fields) : List String → Fields → Option Fields
  | [], fields => place fields
  | part :: path, fields =>
    alter part (fun
      | none => (placeAt place path []).map (.table true false)
      | some (.table implied dotted inner) =>
        (placeAt place path inner).map (.table implied dotted)
      | some (.tables items) => (alterLast (placeAt place path) items).map .tables
      | some (.value _) => none) fields

/-- Puts a section into the root table. -/
def placeSection (root : Fields) (s : Section) : Option Fields :=
  let place := if s.1.array then placeItem else placeTable
  placeAt (place s.1.name s.2) s.1.path root

def dropMark : List Char → List Char
  | '\uFEFF' :: rest => rest
  | cs => cs

/-- The tree of a document, a table, if the text is TOML. -/
def parse (text : String) : Option Tree := do
  let cs := dropMark text.toList
  let statements ← statements? (cs.length + 1) cs
  let (top, rest) := spanAssignments statements
  let root ← assignAll [] top
  let root ← (sections rest).foldlM placeSection root
  return .table (fieldTrees root)

end GpuPartition.Toml
