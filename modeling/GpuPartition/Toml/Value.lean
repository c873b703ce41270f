/-
Values in TOML. Arrays and inline tables nest at most 79 deep; that bound is what the
reader of values recurses on.

`Fields` are the members of a table under construction. A dotted key opens tables on its
way, and such a table stays open for further dotted keys; a table written in any other way
is closed to them.
-/
import GpuPartition.Toml.Number

namespace GpuPartition.Toml

/-! ## Tables under construction -/

/-- A member of a table under construction: a value, a table that `implied` tells to have come
about on the way to something else and `dotted` by a dotted key, or an array of tables. -/
inductive Node where
  | value (t : Tree)
  | table (implied dotted : Bool) (fields : List (String × Node))
  | tables (items : List (List (String × Node)))

/-- The members of a table, in the order in which they were added. -/
abbrev Fields := List (String × Node)

/-- Changes the member of a name where it stands, or adds one at the end. -/
def alter (name : String) (change : Option Node → Option Node) : Fields → Option Fields
  | [] => (change none).map fun node => [(name, node)]
  | (n, node) :: rest =>
    if n = name then (change (some node)).map fun node => (n, node) :: rest
    else (alter name change rest).map ((n, node) :: ·)

/-- The last of the tables of an array, changed. -/
def alterLast (change : Fields → Option Fields) : List Fields → Option (List Fields)
  | [] => none
  | [fields] => (change fields).map ([·])
  | fields :: rest => (alterLast change rest).map (fields :: ·)

/-- Adds a member under a new name. -/
def add (name : String) (value : Tree) : Fields → Option Fields :=
  alter name fun
    | none => some (.value value)
    | some _ => none

/-- Adds a member under a key, opening a table for each part of the path that has none. A dotted
key may not end in a table that was not opened by one. -/
def addAt (name : String) (value : Tree) : List String → Fields → Option Fields
  | [], fields => add name value fields
  | part :: path, fields =>
    alter part (fun
      | none => (addAt name value path []).map (.table true true)
      | some (.table true dotted inner) =>
        if path.isEmpty && !dotted then none
        else (addAt name value path inner).map (.table true dotted)
      | some (.tables items) =>
        if path.isEmpty then none else (alterLast (addAt name value path) items).map .tables
      | some _ => none) fields

mutual

def Node.tree : Node → Tree
  | .value t => t
  | .table _ _ fields => .table (fieldTrees fields)
  | .tables items => .list (tableTrees items)

def fieldTrees : List (String × Node) → List (String × Tree)
  | [] => []
  | (name, node) :: rest => (name, node.tree) :: fieldTrees rest

def tableTrees : List (List (String × Node)) → List Tree
  | [] => []
  | fields :: rest => .table (fieldTrees fields) :: tableTrees rest

end

/-! ## Values -/

/-- A key with the value given to it: the parts of the key but the last, and the last. -/
structure Assignment where
  path : List String
  name : String
  value : Tree

/-- Adds the members of assignments one by one. -/
def assignAll (fields : Fields) (as : List Assignment) : Option Fields :=
  as.foldlM (fun fields a => addAt a.name a.value a.path fields) fields

/-- The number of parts a key may have, and of brackets a value may be in. -/
def depthLimit : Nat := 79

/-- Reads a key, an equals sign and a value. -/
def assignment? (value : List Char → Option (Tree × List Char)) (cs : List Char) :
    Option (Assignment × List Char) := do
  let ((path, name), rest) ← key? depthLimit cs
  match rest with
  | '=' :: rest => do
    let (v, rest) ← value (skipSpace rest)
    return (⟨path, name, v⟩, rest)
  | _ => none

/-- Reads the items of an array up to its closing bracket; a comma may follow the last one. The
fuel bounds the characters ahead. -/
def items? (value : List Char → Option (Tree × List Char)) :
    Nat → List Char → Option (List Tree × List Char)
  | 0, _ => none
  | fuel + 1, cs =>
    match skipFiller false cs with
    | ']' :: rest => some ([], rest)
    | cs => do
      let (t, rest) ← value cs
      match skipFiller false rest with
      | ',' :: rest => do
        let (ts, rest) ← items? value fuel rest
        return (t :: ts, rest)
      | ']' :: rest => return ([t], rest)
      | _ => none

/-- Reads the members of an inline table up to its closing brace; no comma may follow the last
one. The fuel bounds the characters ahead. -/
def members? (value : List Char → Option (Tree × List Char)) :
    Nat → List Char → Option (List Assignment × List Char)
  | 0, _ => none
  | fuel + 1, cs => do
    let (a, rest) ← assignment? value cs
    match skipSpace rest with
    | ',' :: rest => do
      let (as, rest) ← members? value fuel rest
      return (a :: as, rest)
    | '\x7d' :: rest => return ([a], rest)
    | _ => none

/-- Reads an inline table from behind its opening brace. -/
def inlineTable? (value : List Char → Option (Tree × List Char)) (cs : List Char) :
    Option (Tree × List Char) :=
  match skipSpace cs with
  | '\x7d' :: rest => some (.table [], rest)
  | cs => do
    let (as, rest) ← members? value (cs.length + 1) cs
    let fields ← assignAll [] as
    return (.table (fieldTrees fields), rest)

/-- Reads a value with at most `depth` brackets inside each other. -/
def value? : (depth : Nat) → List Char → Option (Tree × List Char)
  | 0, cs => scalar? cs
  | depth + 1, cs =>
    match cs with
    | '[' :: rest => (items? (value? depth) (rest.length + 1) rest).map fun (ts, r) => (.list ts, r)
    | '\x7b' :: rest => inlineTable? (value? depth) rest
    | cs => scalar? cs
where
  /-- Reads a value without brackets. -/
  scalar? (cs : List Char) : Option (Tree × List Char) :=
    match cs with
    | '"' :: _ => (string? cs).map fun (s, r) => (.text s, r)
    | '\'' :: _ => (string? cs).map fun (s, r) => (.text s, r)
    | 't' :: 'r' :: 'u' :: 'e' :: rest => some (.bool true, rest)
    | 'f' :: 'a' :: 'l' :: 's' :: 'e' :: rest => some (.bool false, rest)
    | cs => number? cs

end GpuPartition.Toml
