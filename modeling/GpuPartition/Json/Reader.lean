/-
Reading JSON. `Json.parse` gives the tree of a text and what follows its value; a text
that is not JSON has a tree up to the fault. `Json.read` reads a value of another type
from the tree, and then looks for anything left over behind it. So does `Json.readBy` with
any other reader of trees.
-/
import GpuPartition.Json.Lexical

namespace GpuPartition.Json

def isSpace (c : Char) : Bool := c == ' ' || c == '\n' || c == '\t' || c == '\r'

def skipSpace (cs : List Char) : List Char := cs.dropWhile isSpace

/-- A tree, and the input after it unless the tree is broken. -/
abbrev Parsed (α : Type) := α × Option (List Char)

/-- A member that broke off. -/
def brokenMember : String × Tree := ("", .broken)

/-- A member under its name; a name that is no text leaves its value unnamed. -/
def member (name : Option (List Char)) (value : Tree) : String × Tree :=
  match name with
  | some cs => (String.ofList cs, value)
  | none => ("", if value.intact then .unnamed else .broken)

mutual

/-- Reads a value. The fuel bounds the characters ahead. -/
def value : Nat → List Char → Parsed Tree
  | 0, _ => (.broken, none)
  | fuel + 1, cs =>
    match skipSpace cs with
    | '\x7b' :: rest =>
      match skipSpace rest with
      | '\x7d' :: rest => (.table [], some rest)
      | rest =>
        let (ms, rest) := members fuel rest
        (.table ms, rest)
    | '[' :: rest =>
      match skipSpace rest with
      | ']' :: rest => (.list [], some rest)
      | rest =>
        let (ts, rest) := items fuel rest
        (.list ts, rest)
    | '"' :: rest =>
      match stringBody rest with
      | none => (.broken, none)
      | some (some cs, rest) => (.text (String.ofList cs), some rest)
      | some (none, rest) => (.other, some rest)
    | 't' :: 'r' :: 'u' :: 'e' :: rest => (.bool true, some rest)
    | 'f' :: 'a' :: 'l' :: 's' :: 'e' :: rest => (.bool false, some rest)
    | 'n' :: 'u' :: 'l' :: 'l' :: rest => (.other, some rest)
    | cs =>
      match number? cs with
      | none => (.broken, none)
      | some (t, rest) => (t, some rest)

/-- Reads the items of a list up to its closing bracket. -/
def items : Nat → List Char → Parsed (List Tree)
  | 0, _ => ([.broken], none)
  | fuel + 1, cs =>
    match value fuel cs with
    | (t, none) => ([t], none)
    | (t, some rest) =>
      match skipSpace rest with
      | ',' :: rest =>
        let (ts, rest) := items fuel rest
        (t :: ts, rest)
      | ']' :: rest => ([t], some rest)
      | _ => ([t, .broken], none)

/-- Reads the members of a table up to its closing brace. -/
def members : Nat → List Char → Parsed (List (String × Tree))
  | 0, _ => ([brokenMember], none)
  | fuel + 1, cs =>
    match skipSpace cs with
    | '"' :: rest =>
      match stringBody rest with
      | none => ([brokenMember], none)
      | some (name, rest) =>
        match skipSpace rest with
        | ':' :: rest =>
          match value fuel rest with
          | (t, none) => ([member name t], none)
          | (t, some rest) =>
            match skipSpace rest with
            | ',' :: rest =>
              let (ms, rest) := members fuel rest
              (member name t :: ms, rest)
            | '\x7d' :: rest => ([member name t], some rest)
            | _ => ([member name t, brokenMember], none)
        | _ => ([member name .broken], none)
    | _ => ([brokenMember], none)

end

/-- The tree of a text and what follows it. -/
def parse (s : String) : Parsed Tree := value (s.toList.length + 1) s.toList

/-- The tree of a text, and whether the text holds nothing else. -/
def document (s : String) : Tree × Bool :=
  let (tree, rest) := parse s
  (tree, rest.any fun cs => (skipSpace cs).isEmpty)

/-- Reads a value from a text that holds nothing else, given a reader of trees. -/
def readBy {α : Type} (document : String → Tree × Bool) (decode : Tree → Reading α) (s : String) :
    Reading α := do
  let (tree, alone) := document s
  let a ← decode tree
  if alone then .ok a else .error .malformed

/-- Reads a value from a text that holds nothing else. -/
def read {α : Type} (decode : Tree → Reading α) (s : String) : Reading α :=
  readBy document decode s

end GpuPartition.Json
