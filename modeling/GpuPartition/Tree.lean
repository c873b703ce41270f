/-
Document trees: what a JSON or TOML text says, apart from how it says it. Readers of
either format build trees, the types of the library are read from trees, and the way back
goes through trees too.

A tree keeps the members of a table in the order of the text, repeated names included,
because a value is read from its text front to back and the first fault in the text is the
one that counts. For the same reason a text that stops making sense halfway has a tree: a
`broken` leaf stands at the place where it does.
-/

namespace GpuPartition

inductive Tree where
  | text (s : String)
  | natural (n : Nat)
  | bool (b : Bool)
  | list (items : List Tree)
  | table (members : List (String × Tree))
  /-- A value that nothing is read from: null, a number that is no natural, a date, a string
  whose escapes leave half a surrogate pair. -/
  | other
  /-- The value of a member whose name leaves half a surrogate pair. -/
  | unnamed
  /-- The place where the text is not of its format. -/
  | broken
  deriving Inhabited, Repr

/-- Why no value is read from a text: it is not of the format or not of the expected shape, or a
count it adds up outgrows a machine word. -/
inductive ReadError where
  | malformed
  | overflow
  deriving DecidableEq, Repr

/-- The result of reading. -/
abbrev Reading := Except ReadError

namespace Tree

mutual

/-- Whether no part of the tree is broken. -/
def intact : Tree → Bool
  | broken => false
  | list items => intactItems items
  | table members => intactMembers members
  | _ => true

def intactItems : List Tree → Bool
  | [] => true
  | t :: ts => t.intact && intactItems ts

def intactMembers : List (String × Tree) → Bool
  | [] => true
  | (_, t) :: ms => t.intact && intactMembers ms

end

/-- Passes over a member that is not asked for. It still has to have a name and be of the format. -/
def skip : Tree → Reading Unit
  | unnamed => .error .malformed
  | t => if t.intact then .ok () else .error .malformed

/-- Reads a member into its slot, which takes one value only. -/
def fill {α : Type} (slot : Option α) (read : Tree → Reading α) (t : Tree) : Reading (Option α) :=
  match slot with
  | some _ => .error .malformed
  | none => (read t).map some

/-- The value of a slot that has to be filled. -/
def required {α : Type} (slot : Option α) : Reading α :=
  match slot with
  | some a => .ok a
  | none => .error .malformed

def readText : Tree → Reading String
  | text s => .ok s
  | _ => .error .malformed

def readBool : Tree → Reading Bool
  | bool b => .ok b
  | _ => .error .malformed

/-- Reads a natural number up to `most`. -/
def readNatural (most : Nat) : Tree → Reading Nat
  | natural n => if n ≤ most then .ok n else .error .malformed
  | _ => .error .malformed

def readList {α : Type} (read : Tree → Reading α) : Tree → Reading (List α)
  | list items => items.mapM read
  | _ => .error .malformed

end Tree

end GpuPartition
