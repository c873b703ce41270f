/-
Writing trees as JSON, on one line or indented. Of characters, only those are escaped
that JSON does not let stand for themselves.
-/
import GpuPartition.Text.Hex
import GpuPartition.Tree

namespace GpuPartition.Json

/-- How a character stands in a string. -/
def escape (c : Char) : String :=
  match c with
  | '"' => "\\\""
  | '\\' => "\\\\"
  | '\x08' => "\\b"
  | '\x0c' => "\\f"
  | '\n' => "\\n"
  | '\r' => "\\r"
  | '\t' => "\\t"
  | c => if c.toNat < 0x20 then "\\u" ++ Text.hexDigits 4 c.toNat else c.toString

def quote (s : String) : String := "\"" ++ String.join (s.toList.map escape) ++ "\""

mutual

/-- The tree on one line without spaces. What nothing is read from is written as null. -/
def compact : Tree → String
  | .text s => quote s
  | .natural n => toString n
  | .bool b => toString b
  | .list items => "[" ++ ",".intercalate (compactItems items) ++ "]"
  | .table members => "\x7b" ++ ",".intercalate (compactMembers members) ++ "\x7d"
  | .other => "null"
  | .unnamed => "null"
  | .broken => "null"

def compactItems : List Tree → List String
  | [] => []
  | t :: ts => compact t :: compactItems ts

def compactMembers : List (String × Tree) → List String
  | [] => []
  | (name, t) :: ms => (quote name ++ ":" ++ compact t) :: compactMembers ms

end

/-- Lines between brackets, set in by two more spaces than the brackets. -/
def block (indent : String) (opening closing : String) (lines : List String) : String :=
  match lines with
  | [] => opening ++ closing
  | _ => opening ++ "\n" ++ ",\n".intercalate (lines.map ((indent ++ "  ") ++ ·)) ++
    "\n" ++ indent ++ closing

mutual

/-- The tree with one item or member a line, set in by two spaces a level. -/
def pretty (indent : String) : Tree → String
  | .list items => block indent "[" "]" (prettyItems (indent ++ "  ") items)
  | .table members => block indent "\x7b" "\x7d" (prettyMembers (indent ++ "  ") members)
  | t => compact t

def prettyItems (indent : String) : List Tree → List String
  | [] => []
  | t :: ts => pretty indent t :: prettyItems indent ts

def prettyMembers (indent : String) : List (String × Tree) → List String
  | [] => []
  | (name, t) :: ms => (quote name ++ ": " ++ pretty indent t) :: prettyMembers indent ms

end

end GpuPartition.Json
