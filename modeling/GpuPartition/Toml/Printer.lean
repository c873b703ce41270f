/-
Writing trees as TOML. Members that are tables and lists of tables become sections, in the
order of the members and behind the other members of their table; a table gets a header if
it is empty or has other members. Lists of two or more items are written one item a line.
-/
import GpuPartition.Toml.Number

namespace GpuPartition.Toml

/-! ## Strings -/

/-- What a text holds that matters to quoting it: control characters other than tab and line feed,
backslashes, line feeds, and the longest runs of quotes. -/
structure Traits where
  control : Bool
  backslash : Bool
  lineFeed : Bool
  doubles : Nat
  singles : Nat

/-- The length of the longest run of a character; `run` is the run that is going on. -/
def longestRun (c : Char) (run : Nat) : List Char → Nat
  | [] => run
  | d :: rest => if c = d then longestRun c (run + 1) rest else max run (longestRun c 0 rest)

/-- Whether a character can only be written by its code. -/
def isControl (c : Char) : Bool :=
  (c.toNat < 0x20 && c ≠ '\t' && c ≠ '\n') || c.toNat = 0x7F

def traits (cs : List Char) : Traits where
  control := cs.any isControl
  backslash := cs.contains '\\'
  lineFeed := cs.contains '\n'
  doubles := longestRun '"' 0 cs
  singles := longestRun '\'' 0 cs

/-- How a character stands in a basic string. -/
def escape (c : Char) : String :=
  match c with
  | '\x08' => "\\b"
  | '\t' => "\\t"
  | '\n' => "\\n"
  | '\x0c' => "\\f"
  | '\r' => "\\r"
  | '"' => "\\\""
  | '\\' => "\\\\"
  | c => if isControl c then "\\u" ++ (Text.hexDigits 4 c.toNat).toUpper else c.toString

def quoteBasic (cs : List Char) : String := "\"" ++ String.join (cs.map escape) ++ "\""

def quoteLiteral (cs : List Char) : String := "'" ++ String.ofList cs ++ "'"

/-- The characters of a multi-line basic string. Line feeds stand for themselves, and so do quotes
up to two in a row; `quotes` of them have just gone by. -/
def escapeMultiline (quotes : Nat) : List Char → String
  | [] => ""
  | '\n' :: rest => "\n" ++ escapeMultiline 0 rest
  | '"' :: rest =>
    if quotes < 2 then "\"" ++ escapeMultiline (quotes + 1) rest
    else "\\\"" ++ escapeMultiline 0 rest
  | c :: rest => escape c ++ escapeMultiline 0 rest

/-- A string over several lines, the first of which is empty if there is a line feed. -/
def multiline (delimiter : String) (t : Traits) (content : String) : String :=
  delimiter ++ (if t.lineFeed then "\n" else "") ++ content ++ delimiter

/-- A string in the plainest quotes that need no escapes, and in double quotes if there are
none. -/
def quote (s : String) : String :=
  let cs := s.toList
  let t := traits cs
  if !t.control && !t.backslash && t.doubles = 0 && !t.lineFeed then quoteBasic cs
  else if !t.control && t.singles = 0 && !t.lineFeed then quoteLiteral cs
  else if !t.control && !t.backslash && t.doubles ≤ 2 then
    multiline "\"\"\"" t (escapeMultiline 0 cs)
  else if !t.control && t.singles ≤ 2 then multiline "'''" t s
  else if t.lineFeed then multiline "\"\"\"" t (escapeMultiline 0 cs)
  else quoteBasic cs

/-- Whether a character may stand in a key without quotes. -/
def isBare (c : Char) : Bool := c.isAlphanum || c == '-' || c == '_'

/-- A part of a key, in quotes only where it needs them. -/
def keyPart (s : String) : String :=
  let cs := s.toList
  let t := traits cs
  let control := t.control || t.lineFeed
  if !cs.isEmpty && cs.all isBare then s
  else if !control && !t.backslash && t.doubles = 0 then quoteBasic cs
  else if !control && t.singles = 0 then quoteLiteral cs
  else quoteBasic cs

def key (path : List String) : String := ".".intercalate (path.map keyPart)

/-! ## Values -/

/-- Brackets around items, on one line up to one item and on a line each from two on. -/
def brackets : List String → String
  | [] => "[]"
  | [item] => "[" ++ item ++ "]"
  | items => "[\n" ++ String.join (items.map fun item => "    " ++ item ++ ",\n") ++ "]"

/-- Braces around members. -/
def braces : List String → String
  | [] => "\x7b\x7d"
  | members => "\x7b " ++ ", ".intercalate members ++ " \x7d"

mutual

/-- A value, unless there is no way to write it. -/
def valueText? : Tree → Option String
  | .text s => some (quote s)
  | .natural n => if n < integerLimit then some (toString n) else none
  | .bool b => some (toString b)
  | .list items => (valueTexts? items).map brackets
  | .table members => (pairTexts? members).map braces
  | _ => none

def valueTexts? : List Tree → Option (List String)
  | [] => some []
  | t :: ts => do return (← valueText? t) :: (← valueTexts? ts)

/-- Each of several members, as a key with its value. -/
def pairTexts? : List (String × Tree) → Option (List String)
  | [] => some []
  | (name, t) :: ms => do return (keyPart name ++ " = " ++ (← valueText? t)) :: (← pairTexts? ms)

end

/-! ## Documents -/

def isTable : Tree → Bool
  | .table _ => true
  | _ => false

/-- Whether a member is written as a section or several. -/
def isSection : Tree → Bool
  | .table _ => true
  | .list (t :: ts) => (t :: ts).all isTable
  | _ => false

/-- The assignments of a table, below its header if it has one. -/
def assignments? (header : Option String) (members : List (String × Tree)) :
    Option (List String) := do
  let pairs ← pairTexts? (members.filter fun m => !isSection m.2)
  let lines := header.toList ++ pairs
  return if lines.isEmpty then [] else [String.join (lines.map (· ++ "\n"))]

/-- The header of a table that has to have one. -/
def tableHeader (path : List String) (members : List (String × Tree)) : Option String :=
  if members.isEmpty || members.any (fun m => !isSection m.2) then some ("[" ++ key path ++ "]")
  else none

mutual

/-- The sections of a member, none if it is not written so. -/
def sections? (path : List String) : Tree → Option (List String)
  | .table members => do
    return (← assignments? (tableHeader path members) members) ++ (← memberSections? path members)
  | .list items => if isSection (.list items) then itemSections? path items else some []
  | _ => some []

def itemSections? (path : List String) : List Tree → Option (List String)
  | [] => some []
  | .table members :: ts => do
    return (← assignments? (some ("[[" ++ key path ++ "]]")) members) ++
      (← memberSections? path members) ++ (← itemSections? path ts)
  | _ :: _ => none

def memberSections? (path : List String) : List (String × Tree) → Option (List String)
  | [] => some []
  | (name, t) :: ms => do
    return (← sections? (path ++ [name]) t) ++ (← memberSections? path ms)

end

/-- A document, unless its tree is no table or holds what TOML has no way to write. Sections are
separated by an empty line. -/
def print? : Tree → Option String
  | .table members => do
    return "\n".intercalate ((← assignments? none members) ++ (← memberSections? [] members))
  | _ => none

end GpuPartition.Toml
