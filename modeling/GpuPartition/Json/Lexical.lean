/-
The tokens of JSON that take more than one character: strings and numbers.
-/
import GpuPartition.Text.Hex
import GpuPartition.Text.Natural
import GpuPartition.Tree

namespace GpuPartition.Json

/-! ## Strings -/

def escapeChar? : Char → Option Char
  | '"' => some '"'
  | '\\' => some '\\'
  | '/' => some '/'
  | 'b' => some '\x08'
  | 'f' => some '\x0c'
  | 'n' => some '\n'
  | 'r' => some '\r'
  | 't' => some '\t'
  | _ => none

/-- Whether a code unit is the first half of a surrogate pair. -/
def isHigh (u : Nat) : Bool := 0xD800 ≤ u && u < 0xDC00

/-- Whether a code unit is the second half of a surrogate pair. -/
def isLow (u : Nat) : Bool := 0xDC00 ≤ u && u < 0xE000

/-- The code point of a surrogate pair. -/
def pairValue (high low : Nat) : Nat := 0x10000 + (high - 0xD800) * 0x400 + (low - 0xDC00)

/-- Text and the input after it; the text is missing when it holds half a surrogate pair. -/
abbrev Quoted := Option (Option (List Char) × List Char)

/-- Puts a character in front. -/
def Quoted.push (c : Char) (q : Quoted) : Quoted :=
  q.map fun (text, rest) => (text.map (c :: ·), rest)

/-- Gives up the text, and keeps its end. -/
def Quoted.void (q : Quoted) : Quoted :=
  q.map fun (_, rest) => (none, rest)

/-- Gives up the text if a first half of a surrogate pair is still waiting for its second. -/
def Quoted.settle (high : Option Nat) (q : Quoted) : Quoted :=
  match high with
  | none => q
  | some _ => q.void

/-- Puts the character of a code unit in front, given what follows it. -/
def Quoted.pushUnit (u : Nat) (q : Quoted) : Quoted :=
  if isLow u then q.void else q.push (Char.ofNat u)

/-- Reads a string up to its closing quote. Two escapes that make a surrogate pair stand for one
character; `high` is the first half of such a pair when it has just been read. -/
def stringFrom : (high : Option Nat) → List Char → Quoted
  | _, [] => none
  | high, '"' :: rest => .settle high (some (some [], rest))
  | high, '\\' :: 'u' :: a :: b :: c :: d :: rest =>
    match Text.hexValue? [a, b, c, d], high with
    | none, _ => none
    | some u, none =>
      if isHigh u then stringFrom (some u) rest else .pushUnit u (stringFrom none rest)
    | some u, some h =>
      if isLow u then .push (Char.ofNat (pairValue h u)) (stringFrom none rest)
      else .void (stringFrom none rest)
  | high, '\\' :: c :: rest =>
    match escapeChar? c with
    | none => none
    | some e => .settle high (.push e (stringFrom none rest))
  | high, c :: rest =>
    if c.toNat < 0x20 then none else .settle high (.push c (stringFrom none rest))

/-- Reads a string from behind its opening quote. -/
def stringBody (cs : List Char) : Quoted := stringFrom none cs

/-! ## Numbers -/

def spanDigits (cs : List Char) : List Char × List Char :=
  (cs.takeWhile Char.isDigit, cs.dropWhile Char.isDigit)

/-- The digits before the point: a single zero, or digits that start with another one. -/
def wholePart? (cs : List Char) : Option (List Char × List Char) :=
  match cs with
  | '0' :: rest => some (['0'], rest)
  | _ => match spanDigits cs with
    | ([], _) => none
    | r => some r

/-- Passes over digits, of which there has to be one at least. -/
def someDigits? (cs : List Char) : Option (List Char) :=
  match spanDigits cs with
  | ([], _) => none
  | (_, rest) => some rest

/-- Passes over a fraction, if one follows; the flag tells whether one did. -/
def fraction? (cs : List Char) : Option (Bool × List Char) :=
  match cs with
  | '.' :: rest => (someDigits? rest).map (true, ·)
  | _ => some (false, cs)

def dropSign : List Char → List Char
  | '+' :: rest => rest
  | '-' :: rest => rest
  | rest => rest

/-- Passes over an exponent, if one follows; the flag tells whether one did. -/
def exponent? (cs : List Char) : Option (Bool × List Char) :=
  match cs with
  | 'e' :: rest => (someDigits? (dropSign rest)).map (true, ·)
  | 'E' :: rest => (someDigits? (dropSign rest)).map (true, ·)
  | _ => some (false, cs)

/-- Reads a number without its sign; only one without fraction and exponent is a natural. -/
def unsigned? (cs : List Char) : Option (Tree × List Char) := do
  let (digits, rest) ← wholePart? cs
  let (fractional, rest) ← fraction? rest
  let (exponential, rest) ← exponent? rest
  return (if fractional || exponential then .other else .natural (Text.digitsValue 0 digits), rest)

def number? : List Char → Option (Tree × List Char)
  | '-' :: rest => (unsigned? rest).map fun (_, rest) => (.other, rest)
  | cs => unsigned? cs

end GpuPartition.Json
