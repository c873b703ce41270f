/-
Numbers and dates in TOML. An integer has 64 bits and may be written in decimal with a
sign, or in hexadecimal, octal or binary. Floats and dates are checked for their form, and
a float for being finite in the upward direction, but their values are not kept.
-/
import GpuPartition.Text.Natural
import GpuPartition.Toml.Lexical
import GpuPartition.Tree

namespace GpuPartition.Toml

/-! ## Runs of digits -/

/-- Continues a run of digits, in which single underscores may stand between digits. -/
def moreDigits (isDigit : Char → Bool) : List Char → List Char × List Char
  | '_' :: c :: rest =>
    if isDigit c then
      let (ds, rest) := moreDigits isDigit rest
      (c :: ds, rest)
    else ([], '_' :: c :: rest)
  | c :: rest =>
    if isDigit c then
      let (ds, rest) := moreDigits isDigit rest
      (c :: ds, rest)
    else ([], c :: rest)
  | [] => ([], [])

def digits? (isDigit : Char → Bool) : List Char → Option (List Char × List Char)
  | c :: rest =>
    if isDigit c then
      let (ds, rest) := moreDigits isDigit rest
      some (c :: ds, rest)
    else none
  | [] => none

/-- Reads a decimal number without sign: a zero alone, or digits that start with another one. -/
def decimal? : List Char → Option (List Char × List Char)
  | '0' :: rest => some (['0'], rest)
  | cs => digits? Char.isDigit cs

/-- Drops a sign; the flag tells whether it was a minus. -/
def sign : List Char → Bool × List Char
  | '-' :: rest => (true, rest)
  | '+' :: rest => (false, rest)
  | cs => (false, cs)

/-! ## Integers -/

def valueIn (base : Nat) (ds : List Char) : Nat :=
  ds.foldl (fun acc c => acc * base + (Text.hexDigit? c).getD 0) 0

/-- One above the greatest integer of TOML; the least one is its negative. -/
def integerLimit : Nat := UInt64.size / 2

/-- Reads the digits behind the sign of a base; the value has to fit. -/
def based? (base : Nat) (isDigit : Char → Bool) (cs : List Char) :
    Option (Tree × List Char) := do
  let (ds, rest) ← digits? isDigit cs
  if valueIn base ds < integerLimit then return (.natural (valueIn base ds), rest) else none

/-- Reads a decimal integer, which has to fit. -/
def signed? (cs : List Char) : Option (Tree × List Char) := do
  let (negative, cs) := sign cs
  let (ds, rest) ← decimal? cs
  let n := Text.digitsValue 0 ds
  if negative then
    if n = 0 then return (.natural 0, rest)
    else if n ≤ integerLimit then return (.other, rest)
    else none
  else if n < integerLimit then return (.natural n, rest) else none

def integer? : List Char → Option (Tree × List Char)
  | '0' :: 'x' :: rest => based? 16 (fun c => (Text.hexDigit? c).isSome) rest
  | '0' :: 'o' :: rest => based? 8 (fun c => '0' ≤ c ∧ c ≤ '7') rest
  | '0' :: 'b' :: rest => based? 2 (fun c => c = '0' ∨ c = '1') rest
  | cs => signed? cs

/-! ## Floats -/

/-- The least number that double precision rounds to infinity: halfway from the greatest finite
number to the next power of two. -/
def leastInfinite : Nat := Nat.pow 2 1024 - Nat.pow 2 970

/-- Whether `n · 10^e` is rounded to infinity in double precision. -/
def isInfinite (n : Nat) (e : Int) : Bool :=
  let digits : Int := (toString n).length + e
  if n = 0 ∨ digits < 300 then false
  else if 320 < digits then true
  else if 0 ≤ e then leastInfinite ≤ n * Nat.pow 10 e.toNat
  else leastInfinite * Nat.pow 10 (-e).toNat ≤ n

def exponent? (cs : List Char) : Option (Int × List Char) := do
  let (negative, cs) := sign cs
  let (ds, rest) ← digits? Char.isDigit cs
  let n : Int := Text.digitsValue 0 ds
  return (if negative then -n else n, rest)

/-- Drops the letter of an exponent. -/
def exponentMark? : List Char → Option (List Char)
  | 'e' :: rest => some rest
  | 'E' :: rest => some rest
  | _ => none

/-- Reads what makes a number a float: a fraction, an exponent or both. -/
def floatTail? (cs : List Char) : Option ((List Char × Int) × List Char) :=
  match cs with
  | '.' :: cs => do
    let (ds, rest) ← digits? Char.isDigit cs
    match exponentMark? rest with
    | none => return ((ds, 0), rest)
    | some cs =>
      let (e, rest) ← exponent? cs
      return ((ds, e), rest)
  | cs => do
    let (e, rest) ← exponent? (← exponentMark? cs)
    return (([], e), rest)

/-- Reads a float in digits. -/
def digitsFloat? (cs : List Char) : Option (Tree × List Char) := do
  let (negative, cs) := sign cs
  let (whole, rest) ← decimal? cs
  let ((fraction, e), rest) ← floatTail? rest
  let n := Text.digitsValue 0 (whole ++ fraction)
  if !negative && isInfinite n (e - fraction.length) then none else return (.other, rest)

/-- Reads infinity or the like by name. -/
def namedFloat? (cs : List Char) : Option (Tree × List Char) :=
  match (sign cs).2 with
  | 'i' :: 'n' :: 'f' :: rest => some (.other, rest)
  | 'n' :: 'a' :: 'n' :: rest => some (.other, rest)
  | _ => none

/-! ## Dates and times -/

/-- Reads a number of exactly two digits between bounds. -/
def twoDigits? (least most : Nat) : List Char → Option (Nat × List Char)
  | a :: b :: rest =>
    let n := Text.digitsValue 0 [a, b]
    if a.isDigit ∧ b.isDigit ∧ least ≤ n ∧ n ≤ most then some (n, rest) else none
  | _ => none

def char? (c : Char) : List Char → Option (List Char)
  | d :: rest => if c = d then some rest else none
  | [] => none

def isLeapYear (year : Nat) : Bool :=
  year % 4 = 0 && (year % 100 ≠ 0 || year % 400 = 0)

def daysIn (year month : Nat) : Nat :=
  if month = 2 then (if isLeapYear year then 29 else 28)
  else if month ∈ [4, 6, 9, 11] then 30 else 31

def date? : List Char → Option (List Char)
  | a :: b :: c :: d :: cs => do
    if [a, b, c, d].any (!·.isDigit) then none
    else
      let year := Text.digitsValue 0 [a, b, c, d]
      let (month, cs) ← twoDigits? 1 12 (← char? '-' cs)
      let (_, cs) ← twoDigits? 1 (daysIn year month) (← char? '-' cs)
      return cs
  | _ => none

def dropFraction (cs : List Char) : List Char :=
  match cs with
  | '.' :: c :: rest => if c.isDigit then rest.dropWhile Char.isDigit else cs
  | _ => cs

/-- Drops a time of day. A minute may have a leap second. -/
def time? (cs : List Char) : Option (List Char) := do
  let (_, cs) ← twoDigits? 0 23 cs
  let (_, cs) ← twoDigits? 0 59 (← char? ':' cs)
  let (_, cs) ← twoDigits? 0 60 (← char? ':' cs)
  return dropFraction cs

/-- Drops an offset in hours and minutes. -/
def offset? (cs : List Char) : Option (List Char) := do
  let (_, cs) ← twoDigits? 0 23 cs
  let (_, cs) ← twoDigits? 0 59 (← char? ':' cs)
  return cs

/-- Drops the offset from universal time, if one follows. -/
def dropOffset (cs : List Char) : List Char :=
  match cs with
  | 'Z' :: rest => rest
  | 'z' :: rest => rest
  | '+' :: rest => (offset? rest).getD cs
  | '-' :: rest => (offset? rest).getD cs
  | _ => cs

/-- Drops the time after a date, if one follows. -/
def dropTime (cs : List Char) : List Char :=
  match cs with
  | c :: rest =>
    if c = 'T' ∨ c = 't' ∨ c = ' ' then ((time? rest).map dropOffset).getD cs else cs
  | [] => cs

/-- Reads a date, a time, or both. -/
def dateTime? (cs : List Char) : Option (Tree × List Char) :=
  match date? cs with
  | some rest => some (.other, dropTime rest)
  | none => (time? cs).map (.other, ·)

/-! ## Any of them -/

/-- Reads a date, a float or an integer, whichever fits first in this order. -/
def number? (cs : List Char) : Option (Tree × List Char) :=
  dateTime? cs <|> digitsFloat? cs <|> namedFloat? cs <|> integer? cs

end GpuPartition.Toml
