/-
Natural numbers in decimal digits: reading the value of a run of digits, and
reading a whole text as a number below a limit.
-/

namespace GpuPartition.Text

/-- The value of decimal digits that follow a value already read. -/
def digitsValue (acc : Nat) : List Char → Nat
  | [] => acc
  | c :: cs => digitsValue (acc * 10 + (c.toNat - '0'.toNat)) cs

/-- The digits of an unsigned number that may carry a plus sign, if the text is one. -/
def unsignedDigits? : List Char → Option (List Char)
  | '+' :: ds => if !ds.isEmpty && ds.all Char.isDigit then some ds else none
  | ds => if !ds.isEmpty && ds.all Char.isDigit then some ds else none

/-- Reads an unsigned decimal number below `limit`: a plus sign may come first, leading
zeros are allowed, and nothing else is. -/
def readBelow (limit : Nat) (cs : List Char) : Option Nat :=
  match unsignedDigits? cs with
  | none => none
  | some ds => if digitsValue 0 ds < limit then some (digitsValue 0 ds) else none

end GpuPartition.Text
