/-
Columns of text: setting a text to the left, to the right or in the middle of a column of
so many characters. A text that is too long for its column is kept whole.
-/

namespace GpuPartition.Text

/-- So many times the same character. -/
def run (n : Nat) (c : Char) : String := String.ofList (List.replicate n c)

/-- The text at the left of its column. -/
def atLeft (width : Nat) (s : String) : String := s ++ run (width - s.length) ' '

/-- The text at the right of its column. -/
def atRight (width : Nat) (s : String) : String := run (width - s.length) ' ' ++ s

/-- The text in the middle of its column, nearer to the left if it cannot be exact. -/
def centred (width : Nat) (s : String) : String :=
  let blanks := width - s.length
  run (blanks / 2) ' ' ++ s ++ run (blanks - blanks / 2) ' '

end GpuPartition.Text
