/-
The parts of TOML below values: white space, comments and the ends of lines, strings of
all four kinds, and keys. A parser gives what it read and the rest of the input, or `none`.
-/
import GpuPartition.Text.Hex

namespace GpuPartition.Toml

/-! ## Lines -/

def isSpace (c : Char) : Bool := c == ' ' || c == '\t'

def skipSpace (cs : List Char) : List Char := cs.dropWhile isSpace

/-- Characters that may stand in a comment: all but control characters other than the tab. -/
def isPlain (c : Char) : Bool := c == '\t' || (0x20 ≤ c.toNat && c.toNat ≠ 0x7F)

/-- Drops the end of a line, LF or CR LF. -/
def newline? : List Char → Option (List Char)
  | '\n' :: rest => some rest
  | '\r' :: '\n' :: rest => some rest
  | _ => none

/-- Drops a comment up to the end of its line. -/
def skipComment : List Char → List Char
  | '#' :: rest => rest.dropWhile isPlain
  | cs => cs

/-- Drops the rest of a line that has nothing more to say. -/
def lineEnd? (cs : List Char) : Option (List Char) :=
  match skipComment (skipSpace cs) with
  | [] => some []
  | cs => newline? cs

/-- Drops blanks and the ends of lines. -/
def skipBlankLines : List Char → List Char
  | ' ' :: rest => skipBlankLines rest
  | '\t' :: rest => skipBlankLines rest
  | '\n' :: rest => skipBlankLines rest
  | '\r' :: '\n' :: rest => skipBlankLines rest
  | cs => cs

/-- Drops blanks, the ends of lines and whole comments; `comment` tells whether one is open. -/
def skipFiller : (comment : Bool) → List Char → List Char
  | _, [] => []
  | _, '\n' :: rest => skipFiller false rest
  | _, '\r' :: '\n' :: rest => skipFiller false rest
  | true, c :: rest => if isPlain c then skipFiller true rest else c :: rest
  | false, c :: rest =>
    if isSpace c then skipFiller false rest
    else if c == '#' then skipFiller true rest
    else c :: rest

/-! ## Strings -/

/-- Puts a character in front of what is read. -/
def push (c : Char) (p : Option (List Char × List Char)) : Option (List Char × List Char) :=
  p.map fun (cs, rest) => (c :: cs, rest)

def escapeChar? : Char → Option Char
  | '"' => some '"'
  | '\\' => some '\\'
  | 'b' => some '\x08'
  | 'f' => some '\x0c'
  | 'n' => some '\n'
  | 'r' => some '\r'
  | 't' => some '\t'
  | _ => none

/-- The character that the hexadecimal digits of an escape name. -/
def hexChar? (digits : List Char) : Option Char := do Text.charOf? (← Text.hexValue? digits)

/-- Reads an escape from behind its backslash. -/
def escape? : List Char → Option (Char × List Char)
  | 'u' :: a :: b :: c :: d :: rest => (hexChar? [a, b, c, d]).map (·, rest)
  | 'U' :: a :: b :: c :: d :: e :: f :: g :: h :: rest =>
    (hexChar? [a, b, c, d, e, f, g, h]).map (·, rest)
  | c :: rest => (escapeChar? c).map (·, rest)
  | [] => none

/-- Reads a basic string on one line, from behind its opening quote. The fuel bounds the
characters ahead. -/
def basicBody : Nat → List Char → Option (List Char × List Char)
  | 0, _ => none
  | fuel + 1, cs =>
    match cs with
    | [] => none
    | '"' :: rest => some ([], rest)
    | '\\' :: rest =>
      match escape? rest with
      | none => none
      | some (c, rest) => push c (basicBody fuel rest)
    | c :: rest => if isPlain c then push c (basicBody fuel rest) else none

/-- Reads a literal string on one line, from behind its opening quote. -/
def literalBody : List Char → Option (List Char × List Char)
  | [] => none
  | '\'' :: rest => some ([], rest)
  | c :: rest => if isPlain c then push c (literalBody rest) else none

/-- Reads the end of a multi-line string from behind three quotes: up to two more before them
belong to the text. -/
def closeMultiline (quote : Char) : List Char → Option (List Char × List Char)
  | a :: b :: rest =>
    if a = quote then
      if b = quote then some ([quote, quote], rest) else some ([quote], b :: rest)
    else some ([], a :: b :: rest)
  | [a] => if a = quote then some ([quote], []) else some ([], [a])
  | [] => some ([], [])

/-- Reads a multi-line basic string, from behind its opening quotes and the end of line after
them. A backslash at the end of a line drops everything up to the next visible character. The
fuel bounds the characters ahead. -/
def multilineBasicBody : Nat → List Char → Option (List Char × List Char)
  | 0, _ => none
  | fuel + 1, cs =>
    match cs with
    | [] => none
    | '"' :: '"' :: '"' :: rest => closeMultiline '"' rest
    | '\\' :: rest =>
      match newline? (skipSpace rest) with
      | some rest => multilineBasicBody fuel (skipBlankLines rest)
      | none =>
        match escape? rest with
        | none => none
        | some (c, rest) => push c (multilineBasicBody fuel rest)
    | '\n' :: rest => push '\n' (multilineBasicBody fuel rest)
    | '\r' :: '\n' :: rest => push '\n' (multilineBasicBody fuel rest)
    | c :: rest => if isPlain c then push c (multilineBasicBody fuel rest) else none

/-- Reads a multi-line literal string, from behind its opening quotes and the end of line after
them. -/
def multilineLiteralBody : List Char → Option (List Char × List Char)
  | [] => none
  | '\'' :: '\'' :: '\'' :: rest => closeMultiline '\'' rest
  | '\n' :: rest => push '\n' (multilineLiteralBody rest)
  | '\r' :: '\n' :: rest => push '\n' (multilineLiteralBody rest)
  | c :: rest => if isPlain c then push c (multilineLiteralBody rest) else none

def dropNewline (cs : List Char) : List Char := (newline? cs).getD cs

/-- The text of the characters of a string. -/
def text? (body : Option (List Char × List Char)) : Option (String × List Char) :=
  body.map fun (cs, rest) => (String.ofList cs, rest)

def string? : List Char → Option (String × List Char)
  | '"' :: '"' :: '"' :: rest => text? (multilineBasicBody (rest.length + 1) (dropNewline rest))
  | '"' :: rest => text? (basicBody (rest.length + 1) rest)
  | '\'' :: '\'' :: '\'' :: rest => text? (multilineLiteralBody (dropNewline rest))
  | '\'' :: rest => text? (literalBody rest)
  | _ => none

/-! ## Keys -/

def isBareKeyChar (c : Char) : Bool := c.isAlphanum || c == '-' || c == '_'

/-- Reads one part of a key: in single or double quotes, or bare. -/
def simpleKey? : List Char → Option (String × List Char)
  | '"' :: rest => (basicBody (rest.length + 1) rest).map fun (cs, r) => (String.ofList cs, r)
  | '\'' :: rest => (literalBody rest).map fun (cs, r) => (String.ofList cs, r)
  | cs =>
    match cs.takeWhile isBareKeyChar with
    | [] => none
    | key => some (String.ofList key, cs.dropWhile isBareKeyChar)

/-- Reads a key of up to `most` parts with dots between them and blanks around each. The last
part comes apart from the others. -/
def key? : (most : Nat) → List Char → Option ((List String × String) × List Char)
  | 0, _ => none
  | most + 1, cs => do
    let (part, rest) ← simpleKey? (skipSpace cs)
    match skipSpace rest with
    | '.' :: rest => do
      let ((parts, last), rest) ← key? most rest
      return ((part :: parts, last), rest)
    | rest => return (([], part), rest)

end GpuPartition.Toml
