/-
JSON read back. The reader of JSON undoes the writer: from the text of a tree that is data, a tree
without values that nothing is read from, it gives that tree and leaves nothing over
(`Json.parse_compact`). What is read from the text is then what is read from the tree
(`Json.read_compact`).

The reader is not told where a value ends, so each lemma puts a rest behind the text that it is
about; behind a number, the rest must not go on with it (`Json.Ends`). The fuel of the reader only
has to cover the text.
-/
import GpuPartition.Json.Printer
import GpuPartition.Json.Reader
import GpuPartition.Proofs.Numeral
import GpuPartition.Proofs.Reading

namespace GpuPartition

namespace Tree

mutual

/-- Whether every part of the tree says something. -/
def isData : Tree → Bool
  | text _ => true
  | natural _ => true
  | bool _ => true
  | list items => areData items
  | table members => membersAreData members
  | _ => false

def areData : List Tree → Bool
  | [] => true
  | t :: ts => t.isData && areData ts

def membersAreData : List (String × Tree) → Bool
  | [] => true
  | (_, t) :: ms => t.isData && membersAreData ms

end

end Tree

namespace Json

variable {cs rest : List Char} {fuel : Nat}

/-! ## Strings -/

theorem stringFrom_unit {a b c d : Char} {u : Nat} (h : Text.hexValue? [a, b, c, d] = some u) :
    stringFrom none ('\\' :: 'u' :: a :: b :: c :: d :: rest) =
      if isHigh u then stringFrom (some u) rest else .pushUnit u (stringFrom none rest) := by
  rw [stringFrom.eq_def]
  simp only [h]

/-- A character below the blank is read from its four hexadecimal digits. -/
theorem stringFrom_code {c : Char} (h : c.toNat < 0x20) (rest : List Char) :
    stringFrom none (("\\u" ++ Text.hexDigits 4 c.toNat).toList ++ rest) =
      .push c (stringFrom none rest) := by
  have hvalue : Text.hexValue? ((List.range 4).reverse.map fun i =>
      Nat.digitChar (c.toNat / Nat.pow 16 i % 16)) = some c.toNat := by
    rw [Text.hexValue?_map Nat.digitChar fun _ => Text.hexDigit?_digitChar]
    congr 1
    omega
  have hhigh : isHigh c.toNat = false := by simp [isHigh]; omega
  have hlow : isLow c.toNat = false := by simp [isLow]; omega
  rw [String.toList_append, Text.toList_hexDigits, List.append_assoc]
  refine (stringFrom_unit hvalue).trans ?_
  simp [hhigh, Quoted.pushUnit, hlow, Char.ofNat_toNat]

/-- A character that needs no escape stands for itself. -/
theorem stringFrom_plain {c : Char} (hquote : c ≠ '"') (hbackslash : c ≠ '\\')
    (hplain : ¬ c.toNat < 0x20) (rest : List Char) :
    stringFrom none (c :: rest) = .push c (stringFrom none rest) := by
  rw [stringFrom, if_neg hplain]
  · rfl
  · exact hquote
  · exact fun _ _ _ _ _ h _ => hbackslash h
  · exact fun _ _ h _ => hbackslash h

/-- An escape is read as the character it stands for. -/
theorem stringFrom_escape (c : Char) (rest : List Char) :
    stringFrom none ((escape c).toList ++ rest) = .push c (stringFrom none rest) := by
  unfold escape
  split
  case h_8 hquote hbackslash _ _ _ _ _ =>
    split
    next hlow => exact stringFrom_code hlow rest
    next hplain =>
      have hself : c.toString.toList ++ rest = c :: rest := by simp
      rw [hself]
      exact stringFrom_plain hquote hbackslash hplain rest
  all_goals rfl

/-- A text without its opening quote, as it is written. -/
theorem stringBody_escaped (cs rest : List Char) :
    stringBody ((String.join (cs.map escape)).toList ++ '"' :: rest) = some (some cs, rest) := by
  rw [stringBody]
  induction cs with
  | nil => rfl
  | cons c cs ih =>
    rw [List.map_cons, String.join_cons, String.toList_append, List.append_assoc,
      stringFrom_escape, ih]
    rfl

theorem toList_quote (s : String) :
    (quote s).toList = '"' :: ((String.join (s.toList.map escape)).toList ++ ['"']) := by
  simp [quote]

/-! ## Numbers -/

/-- What follows a number does not go on with it. -/
def Ends (rest : List Char) : Prop :=
  ∀ c ∈ rest.head?, c.isDigit = false ∧ c ≠ '.' ∧ c ≠ 'e' ∧ c ≠ 'E'

theorem Ends.spanDigits {digits : List Char} (hdigits : ∀ c ∈ digits, c.isDigit = true)
    (h : Ends rest) : spanDigits (digits ++ rest) = (digits, rest) := by
  have hrest : rest.takeWhile Char.isDigit = [] ∧ rest.dropWhile Char.isDigit = rest := by
    cases rest with
    | nil => exact ⟨rfl, rfl⟩
    | cons c rest => simp [(h c rfl).1]
  rw [Json.spanDigits, List.takeWhile_append_of_pos hdigits, List.dropWhile_append_of_pos hdigits,
    hrest.1, hrest.2, List.append_nil]

theorem Ends.fraction? (h : Ends rest) : fraction? rest = some (false, rest) := by
  unfold Json.fraction?
  split
  next => exact absurd rfl (h _ rfl).2.1
  next => rfl

theorem Ends.exponent? (h : Ends rest) : exponent? rest = some (false, rest) := by
  unfold Json.exponent?
  split
  next => exact absurd rfl (h _ rfl).2.2.1
  next => exact absurd rfl (h _ rfl).2.2.2
  next => rfl

theorem wholePart?_toDigits (n : Nat) (h : Ends rest) :
    wholePart? (Nat.toDigits 10 n ++ rest) = some (Nat.toDigits 10 n, rest) := by
  have hspan := h.spanDigits fun c => Text.isDigit_of_mem_toDigits (n := n)
  obtain ⟨c, cs, hdigits, -⟩ := Text.exists_toDigits_eq_cons n
  rw [hdigits] at hspan ⊢
  unfold wholePart?
  split
  next hzero =>
    obtain ⟨rfl, rfl⟩ := List.cons.inj hzero
    rw [Text.toDigits_eq_zero_cons hdigits]
    rfl
  next => simp only [hspan]

theorem number?_toDigits (n : Nat) (h : Ends rest) :
    number? (Nat.toDigits 10 n ++ rest) = some (.natural n, rest) := by
  have hunsigned : unsigned? (Nat.toDigits 10 n ++ rest) = some (.natural n, rest) := by
    simp [unsigned?, wholePart?_toDigits n h, h.fraction?, h.exponent?, Text.digitsValue_toDigits]
  obtain ⟨c, cs, hdigits, hdigit⟩ := Text.exists_toDigits_eq_cons n
  rw [hdigits] at hunsigned ⊢
  unfold number?
  split
  next hminus =>
    obtain ⟨rfl, -⟩ := List.cons.inj hminus
    exact absurd hdigit (by decide)
  next => exact hunsigned

/-! ## Values -/

theorem skipSpace_cons {c : Char} (h : isSpace c = false) : skipSpace (c :: cs) = c :: cs := by
  simp [skipSpace, h]

theorem isSpace_of_isDigit {c : Char} (h : c.isDigit = true) : isSpace c = false := by
  have := Text.isDigit_iff.1 h
  simp [isSpace, Char.ext_iff, UInt32.ext_iff]
  omega

theorem value_of_isDigit {c : Char} (h : c.isDigit = true) {t : Tree}
    (hnumber : number? (c :: cs) = some (t, rest)) :
    value (fuel + 1) (c :: cs) = (t, some rest) := by
  rw [value, skipSpace_cons (isSpace_of_isDigit h)]
  split
  next heq => exact absurd (List.cons.inj heq).1 (Text.ne_of_isDigit h rfl)
  next heq => exact absurd (List.cons.inj heq).1 (Text.ne_of_isDigit h rfl)
  next heq => exact absurd (List.cons.inj heq).1 (Text.ne_of_isDigit h rfl)
  next heq => exact absurd (List.cons.inj heq).1 (Text.ne_of_isDigit h rfl)
  next heq => exact absurd (List.cons.inj heq).1 (Text.ne_of_isDigit h rfl)
  next heq => exact absurd (List.cons.inj heq).1 (Text.ne_of_isDigit h rfl)
  next => rw [hnumber]

/-! ## Lists and tables

The text of a list or a table is a bracket, the texts of what it holds with commas between them,
and a closing bracket. -/

theorem toList_compact_list (items : List Tree) : (compact (.list items)).toList =
    '[' :: ((",".intercalate (compactItems items)).toList ++ [']']) := by
  simp [compact]

theorem toList_compact_table (members : List (String × Tree)) : (compact (.table members)).toList =
    '\x7b' :: ((",".intercalate (compactMembers members)).toList ++ ['\x7d']) := by
  simp [compact]

/-- A value does not start like the end of a list, nor with a blank. -/
theorem compact_opens (t : Tree) :
    ∃ c cs, (compact t).toList = c :: cs ∧ isSpace c = false ∧ c ≠ ']' := by
  cases t with
  | text s => exact ⟨_, _, toList_quote s, rfl, by decide⟩
  | natural n =>
    obtain ⟨c, cs, hdigits, hdigit⟩ := Text.exists_toDigits_eq_cons n
    exact ⟨c, cs, (Text.toList_toString n).trans hdigits, isSpace_of_isDigit hdigit,
      Text.ne_of_isDigit hdigit rfl⟩
  | bool b => cases b <;> exact ⟨_, _, rfl, rfl, by decide⟩
  | list items => exact ⟨_, _, toList_compact_list items, rfl, by decide⟩
  | table members => exact ⟨_, _, toList_compact_table members, rfl, by decide⟩
  | other => exact ⟨_, _, rfl, rfl, by decide⟩
  | unnamed => exact ⟨_, _, rfl, rfl, by decide⟩
  | broken => exact ⟨_, _, rfl, rfl, by decide⟩

theorem toList_compactItems_singleton (t : Tree) :
    (",".intercalate (compactItems [t])).toList = (compact t).toList := by
  simp [compactItems]

theorem toList_compactItems_cons (t t' : Tree) (ts : List Tree) :
    (",".intercalate (compactItems (t :: t' :: ts))).toList =
      (compact t).toList ++ ',' :: (",".intercalate (compactItems (t' :: ts))).toList := by
  simp [compactItems, String.intercalate_cons_cons]

theorem toList_compactMembers_singleton (name : String) (t : Tree) :
    (",".intercalate (compactMembers [(name, t)])).toList =
      (quote name).toList ++ ':' :: (compact t).toList := by
  simp [compactMembers]

theorem toList_compactMembers_cons (name : String) (t : Tree) (m : String × Tree)
    (ms : List (String × Tree)) :
    (",".intercalate (compactMembers ((name, t) :: m :: ms))).toList =
      (quote name).toList ++ ':' :: ((compact t).toList ++
        ',' :: (",".intercalate (compactMembers (m :: ms))).toList) := by
  simp [compactMembers, String.intercalate_cons_cons]

theorem ends_cons {c : Char} (h : c.isDigit = false ∧ c ≠ '.' ∧ c ≠ 'e' ∧ c ≠ 'E')
    (rest : List Char) : Ends (c :: rest) := by
  intro d hd
  obtain rfl := Option.some.inj hd
  exact h

/-- The items of a list start like the first of them. -/
theorem compactItems_opens (t : Tree) (ts : List Tree) :
    ∃ c cs, (",".intercalate (compactItems (t :: ts))).toList = c :: cs ∧
      isSpace c = false ∧ c ≠ ']' := by
  obtain ⟨c, cs, hhead, hopens⟩ := compact_opens t
  cases ts with
  | nil => exact ⟨c, cs, (toList_compactItems_singleton t).trans hhead, hopens⟩
  | cons t' ts => exact ⟨c, _, by rw [toList_compactItems_cons, hhead, List.cons_append], hopens⟩

theorem compactMembers_opens (m : String × Tree) (ms : List (String × Tree)) :
    ∃ cs, (",".intercalate (compactMembers (m :: ms))).toList = '"' :: cs := by
  obtain ⟨name, t⟩ := m
  cases ms with
  | nil => exact ⟨_, by rw [toList_compactMembers_singleton, toList_quote, List.cons_append]⟩
  | cons m ms => exact ⟨_, by rw [toList_compactMembers_cons, toList_quote, List.cons_append]⟩

theorem value_quote (s : String) (fuel : Nat) (rest : List Char) :
    value (fuel + 1) ((quote s).toList ++ rest) = (.text s, some rest) := by
  have hbody := stringBody_escaped s.toList rest
  rw [toList_quote, List.cons_append, List.append_assoc, value, skipSpace_cons rfl]
  simp only [List.singleton_append, hbody, String.ofList_toList]

theorem value_bracket {c : Char} (hspace : isSpace c = false) (hclose : c ≠ ']') (fuel : Nat)
    (cs : List Char) : value (fuel + 1) ('[' :: c :: cs) =
      (.list (items fuel (c :: cs)).1, (items fuel (c :: cs)).2) := by
  rw [value, skipSpace_cons rfl]
  simp only [skipSpace_cons hspace]
  split
  next heq => exact absurd (List.cons.inj heq).1 hclose
  next => rfl

theorem value_brace (fuel : Nat) (cs : List Char) : value (fuel + 1) ('\x7b' :: '"' :: cs) =
    (.table (members fuel ('"' :: cs)).1, (members fuel ('"' :: cs)).2) :=
  rfl

theorem members_last {name : String} {t : Tree} {cs rest : List Char} {fuel : Nat}
    (h : value fuel cs = (t, some ('\x7d' :: rest))) :
    members (fuel + 1) ((quote name).toList ++ ':' :: cs) = ([(name, t)], some rest) := by
  have hbody := stringBody_escaped name.toList (':' :: cs)
  have hcolon : skipSpace (':' :: cs) = ':' :: cs := skipSpace_cons rfl
  have hclose : skipSpace ('\x7d' :: rest) = '\x7d' :: rest := skipSpace_cons rfl
  rw [toList_quote, List.cons_append, List.append_assoc, members, skipSpace_cons rfl]
  simp only [List.singleton_append, hbody, hcolon, h, hclose, member, String.ofList_toList]

theorem members_more {name : String} {t : Tree} {cs rest : List Char} {fuel : Nat}
    (h : value fuel cs = (t, some (',' :: rest))) :
    members (fuel + 1) ((quote name).toList ++ ':' :: cs) =
      ((name, t) :: (members fuel rest).1, (members fuel rest).2) := by
  have hbody := stringBody_escaped name.toList (':' :: cs)
  have hcolon : skipSpace (':' :: cs) = ':' :: cs := skipSpace_cons rfl
  have hcomma : skipSpace (',' :: rest) = ',' :: rest := skipSpace_cons rfl
  rw [toList_quote, List.cons_append, List.append_assoc, members, skipSpace_cons rfl]
  simp only [List.singleton_append, hbody, hcolon, h, hcomma, member, String.ofList_toList]

/-! ## Trees -/

mutual

/-- The text of a tree that is data is read as that tree. -/
theorem value_compact : ∀ t : Tree, t.isData = true → ∀ fuel rest,
    (compact t).toList.length ≤ fuel → Ends rest →
    value fuel ((compact t).toList ++ rest) = (t, some rest)
  | .text s, _, fuel, rest, hfuel, _ => by
    cases fuel with
    | zero => simp [compact, toList_quote] at hfuel
    | succ fuel => exact value_quote s fuel rest
  | .natural n, _, fuel, rest, hfuel, hrest => by
    have hnumber := number?_toDigits n hrest
    obtain ⟨c, cs, hdigits, hdigit⟩ := Text.exists_toDigits_eq_cons n
    rw [hdigits] at hnumber
    rw [compact, Text.toList_toString, hdigits] at hfuel ⊢
    cases fuel with
    | zero => cases hfuel
    | succ fuel => exact value_of_isDigit hdigit hnumber
  | .bool b, _, fuel, rest, hfuel, _ => by
    cases fuel with
    | zero => cases b <;> cases hfuel
    | succ fuel => cases b <;> rfl
  | .list [], _, fuel, rest, hfuel, _ => by
    rw [toList_compact_list] at hfuel ⊢
    cases fuel with
    | zero => cases hfuel
    | succ fuel => rfl
  | .list (t :: ts), hdata, fuel, rest, hfuel, _ => by
    have ih := items_compact (t :: ts) (List.cons_ne_nil t ts) hdata
    rw [toList_compact_list] at hfuel ⊢
    rw [List.length_cons, List.length_append, List.length_singleton] at hfuel
    cases fuel with
    | zero => cases hfuel
    | succ fuel =>
      have hitems := ih fuel rest (Nat.le_of_succ_le_succ hfuel)
      obtain ⟨c, cs, hhead, hspace, hclose⟩ := compactItems_opens t ts
      rw [List.cons_append, List.append_assoc, List.singleton_append]
      rw [hhead, List.cons_append] at hitems ⊢
      rw [value_bracket hspace hclose, hitems]
  | .table [], _, fuel, rest, hfuel, _ => by
    rw [toList_compact_table] at hfuel ⊢
    cases fuel with
    | zero => cases hfuel
    | succ fuel => rfl
  | .table (m :: ms), hdata, fuel, rest, hfuel, _ => by
    have ih := members_compact (m :: ms) (List.cons_ne_nil m ms) hdata
    rw [toList_compact_table] at hfuel ⊢
    rw [List.length_cons, List.length_append, List.length_singleton] at hfuel
    cases fuel with
    | zero => cases hfuel
    | succ fuel =>
      have hmembers := ih fuel rest (Nat.le_of_succ_le_succ hfuel)
      obtain ⟨cs, hhead⟩ := compactMembers_opens m ms
      rw [List.cons_append, List.append_assoc, List.singleton_append]
      rw [hhead, List.cons_append] at hmembers ⊢
      rw [value_brace, hmembers]
  | .other, hdata, _, _, _, _ => nomatch hdata
  | .unnamed, hdata, _, _, _, _ => nomatch hdata
  | .broken, hdata, _, _, _, _ => nomatch hdata

/-- So are the items of a list, up to its closing bracket. -/
theorem items_compact : ∀ ts : List Tree, ts ≠ [] → Tree.areData ts = true → ∀ fuel rest,
    (",".intercalate (compactItems ts)).toList.length < fuel →
    items fuel ((",".intercalate (compactItems ts)).toList ++ ']' :: rest) = (ts, some rest)
  | [], hne, _, _, _, _ => absurd rfl hne
  | [t], _, hdata, fuel, rest, hfuel => by
    have ih := value_compact t (by simpa [Tree.areData] using hdata)
    rw [toList_compactItems_singleton] at hfuel ⊢
    cases fuel with
    | zero => cases hfuel
    | succ fuel =>
      rw [items, ih fuel _ (Nat.le_of_lt_succ hfuel) (ends_cons (by decide) rest)]
      rfl
  | t :: t' :: ts, _, hdata, fuel, rest, hfuel => by
    rw [Tree.areData, Bool.and_eq_true] at hdata
    have hvalue := value_compact t hdata.1
    have hitems := items_compact (t' :: ts) (List.cons_ne_nil t' ts) hdata.2
    rw [toList_compactItems_cons, List.length_append, List.length_cons] at hfuel
    rw [toList_compactItems_cons, List.append_assoc, List.cons_append]
    cases fuel with
    | zero => cases hfuel
    | succ fuel =>
      rw [items, hvalue fuel _ (by omega) (ends_cons (by decide) _)]
      dsimp only
      rw [skipSpace_cons rfl]
      simp only [hitems fuel rest (by omega)]

/-- So are the members of a table, up to its closing brace. -/
theorem members_compact : ∀ ms : List (String × Tree), ms ≠ [] →
    Tree.membersAreData ms = true → ∀ fuel rest,
    (",".intercalate (compactMembers ms)).toList.length < fuel →
    members fuel ((",".intercalate (compactMembers ms)).toList ++ '\x7d' :: rest) = (ms, some rest)
  | [], hne, _, _, _, _ => absurd rfl hne
  | [(name, t)], _, hdata, fuel, rest, hfuel => by
    have hvalue := value_compact t (by simpa [Tree.membersAreData] using hdata)
    rw [toList_compactMembers_singleton, List.length_append, List.length_cons] at hfuel
    rw [toList_compactMembers_singleton, List.append_assoc, List.cons_append]
    cases fuel with
    | zero => cases hfuel
    | succ fuel =>
      exact members_last (hvalue fuel _ (by omega) (ends_cons (by decide) rest))
  | (name, t) :: m :: ms, _, hdata, fuel, rest, hfuel => by
    rw [Tree.membersAreData, Bool.and_eq_true] at hdata
    have hvalue := value_compact t hdata.1
    have hmembers := members_compact (m :: ms) (List.cons_ne_nil m ms) hdata.2
    rw [toList_compactMembers_cons] at hfuel ⊢
    simp only [List.length_append, List.length_cons] at hfuel
    simp only [List.append_assoc, List.cons_append]
    cases fuel with
    | zero => cases hfuel
    | succ fuel =>
      rw [members_more (hvalue fuel _ (by omega) (ends_cons (by decide) _)),
        hmembers fuel rest (by omega)]

end

/-- The text of a tree that is data is that tree, with nothing left over. -/
theorem parse_compact {t : Tree} (h : t.isData = true) : parse (compact t) = (t, some []) := by
  have hends : Ends [] := fun c hc => nomatch hc
  have hvalue := value_compact t h _ [] (Nat.le_succ _) hends
  rwa [List.append_nil] at hvalue

theorem document_compact {t : Tree} (h : t.isData = true) : document (compact t) = (t, true) := by
  rw [document, parse_compact h]
  rfl

/-! ## Readers of trees -/

section Readers

variable {α : Type} {document : String → Tree × Bool} {decode : Tree → Reading α} {s : String}

theorem readBy_of_document {t : Tree} (h : document s = (t, true)) :
    readBy document decode s = decode t := by
  rw [readBy, h]
  exact bind_pure (decode t)

theorem readBy_eq_ok {a : α} :
    readBy document decode s = .ok a ↔ decode (document s).1 = .ok a ∧ (document s).2 = true := by
  rw [readBy, except_bind_eq_ok]
  cases (document s).2 <;> simp

theorem readBy_eq_overflow_iff :
    readBy document decode s = .error .overflow ↔ decode (document s).1 = .error .overflow := by
  rw [readBy, except_bind_eq_error]
  cases (document s).2 <;> simp

end Readers

/-- **The JSON round trip.** What is read from the text of a tree is what is read from the tree. -/
theorem read_compact {α : Type} (decode : Tree → Reading α) {t : Tree} (h : t.isData = true) :
    read decode (compact t) = decode t :=
  readBy_of_document (document_compact h)

end Json

end GpuPartition
