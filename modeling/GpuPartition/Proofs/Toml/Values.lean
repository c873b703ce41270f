/-
Values of TOML read back: texts, naturals below the limit of integers, truth values, and lists of
these (`Toml.reads_flat`). A number is tried as a date, a time and a float before it is read
as an integer, so what follows it has to tell it from those: it is a comma, a bracket or the end of
the line (`Toml.Stop`).
-/
import GpuPartition.Proofs.Toml.Keys
import GpuPartition.Toml.Value

namespace GpuPartition.Toml

variable {c : Char} {ds rest : List Char} {n : Nat}

/-- What follows a value: a comma, the end of a list or the end of the line. -/
def Stop (c : Char) : Prop := c = ',' ∨ c = ']' ∨ c = '\n'

theorem Stop.ne {d : Char} (h : Stop c) (hcomma : ',' ≠ d) (hclose : ']' ≠ d) (hfeed : '\n' ≠ d) :
    c ≠ d := by
  rcases h with rfl | rfl | rfl
  · exact hcomma
  · exact hclose
  · exact hfeed

theorem Stop.not_digit (h : Stop c) : c.isDigit = false := by
  rcases h with rfl | rfl | rfl <;> rfl

/-! ## Numbers -/

theorem char?_digits {d : Char} (hds : ∀ d ∈ ds, d.isDigit = true) (hd : d.isDigit = false)
    (hc : c ≠ d) : char? d (ds ++ c :: rest) = none := by
  cases ds with
  | nil => exact if_neg hc.symm
  | cons e ds => exact if_neg (Text.ne_of_isDigit (hds e List.mem_cons_self) hd).symm

/-- Digits that are taken from what starts with a run of digits are taken from the run. -/
theorem exists_of_append_eq (taken : List Char) {tail : List Char} (hc : Stop c)
    (htaken : ∀ d ∈ taken, d.isDigit = true) (h : ds ++ c :: rest = taken ++ tail) :
    ∃ ds', ds = taken ++ ds' ∧ tail = ds' ++ c :: rest := by
  rcases List.append_eq_append_iff.1 h with ⟨more, htaken', hmore⟩ | ⟨ds', hds, htail⟩
  · cases more with
    | nil => exact ⟨[], by rw [htaken', List.append_nil, List.append_nil], hmore.symm⟩
    | cons d more =>
      have hdigit := htaken c (by simp [htaken', (List.cons.inj hmore).1])
      rw [hc.not_digit] at hdigit
      cases hdigit
  · exact ⟨ds', hds, htail⟩

theorem twoDigits?_digits {least most : Nat} {tail : List Char}
    (hds : ∀ d ∈ ds, d.isDigit = true) (hc : Stop c)
    (h : twoDigits? least most (ds ++ c :: rest) = some (n, tail)) :
    ∃ ds', (∀ d ∈ ds', d.isDigit = true) ∧ tail = ds' ++ c :: rest := by
  unfold twoDigits? at h
  split at h
  next a b tail' heq =>
    simp only [Option.ite_none_right_eq_some, Option.some.injEq, Prod.mk.injEq] at h
    obtain ⟨⟨ha, hb, -⟩, -, rfl⟩ := h
    obtain ⟨ds', rfl, rfl⟩ := exists_of_append_eq [a, b] hc (by simp [ha, hb]) heq
    exact ⟨ds', fun d hd => hds d (List.mem_append_right _ hd), rfl⟩
  next => cases h

theorem time?_digits (hds : ∀ d ∈ ds, d.isDigit = true) (hc : Stop c) :
    time? (ds ++ c :: rest) = none := by
  rw [time?]
  cases h : twoDigits? 0 23 (ds ++ c :: rest) with
  | none => rfl
  | some p =>
    obtain ⟨n, tail⟩ := p
    obtain ⟨ds', hds', rfl⟩ := twoDigits?_digits hds hc h
    -- Behind the hour there is one more digit or the stop, and a time needs a colon there.
    simp [char?_digits hds' (d := ':') rfl (hc.ne (by decide) (by decide) (by decide))]

theorem date?_digits (hds : ∀ d ∈ ds, d.isDigit = true) (hc : Stop c) :
    date? (ds ++ c :: rest) = none := by
  unfold date?
  split
  next x y z w tail heq =>
    split
    next => rfl
    next hany =>
      simp only [List.any_cons, List.any_nil, Bool.or_false, Bool.or_eq_true, Bool.not_eq_true',
        not_or, Bool.not_eq_false] at hany
      obtain ⟨ds', rfl, rfl⟩ :=
        exists_of_append_eq [x, y, z, w] hc (by simp [hany]) heq
      have hdash : char? '-' (ds' ++ c :: rest) = none :=
        char?_digits (fun d hd => hds d (List.mem_append_right _ hd)) rfl
          (hc.ne (by decide) (by decide) (by decide))
      simp [hdash]
  next => rfl

theorem moreDigits_digits (hds : ∀ d ∈ ds, d.isDigit = true) (hc : Stop c) :
    moreDigits Char.isDigit (ds ++ c :: rest) = (ds, c :: rest) := by
  induction ds with
  | nil =>
    have hunderscore : c ≠ '_' := hc.ne (by decide) (by decide) (by decide)
    rw [List.nil_append, moreDigits, if_neg (by simp [hc.not_digit])]
    exact fun _ _ h _ => hunderscore h
  | cons d ds ih =>
    obtain ⟨hd, hds⟩ := List.forall_mem_cons.1 hds
    rw [List.cons_append, moreDigits, if_pos hd, ih hds]
    exact fun _ _ h _ => Text.ne_of_isDigit hd (by decide) h

-- A leading zero ends the digits, so it matters here that only the numeral of zero has one.
theorem decimal?_toDigits (n : Nat) (hc : Stop c) (rest : List Char) :
    decimal? (Nat.toDigits 10 n ++ c :: rest) = some (Nat.toDigits 10 n, c :: rest) := by
  obtain ⟨d, ds, hdigits, hd⟩ := Text.exists_toDigits_eq_cons n
  have hds : ∀ d ∈ ds, d.isDigit = true := fun d hd =>
    Text.isDigit_of_mem_toDigits (n := n) (hdigits ▸ List.mem_cons_of_mem _ hd)
  rw [hdigits, List.cons_append]
  unfold decimal?
  split
  next heq =>
    obtain ⟨rfl, rfl⟩ := List.cons.inj heq
    rw [Text.toDigits_eq_zero_cons hdigits]
    rfl
  next => rw [digits?, if_pos hd, moreDigits_digits hds hc]

theorem sign_toDigits (n : Nat) (cs : List Char) :
    sign (Nat.toDigits 10 n ++ cs) = (false, Nat.toDigits 10 n ++ cs) := by
  obtain ⟨d, ds, hdigits, hd⟩ := Text.exists_toDigits_eq_cons n
  rw [hdigits]
  unfold sign
  split
  next heq => exact absurd (List.cons.inj heq).1 (Text.ne_of_isDigit hd rfl)
  next heq => exact absurd (List.cons.inj heq).1 (Text.ne_of_isDigit hd rfl)
  next => rfl

theorem Stop.floatTail? (hc : Stop c) (rest : List Char) : floatTail? (c :: rest) = none := by
  have hmark : exponentMark? (c :: rest) = none := by
    unfold exponentMark?
    split
    next heq => exact absurd (List.cons.inj heq).1 (hc.ne (by decide) (by decide) (by decide))
    next heq => exact absurd (List.cons.inj heq).1 (hc.ne (by decide) (by decide) (by decide))
    next => rfl
  unfold Toml.floatTail?
  split
  next heq => exact absurd (List.cons.inj heq).1 (hc.ne (by decide) (by decide) (by decide))
  next => rw [hmark]; rfl

theorem integer?_toDigits (h : n < integerLimit) (hc : Stop c) (rest : List Char) :
    integer? (Nat.toDigits 10 n ++ c :: rest) = some (.natural n, c :: rest) := by
  obtain ⟨d, ds, hdigits, hd⟩ := Text.exists_toDigits_eq_cons n
  have hbase : ∀ {e : Char} {tail : List Char}, ',' ≠ e → ']' ≠ e → '\n' ≠ e → e.isDigit = false →
      Nat.toDigits 10 n ++ c :: rest ≠ '0' :: e :: tail := by
    intro e tail hcomma hclose hfeed he heq
    rw [hdigits, List.cons_append, List.cons.injEq] at heq
    obtain ⟨rfl, heq⟩ := heq
    rw [Text.toDigits_eq_zero_cons hdigits] at heq
    exact hc.ne hcomma hclose hfeed (List.cons.inj heq).1
  unfold integer?
  split
  next heq => exact absurd heq (hbase (by decide) (by decide) (by decide) rfl)
  next heq => exact absurd heq (hbase (by decide) (by decide) (by decide) rfl)
  next heq => exact absurd heq (hbase (by decide) (by decide) (by decide) rfl)
  next =>
    simp [signed?, sign_toDigits, decimal?_toDigits n hc, Text.digitsValue_toDigits, h]

/-- A number below the limit is read as an integer. -/
theorem number?_toDigits (h : n < integerLimit) (hc : Stop c) (rest : List Char) :
    number? (Nat.toDigits 10 n ++ c :: rest) = some (.natural n, c :: rest) := by
  have hds : ∀ d ∈ Nat.toDigits 10 n, d.isDigit = true := fun d => Text.isDigit_of_mem_toDigits
  have hdate : dateTime? (Nat.toDigits 10 n ++ c :: rest) = none := by
    rw [dateTime?, date?_digits hds hc, time?_digits hds hc]
    rfl
  have hfloat : digitsFloat? (Nat.toDigits 10 n ++ c :: rest) = none := by
    simp [digitsFloat?, sign_toDigits, decimal?_toDigits n hc, hc.floatTail?]
  have hnamed : namedFloat? (Nat.toDigits 10 n ++ c :: rest) = none := by
    obtain ⟨d, ds, hdigits, hd⟩ := Text.exists_toDigits_eq_cons n
    rw [namedFloat?, sign_toDigits, hdigits]
    dsimp only
    split
    next heq => exact absurd (List.cons.inj heq).1 (Text.ne_of_isDigit hd rfl)
    next heq => exact absurd (List.cons.inj heq).1 (Text.ne_of_isDigit hd rfl)
    next => rfl
  rw [number?, hdate, hfloat, hnamed, integer?_toDigits h hc]
  rfl

/-! ## Values without brackets -/

/-- A text, a small number or a truth value. -/
def IsScalar : Tree → Prop
  | .text _ => True
  | .natural n => n < integerLimit
  | .bool _ => True
  | _ => False

/-- The first character of a value: nothing that is passed over, and no end of a list. -/
structure Visible (c : Char) : Prop where
  space : isSpace c = false
  feed : c ≠ '\n'
  carriage : c ≠ '\r'
  comment : c ≠ '#'
  close : c ≠ ']'

theorem Visible.skipFiller (h : Visible c) (cs : List Char) :
    skipFiller false (c :: cs) = c :: cs := by
  rw [Toml.skipFiller, if_neg (by simp [h.space]), if_neg (by simp [h.comment])]
  · exact h.feed
  · exact fun _ heq _ => h.carriage heq

theorem Visible.skipSpace (h : Visible c) (cs : List Char) : skipSpace (c :: cs) = c :: cs := by
  simp [Toml.skipSpace, h.space]

theorem visible_of_isDigit (h : c.isDigit = true) : Visible c where
  space := by
    have hblank : c ≠ ' ' := Text.ne_of_isDigit h rfl
    have htab : c ≠ '\t' := Text.ne_of_isDigit h rfl
    simp [isSpace, hblank, htab]
  feed := Text.ne_of_isDigit h rfl
  carriage := Text.ne_of_isDigit h rfl
  comment := Text.ne_of_isDigit h rfl
  close := Text.ne_of_isDigit h rfl

/-- The text is read as the tree, whatever stops it. -/
structure Reads (value : List Char → Option (Tree × List Char)) (text : String) (t : Tree) :
    Prop where
  read : ∀ c rest, Stop c → value (text.toList ++ c :: rest) = some (t, c :: rest)
  starts : ∃ c cs, text.toList = c :: cs ∧ Visible c

theorem quote_head (s : String) :
    ∃ cs, (quote s).toList = '"' :: cs ∨ (quote s).toList = '\'' :: cs := by
  rw [quote]
  split
  · exact ⟨_, .inl (toList_quoteBasic _)⟩
  split
  · exact ⟨_, .inr (toList_quoteLiteral _)⟩
  split
  · exact ⟨_, .inl (toList_multiline _ _ _)⟩
  split
  · exact ⟨_, .inr (toList_multiline _ _ _)⟩
  split
  · exact ⟨_, .inl (toList_multiline _ _ _)⟩
  · exact ⟨_, .inl (toList_quoteBasic _)⟩

theorem value?_eq_scalar? (hlist : c ≠ '[') (htable : c ≠ '\x7b') (depth : Nat) (cs : List Char) :
    value? depth (c :: cs) = value?.scalar? (c :: cs) := by
  cases depth with
  | zero => rfl
  | succ depth =>
    rw [value?]
    · exact fun _ heq => hlist (List.cons.inj heq).1
    · exact fun _ heq => htable (List.cons.inj heq).1

theorem reads_quote (depth : Nat) (s : String) : Reads (value? depth) (quote s) (.text s) where
  read := by
    intro c rest hc
    have hread : string? ((quote s).toList ++ c :: rest) = some (s, c :: rest) :=
      string?_quote s
        (fun heq => hc.ne (by decide) (by decide) (by decide) (Option.some.inj heq))
        (fun heq => hc.ne (by decide) (by decide) (by decide) (Option.some.inj heq))
    have hscalar : value?.scalar? ((quote s).toList ++ c :: rest) =
        (string? ((quote s).toList ++ c :: rest)).map fun read => (.text read.1, read.2) := by
      obtain ⟨cs, hhead | hhead⟩ := quote_head s <;> rw [hhead] <;> rfl
    obtain ⟨cs, hhead | hhead⟩ := quote_head s
    · rw [hhead] at hscalar hread ⊢
      exact (value?_eq_scalar? (by decide) (by decide) depth _).trans
        (hscalar.trans (by rw [hread]; rfl))
    · rw [hhead] at hscalar hread ⊢
      exact (value?_eq_scalar? (by decide) (by decide) depth _).trans
        (hscalar.trans (by rw [hread]; rfl))
  starts := by
    obtain ⟨cs, hhead | hhead⟩ := quote_head s
    · exact ⟨_, _, hhead, rfl, by decide, by decide, by decide, by decide⟩
    · exact ⟨_, _, hhead, rfl, by decide, by decide, by decide, by decide⟩

theorem reads_natural (depth : Nat) (h : n < integerLimit) :
    Reads (value? depth) (toString n) (.natural n) where
  read := by
    intro c rest hc
    have hnumber := number?_toDigits h hc rest
    obtain ⟨d, ds, hdigits, hd⟩ := Text.exists_toDigits_eq_cons n
    rw [Text.toList_toString]
    rw [hdigits, List.cons_append] at hnumber ⊢
    rw [value?_eq_scalar? (Text.ne_of_isDigit hd rfl) (Text.ne_of_isDigit hd rfl)]
    unfold value?.scalar?
    split
    next heq => exact absurd (List.cons.inj heq).1 (Text.ne_of_isDigit hd rfl)
    next heq => exact absurd (List.cons.inj heq).1 (Text.ne_of_isDigit hd rfl)
    next heq => exact absurd (List.cons.inj heq).1 (Text.ne_of_isDigit hd rfl)
    next heq => exact absurd (List.cons.inj heq).1 (Text.ne_of_isDigit hd rfl)
    next => exact hnumber
  starts := by
    obtain ⟨d, ds, hdigits, hd⟩ := Text.exists_toDigits_eq_cons n
    exact ⟨d, ds, (Text.toList_toString n).trans hdigits, visible_of_isDigit hd⟩

theorem reads_bool (depth : Nat) (b : Bool) : Reads (value? depth) (toString b) (.bool b) where
  read := by
    intro c rest _
    cases b <;> exact value?_eq_scalar? (by decide) (by decide) depth _
  starts := by
    cases b <;> exact ⟨_, _, rfl, rfl, by decide, by decide, by decide, by decide⟩

theorem reads_scalar (depth : Nat) {t : Tree} (h : IsScalar t) :
    ∃ text, valueText? t = some text ∧ Reads (value? depth) text t := by
  cases t with
  | text s => exact ⟨_, rfl, reads_quote depth s⟩
  | natural n => exact ⟨_, if_pos h, reads_natural depth h⟩
  | bool b => exact ⟨_, rfl, reads_bool depth b⟩
  | _ => exact h.elim

/-! ## Lists -/

variable {value : List Char → Option (Tree × List Char)} {texts : List String} {items : List Tree}
  {fuel : Nat}

/-- Items on a line each, behind the line feed that ends the line before. -/
def itemLines (texts : List String) : List Char :=
  '\n' :: (String.join (texts.map fun text => "    " ++ text ++ ",\n")).toList

theorem itemLines_cons (text : String) (texts : List String) :
    itemLines (text :: texts) = '\n' :: ' ' :: ' ' :: ' ' :: ' ' ::
      (text.toList ++ ',' :: itemLines texts) := by
  simp [itemLines]

/-- An item with a comma behind it is followed by the items after the comma. -/
theorem items?_more {text : String} {t : Tree} {cs : List Char} (ht : Reads value text t)
    (hcs : skipFiller false cs = text.toList ++ ',' :: rest) {tail : List Char}
    (hitems : items? value fuel rest = some (items, tail)) :
    items? value (fuel + 1) cs = some (t :: items, tail) := by
  obtain ⟨c, cs', hhead, hc⟩ := ht.starts
  have hread := ht.read ',' rest (.inl rfl)
  have hcomma : skipFiller false (',' :: rest) = ',' :: rest := rfl
  rw [hhead, List.cons_append] at hcs hread
  rw [items?, hcs]
  split
  next heq => exact absurd (List.cons.inj heq).1 hc.close
  next => simp [hread, hcomma, hitems]

/-- An item with a closing bracket behind it is the last. -/
theorem items?_last {text : String} {t : Tree} {cs : List Char} (ht : Reads value text t)
    (hcs : skipFiller false cs = text.toList ++ ']' :: rest) :
    items? value (fuel + 1) cs = some ([t], rest) := by
  obtain ⟨c, cs', hhead, hc⟩ := ht.starts
  have hread := ht.read ']' rest (.inr (.inl rfl))
  have hclose : skipFiller false (']' :: rest) = ']' :: rest := rfl
  rw [hhead, List.cons_append] at hcs hread
  rw [items?, hcs]
  split
  next heq => exact absurd (List.cons.inj heq).1 hc.close
  next => simp [hread, hclose]

theorem Reads.skipFiller {text : String} {t : Tree} (h : Reads value text t) (cs : List Char) :
    skipFiller false (text.toList ++ cs) = text.toList ++ cs := by
  obtain ⟨c, cs', hhead, hc⟩ := h.starts
  rw [hhead]
  exact hc.skipFiller _

theorem items?_lines (h : List.Forall₂ (Reads value) texts items) (hfuel : texts.length < fuel) :
    items? value fuel (itemLines texts ++ ']' :: rest) = some (items, rest) := by
  induction h generalizing fuel with
  | nil =>
    cases fuel with
    | zero => cases hfuel
    | succ fuel => rfl
  | @cons text t texts items ht _ ih =>
    cases fuel with
    | zero => cases hfuel
    | succ fuel =>
      refine items?_more ht ?_ (ih (Nat.lt_of_succ_lt_succ hfuel))
      rw [itemLines_cons]
      simp only [List.cons_append, List.append_assoc]
      exact ht.skipFiller _

theorem toList_brackets_lines {texts : List String} (h : 2 ≤ texts.length) :
    (brackets texts).toList = '[' :: (itemLines texts ++ [']']) := by
  match texts, h with
  | text :: text' :: texts, _ => simp [brackets, itemLines]

theorem length_le_itemLines (texts : List String) : texts.length ≤ (itemLines texts).length := by
  induction texts with
  | nil => exact Nat.zero_le _
  | cons text texts ih =>
    rw [itemLines_cons]
    simp only [List.length_cons, List.length_append]
    omega

/-- Brackets around the texts of items are read as the list of the items. -/
theorem items?_brackets (h : List.Forall₂ (Reads value) texts items) :
    ∃ body, (brackets texts).toList = '[' :: (body ++ [']']) ∧
      ∀ rest, items? value ((body ++ ']' :: rest).length + 1) (body ++ ']' :: rest) =
        some (items, rest) := by
  cases h with
  | nil => exact ⟨[], rfl, fun rest => rfl⟩
  | @cons text t texts items ht hrest =>
    cases hrest with
    | nil =>
      refine ⟨text.toList, by simp [brackets], fun rest => ?_⟩
      exact items?_last ht (ht.skipFiller _)
    | @cons text' t' texts items ht' hrest =>
      refine ⟨itemLines (text :: text' :: texts), toList_brackets_lines (by simp), fun rest => ?_⟩
      refine items?_lines (.cons ht (.cons ht' hrest)) ?_
      have := length_le_itemLines (text :: text' :: texts)
      rw [List.length_append]
      omega

/-! ## Flat values -/

/-- A value without brackets, or a list of such values. -/
def IsFlat : Tree → Prop
  | .list items => ∀ t ∈ items, IsScalar t
  | t => IsScalar t

theorem valueTexts?_scalars (depth : Nat) {items : List Tree} (h : ∀ t ∈ items, IsScalar t) :
    ∃ texts, valueTexts? items = some texts ∧ List.Forall₂ (Reads (value? depth)) texts items := by
  induction items with
  | nil => exact ⟨[], rfl, .nil⟩
  | cons t items ih =>
    obtain ⟨ht, hitems⟩ := List.forall_mem_cons.1 h
    obtain ⟨text, htext, hread⟩ := reads_scalar depth ht
    obtain ⟨texts, htexts, hreads⟩ := ih hitems
    exact ⟨text :: texts, by simp [valueTexts?, htext, htexts], .cons hread hreads⟩

/-- **Values.** A flat value is written to a text that is read as the value. -/
theorem reads_flat (depth : Nat) {t : Tree} (h : IsFlat t) :
    ∃ text, valueText? t = some text ∧ Reads (value? (depth + 1)) text t := by
  cases t with
  | list items =>
    obtain ⟨texts, htexts, hreads⟩ := valueTexts?_scalars depth h
    obtain ⟨body, hbody, hitems⟩ := items?_brackets hreads
    refine ⟨brackets texts, by simp [valueText?, htexts], fun c rest hc => ?_, ?_⟩
    · rw [hbody, List.cons_append, List.append_assoc, List.singleton_append, value?, hitems]
      rfl
    · exact ⟨_, _, hbody, rfl, by decide, by decide, by decide, by decide⟩
  | _ => exact reads_scalar (depth + 1) h

end GpuPartition.Toml
