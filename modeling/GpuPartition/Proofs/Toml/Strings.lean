/-
Strings of TOML read back. There are four ways to quote a text, in one quote or in three and with
escapes or without, and each has a reader of its own. Each reader gives the text as it was, so
`Toml.quote` may choose as it likes (`Toml.string?_quote`).

Three quotes are read as soon as they come up, and up to two in front of the closing ones belong to
the text. The writer never puts three in a row before that: at each quote, either the text ends
within the two that may follow, or no two come next (`Toml.ends_or_raw`).
-/
import GpuPartition.Proofs.Numeral
import GpuPartition.Toml.Printer

namespace GpuPartition.Toml

variable {c : Char} {cs rest : List Char} {fuel : Nat}

/-! ## Escapes -/

theorem charOf?_toNat (c : Char) : Text.charOf? c.toNat = some c := by
  rw [Text.charOf?, if_pos (show c.toNat.isValidChar from c.valid), Char.ofNat_toNat]

/-- How the text of a character is read: it is the code of an escape, or the character itself. -/
inductive Escaped (c : Char) : List Char → Prop
  | code {code : List Char} (read : ∀ rest, escape? (code ++ rest) = some (c, rest))
      (goesOn : ∀ rest, newline? (skipSpace (code ++ rest)) = none) : Escaped c ('\\' :: code)
  | plain (plain : isPlain c = true) (quote : c ≠ '"') (backslash : c ≠ '\\') : Escaped c [c]

theorem isPlain_iff : isPlain c = true ↔ isControl c = false ∧ c ≠ '\n' := by
  have htab : c = '\t' ↔ c.toNat = 9 := by rw [← Char.toNat_inj]; rfl
  have hfeed : c = '\n' ↔ c.toNat = 10 := by rw [← Char.toNat_inj]; rfl
  simp [isPlain, isControl, htab, hfeed]
  omega

theorem escape?_unit (h : c.toNat < 0x80) (rest : List Char) :
    escape? ('u' :: (((Text.hexDigits 4 c.toNat).toUpper).toList ++ rest)) = some (c, rest) := by
  have hvalue : Text.hexValue? ((List.range 4).reverse.map fun i =>
      (Nat.digitChar (c.toNat / Nat.pow 16 i % 16)).toUpper) = some c.toNat := by
    rw [Text.hexValue?_map (fun d => (Nat.digitChar d).toUpper)
      fun _ => Text.hexDigit?_toUpper_digitChar]
    congr 1
    omega
  have hchar : hexChar? ((List.range 4).reverse.map fun i =>
      (Nat.digitChar (c.toNat / Nat.pow 16 i % 16)).toUpper) = some c := by
    rw [hexChar?, hvalue]
    exact charOf?_toNat c
  have hdigits : (Text.hexDigits 4 c.toNat).toUpper.toList = (List.range 4).reverse.map fun i =>
      (Nat.digitChar (c.toNat / Nat.pow 16 i % 16)).toUpper := by
    rw [String.toUpper, String.toList_map, Text.toList_hexDigits, List.map_map]
    rfl
  rw [hdigits]
  refine Eq.trans ?_ (congrArg (Option.map (·, rest)) hchar)
  rfl

theorem escaped_escape (c : Char) : Escaped c (escape c).toList := by
  unfold escape
  split
  case h_8 _ _ hfeed _ _ hquote hbackslash =>
    split
    next hcontrol =>
      have hlow : c.toNat < 0x80 := by
        simp [isControl] at hcontrol
        omega
      rw [String.toList_append]
      exact .code (escape?_unit hlow) fun rest => rfl
    next hcontrol =>
      have hself : c.toString.toList = [c] := by simp
      rw [hself]
      exact .plain (isPlain_iff.2 ⟨by simpa using hcontrol, hfeed⟩) hquote hbackslash
  all_goals exact .code (fun rest => rfl) fun rest => rfl

theorem Escaped.length_pos {text : List Char} (h : Escaped c text) : 0 < text.length := by
  cases h <;> exact Nat.succ_pos _

/-! ## Strings on one line -/

theorem Escaped.basicBody {text : List Char} (h : Escaped c text) (fuel : Nat) (rest : List Char) :
    basicBody (fuel + 1) (text ++ rest) = push c (basicBody fuel rest) := by
  cases h with
  | code read goesOn =>
    rw [List.cons_append, Toml.basicBody]
    simp only [read]
  | plain plain quote backslash =>
    rw [List.singleton_append, Toml.basicBody, if_pos plain]
    · exact quote
    · exact backslash

/-- The escaped characters of a text are read as the text. -/
theorem basicBody_escaped (cs rest : List Char)
    (hfuel : (String.join (cs.map escape)).toList.length < fuel) :
    basicBody fuel ((String.join (cs.map escape)).toList ++ '"' :: rest) = some (cs, rest) := by
  induction cs generalizing fuel with
  | nil =>
    cases fuel with
    | zero => cases hfuel
    | succ fuel => rfl
  | cons c cs ih =>
    have hc := escaped_escape c
    have hpos := hc.length_pos
    rw [List.map_cons, String.join_cons, String.toList_append] at hfuel ⊢
    rw [List.length_append] at hfuel
    cases fuel with
    | zero => cases hfuel
    | succ fuel =>
      rw [List.append_assoc, hc.basicBody, ih (by omega)]
      rfl

theorem literalBody_plain (rest : List Char) (h : ∀ c ∈ cs, isPlain c = true ∧ c ≠ '\'') :
    literalBody (cs ++ '\'' :: rest) = some (cs, rest) := by
  induction cs with
  | nil => rfl
  | cons c cs ih =>
    obtain ⟨⟨hplain, hquote⟩, hcs⟩ := List.forall_mem_cons.1 h
    rw [List.cons_append, literalBody, if_pos hplain, ih hcs]
    · rfl
    · exact hquote

/-! ## Strings on several lines -/

/-- Up to two quotes in front of the closing ones belong to the text. -/
theorem closeMultiline_replicate {quote : Char} {k : Nat} (hk : k ≤ 2)
    (hrest : rest.head? ≠ some quote) :
    closeMultiline quote (List.replicate k quote ++ rest) =
      some (List.replicate k quote, rest) := by
  match k, rest with
  | 0, [] => rfl
  | 0, [c] => simp_all [closeMultiline]
  | 0, c :: d :: rest => simp_all [closeMultiline]
  | 1, [] => simp [closeMultiline]
  | 1, c :: rest => simp_all [closeMultiline]
  | 2, rest => simp [closeMultiline]

theorem multilineBasicBody_close {k : Nat} (hk : k ≤ 2) (hrest : rest.head? ≠ some '"')
    (fuel : Nat) :
    multilineBasicBody (fuel + 1) (List.replicate k '"' ++ '"' :: '"' :: '"' :: rest) =
      some (List.replicate k '"', rest) := by
  have hclose := closeMultiline_replicate hk hrest
  match k, hk with
  | 0, _ => exact hclose
  | 1, _ => exact hclose
  | 2, _ => exact hclose

theorem multilineLiteralBody_close {k : Nat} (hk : k ≤ 2) (hrest : rest.head? ≠ some '\'') :
    multilineLiteralBody (List.replicate k '\'' ++ '\'' :: '\'' :: '\'' :: rest) =
      some (List.replicate k '\'', rest) := by
  have hclose := closeMultiline_replicate hk hrest
  match k, hk with
  | 0, _ => exact hclose
  | 1, _ => exact hclose
  | 2, _ => exact hclose

theorem Escaped.multilineBasicBody {text : List Char} (h : Escaped c text) (fuel : Nat)
    (rest : List Char) :
    multilineBasicBody (fuel + 1) (text ++ rest) = push c (multilineBasicBody fuel rest) := by
  cases h with
  | code read goesOn =>
    rw [List.cons_append, Toml.multilineBasicBody]
    simp only [goesOn, read]
  | plain plain quote backslash =>
    rw [List.singleton_append, Toml.multilineBasicBody, if_pos plain]
    · exact fun _ heq _ => quote heq
    · exact backslash
    · exact fun heq => absurd (heq ▸ plain) (by decide)
    · exact fun _ heq _ => absurd (heq ▸ plain) (by decide)

/-- A quote that is not the first of three stands for itself. -/
theorem multilineBasicBody_quote (h : ∀ tail, rest ≠ '"' :: '"' :: tail) (fuel : Nat) :
    multilineBasicBody (fuel + 1) ('"' :: rest) = push '"' (multilineBasicBody fuel rest) := by
  rw [Toml.multilineBasicBody, if_pos (by decide)]
  · exact fun tail _ heq => h tail heq
  · exact fun heq => absurd heq (by decide)
  · exact fun heq => absurd heq (by decide)
  · exact fun _ heq _ => absurd heq (by decide)

/-- Two quotes in a row are not followed by a third. -/
theorem escapeMultiline_head {quotes : Nat} (h : c ≠ '"' ∨ quotes = 2) (cs : List Char) :
    ∃ d ds, (escapeMultiline quotes (c :: cs)).toList = d :: ds ∧ d ≠ '"' := by
  by_cases hfeed : c = '\n'
  · subst hfeed
    exact ⟨'\n', _, by rw [escapeMultiline, String.toList_append]; rfl, by decide⟩
  by_cases hquote : c = '"'
  · subst hquote
    obtain rfl := h.resolve_left fun hne => hne rfl
    exact ⟨'\\', _, by rw [escapeMultiline, if_neg (by decide), String.toList_append]; rfl,
      by decide⟩
  · have hc := escaped_escape c
    rw [escapeMultiline, String.toList_append]
    · generalize (escape c).toList = text at hc ⊢
      cases hc with
      | code => exact ⟨'\\', _, rfl, by decide⟩
      | plain => exact ⟨c, _, rfl, hquote⟩
    · exact hfeed
    · exact hquote

theorem toList_escapeMultiline_quote {quotes : Nat} (h : quotes < 2) (cs : List Char) :
    (escapeMultiline quotes ('"' :: cs)).toList =
      '"' :: (escapeMultiline (quotes + 1) cs).toList := by
  rw [escapeMultiline, if_pos h, String.toList_append]
  rfl

/-- After one or two quotes in a row, a text ends after two more at most, or two quotes do not come
next. -/
theorem ends_or_raw {quotes : Nat} (hpos : 0 < quotes) (hquotes : quotes ≤ 2) (cs : List Char) :
    (∃ k < 2, cs = List.replicate k '"' ∧
      (escapeMultiline quotes cs).toList = List.replicate k '"') ∨
    ∀ tail tail', (escapeMultiline quotes cs).toList ++ tail ≠ '"' :: '"' :: tail' := by
  cases cs with
  | nil => exact .inl ⟨0, by decide, rfl, rfl⟩
  | cons c cs =>
    by_cases hc : c ≠ '"' ∨ quotes = 2
    · obtain ⟨d, ds, hhead, hd⟩ := escapeMultiline_head hc cs
      refine .inr fun tail tail' heq => hd ?_
      rw [hhead] at heq
      exact (List.cons.inj heq).1
    obtain ⟨rfl, rfl⟩ : c = '"' ∧ quotes = 1 :=
      ⟨by_contra fun hne => hc (.inl hne), by omega⟩
    have htext := toList_escapeMultiline_quote (show 1 < 2 by decide) cs
    cases cs with
    | nil => exact .inl ⟨1, by decide, rfl, htext⟩
    | cons d cs =>
      obtain ⟨e, es, hhead, he⟩ := escapeMultiline_head (show d ≠ '"' ∨ 2 = 2 from .inr rfl) cs
      refine .inr fun tail tail' heq => he ?_
      rw [htext, hhead] at heq
      exact (List.cons.inj (List.cons.inj heq).2).1

/-- What the first character of a text stands as, after so many quotes in a row: the text is up to
two quotes and ends, or what is written for the character is read as it. -/
theorem escapeMultiline_cons {quotes : Nat} (hquotes : quotes ≤ 2) (c : Char) (cs : List Char) :
    (∃ k ≤ 2, c :: cs = List.replicate k '"' ∧
      (escapeMultiline quotes (c :: cs)).toList = List.replicate k '"') ∨
    ∃ text quotes', 0 < text.length ∧ quotes' ≤ 2 ∧
      (escapeMultiline quotes (c :: cs)).toList = text ++ (escapeMultiline quotes' cs).toList ∧
      ∀ fuel tail,
        multilineBasicBody (fuel + 1) (text ++ ((escapeMultiline quotes' cs).toList ++ tail)) =
          push c (multilineBasicBody fuel ((escapeMultiline quotes' cs).toList ++ tail)) := by
  have hc := escaped_escape c
  have hread := fun fuel tail => hc.multilineBasicBody fuel ((escapeMultiline 0 cs).toList ++ tail)
  by_cases hfeed : c = '\n'
  · subst hfeed
    refine .inr ⟨['\n'], 0, Nat.succ_pos 0, Nat.zero_le 2, ?_, fun _ _ => rfl⟩
    rw [escapeMultiline, String.toList_append]
    rfl
  by_cases hquote : c = '"'
  · subst hquote
    by_cases htwo : quotes = 2
    · -- A third quote in a row is escaped, and the count starts again.
      subst htwo
      refine .inr ⟨_, 0, hc.length_pos, Nat.zero_le 2, ?_, hread⟩
      rw [escapeMultiline, if_neg (by decide), String.toList_append]
      rfl
    have hlt : quotes < 2 := by omega
    have htext := toList_escapeMultiline_quote hlt cs
    rcases ends_or_raw (Nat.succ_pos quotes) hlt cs with ⟨k, hk, hcs, hends⟩ | hraw
    · exact .inl ⟨k + 1, hk, by rw [hcs]; rfl, by rw [htext, hends]; rfl⟩
    · exact .inr ⟨['"'], quotes + 1, Nat.succ_pos 0, hlt, htext,
        fun fuel tail => multilineBasicBody_quote (hraw tail) fuel⟩
  · refine .inr ⟨_, 0, hc.length_pos, Nat.zero_le 2, ?_, hread⟩
    rw [escapeMultiline, String.toList_append]
    · exact hfeed
    · exact hquote

/-- The rest of a text after so many quotes in a row is read as it was, up to the closing quotes. -/
theorem multilineBasicBody_escaped {quotes : Nat} (hquotes : quotes ≤ 2)
    (hrest : rest.head? ≠ some '"') (hfuel : (escapeMultiline quotes cs).toList.length < fuel) :
    multilineBasicBody fuel ((escapeMultiline quotes cs).toList ++ '"' :: '"' :: '"' :: rest) =
      some (cs, rest) := by
  cases fuel with
  | zero => cases hfuel
  | succ fuel =>
    induction cs generalizing quotes fuel with
    | nil => exact multilineBasicBody_close (Nat.zero_le 2) hrest fuel
    | cons c cs ih =>
      rcases escapeMultiline_cons hquotes c cs with
        ⟨k, hk, hcs, hends⟩ | ⟨text, quotes', hpos, hquotes', htext, hread⟩
      · rw [hends, hcs]
        exact multilineBasicBody_close hk hrest fuel
      · rw [htext, List.length_append] at hfuel
        obtain ⟨fuel, rfl⟩ := Nat.exists_eq_succ_of_ne_zero (show fuel ≠ 0 by omega)
        rw [htext, List.append_assoc, hread, ih hquotes' fuel (by omega)]
        rfl

theorem le_longestRun (c : Char) (run : Nat) (cs : List Char) : run ≤ longestRun c run cs := by
  induction cs generalizing run with
  | nil => exact Nat.le_refl run
  | cons d cs ih =>
    rw [longestRun]
    split
    · exact Nat.le_of_succ_le (ih (run + 1))
    · exact Nat.le_max_left _ _

theorem longestRun_mono (c : Char) {run run' : Nat} (h : run ≤ run') (cs : List Char) :
    longestRun c run cs ≤ longestRun c run' cs := by
  induction cs generalizing run run' with
  | nil => exact h
  | cons d cs ih =>
    rw [longestRun, longestRun]
    split
    · exact ih (Nat.succ_le_succ h)
    · exact max_le_max_right _ h

theorem not_mem_of_longestRun {cs : List Char} (h : longestRun c 0 cs = 0) : c ∉ cs := by
  induction cs with
  | nil => exact List.not_mem_nil
  | cons d cs ih =>
    rw [longestRun] at h
    split at h
    next =>
      have := le_longestRun c (0 + 1) cs
      omega
    next hne =>
      rw [Nat.max_eq_zero_iff] at h
      exact fun hmem => (List.mem_cons.1 hmem).elim hne (ih h.2)

theorem longestRun_tail_le (c d : Char) (run : Nat) (cs : List Char) :
    longestRun c 0 cs ≤ longestRun c run (d :: cs) := by
  rw [longestRun]
  split
  · exact longestRun_mono c (Nat.zero_le _) cs
  · exact Nat.le_max_right _ _

/-- After a quote, a text without longer runs of them than two ends after one more at most, or two
quotes do not come next. -/
theorem ends_or_raw_of_longestRun (h : longestRun '\'' 1 cs ≤ 2) :
    (∃ k < 2, cs = List.replicate k '\'') ∨
      ∀ tail tail', cs ++ tail ≠ '\'' :: '\'' :: tail' := by
  match cs, h with
  | [], _ => exact .inl ⟨0, by decide, rfl⟩
  | [c], _ =>
    by_cases hc : c = '\''
    · exact .inl ⟨1, by decide, by rw [hc]; rfl⟩
    · exact .inr fun tail tail' heq => hc (List.cons.inj heq).1
  | c :: d :: cs, h =>
    refine .inr fun tail tail' heq => ?_
    obtain ⟨hc, hrest⟩ := List.cons.inj heq
    obtain ⟨hd, -⟩ := List.cons.inj hrest
    rw [hc, hd, longestRun, if_pos rfl, longestRun, if_pos rfl] at h
    have := le_longestRun '\'' (1 + 1 + 1) cs
    omega

/-- A text without longer runs of quotes than two stands for itself between three of them. -/
theorem multilineLiteralBody_plain (hrest : rest.head? ≠ some '\'')
    (hcontrol : ∀ c ∈ cs, isControl c = false) (hruns : longestRun '\'' 0 cs ≤ 2) :
    multilineLiteralBody (cs ++ '\'' :: '\'' :: '\'' :: rest) = some (cs, rest) := by
  induction cs with
  | nil => exact multilineLiteralBody_close (Nat.zero_le 2) hrest
  | cons c cs ih =>
    obtain ⟨hc, hcs⟩ := List.forall_mem_cons.1 hcontrol
    have hread := ih hcs ((longestRun_tail_le '\'' c 0 cs).trans hruns)
    by_cases hfeed : c = '\n'
    · subst hfeed
      exact congrArg (push '\n') hread
    have hplain := isPlain_iff.2 ⟨hc, hfeed⟩
    have raw : (∀ tail', cs ++ '\'' :: '\'' :: '\'' :: rest ≠ '\'' :: '\'' :: tail' ∨ c ≠ '\'') →
        multilineLiteralBody (c :: cs ++ '\'' :: '\'' :: '\'' :: rest) = some (c :: cs, rest) := by
      intro h
      rw [List.cons_append, multilineLiteralBody, if_pos hplain, hread]
      · rfl
      · exact fun tail' hquote heq => (h tail').elim (· heq) (· hquote)
      · exact hfeed
      · exact fun _ heq _ => absurd (heq ▸ hplain) (by decide)
    by_cases hquote : c = '\''
    · subst hquote
      rw [longestRun, if_pos rfl] at hruns
      rcases ends_or_raw_of_longestRun hruns with ⟨k, hk, rfl⟩ | hraw
      · exact multilineLiteralBody_close (k := k + 1) hk hrest
      · exact raw fun tail' => .inl (hraw _ tail')
    · exact raw fun _ => .inr hquote

/-! ## Quoted texts -/

theorem toList_quoteBasic (cs : List Char) :
    (quoteBasic cs).toList = '"' :: ((String.join (cs.map escape)).toList ++ ['"']) := by
  simp [quoteBasic]

theorem toList_quoteLiteral (cs : List Char) :
    (quoteLiteral cs).toList = '\'' :: (cs ++ ['\'']) := by
  simp [quoteLiteral]

theorem basicBody_quoteBasic (cs rest : List Char) :
    basicBody (((String.join (cs.map escape)).toList ++ '"' :: rest).length + 1)
      ((String.join (cs.map escape)).toList ++ '"' :: rest) = some (cs, rest) :=
  basicBody_escaped cs rest (by rw [List.length_append]; omega)

/-- A text in double quotes does not start with three of them. -/
theorem escaped_ne_quotes (hrest : rest.head? ≠ some '"') (cs tail : List Char) :
    (String.join (cs.map escape)).toList ++ '"' :: rest ≠ '"' :: '"' :: tail := by
  cases cs with
  | nil =>
    intro heq
    rw [(List.cons.inj heq).2] at hrest
    exact hrest rfl
  | cons c cs =>
    have hc := escaped_escape c
    rw [List.map_cons, String.join_cons, String.toList_append]
    generalize (escape c).toList = text at hc ⊢
    cases hc with
    | code => exact fun heq => absurd (List.cons.inj heq).1 (by decide)
    | plain _ hquote => exact fun heq => hquote (List.cons.inj heq).1

theorem string?_quoteBasic (hrest : rest.head? ≠ some '"') (cs : List Char) :
    string? ((quoteBasic cs).toList ++ rest) = some (String.ofList cs, rest) := by
  rw [toList_quoteBasic, List.cons_append, List.append_assoc, List.singleton_append, string?,
    basicBody_quoteBasic]
  · rfl
  · exact fun tail heq => escaped_ne_quotes hrest cs tail heq

theorem string?_quoteLiteral (hrest : rest.head? ≠ some '\'')
    (h : ∀ c ∈ cs, isPlain c = true ∧ c ≠ '\'') :
    string? ((quoteLiteral cs).toList ++ rest) = some (String.ofList cs, rest) := by
  rw [toList_quoteLiteral, List.cons_append, List.append_assoc, List.singleton_append, string?,
    literalBody_plain rest h]
  · rfl
  · intro tail heq
    cases cs with
    | nil =>
      rw [(List.cons.inj heq).2] at hrest
      exact hrest rfl
    | cons c cs => exact (h c List.mem_cons_self).2 (List.cons.inj heq).1

/-- A text over several lines starts behind a line feed if it holds one, and is not taken to start
with one otherwise. -/
theorem dropNewline_content {t : Traits} {content : List Char}
    (h : t.lineFeed = false → newline? content = none) :
    dropNewline ((if t.lineFeed then "\n" else "").toList ++ content) = content := by
  cases hfeed : t.lineFeed with
  | true => rfl
  | false =>
    change (newline? content).getD content = content
    rw [h hfeed]
    rfl

theorem toList_multiline (delimiter : String) (t : Traits) (content : String) :
    (multiline delimiter t content).toList = delimiter.toList ++
      ((if t.lineFeed then "\n" else "").toList ++ (content.toList ++ delimiter.toList)) := by
  simp [multiline]

theorem newline?_cons {c : Char} (hfeed : c ≠ '\n') (hreturn : c ≠ '\r') (cs : List Char) :
    newline? (c :: cs) = none := by
  unfold newline?
  split
  next heq => exact absurd (List.cons.inj heq).1 hfeed
  next heq => exact absurd (List.cons.inj heq).1 hreturn
  next => rfl

theorem newline?_of_isPlain (h : isPlain c = true) (cs : List Char) : newline? (c :: cs) = none :=
  newline?_cons (fun heq => absurd (heq ▸ h) (by decide))
    (fun heq => absurd (heq ▸ h) (by decide)) cs

theorem newline?_escapeMultiline (h : '\n' ∉ cs) (tail : List Char) :
    newline? ((escapeMultiline 0 cs).toList ++ '"' :: tail) = none := by
  cases cs with
  | nil => rfl
  | cons c cs =>
    by_cases hquote : c = '"'
    · subst hquote
      rw [toList_escapeMultiline_quote (by decide)]
      rfl
    have hc := escaped_escape c
    rw [escapeMultiline, String.toList_append]
    · generalize (escape c).toList = text at hc ⊢
      cases hc with
      | code => exact newline?_cons (by decide) (by decide) _
      | plain hplain => exact newline?_of_isPlain hplain _
    · exact fun heq => h (heq ▸ List.mem_cons_self)
    · exact hquote

theorem string?_three_basic (cs : List Char) : string? ('"' :: '"' :: '"' :: cs) =
    text? (multilineBasicBody (cs.length + 1) (dropNewline cs)) :=
  rfl

theorem string?_multilineBasic (hrest : rest.head? ≠ some '"') (cs : List Char) :
    string? ((multiline "\"\"\"" (traits cs) (escapeMultiline 0 cs)).toList ++ rest) =
      some (String.ofList cs, rest) := by
  have hdrop := dropNewline_content fun hfeed : (traits cs).lineFeed = false =>
    newline?_escapeMultiline (by simpa [traits] using hfeed) ('"' :: '"' :: rest)
  rw [toList_multiline, List.append_assoc, List.append_assoc, List.append_assoc]
  refine (string?_three_basic _).trans (show _ = text? (some (cs, rest)) from congrArg text? ?_)
  refine (congrArg (multilineBasicBody _) hdrop).trans
    (multilineBasicBody_escaped (Nat.zero_le 2) hrest ?_)
  show _ < (_ ++ (_ ++ _) : List Char).length + 1
  simp only [List.length_append]
  omega

theorem string?_multilineLiteral (hrest : rest.head? ≠ some '\'')
    (hcontrol : ∀ c ∈ cs, isControl c = false) (hruns : longestRun '\'' 0 cs ≤ 2) :
    string? ((multiline "'''" (traits cs) (String.ofList cs)).toList ++ rest) =
      some (String.ofList cs, rest) := by
  have hnewline : (traits cs).lineFeed = false →
      newline? (cs ++ '\'' :: '\'' :: '\'' :: rest) = none := by
    intro hfeed
    have hfeed' : '\n' ∉ cs := by simpa [traits] using hfeed
    cases cs with
    | nil => rfl
    | cons c cs =>
      exact newline?_of_isPlain (isPlain_iff.2 ⟨hcontrol c List.mem_cons_self,
        fun heq => hfeed' (heq ▸ List.mem_cons_self)⟩) _
  have hdrop := dropNewline_content hnewline
  have hcs : (String.ofList cs).toList = cs := String.toList_ofList
  rw [toList_multiline, List.append_assoc, List.append_assoc, List.append_assoc, hcs]
  exact congrArg text? ((congrArg multilineLiteralBody hdrop).trans
    (multilineLiteralBody_plain hrest hcontrol hruns))

theorem not_control_of_traits (h : (traits cs).control = false) :
    ∀ c ∈ cs, isControl c = false := by
  simpa [traits] using h

theorem plain_of_traits (hcontrol : (traits cs).control = false)
    (hfeed : (traits cs).lineFeed = false) (hsingles : (traits cs).singles = 0) :
    ∀ c ∈ cs, isPlain c = true ∧ c ≠ '\'' := by
  intro c hmem
  have hnone : '\n' ∉ cs := by simpa [traits] using hfeed
  exact ⟨isPlain_iff.2 ⟨not_control_of_traits hcontrol c hmem, fun heq => hnone (heq ▸ hmem)⟩,
    fun heq => not_mem_of_longestRun hsingles (heq ▸ hmem)⟩

/-- **Quoted texts.** In whichever quotes a text is put, it is read as it was. -/
theorem string?_quote (s : String) (hbasic : rest.head? ≠ some '"')
    (hliteral : rest.head? ≠ some '\'') :
    string? ((quote s).toList ++ rest) = some (s, rest) := by
  have hback : some (String.ofList s.toList, rest) = some (s, rest) := by rw [String.ofList_toList]
  rw [quote, ← hback]
  split
  next => exact string?_quoteBasic hbasic _
  split
  next h =>
    simp at h
    exact string?_quoteLiteral hliteral (plain_of_traits h.1.1 h.2 h.1.2)
  split
  next => exact string?_multilineBasic hbasic _
  split
  next h =>
    simp at h
    have hlit := string?_multilineLiteral hliteral (not_control_of_traits h.1) h.2
    rw [String.ofList_toList] at hlit ⊢
    exact hlit
  split
  next => exact string?_multilineBasic hbasic _
  next => exact string?_quoteBasic hbasic _

end GpuPartition.Toml
