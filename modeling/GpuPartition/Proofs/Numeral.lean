/-
Numerals read back. The decimal digits of a number have its value (`digitsValue_toDigits`), and so
do its last hexadecimal digits, as far as they reach and in either case (`hexValue?_map`). What is
read as an unsigned number is one (`Unsigned`), and nothing else is (`readBelow_eq_some_iff`).
-/
import Mathlib.Data.List.Induction
import Mathlib.Tactic.Ring
import GpuPartition.Text.Hex
import GpuPartition.Text.Natural

namespace GpuPartition.Text

/-! ## Decimal digits -/

theorem isDigit_iff {c : Char} : c.isDigit = true ↔ 48 ≤ c.toNat ∧ c.toNat ≤ 57 := by
  simp [Char.isDigit, UInt32.le_iff_toNat_le]

theorem ne_of_isDigit {c d : Char} (h : c.isDigit = true) (hd : d.isDigit = false) : c ≠ d :=
  fun hcd => by simp [← hcd, h] at hd

theorem toList_toString (n : Nat) : (toString n).toList = Nat.toDigits 10 n := by
  rw [Nat.toString_eq_ofList_toDigits, String.toList_ofList]

theorem digitsValue_eq_ofDigitChars (acc : Nat) (cs : List Char) :
    digitsValue acc cs = Nat.ofDigitChars 10 cs acc := by
  induction cs generalizing acc with
  | nil => exact Nat.ofDigitChars_nil.symm
  | cons c cs ih =>
    rw [Nat.ofDigitChars_cons, Nat.mul_comm]
    exact ih _

theorem digitsValue_toDigits (n : Nat) : digitsValue 0 (Nat.toDigits 10 n) = n := by
  rw [digitsValue_eq_ofDigitChars, Nat.ofDigitChars_ten_toDigits]

theorem isDigit_of_mem_toDigits {n : Nat} {c : Char} (h : c ∈ Nat.toDigits 10 n) :
    c.isDigit = true :=
  Nat.isDigit_of_mem_toDigits (by decide) (by decide) h

theorem exists_toDigits_eq_cons (n : Nat) :
    ∃ c cs, Nat.toDigits 10 n = c :: cs ∧ c.isDigit = true := by
  cases h : Nat.toDigits 10 n with
  | nil => exact absurd h Nat.toDigits_ne_nil
  | cons c cs => exact ⟨c, cs, rfl, isDigit_of_mem_toDigits (n := n) (h ▸ List.mem_cons_self)⟩

/-- Digits start with a zero only if it is the only one. -/
theorem toDigits_eq_zero_cons {n : Nat} {cs : List Char} (h : Nat.toDigits 10 n = '0' :: cs) :
    cs = [] := by
  induction n using Nat.strongRecOn generalizing cs with
  | ind n ih =>
    rw [Nat.toDigits_eq_if (by decide)] at h
    split at h
    · exact (List.cons.inj h).2.symm
    · next hge =>
      obtain ⟨tl, htl⟩ : ∃ tl, Nat.toDigits 10 (n / 10) = '0' :: tl := by
        cases hdigits : Nat.toDigits 10 (n / 10) with
        | nil => exact absurd hdigits Nat.toDigits_ne_nil
        | cons c tl =>
          rw [hdigits, List.cons_append] at h
          exact ⟨tl, by rw [(List.cons.inj h).1]⟩
      obtain rfl := ih (n / 10) (by omega) htl
      have hvalue := digitsValue_toDigits (n / 10)
      rw [htl] at hvalue
      have hzero : digitsValue 0 ['0'] = 0 := by decide
      omega

/-! ## Spelled numbers -/

/-- The characters are decimal digits, leading zeros allowed, and this is their value. -/
inductive Numeral : List Char → Nat → Prop
  | digit {d : Nat} (h : d < 10) : Numeral [Nat.digitChar d] d
  | more {cs : List Char} {n d : Nat} (h : Numeral cs n) (hd : d < 10) :
    Numeral (cs ++ [Nat.digitChar d]) (10 * n + d)

/-- The characters are a number that may carry a plus sign. -/
inductive Unsigned : List Char → Nat → Prop
  | bare {cs : List Char} {n : Nat} (h : Numeral cs n) : Unsigned cs n
  | plus {cs : List Char} {n : Nat} (h : Numeral cs n) : Unsigned ('+' :: cs) n

theorem isDigit_iff_digitChar {c : Char} : c.isDigit = true ↔ ∃ d < 10, c = Nat.digitChar d := by
  constructor
  · intro h
    have hrange := isDigit_iff.1 h
    refine ⟨c.toNat - 48, by omega, Char.toNat_inj.1 ?_⟩
    rw [Nat.toNat_digitChar_of_lt_ten (by omega)]
    omega
  · rintro ⟨d, hd, rfl⟩
    rw [Nat.isDigit_digitChar, decide_eq_true hd]

theorem digitsValue_append_digit {d : Nat} (hd : d < 10) (acc : Nat) (cs : List Char) :
    digitsValue acc (cs ++ [Nat.digitChar d]) = 10 * digitsValue acc cs + d := by
  induction cs generalizing acc with
  | nil =>
    change acc * 10 + ((Nat.digitChar d).toNat - 48) = 10 * acc + d
    rw [Nat.toNat_digitChar_of_lt_ten hd]
    omega
  | cons c cs ih => exact ih _

theorem numeral_iff {cs : List Char} {n : Nat} :
    Numeral cs n ↔ cs ≠ [] ∧ (∀ c ∈ cs, c.isDigit = true) ∧ digitsValue 0 cs = n := by
  constructor
  · intro h
    induction h with
    | @digit d hd =>
      refine ⟨List.cons_ne_nil _ _, List.forall_mem_singleton.2 ?_, ?_⟩
      · exact isDigit_iff_digitChar.2 ⟨d, hd, rfl⟩
      · exact (digitsValue_append_digit hd 0 []).trans (Nat.zero_add d)
    | @more cs n d h hd ih =>
      obtain ⟨-, hdigits, hvalue⟩ := ih
      refine ⟨List.concat_ne_nil _ _, List.forall_mem_append.2 ⟨hdigits, ?_⟩, ?_⟩
      · exact List.forall_mem_singleton.2 (isDigit_iff_digitChar.2 ⟨d, hd, rfl⟩)
      · rw [digitsValue_append_digit hd, hvalue]
  · rintro ⟨hne, hdigits, rfl⟩
    -- A numeral grows at its end, so the induction takes the digits from there.
    induction cs using List.reverseRecOn with
    | nil => exact absurd rfl hne
    | append_singleton cs c ih =>
      obtain ⟨hfirst, hlast⟩ := List.forall_mem_append.1 hdigits
      obtain ⟨d, hd, rfl⟩ := isDigit_iff_digitChar.1 (hlast c (List.mem_singleton_self c))
      rw [digitsValue_append_digit hd]
      by_cases hcs : cs = []
      · subst hcs
        exact (Nat.zero_add d).symm ▸ .digit hd
      · exact .more (ih hcs hfirst) hd

theorem unsignedDigits?_eq_some_iff {cs ds : List Char} :
    unsignedDigits? cs = some ds ↔
      (cs = ds ∨ cs = '+' :: ds) ∧ ds ≠ [] ∧ ∀ c ∈ ds, c.isDigit = true := by
  have hdigits : ∀ l : List Char,
      (if !l.isEmpty && l.all Char.isDigit then some l else none) = some ds ↔
        l = ds ∧ ds ≠ [] ∧ ∀ c ∈ ds, c.isDigit = true := by
    intro l
    rw [Option.ite_none_right_eq_some, Option.some.injEq, and_comm]
    refine and_congr_right ?_
    rintro rfl
    simp
  unfold unsignedDigits?
  split
  next l =>
    rw [hdigits]
    constructor
    · rintro ⟨rfl, h⟩
      exact ⟨.inr rfl, h⟩
    · rintro ⟨rfl | hl, hne, hall⟩
      · exact absurd (hall '+' List.mem_cons_self) (by decide)
      · exact ⟨(List.cons.inj hl).2, hne, hall⟩
  next hplus =>
    rw [hdigits]
    exact and_congr_left fun _ => ⟨.inl, fun h => h.resolve_right (hplus ds)⟩

theorem unsigned_iff {cs : List Char} {n : Nat} :
    Unsigned cs n ↔ ∃ ds, unsignedDigits? cs = some ds ∧ digitsValue 0 ds = n := by
  simp only [unsignedDigits?_eq_some_iff]
  constructor
  · rintro (h | @⟨ds, _, h⟩)
    · obtain ⟨hne, hdigits, hvalue⟩ := numeral_iff.1 h
      exact ⟨cs, ⟨.inl rfl, hne, hdigits⟩, hvalue⟩
    · obtain ⟨hne, hdigits, hvalue⟩ := numeral_iff.1 h
      exact ⟨ds, ⟨.inr rfl, hne, hdigits⟩, hvalue⟩
  · rintro ⟨ds, ⟨rfl | rfl, hne, hdigits⟩, hvalue⟩
    · exact .bare (numeral_iff.2 ⟨hne, hdigits, hvalue⟩)
    · exact .plus (numeral_iff.2 ⟨hne, hdigits, hvalue⟩)

/-- The characters of a spelled number: digits and the plus sign. -/
theorem Unsigned.isDigit_or_plus {cs : List Char} {n : Nat} (h : Unsigned cs n) {c : Char}
    (hc : c ∈ cs) : c.isDigit = true ∨ c = '+' := by
  cases h with
  | bare h => exact .inl ((numeral_iff.1 h).2.1 c hc)
  | plus h =>
    rcases List.mem_cons.1 hc with rfl | hc
    · exact .inr rfl
    · exact .inl ((numeral_iff.1 h).2.1 c hc)

theorem readBelow_eq_some_iff {limit n : Nat} {cs : List Char} :
    readBelow limit cs = some n ↔ Unsigned cs n ∧ n < limit := by
  rw [readBelow, unsigned_iff]
  cases unsignedDigits? cs with
  | none => simp
  | some ds =>
    simp only [Option.some.injEq, exists_eq_left', Option.ite_none_right_eq_some]
    constructor
    · rintro ⟨hlt, rfl⟩
      exact ⟨rfl, hlt⟩
    · rintro ⟨rfl, hlt⟩
      exact ⟨hlt, rfl⟩

theorem numeral_toDigits (n : Nat) : Numeral (Nat.toDigits 10 n) n :=
  numeral_iff.2 ⟨Nat.toDigits_ne_nil, fun _ => isDigit_of_mem_toDigits, digitsValue_toDigits n⟩

/-! ## Hexadecimal digits -/

theorem hexDigit?_digitChar {d : Nat} (h : d < 16) : hexDigit? (Nat.digitChar d) = some d := by
  revert d
  decide

theorem hexDigit?_toUpper_digitChar {d : Nat} (h : d < 16) :
    hexDigit? (Nat.digitChar d).toUpper = some d := by
  revert d
  decide

theorem toList_hexDigits (width n : Nat) : (hexDigits width n).toList =
    (List.range width).reverse.map fun i => Nat.digitChar (n / Nat.pow 16 i % 16) :=
  String.toList_ofList

/-- However the sixteen digits are written, the last ones of a number have its value. -/
theorem hexValue?_map (digit : Nat → Char) (hdigit : ∀ d < 16, hexDigit? (digit d) = some d)
    (width n : Nat) :
    hexValue? ((List.range width).reverse.map fun i => digit (n / Nat.pow 16 i % 16)) =
      some (n % 16 ^ width) := by
  have hfold : ∀ acc, ((List.range width).reverse.map fun i =>
      digit (n / Nat.pow 16 i % 16)).foldlM
        (fun acc c => (hexDigit? c).map (acc * 16 + ·)) acc =
      some (acc * 16 ^ width + n % 16 ^ width) := by
    induction width with
    | zero => intro acc; simp [Nat.mod_one]
    | succ w ih =>
      intro acc
      rw [List.range_succ, List.reverse_append, List.reverse_singleton, List.singleton_append,
        List.map_cons, List.foldlM_cons, hdigit _ (Nat.mod_lt _ (by decide))]
      refine (ih _).trans (congrArg some ?_)
      have hsplit : n % 16 ^ (w + 1) = n % 16 ^ w + 16 ^ w * (n / 16 ^ w % 16) := by
        rw [Nat.pow_succ, Nat.mod_mul]
      have hpow : Nat.pow 16 w = 16 ^ w := rfl
      rw [hsplit, hpow]
      dsimp only
      ring
  exact (hfold 0).trans (by rw [Nat.zero_mul, Nat.zero_add])

end GpuPartition.Text
