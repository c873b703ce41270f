/-
Profiles and their texts. What is read is proper, that is, neither of its numbers is zero
(`Profile.proper_of_parse`), and the text of a proper profile is read back (`Profile.parse_text`).
The text of any other profile is refused for its zero (`Profile.parse_text_eq`). No two profiles
have one text (`Profile.text_injective`).
-/
import GpuPartition.Profile
import GpuPartition.Proofs.Numeral
import GpuPartition.Proofs.Reading
import GpuPartition.Proofs.Text

namespace GpuPartition.Profile

/-- Neither of the numbers of the profile is zero. -/
structure Proper (p : Profile) : Prop where
  slices : p.slices ≠ 0
  memory : p.memory ≠ 0

instance (p : Profile) : Decidable p.Proper :=
  decidable_of_iff (p.slices ≠ 0 ∧ p.memory ≠ 0) ⟨fun h => ⟨h.1, h.2⟩, fun h => ⟨h.1, h.2⟩⟩

theorem toList_text (p : Profile) : p.text.toList =
    (Nat.toDigits 10 p.slices.toNat ++ ['g']) ++ '.' ::
      (Nat.toDigits 10 p.memory.toNat ++ ['g', 'b']) := by
  have hunit : (toString "g.").toList = ['g', '.'] := rfl
  have hunits : (toString "gb").toList = ['g', 'b'] := rfl
  simp [text, hunit, hunits]

/-- The characters of the text of a profile: digits, a point, and the letters of the units. -/
def IsTextChar (c : Char) : Prop := c.isDigit = true ∨ c = 'g' ∨ c = '.' ∨ c = 'b'

theorem isTextChar_of_mem_text {p : Profile} {c : Char} (h : c ∈ p.text.toList) : IsTextChar c := by
  rw [toList_text] at h
  simp only [List.mem_append, List.mem_cons, List.not_mem_nil, or_false] at h
  rcases h with (h | rfl) | rfl | h | rfl | rfl
  · exact .inl (Text.isDigit_of_mem_toDigits h)
  · exact .inr (.inl rfl)
  · exact .inr (.inr (.inl rfl))
  · exact .inl (Text.isDigit_of_mem_toDigits h)
  · exact .inr (.inl rfl)
  · exact .inr (.inr (.inr rfl))

theorem IsTextChar.not_blank {c : Char} (h : IsTextChar c) : Text.isBlank c = false := by
  rcases h with h | rfl | rfl | rfl
  · have hrange := Text.isDigit_iff.1 h
    simp [Text.isBlank]
    omega
  all_goals decide

theorem IsTextChar.toLower_eq {c : Char} (h : IsTextChar c) : c.toLower = c := by
  rcases h with h | rfl | rfl | rfl
  · have hrange := Text.isDigit_iff.1 h
    exact Text.toLower_of_not_upper (by omega)
  all_goals decide

/-- Reading passes over nothing in the text of a profile, and changes no letter of it. -/
theorem prepared_text (p : Profile) :
    (Text.trim p.text.toList).map Char.toLower = p.text.toList := by
  have htrim : Text.trim p.text.toList = p.text.toList := by
    refine Text.trim_eq_self (fun c hc => ?_) fun c hc => ?_
    · exact (isTextChar_of_mem_text (List.mem_of_mem_head? hc)).not_blank
    · exact (isTextChar_of_mem_text (List.mem_of_mem_getLast? hc)).not_blank
  rw [htrim]
  exact (List.map_congr_left fun c hc => (isTextChar_of_mem_text hc).toLower_eq).trans
    (List.map_id _)

/-! ## Reading -/

theorem dropTail?_eq_some {tail cs front : List Char} :
    dropTail? tail cs = some front ↔ cs = front ++ tail := by
  rw [dropTail?, Option.ite_none_right_eq_some, List.isSuffixOf_iff_suffix, Option.some.injEq]
  constructor
  · rintro ⟨hsuffix, rfl⟩
    exact (List.suffix_iff_eq_append.1 hsuffix).symm
  · rintro rfl
    exact ⟨List.suffix_append _ _, by rw [List.length_append, Nat.add_sub_cancel, List.take_left]⟩

/-- A measure is an unsigned number in front of its unit. -/
theorem readMeasure_eq_ok_iff {unit cs : List Char} {badUnit badNumber : ProfileFault}
    {n : UInt32} : readMeasure unit cs badUnit badNumber = .ok n ↔
      ∃ digits, cs = digits ++ unit ∧ Text.Unsigned digits n.toNat := by
  have hread : readMeasure unit cs badUnit badNumber = .ok n ↔
      ∃ digits, dropTail? unit cs = some digits ∧
        ∃ m, Text.readBelow UInt32.size digits = some m ∧ UInt32.ofNat m = n := by
    rw [readMeasure]
    cases dropTail? unit cs with
    | none => simp
    | some digits =>
      simp only [Option.some.injEq, exists_eq_left']
      cases Text.readBelow UInt32.size digits <;> simp
  simp only [hread, dropTail?_eq_some, Text.readBelow_eq_some_iff]
  refine exists_congr fun digits => and_congr_right fun _ => ?_
  constructor
  · rintro ⟨m, ⟨hdigits, hlt⟩, rfl⟩
    rwa [UInt32.toNat_ofNat_of_lt' hlt]
  · intro h
    exact ⟨n.toNat, ⟨h, n.toNat_lt⟩, UInt32.ofNat_toNat⟩

/-- The text is cut at its first point. -/
theorem readParts_eq {front rest : List Char} (hfront : '.' ∉ front) :
    readParts (front ++ '.' :: rest) = (do
      let slices ← readMeasure ['g'] front .slicesUnit .slicesNumber
      let memory ← readMeasure ['g', 'b'] rest .memoryUnit .memoryNumber
      if slices = 0 ∨ memory = 0 then .error .zero else .ok ⟨slices, memory⟩) := by
  have hpoint : ∀ c ∈ front, decide (c ≠ '.') = true := fun c hc =>
    decide_eq_true fun h => hfront (h ▸ hc)
  have hdrop : (front ++ '.' :: rest).dropWhile (· ≠ '.') = '.' :: rest := by
    rw [List.dropWhile_append_of_pos hpoint]
    rfl
  have htake : (front ++ '.' :: rest).takeWhile (· ≠ '.') = front := by
    rw [List.takeWhile_append_of_pos hpoint]
    simp
  rw [readParts, hdrop, htake]

theorem readParts_of_notMem {cs : List Char} (h : '.' ∉ cs) : readParts cs = .error .noDot := by
  have hdrop : cs.dropWhile (· ≠ '.') = [] :=
    List.dropWhile_eq_nil_iff.2 fun c hc => decide_eq_true fun hpoint => h (hpoint ▸ hc)
  rw [readParts, hdrop]

theorem readParts_eq_ok_iff {cs : List Char} {p : Profile} :
    readParts cs = .ok p ↔ p.Proper ∧ ∃ slices memory,
      cs = (slices ++ ['g']) ++ '.' :: (memory ++ ['g', 'b']) ∧
        Text.Unsigned slices p.slices.toNat ∧ Text.Unsigned memory p.memory.toNat := by
  constructor
  · intro h
    have hmem : '.' ∈ cs := by
      by_contra hmem
      cases (readParts_of_notMem hmem).symm.trans h
    obtain ⟨front, rest, rfl, hfront⟩ := List.eq_append_cons_of_mem hmem
    rw [readParts_eq hfront] at h
    obtain ⟨slices, hslices, hrest⟩ := except_bind_eq_ok.1 h
    obtain ⟨memory, hmemory, hchecked⟩ := except_bind_eq_ok.1 hrest
    obtain ⟨digits, rfl, hdigits⟩ := readMeasure_eq_ok_iff.1 hslices
    obtain ⟨digits', rfl, hdigits'⟩ := readMeasure_eq_ok_iff.1 hmemory
    split at hchecked
    · cases hchecked
    next hzero =>
      obtain rfl := Except.ok.inj hchecked
      exact ⟨⟨(not_or.1 hzero).1, (not_or.1 hzero).2⟩, digits, digits', rfl, hdigits, hdigits'⟩
  · rintro ⟨hproper, slices, memory, rfl, hslices, hmemory⟩
    have hfront : '.' ∉ slices ++ ['g'] := by
      intro hmem
      rcases List.mem_append.1 hmem with hmem | hmem
      · rcases hslices.isDigit_or_plus hmem with h | h <;> exact absurd h (by decide)
      · exact absurd hmem (by decide)
    rw [readParts_eq hfront, except_bind_eq_ok]
    refine ⟨p.slices, readMeasure_eq_ok_iff.2 ⟨slices, rfl, hslices⟩, except_bind_eq_ok.2 ?_⟩
    refine ⟨p.memory, readMeasure_eq_ok_iff.2 ⟨memory, rfl, hmemory⟩, ?_⟩
    rw [if_neg (not_or.2 ⟨hproper.slices, hproper.memory⟩)]

theorem readMeasure_digits (n : UInt32) (unit : List Char) (badUnit badNumber : ProfileFault) :
    readMeasure unit (Nat.toDigits 10 n.toNat ++ unit) badUnit badNumber = .ok n :=
  readMeasure_eq_ok_iff.2 ⟨_, rfl, .bare (Text.numeral_toDigits n.toNat)⟩

/-- There is no point in a measure. -/
theorem point_notMem (n : Nat) {unit : List Char} (hunit : '.' ∉ unit) :
    '.' ∉ Nat.toDigits 10 n ++ unit := by
  intro hmem
  rcases List.mem_append.1 hmem with hmem | hmem
  · exact absurd (Text.isDigit_of_mem_toDigits hmem) (by decide)
  · exact hunit hmem

/-- No two profiles have one text, proper or not. -/
theorem text_injective : Function.Injective text := by
  intro p q h
  have hmeasure : ∀ {m n : UInt32} {unit : List Char},
      Nat.toDigits 10 m.toNat ++ unit = Nat.toDigits 10 n.toNat ++ unit → m = n := by
    intro m n unit heq
    have hread := readMeasure_digits m unit .noDot .noDot
    rw [heq, readMeasure_digits] at hread
    exact (Except.ok.inj hread).symm
  have hlist := congrArg String.toList h
  rw [toList_text, toList_text,
    List.append_cons_inj_of_notMem (point_notMem _ (by decide)) (point_notMem _ (by decide))]
    at hlist
  obtain ⟨hslices, -, hmemory⟩ := hlist
  cases p
  cases q
  exact congrArg₂ mk (hmeasure hslices) (hmeasure hmemory)

theorem readParts_text (p : Profile) :
    readParts p.text.toList = if p.Proper then .ok p else .error .zero := by
  rw [toList_text, readParts_eq (point_notMem _ (by decide)), readMeasure_digits,
    readMeasure_digits]
  change (if _ then _ else _) = _
  by_cases h : p.Proper
  · rw [if_pos h, if_neg (not_or.2 ⟨h.slices, h.memory⟩)]
  · rw [if_neg h, if_pos (by_contra fun hne => h ⟨(not_or.1 hne).1, (not_or.1 hne).2⟩)]

theorem parse_eq_ok_iff {s : String} {p : Profile} :
    parse s = .ok p ↔ readParts ((Text.trim s.toList).map Char.toLower) = .ok p := by
  rw [parse]
  cases readParts ((Text.trim s.toList).map Char.toLower) <;> simp [Except.mapError]

theorem parse_text_eq (p : Profile) :
    parse p.text = if p.Proper then .ok p else .error ⟨p.text, .zero⟩ := by
  rw [parse, prepared_text, readParts_text]
  split <;> rfl

/-- The text of a proper profile is read back. -/
theorem parse_text {p : Profile} (h : p.Proper) : parse p.text = .ok p := by
  rw [parse_text_eq, if_pos h]

/-- Only proper profiles are read. -/
theorem proper_of_parse {s : String} {p : Profile} (h : parse s = .ok p) : p.Proper :=
  (readParts_eq_ok_iff.1 (parse_eq_ok_iff.1 h)).1

end GpuPartition.Profile
