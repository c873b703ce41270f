/-
Which texts are profiles (`Profile.parse_exact`): those that spell one (`Spells`), with blanks
around it, plus signs, leading zeros and letters in either case. Any other text is refused, and the
error carries it.

Of the letters only ASCII ones are put in lower case before a text is read. Lower case in the sense
of Unicode would come to the same, down to the fault that is reported (`readParts_of_lowered`): the
two differ only in runs of characters that no profile has (`Akin`), and these are refused alike.
-/
import GpuPartition.Proofs.Profile

namespace GpuPartition.Profile

variable {s : String} {p : Profile} {cs ds front rest unit : List Char} {c : Char}

/-! ## Spellings -/

/-- The ways to write a profile, without blanks around it. -/
inductive Spelling (p : Profile) : List Char → Prop
  | mk {slices memory : List Char} {g g' b : Char} (hslices : Text.Unsigned slices p.slices.toNat)
    (hg : g ∈ ['g', 'G']) (hmemory : Text.Unsigned memory p.memory.toNat) (hg' : g' ∈ ['g', 'G'])
    (hb : b ∈ ['b', 'B']) : Spelling p (slices ++ [g] ++ '.' :: (memory ++ [g', b]))

/-- The text is a way to write the profile, whose numbers are not zero, with blanks around it. -/
def Spells (s : String) (p : Profile) : Prop :=
  p.Proper ∧ ∃ before core after, s.toList = before ++ core ++ after ∧ Text.Blank before ∧
    Text.Blank after ∧ Spelling p core

theorem toLower_eq_g : c.toLower = 'g' ↔ c ∈ ['g', 'G'] := Text.toLower_eq_iff (by decide) rfl

theorem toLower_eq_b : c.toLower = 'b' ↔ c ∈ ['b', 'B'] := Text.toLower_eq_iff (by decide) rfl

/-- There are no letters in a number. -/
theorem map_toLower_eq_unsigned {n : Nat} (h : Text.Unsigned ds n) :
    cs.map Char.toLower = ds ↔ cs = ds := by
  refine Text.map_toLower_eq_iff_of_lt fun d hd => ?_
  rcases h.isDigit_or_plus hd with hdigit | rfl
  · exact (Text.isDigit_iff.1 hdigit).2.trans_lt (by decide)
  · decide

theorem spelling_iff : Spelling p cs ↔ ∃ slices memory,
    cs.map Char.toLower = (slices ++ ['g']) ++ '.' :: (memory ++ ['g', 'b']) ∧
      Text.Unsigned slices p.slices.toNat ∧ Text.Unsigned memory p.memory.toNat := by
  constructor
  · rintro @⟨slices, memory, g, g', b, hslices, hg, hmemory, hg', hb⟩
    refine ⟨slices, memory, ?_, hslices, hmemory⟩
    simp only [List.map_append, List.map_cons, List.map_nil,
      (map_toLower_eq_unsigned hslices).2 rfl, (map_toLower_eq_unsigned hmemory).2 rfl,
      toLower_eq_g.2 hg, toLower_eq_g.2 hg', toLower_eq_b.2 hb]
    rfl
  · rintro ⟨slices, memory, hcs, hslices, hmemory⟩
    obtain ⟨front, rest, rfl, hfront, hrest⟩ := List.map_eq_append_iff.1 hcs
    obtain ⟨digits, last, rfl, hdigits, hlast⟩ := List.map_eq_append_iff.1 hfront
    obtain ⟨g, tail, rfl, hg, htail⟩ := List.map_eq_cons_iff.1 hlast
    obtain ⟨point, rest, rfl, hpoint, hrest⟩ := List.map_eq_cons_iff.1 hrest
    obtain ⟨digits', last', rfl, hdigits', hlast'⟩ := List.map_eq_append_iff.1 hrest
    obtain ⟨g', last', rfl, hg', hlast'⟩ := List.map_eq_cons_iff.1 hlast'
    obtain ⟨b, tail', rfl, hb, htail'⟩ := List.map_eq_cons_iff.1 hlast'
    obtain rfl := (map_toLower_eq_unsigned hslices).1 hdigits
    obtain rfl := (map_toLower_eq_unsigned hmemory).1 hdigits'
    obtain rfl := List.map_eq_nil_iff.1 htail
    obtain rfl := List.map_eq_nil_iff.1 htail'
    obtain rfl := (Text.toLower_eq_iff_of_lt (by decide)).1 hpoint
    exact .mk hslices (toLower_eq_g.1 hg) hmemory (toLower_eq_g.1 hg') (toLower_eq_b.1 hb)

theorem Spelling.not_blank (h : Spelling p cs) (hc : c ∈ cs) : Text.isBlank c = false := by
  obtain @⟨slices, memory, g, g', b, hslices, hg, hmemory, hg', hb⟩ := h
  have hnumber : ∀ {ds n}, Text.Unsigned ds n → c ∈ ds → Text.isBlank c = false := fun h hc => by
    rcases h.isDigit_or_plus hc with hdigit | rfl
    · exact IsTextChar.not_blank (.inl hdigit)
    · decide
  simp only [List.mem_append, List.mem_cons, List.not_mem_nil, or_false] at hc hg hg' hb
  rcases hc with (hc | rfl) | rfl | hc | rfl | rfl
  · exact hnumber hslices hc
  · rcases hg with rfl | rfl <;> decide
  · decide
  · exact hnumber hmemory hc
  · rcases hg' with rfl | rfl <;> decide
  · rcases hb with rfl | rfl <;> decide

theorem spells_iff : Spells s p ↔ p.Proper ∧ Spelling p (Text.trim s.toList) := by
  refine and_congr_right fun _ => ?_
  constructor
  · rintro ⟨before, core, after, hs, hbefore, hafter, hcore⟩
    have hne : core ≠ [] := by
      cases hcore
      simp
    have htrim : Text.trim s.toList = core := hs ▸ Text.trim_padded hbefore hafter
      (fun c hc => hcore.not_blank (List.mem_of_mem_head? hc))
      (fun c hc => hcore.not_blank (List.mem_of_mem_getLast? hc)) hne
    exact htrim ▸ hcore
  · intro hcore
    obtain ⟨before, after, hs, hbefore, hafter⟩ := Text.exists_padding s.toList
    exact ⟨before, _, after, hs, hbefore, hafter, hcore⟩

/-- What is read is what is spelled. -/
theorem parse_eq_ok_iff_spells : parse s = .ok p ↔ Spells s p := by
  rw [parse_eq_ok_iff, readParts_eq_ok_iff, spells_iff, spelling_iff]

/-! ## Lower case -/

/-- The character may stand in a profile in lower case. -/
def IsPart (c : Char) : Prop := IsTextChar c ∨ c = '+'

theorem IsPart.ascii (h : IsPart c) : c.toNat < 128 ∧ c ≠ 'i' ∧ c ≠ 'k' := by
  rcases h with (h | rfl | rfl | rfl) | rfl
  · have hrange := Text.isDigit_iff.1 h
    exact ⟨by omega, Text.ne_of_isDigit h (by decide), Text.ne_of_isDigit h (by decide)⟩
  all_goals decide

/-- The texts differ in nothing but runs of characters that no profile has. -/
inductive Akin : List Char → List Char → Prop
  | nil : Akin [] []
  | same (c : Char) {cs ds : List Char} (h : Akin cs ds) : Akin (c :: cs) (c :: ds)
  | foreign {run run' cs ds : List Char} (some : run ≠ []) (some' : run' ≠ [])
    (run_foreign : ∀ c ∈ run, ¬ IsPart c) (run'_foreign : ∀ c ∈ run', ¬ IsPart c)
    (h : Akin cs ds) : Akin (run ++ cs) (run' ++ ds)

namespace Akin

theorem symm (h : Akin cs ds) : Akin ds cs := by
  induction h with
  | nil => exact .nil
  | same c _ ih => exact .same c ih
  | foreign some some' run run' _ ih => exact .foreign some' some run' run ih

theorem eq_of_parts (h : Akin cs ds) (hds : ∀ c ∈ ds, IsPart c) : cs = ds := by
  induction h with
  | nil => rfl
  | same c _ ih => rw [ih (List.forall_mem_cons.1 hds).2]
  | foreign some some' run run' _ ih =>
    obtain ⟨c, hc⟩ := List.exists_mem_of_ne_nil _ some'
    exact absurd (hds c (List.mem_append_left _ hc)) (run' c hc)

/-- Akin texts are cut alike at what may stand in a profile. -/
theorem cut (h : Akin cs (front ++ c :: rest)) (hc : IsPart c) :
    ∃ front' rest', cs = front' ++ c :: rest' ∧ Akin front' front ∧ Akin rest' rest := by
  generalize hds : front ++ c :: rest = ds at h
  induction h generalizing front with
  | nil => simp at hds
  | @same d cs ds h ih =>
    cases front with
    | nil =>
      obtain ⟨rfl, rfl⟩ := List.cons.inj hds
      exact ⟨[], cs, rfl, .nil, h⟩
    | cons d' front =>
      obtain ⟨rfl, htail⟩ := List.cons.inj hds
      obtain ⟨front', rest', rfl, hfront, hrest⟩ := ih htail
      exact ⟨d' :: front', rest', rfl, .same d' hfront, hrest⟩
  | @foreign run run' cs ds some some' hrun hrun' h ih =>
    -- The run is over before `c` comes.
    obtain ⟨front₁, rfl, hcut⟩ : ∃ front₁, front = run' ++ front₁ ∧ front₁ ++ c :: rest = ds := by
      rcases List.append_eq_append_iff.1 hds with ⟨rest', rfl, hrest'⟩ | ⟨front₁, rfl, hfront₁⟩
      · cases rest' with
        | nil => exact ⟨[], by simp, hrest'⟩
        | cons d rest' =>
          obtain ⟨rfl, -⟩ := List.cons.inj hrest'
          exact absurd hc (hrun' c (by simp))
      · exact ⟨front₁, rfl, hfront₁.symm⟩
    obtain ⟨front', rest', rfl, hfront, hrest⟩ := ih hcut
    exact ⟨run ++ front', rest', (List.append_assoc _ _ _).symm,
      .foreign some some' hrun hrun' hfront, hrest⟩

theorem mem (h : Akin cs ds) (hc : IsPart c) (hmem : c ∈ ds) : c ∈ cs := by
  obtain ⟨front, rest, rfl⟩ := List.append_of_mem hmem
  obtain ⟨front', rest', rfl, -, -⟩ := h.cut hc
  exact List.mem_append_right _ List.mem_cons_self

/-- They end alike. -/
theorem dropTail (h : Akin cs (front ++ unit)) (hunit : ∀ c ∈ unit, IsPart c) :
    ∃ front', cs = front' ++ unit ∧ Akin front' front := by
  cases unit with
  | nil => exact ⟨cs, (List.append_nil cs).symm, List.append_nil front ▸ h⟩
  | cons c tail =>
    obtain ⟨hc, htail⟩ := List.forall_mem_cons.1 hunit
    obtain ⟨front', rest', rfl, hfront, hrest⟩ := h.cut hc
    exact ⟨front', by rw [hrest.eq_of_parts htail], hfront⟩

theorem readBelow_eq_some (h : Akin cs ds) {limit n : Nat}
    (hread : Text.readBelow limit ds = some n) : Text.readBelow limit cs = some n := by
  have hparts : ∀ c ∈ ds, IsPart c := fun c hc =>
    ((Text.readBelow_eq_some_iff.1 hread).1.isDigit_or_plus hc).imp_left .inl
  rw [h.eq_of_parts hparts, hread]

theorem readBelow_eq (h : Akin cs ds) (limit : Nat) :
    Text.readBelow limit cs = Text.readBelow limit ds :=
  Option.ext fun _ => ⟨h.symm.readBelow_eq_some, h.readBelow_eq_some⟩

theorem readMeasure_eq (h : Akin cs ds) (hunit : ∀ c ∈ unit, IsPart c)
    (badUnit badNumber : ProfileFault) :
    readMeasure unit cs badUnit badNumber = readMeasure unit ds badUnit badNumber := by
  cases hdrop : dropTail? unit ds with
  | some front =>
    obtain ⟨front', hcs, hfront⟩ := dropTail (dropTail?_eq_some.1 hdrop ▸ h) hunit
    rw [readMeasure, readMeasure, hdrop, dropTail?_eq_some.2 hcs]
    dsimp only
    rw [hfront.readBelow_eq]
  | none =>
    have hnone : dropTail? unit cs = none := by
      by_contra hsome
      obtain ⟨front, hcs⟩ := Option.ne_none_iff_exists'.1 hsome
      obtain ⟨front', hds, -⟩ := dropTail (dropTail?_eq_some.1 hcs ▸ h.symm) hunit
      cases hdrop.symm.trans (dropTail?_eq_some.2 hds)
    rw [readMeasure, readMeasure, hdrop, hnone]

theorem readParts_eq (h : Akin cs ds) : readParts cs = readParts ds := by
  have hpoint : IsPart '.' := .inl (.inr (.inr (.inl rfl)))
  have hunit : ∀ c ∈ ['g'], IsPart c := by simp [IsPart, IsTextChar]
  have hunits : ∀ c ∈ ['g', 'b'], IsPart c := by simp [IsPart, IsTextChar]
  by_cases hmem : '.' ∈ ds
  · obtain ⟨front, rest, rfl, hfront⟩ := List.eq_append_cons_of_mem hmem
    obtain ⟨front', rest', rfl, hfronts, hrests⟩ := h.cut hpoint
    have hfront' : '.' ∉ front' := fun hmem => hfront (hfronts.symm.mem hpoint hmem)
    rw [Profile.readParts_eq hfront, Profile.readParts_eq hfront',
      hfronts.readMeasure_eq hunit, hrests.readMeasure_eq hunits]
  · rw [readParts_of_notMem hmem, readParts_of_notMem fun h' => hmem (h.symm.mem hpoint h')]

end Akin

theorem akin_of_lowered (h : Text.Lowered cs ds) : Akin (cs.map Char.toLower) ds := by
  obtain ⟨images, himages, rfl⟩ := h
  induction himages with
  | nil => exact .nil
  | @cons c image cs images hc _ ih =>
    rw [List.map_cons, List.flatten_cons]
    cases hc with
    | ascii => exact .same _ ih
    | other h some ascii =>
      rw [Text.toLower_of_not_upper (by omega)]
      refine .foreign (List.cons_ne_nil c []) some ?_ (fun d hd hpart => ?_) ih
      · exact List.forall_mem_singleton.2 fun hpart => absurd hpart.ascii.1 (by omega)
      · obtain ⟨hlt, hi, hk⟩ := hpart.ascii
        exact (ascii d hd hlt).elim hi hk

/-- A text in lower case in the sense of Unicode is read as one in which only ASCII letters are. -/
theorem readParts_of_lowered (h : Text.Lowered cs ds) :
    readParts (cs.map Char.toLower) = readParts ds := (akin_of_lowered h).readParts_eq

/-! ## What is read -/

theorem parse_of_not_spells (h : ¬ ∃ p, Spells s p) : ∃ fault, parse s = .error ⟨s, fault⟩ := by
  rw [parse]
  cases hread : readParts ((Text.trim s.toList).map Char.toLower) with
  | error fault => exact ⟨fault, rfl⟩
  | ok p => exact absurd ⟨p, parse_eq_ok_iff_spells.1 (parse_eq_ok_iff.2 hread)⟩ h

/-- **Texts of profiles.** A text is read as a profile exactly if it spells it, and every other text
is refused with an error that carries it. It does not matter whether the letters are put in lower
case as ASCII or as Unicode has it. All spellings of a profile are read and printed as its text,
and the text of a profile is read back unless one of its numbers is zero. -/
theorem parse_exact (s : String) :
    (∀ p, parse s = .ok p ↔ Spells s p) ∧
    ((¬ ∃ p, Spells s p) → ∃ fault, parse s = .error ⟨s, fault⟩) ∧
    (∀ lowered, Text.Lowered (Text.trim s.toList) lowered →
      parse s = (readParts lowered).mapError (⟨s, ·⟩)) ∧
    (∀ p, Spells s p → (parse s).map text = .ok p.text) ∧
    ∀ p : Profile, parse p.text = if p.Proper then .ok p else .error ⟨p.text, .zero⟩ := by
  refine ⟨fun p => parse_eq_ok_iff_spells, parse_of_not_spells, fun lowered h => ?_,
    fun p h => ?_, parse_text_eq⟩
  · rw [parse, readParts_of_lowered h]
  · rw [parse_eq_ok_iff_spells.2 h]
    rfl

/-- An unusual spelling, and a text that ends with the sign for Kelvin, a `k` in lower case. -/
theorem parse_exact_unusual :
    let s := " +07G.040Gb\u3000"
    let kelvin := "1g.5g\u212a"
    Spells s ⟨7, 40⟩ ∧ parse s = .ok ⟨7, 40⟩ ∧ (parse s).map text = .ok "7g.40gb" ∧
      Text.Lowered (Text.trim kelvin.toList) ['1', 'g', '.', '5', 'g', 'k'] ∧
      parse kelvin = .error ⟨kelvin, .memoryUnit⟩ := by
  intro s kelvin
  have hseven : Text.Numeral ['0', '7'] 7 := Text.numeral_iff.2 ⟨by decide, by simp, rfl⟩
  have hforty : Text.Numeral ['0', '4', '0'] 40 := Text.numeral_iff.2 ⟨by decide, by simp, rfl⟩
  have hcore : Spelling ⟨7, 40⟩
      (['+', '0', '7'] ++ ['G'] ++ '.' :: (['0', '4', '0'] ++ ['G', 'b'])) :=
    .mk (.plus hseven) (by decide) (.bare hforty) (by decide) (by decide)
  have hspells : Spells s ⟨7, 40⟩ :=
    ⟨⟨by decide, by decide⟩, [' '], _, ['\u3000'], by decide, by decide, by decide, hcore⟩
  have hlowered : Text.Lowered (Text.trim kelvin.toList) ['1', 'g', '.', '5', 'g', 'k'] := by
    have htrim : Text.trim kelvin.toList = ['1', 'g', '.', '5', 'g'] ++ ['\u212a'] := by decide
    have hascii : List.Forall₂ Text.LowerCase ['1', 'g', '.', '5', 'g']
        [['1'], ['g'], ['.'], ['5'], ['g']] := by
      simp only [List.forall₂_cons, List.Forall₂.nil, and_true]
      exact ⟨.ascii (by decide), .ascii (by decide), .ascii (by decide), .ascii (by decide),
        .ascii (by decide)⟩
    have hkelvin : Text.LowerCase '\u212a' ['k'] :=
      .other (by decide) (by decide) fun d hd _ => .inr (List.mem_singleton.1 hd)
    rw [htrim]
    exact ⟨_, List.rel_append hascii (.cons hkelvin .nil), rfl⟩
  obtain ⟨hparse, -, -, htext, -⟩ := parse_exact s
  obtain ⟨-, -, hlower, -, -⟩ := parse_exact kelvin
  exact ⟨hspells, (hparse _).2 hspells, htext _ hspells, hlowered, (hlower _ hlowered).trans rfl⟩

end GpuPartition.Profile
