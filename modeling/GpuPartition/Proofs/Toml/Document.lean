/-
TOML documents read back. The text of a plain table is read as the table, with the members that are
written as sections behind the others (`Toml.parse_print`). A table that holds a number beyond the
integers of TOML, at any place, is not written at all (`Toml.lt_of_print?`).
-/
import GpuPartition.Proofs.Toml.Placing

namespace GpuPartition.Toml

variable {ms : List (String × Tree)} {n : Nat}

/-! ## Statements -/

/-- A mark at the start of a document is none of what it says. -/
theorem Says.dropMark {cs : List Char} {ss : List Statement} (h : Says cs ss) :
    dropMark cs = cs := by
  cases h with
  | nil => rfl
  | blank => rfl
  | line hline _ =>
    obtain ⟨c, cs', rfl, hc⟩ := hline.starts
    unfold Toml.dropMark
    split
    next heq =>
      have hmark := (List.cons.inj heq).1
      rcases hc with hc | rfl
      · exact absurd hmark (hc.ne rfl (by decide) (by decide))
      · exact absurd hmark (by decide)
    next => rfl

theorem statementsOf_nil (s : Section) :
    statementsOf [] s = .header s.1 :: s.2.map .assignment := rfl

theorem spanAssignments_append (as : List Assignment) (secs : List Section) :
    spanAssignments (as.map .assignment ++ (secs.map (statementsOf [])).flatten) =
      (as, (secs.map (statementsOf [])).flatten) := by
  induction as with
  | nil => cases secs <;> rfl
  | cons a as ih => rw [List.map_cons, List.cons_append, spanAssignments, ih]

theorem sections_append (as : List Assignment) (ss : List Statement) :
    sections (as.map .assignment ++ ss) = sections ss := by
  induction as with
  | nil => rfl
  | cons a as ih => exact ih

/-- The statements of sections fall into these sections. -/
theorem sections_flatten (secs : List Section) :
    sections (secs.map (statementsOf [])).flatten = secs := by
  induction secs with
  | nil => rfl
  | cons s secs ih =>
    rw [List.map_cons, List.flatten_cons, statementsOf_nil, List.cons_append, sections,
      spanAssignments_append, sections_append, ih]

/-! ## Documents -/

/-- The assignments in front of the first header. -/
theorem assignments?_says (h : ∀ m ∈ ms, isSection m.2 = false → IsFlat m.2) :
    ∃ texts sss, assignments? none ms = some texts ∧
      List.Forall₂ (fun text ss => Says text.toList ss) texts sss ∧
      sss.flatten = (assignmentsOf ms).map .assignment := by
  obtain ⟨lines, hlines, hreads⟩ := assignments_says h
  cases hreads' : lines with
  | nil =>
    subst hreads'
    refine ⟨[], [], by simp [assignments?, hlines], .nil, ?_⟩
    exact (List.forall₂_nil_left_iff.1 hreads).symm
  | cons line rest =>
    refine ⟨_, [(assignmentsOf ms).map .assignment], ?_, .cons (says_lines hreads) .nil, by simp⟩
    simp [assignments?, hlines, hreads']

/-- **Documents.** The text of a plain table is read as the table, its sections last. -/
theorem parse_print (h : Plain depthLimit ms) :
    ∃ text, print? (.table ms) = some text ∧ parse text = some (arrange (.table ms)) := by
  obtain ⟨inner, hplaced⟩ := exists_placed depthLimit h
  obtain ⟨top, sss, htop, hsays, hflatten⟩ := assignments?_says h.flat
  obtain ⟨texts, htexts, hprinted⟩ := memberSections?_says depthLimit h
    (show ([] : List String).length + depthLimit ≤ depthLimit by simp)
  have hall := List.rel_append hsays (List.forall₂_map_right_iff.2 hprinted)
  have hdocument := says_intercalate hall
  rw [List.flatten_append, hflatten] at hdocument
  refine ⟨"\n".intercalate (top ++ texts), by simp [print?, htop, htexts], ?_⟩
  have hstatements := hdocument.statements? (Nat.lt_succ_self _)
  rw [parse, hdocument.dropMark]
  simp only [hstatements, spanAssignments_append, sections_flatten,
    assignAll_assignmentsOf hplaced.distinct, hplaced.place, hplaced.tree, Option.bind_eq_bind,
    Option.bind_some]
  rfl

/-! ## Numbers -/

/-- The number stands somewhere in the tree. -/
inductive Occurs (n : Nat) : Tree → Prop
  | here : Occurs n (.natural n)
  | item {items : List Tree} {t : Tree} (h : t ∈ items) (ht : Occurs n t) : Occurs n (.list items)
  | member {members : List (String × Tree)} {name : String} {t : Tree} (h : (name, t) ∈ members)
    (ht : Occurs n t) : Occurs n (.table members)

theorem valueText?_of_valueTexts? {items : List Tree} {texts : List String} {t : Tree}
    (h : valueTexts? items = some texts) (ht : t ∈ items) : ∃ text, valueText? t = some text := by
  induction items generalizing texts with
  | nil => cases ht
  | cons t' items ih =>
    simp only [valueTexts?, Option.bind_eq_bind, Option.bind_eq_some_iff] at h
    obtain ⟨text, htext, texts', htexts, -⟩ := h
    rcases List.mem_cons.1 ht with rfl | ht
    · exact ⟨text, htext⟩
    · exact ih htexts ht

theorem valueText?_of_pairTexts? {texts : List String} {m : String × Tree}
    (h : pairTexts? ms = some texts) (hm : m ∈ ms) : ∃ text, valueText? m.2 = some text := by
  induction ms generalizing texts with
  | nil => cases hm
  | cons m' ms ih =>
    simp only [pairTexts?, Option.bind_eq_bind, Option.bind_eq_some_iff] at h
    obtain ⟨text, htext, texts', htexts, -⟩ := h
    rcases List.mem_cons.1 hm with rfl | hm
    · exact ⟨text, htext⟩
    · exact ih htexts hm

theorem lt_of_valueText? {t : Tree} (h : Occurs n t) :
    ∀ {text}, valueText? t = some text → n < integerLimit := by
  induction h with
  | here =>
    intro text htext
    by_contra hn
    rw [valueText?, if_neg hn] at htext
    cases htext
  | item hmem _ ih =>
    intro text htext
    rw [valueText?, Option.map_eq_some_iff] at htext
    obtain ⟨texts, htexts, -⟩ := htext
    obtain ⟨text, htext⟩ := valueText?_of_valueTexts? htexts hmem
    exact ih htext
  | member hmem _ ih =>
    intro text htext
    rw [valueText?, Option.map_eq_some_iff] at htext
    obtain ⟨texts, htexts, -⟩ := htext
    obtain ⟨text, htext⟩ := valueText?_of_pairTexts? htexts hmem
    exact ih htext

theorem sections?_of_memberSections? {path : List String} {texts : List String}
    {m : String × Tree} (h : memberSections? path ms = some texts) (hm : m ∈ ms) :
    ∃ texts, sections? (path ++ [m.1]) m.2 = some texts := by
  induction ms generalizing texts with
  | nil => cases hm
  | cons m' ms ih =>
    simp only [memberSections?, Option.bind_eq_bind, Option.bind_eq_some_iff] at h
    obtain ⟨text, htext, texts', htexts, -⟩ := h
    rcases List.mem_cons.1 hm with rfl | hm
    · exact ⟨text, htext⟩
    · exact ih htexts hm

/-- What writing a table takes, under whichever header. -/
theorem written_of_sections? {path : List String} {texts : List String}
    (h : sections? path (.table ms) = some texts) :
    (∃ lines, pairTexts? (ms.filter fun m => !isSection m.2) = some lines) ∧
      ∃ texts, memberSections? path ms = some texts := by
  simp only [sections?, assignments?, Option.bind_eq_bind, Option.bind_eq_some_iff] at h
  obtain ⟨_, ⟨lines, hlines, -⟩, texts', htexts, -⟩ := h
  exact ⟨⟨lines, hlines⟩, texts', htexts⟩

theorem sections?_of_itemSections? {path : List String} {items : List Tree} {texts : List String}
    {t : Tree} (h : itemSections? path items = some texts) (ht : t ∈ items) :
    ∃ texts, sections? path t = some texts := by
  induction items generalizing texts with
  | nil => cases ht
  | cons t' items ih =>
    cases t' with
    | table ms =>
      simp only [itemSections?, assignments?, Option.bind_eq_bind, Option.bind_eq_some_iff] at h
      obtain ⟨_, ⟨lines, hlines, -⟩, texts', htexts, more, hmore, -⟩ := h
      rcases List.mem_cons.1 ht with rfl | ht
      · exact ⟨_, by simp [sections?, assignments?, hlines, htexts]; rfl⟩
      · exact ih hmore ht
    | _ => cases h

theorem isSection_of_mem {items : List Tree} {t : Tree} (h : isSection (.list items) = true)
    (ht : t ∈ items) : isSection t = true := by
  cases items with
  | nil => cases ht
  | cons first items =>
    have htable := List.all_eq_true.1 h t ht
    cases t with
    | table ms => rfl
    | _ => cases htable

theorem lt_of_sections? {t : Tree} (h : Occurs n t) : isSection t = true →
    ∀ {path texts}, sections? path t = some texts → n < integerLimit := by
  induction h with
  | here => exact fun hsection => nomatch hsection
  | @item items t hmem hoccurs ih =>
    intro hsection path texts htexts
    rw [sections?, if_pos hsection] at htexts
    obtain ⟨texts, htexts⟩ := sections?_of_itemSections? htexts hmem
    exact ih (isSection_of_mem hsection hmem) htexts
  | @member ms name t hmem hoccurs ih =>
    intro _ path texts htexts
    obtain ⟨⟨lines, hlines⟩, texts, htexts⟩ := written_of_sections? htexts
    cases hsection : isSection t with
    | true =>
      obtain ⟨texts, htexts⟩ := sections?_of_memberSections? htexts hmem
      exact ih hsection htexts
    | false =>
      have hvalue : (name, t) ∈ ms.filter fun m => !isSection m.2 :=
        List.mem_filter.2 ⟨hmem, by simp [hsection]⟩
      obtain ⟨text, htext⟩ := valueText?_of_pairTexts? hlines hvalue
      exact lt_of_valueText? hoccurs htext

/-- **Numbers.** In a document that is written, every number is one of the integers of TOML. -/
theorem lt_of_print? {text : String} (h : print? (.table ms) = some text)
    (hn : Occurs n (.table ms)) : n < integerLimit := by
  have hsections : ∃ texts, sections? [] (.table ms) = some texts := by
    simp only [print?, assignments?, Option.bind_eq_bind, Option.bind_eq_some_iff] at h
    obtain ⟨_, ⟨lines, hlines, -⟩, texts', htexts, -⟩ := h
    exact ⟨_, by simp [sections?, assignments?, hlines, htexts]; rfl⟩
  obtain ⟨texts, htexts⟩ := hsections
  exact lt_of_sections? hn rfl htexts

end GpuPartition.Toml
