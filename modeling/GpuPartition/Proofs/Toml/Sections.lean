/-
The sections of a TOML table, one after the other: those of each of its members in turn
(`Toml.memberSections`). Their headers are kept relative to the table, so a table has the same
sections wherever it stands. The writer prints a section under the path of its table, and what it
prints says the section under that path (`Toml.memberSections?_says`).
-/
import GpuPartition.Proofs.Toml.Lines

namespace GpuPartition.Toml

/-! ## Tables

A table that is written as sections holds flat values, such tables, and lists of such tables. -/

/-- A member of a table, given what its tables are. -/
inductive Member (IsTable : List (String × Tree) → Prop) : Tree → Prop
  | value {t : Tree} (flat : IsFlat t) : Member IsTable t
  | table {ms : List (String × Tree)} (h : IsTable ms) : Member IsTable (.table ms)
  | tables {m : List (String × Tree)} {ms : List (List (String × Tree))} (h : IsTable m)
    (hs : ∀ m ∈ ms, IsTable m) : Member IsTable (.list (.table m :: ms.map .table))

/-- A table with tables less than so deep inside each other, no name of which comes twice. -/
def Plain : Nat → List (String × Tree) → Prop
  | 0, _ => False
  | depth + 1, ms => (ms.map (·.1)).Nodup ∧ ∀ m ∈ ms, Member (Plain depth) m.2

/-- The assignments below the header of a table. -/
def assignmentsOf (ms : List (String × Tree)) : List Assignment :=
  (ms.filter fun m => !isSection m.2).map fun m => ⟨[], m.1, m.2⟩

/-- Whether a table gets a header. -/
def hasHeader (ms : List (String × Tree)) : Bool := ms.isEmpty || ms.any fun m => !isSection m.2

/-- A section of a member, as a section of the table that has the member. -/
def under (name : String) (s : Section) : Section := ({ s.1 with path := name :: s.1.path }, s.2)

mutual

/-- The sections of a member of a table. -/
def sectionsOf (name : String) : Tree → List Section
  | .table ms => (if hasHeader ms then [(⟨false, [], name⟩, assignmentsOf ms)] else []) ++
      (memberSections ms).map (under name)
  | .list items => if isSection (.list items) then itemSections name items else []
  | _ => []

def itemSections (name : String) : List Tree → List Section
  | .table ms :: ts => (⟨true, [], name⟩, assignmentsOf ms) ::
      ((memberSections ms).map (under name) ++ itemSections name ts)
  | _ => []

/-- The sections of the members of a table. -/
def memberSections : List (String × Tree) → List Section
  | [] => []
  | (name, t) :: ms => sectionsOf name t ++ memberSections ms

end

/-- The statements of a section of the table under a path. -/
def statementsOf (path : List String) (s : Section) : List Statement :=
  .header { s.1 with path := path ++ s.1.path } :: s.2.map .assignment

theorem statementsOf_under (path : List String) (name : String) (s : Section) :
    statementsOf path (under name s) = statementsOf (path ++ [name]) s := by
  simp [statementsOf, under]

theorem IsFlat.not_isSection {t : Tree} (h : IsFlat t) : isSection t = false := by
  cases t with
  | list items =>
    cases items with
    | nil => rfl
    | cons t ts =>
      have ht := h t List.mem_cons_self
      cases t with
      | table ms => exact ht.elim
      | _ => rfl
  | table ms => exact h.elim
  | _ => rfl

theorem isSection_tables (m : List (String × Tree)) (ms : List (List (String × Tree))) :
    isSection (.list (.table m :: ms.map .table)) = true := by
  simp [isSection, isTable]

theorem Member.isFlat {P : List (String × Tree) → Prop} {t : Tree} (h : Member P t)
    (hvalue : isSection t = false) : IsFlat t := by
  cases h with
  | value flat => exact flat
  | table => cases hvalue
  | tables h hs => rw [isSection_tables] at hvalue; cases hvalue

variable {ms : List (String × Tree)} {path : List String} {name : String}

theorem pairTexts?_flat (h : ∀ m ∈ ms, IsFlat m.2) : ∃ lines, pairTexts? ms = some lines ∧
    List.Forall₂ (fun line m => IsLine line.toList (.assignment ⟨[], m.1, m.2⟩)) lines ms := by
  induction ms with
  | nil => exact ⟨[], rfl, .nil⟩
  | cons m ms ih =>
    obtain ⟨name, t⟩ := m
    obtain ⟨ht, hms⟩ := List.forall_mem_cons.1 h
    obtain ⟨text, htext, hread⟩ := reads_flat (depthLimit - 1) ht
    obtain ⟨lines, hlines, hreads⟩ := ih hms
    exact ⟨_, by simp [pairTexts?, htext, hlines], .cons (isLine_assignment name hread) hreads⟩

/-- The values of a table are written as its assignments. -/
theorem assignments_says (h : ∀ m ∈ ms, isSection m.2 = false → IsFlat m.2) : ∃ lines,
    pairTexts? (ms.filter fun m => !isSection m.2) = some lines ∧
    List.Forall₂ (fun line s => IsLine line.toList s) lines
      ((assignmentsOf ms).map .assignment) := by
  have hvalues : ∀ m ∈ ms.filter (fun m => !isSection m.2), IsFlat m.2 := fun m hm =>
    h m (List.mem_filter.1 hm).1 (by simpa using (List.mem_filter.1 hm).2)
  obtain ⟨lines, hlines, hreads⟩ := pairTexts?_flat hvalues
  refine ⟨lines, hlines, ?_⟩
  rw [assignmentsOf, List.map_map]
  exact List.forall₂_map_right_iff.2 hreads

/-- A section is written below its header. -/
theorem section_says (array : Bool) (name : String) (hpath : path.length < depthLimit)
    (h : ∀ m ∈ ms, isSection m.2 = false → IsFlat m.2) :
    ∃ text, assignments? (some (headerText array (path ++ [name]))) ms = some [text] ∧
      Says text.toList (statementsOf path (⟨array, [], name⟩, assignmentsOf ms)) := by
  obtain ⟨lines, hlines, hreads⟩ := assignments_says h
  have hsays := says_lines (.cons (isLine_header array name hpath) hreads)
  refine ⟨_, by simp [assignments?, hlines]; rfl, ?_⟩
  rw [statementsOf, List.append_nil]
  simpa using hsays

theorem filter_eq_nil_of_hasHeader (h : hasHeader ms = false) :
    ms.filter (fun m => !isSection m.2) = [] := by
  rw [hasHeader, Bool.or_eq_false_iff] at h
  simpa using h.2

/-- What the writer prints for the sections of the table under a path. -/
def Printed (path : List String) (texts : List String) (sections : List Section) : Prop :=
  List.Forall₂ (fun text s => Says text.toList (statementsOf path s)) texts sections

theorem Printed.append {texts texts' : List String} {sections sections' : List Section}
    (h : Printed path texts sections) (h' : Printed path texts' sections') :
    Printed path (texts ++ texts') (sections ++ sections') :=
  List.rel_append h h'

theorem Printed.under {texts : List String} {sections : List Section} (name : String)
    (h : Printed (path ++ [name]) texts sections) :
    Printed path texts (sections.map (under name)) :=
  List.forall₂_map_right_iff.2 (h.imp fun _ _ hsays => by rwa [statementsOf_under])

theorem Plain.flat {depth : Nat} (h : Plain depth ms) :
    ∀ m ∈ ms, isSection m.2 = false → IsFlat m.2 := by
  cases depth with
  | zero => exact h.elim
  | succ depth => exact fun m hm => (h.2 m hm).isFlat

section Deeper

variable (hflat : ∀ m ∈ ms, isSection m.2 = false → IsFlat m.2)
  (hmembers : ∃ texts, memberSections? (path ++ [name]) ms = some texts ∧
    Printed (path ++ [name]) texts (memberSections ms))

include hflat hmembers

theorem sections?_table (hpath : path.length < depthLimit) :
    ∃ texts, sections? (path ++ [name]) (.table ms) = some texts ∧
      Printed path texts (sectionsOf name (.table ms)) := by
  obtain ⟨texts, htexts, hprinted⟩ := hmembers
  cases hheader : hasHeader ms with
  | true =>
    obtain ⟨text, htext, hsays⟩ := section_says false name hpath hflat
    have htable : tableHeader (path ++ [name]) ms = some (headerText false (path ++ [name])) :=
      if_pos hheader
    refine ⟨text :: texts, by simp [sections?, htable, htext, htexts], ?_⟩
    rw [sectionsOf, hheader]
    exact .cons hsays (hprinted.under name)
  | false =>
    have htable : tableHeader (path ++ [name]) ms = none :=
      if_neg (show ¬ hasHeader ms = true by simp [hheader])
    have hnone := filter_eq_nil_of_hasHeader hheader
    refine ⟨texts, by simp [sections?, htable, assignments?, hnone, pairTexts?, htexts], ?_⟩
    rw [sectionsOf, hheader]
    exact hprinted.under name

theorem itemSections?_cons (hpath : path.length < depthLimit) {items : List Tree}
    (hitems : ∃ texts, itemSections? (path ++ [name]) items = some texts ∧
      Printed path texts (itemSections name items)) :
    ∃ texts, itemSections? (path ++ [name]) (.table ms :: items) = some texts ∧
      Printed path texts (itemSections name (.table ms :: items)) := by
  obtain ⟨texts, htexts, hprinted⟩ := hmembers
  obtain ⟨rest, hrest, hprinted'⟩ := hitems
  obtain ⟨text, htext, hsays⟩ := section_says true name hpath hflat
  rw [headerText, if_pos rfl] at htext
  refine ⟨text :: (texts ++ rest), by simp [itemSections?, htext, htexts, hrest], ?_⟩
  rw [itemSections]
  exact .cons hsays ((hprinted.under name).append hprinted')

end Deeper

theorem sections?_flat {t : Tree} (h : IsFlat t) : sections? path t = some [] := by
  cases t with
  | list items => exact if_neg (by simp [h.not_isSection])
  | table ms => exact h.elim
  | _ => rfl

theorem sectionsOf_flat {t : Tree} (h : IsFlat t) : sectionsOf name t = [] := by
  cases t with
  | list items => exact if_neg (by simp [h.not_isSection])
  | table ms => exact h.elim
  | _ => rfl

/-- The writer prints the sections of a member, given that it does so for tables. -/
theorem sections?_says {IsTable : List (String × Tree) → Prop} {t : Tree} (ht : Member IsTable t)
    (hpath : path.length < depthLimit)
    (hflat : ∀ {ms}, IsTable ms → ∀ m ∈ ms, isSection m.2 = false → IsFlat m.2)
    (hdeeper : ∀ {ms}, IsTable ms → ∃ texts, memberSections? (path ++ [name]) ms = some texts ∧
      Printed (path ++ [name]) texts (memberSections ms)) :
    ∃ texts, sections? (path ++ [name]) t = some texts ∧
      Printed path texts (sectionsOf name t) := by
  cases ht with
  | value hflat => exact ⟨[], sections?_flat hflat, by rw [sectionsOf_flat hflat]; exact .nil⟩
  | table h => exact sections?_table (hflat h) (hdeeper h) hpath
  | @tables m ms h hs =>
    have hitems : ∃ texts, itemSections? (path ++ [name]) (ms.map .table) = some texts ∧
        Printed path texts (itemSections name (ms.map .table)) := by
      induction ms with
      | nil => exact ⟨[], rfl, .nil⟩
      | cons m ms ih =>
        obtain ⟨hm, hs⟩ := List.forall_mem_cons.1 hs
        exact itemSections?_cons (hflat hm) (hdeeper hm) hpath (ih hs)
    have hsection := isSection_tables m ms
    simp only [sections?, sectionsOf, hsection, if_true]
    exact itemSections?_cons (hflat h) (hdeeper h) hpath hitems

/-- **The text of a table.** The writer prints the sections of a table under its path. -/
theorem memberSections?_says (depth : Nat) : ∀ {path ms}, Plain depth ms →
    path.length + depth ≤ depthLimit →
    ∃ texts, memberSections? path ms = some texts ∧ Printed path texts (memberSections ms) := by
  induction depth with
  | zero => exact fun h _ => h.elim
  | succ depth ih =>
    intro path ms hplain hpath
    have hdeeper : ∀ (name : String) {ms}, Plain depth ms → ∃ texts,
        memberSections? (path ++ [name]) ms = some texts ∧
          Printed (path ++ [name]) texts (memberSections ms) := fun name ms h =>
      ih h (by rw [List.length_append, List.length_singleton]; omega)
    -- The induction on the depth is about all tables; this one is about the members of one of them.
    have hmembers := hplain.2
    clear hplain
    induction ms with
    | nil => exact ⟨[], rfl, .nil⟩
    | cons m ms ihms =>
      obtain ⟨name, t⟩ := m
      obtain ⟨ht, hms⟩ := List.forall_mem_cons.1 hmembers
      obtain ⟨texts, htexts, hprinted⟩ := ihms hms
      obtain ⟨texts', htexts', hprinted'⟩ := sections?_says ht (by omega) Plain.flat (hdeeper name)
      exact ⟨texts' ++ texts, by simp [memberSections?, htexts, htexts'], hprinted'.append hprinted⟩

end GpuPartition.Toml
