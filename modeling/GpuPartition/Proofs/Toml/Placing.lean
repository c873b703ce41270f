/-
The sections of a TOML document, put in place one after the other. A section of a member is put into
the node of the member, as the section it is of the table there (`Toml.foldlM_under`), so the
sections of a table build it whatever stands next to it already (`Toml.exists_placed`).

What is built holds the members of the table, with those that are written as sections behind the
others (`Toml.arrange`).
-/
import Mathlib.Data.List.Nodup
import GpuPartition.Proofs.Toml.Sections

namespace GpuPartition.Toml

mutual

/-- The tree as it is read from its text: in each table, the sections come last. -/
def arrange : Tree → Tree
  | .table ms => .table (ms.filter (fun m => !isSection m.2) ++ arrangeSections ms)
  | .list items => if isSection (.list items) then .list (arrangeItems items) else .list items
  | t => t

def arrangeItems : List Tree → List Tree
  | [] => []
  | t :: ts => arrange t :: arrangeItems ts

/-- The members that are written as sections. -/
def arrangeSections : List (String × Tree) → List (String × Tree)
  | [] => []
  | (name, t) :: ms =>
    if isSection t then (name, arrange t) :: arrangeSections ms else arrangeSections ms

end

variable {fields : Fields} {name : String} {node : Node} {ms : List (String × Tree)}

/-! ## Members -/

theorem alter_of_not_mem (h : name ∉ fields.map (·.1)) (change : Option Node → Option Node) :
    alter name change fields = (change none).map fun node => fields ++ [(name, node)] := by
  induction fields with
  | nil => rfl
  | cons field fields ih =>
    obtain ⟨other, node⟩ := field
    rw [List.map_cons, List.mem_cons, not_or] at h
    rw [alter, if_neg (Ne.symm h.1), ih h.2, Option.map_map]
    rfl

theorem alter_last (h : name ∉ fields.map (·.1)) (node : Node)
    (change : Option Node → Option Node) :
    alter name change (fields ++ [(name, node)]) =
      (change (some node)).map fun node => fields ++ [(name, node)] := by
  induction fields with
  | nil => exact if_pos rfl
  | cons field fields ih =>
    obtain ⟨other, node'⟩ := field
    rw [List.map_cons, List.mem_cons, not_or] at h
    rw [List.cons_append, alter, if_neg (Ne.symm h.1), ih h.2, Option.map_map]
    rfl

theorem alterLast_append (change : Fields → Option Fields) (done : List Fields) (fields : Fields) :
    alterLast change (done ++ [fields]) = (change fields).map fun fields => done ++ [fields] := by
  induction done with
  | nil => rfl
  | cons first done ih =>
    have hne : done ++ [fields] ≠ [] := by simp
    obtain ⟨second, rest, hrest⟩ := List.exists_cons_of_ne_nil hne
    rw [List.cons_append, hrest, alterLast, ← hrest, ih, Option.map_map]
    · rfl
    · exact fun h => by simp at h

/-- The values of a table, as members. -/
def valuesOf (ms : List (String × Tree)) : Fields :=
  (ms.filter fun m => !isSection m.2).map fun m => (m.1, .value m.2)

theorem assignAll_values (fields : Fields) (h : (fields.map (·.1) ++ ms.map (·.1)).Nodup) :
    assignAll fields (ms.map fun m => ⟨[], m.1, m.2⟩) =
      some (fields ++ ms.map fun m => (m.1, .value m.2)) := by
  induction ms generalizing fields with
  | nil => exact congrArg some (List.append_nil fields).symm
  | cons m ms ih =>
    have hmem : m.1 ∉ fields.map (·.1) := fun hmem =>
      (List.nodup_append.1 h).2.2 m.1 hmem m.1 List.mem_cons_self rfl
    have hadd : addAt m.1 m.2 [] fields = some (fields ++ [(m.1, .value m.2)]) := by
      rw [addAt, add, alter_of_not_mem hmem]
      rfl
    have hrest := ih (fields ++ [(m.1, .value m.2)]) (by
      rw [List.map_append, List.append_assoc]
      exact h)
    rw [List.append_assoc] at hrest
    rw [assignAll, List.map_cons, List.foldlM_cons, hadd]
    exact hrest

theorem assignAll_assignmentsOf (h : (ms.map (·.1)).Nodup) :
    assignAll [] (assignmentsOf ms) = some (valuesOf ms) := by
  refine assignAll_values [] ?_
  exact (List.filter_sublist.map _).nodup h

/-! ## Sections of a member -/

/-- What is done to the member that a path leads through. -/
def descend (place : Fields → Option Fields) (path : List String) : Option Node → Option Node
  | none => (placeAt place path []).map (.table true false)
  | some (.table implied dotted inner) =>
    (placeAt place path inner).map (.table implied dotted)
  | some (.tables items) => (alterLast (placeAt place path) items).map .tables
  | some (.value _) => none

/-- What is done where the path of a section ends. -/
def place (s : Section) : Fields → Option Fields :=
  (if s.1.array then placeItem else placeTable) s.1.name s.2

theorem placeSection_under (fields : Fields) (name : String) (s : Section) :
    placeSection fields (under name s) = alter name (descend (place s) s.1.path) fields := by
  show placeAt (place s) (name :: s.1.path) fields = _
  rw [placeAt]
  congr 1

/-- The sections of a member are put into its node one after the other. -/
theorem foldlM_under (wrap : Fields → Node)
    (hwrap : ∀ place path inner,
      descend place path (some (wrap inner)) = (placeAt place path inner).map wrap)
    (hname : name ∉ fields.map (·.1)) (sections : List Section) (inner : Fields) :
    (sections.map (under name)).foldlM placeSection (fields ++ [(name, wrap inner)]) =
      (sections.foldlM placeSection inner).map fun inner => fields ++ [(name, wrap inner)] := by
  induction sections generalizing inner with
  | nil => rfl
  | cons s sections ih =>
    have hplace : placeSection inner s = placeAt (place s) s.1.path inner := rfl
    rw [List.map_cons, List.foldlM_cons, List.foldlM_cons, placeSection_under,
      alter_last hname, hwrap, hplace]
    cases placeAt (place s) s.1.path inner with
    | none => rfl
    | some inner' => exact ih inner'

/-- Without a header, the first section brings the node of a member about. -/
theorem foldlM_under_absent (hname : name ∉ fields.map (·.1)) {sections : List Section}
    (hne : sections ≠ []) :
    (sections.map (under name)).foldlM placeSection fields =
      (sections.foldlM placeSection []).map fun inner =>
        fields ++ [(name, .table true false inner)] := by
  obtain ⟨s, sections, rfl⟩ := List.exists_cons_of_ne_nil hne
  have hplace : placeSection [] s = placeAt (place s) s.1.path [] := rfl
  rw [List.map_cons, List.foldlM_cons, List.foldlM_cons, placeSection_under,
    alter_of_not_mem hname, descend, hplace]
  cases placeAt (place s) s.1.path [] with
  | none => rfl
  | some inner => exact foldlM_under _ (fun _ _ _ => rfl) hname sections inner

theorem fieldTrees_append (fields fields' : Fields) :
    fieldTrees (fields ++ fields') = fieldTrees fields ++ fieldTrees fields' := by
  induction fields with
  | nil => rfl
  | cons field fields ih => exact congrArg _ ih

theorem fieldTrees_valuesOf (ms : List (String × Tree)) :
    fieldTrees (valuesOf ms) = ms.filter fun m => !isSection m.2 := by
  rw [valuesOf]
  induction ms.filter fun m => !isSection m.2 with
  | nil => rfl
  | cons m ms ih => exact congrArg _ ih

/-! ## Tables -/

/-- What the sections of a table make of its values. -/
structure Placed (ms : List (String × Tree)) (inner : Fields) : Prop where
  distinct : (ms.map (·.1)).Nodup
  place : (memberSections ms).foldlM placeSection (valuesOf ms) = some inner
  tree : Tree.table (fieldTrees inner) = arrange (.table ms)

theorem Placed.table {inner : Fields} (h : Placed ms inner) (hname : name ∉ fields.map (·.1))
    (hsections : hasHeader ms = false → memberSections ms ≠ []) :
    ∃ node, (sectionsOf name (.table ms)).foldlM placeSection fields =
      some (fields ++ [(name, node)]) ∧ node.tree = arrange (.table ms) := by
  rw [sectionsOf]
  cases hheader : hasHeader ms with
  | true =>
    refine ⟨.table false false inner, ?_, h.tree⟩
    have hfind : fields.find? (·.1 = name) = none :=
      List.find?_eq_none.2 fun field hfield hfound =>
        hname (of_decide_eq_true hfound ▸ List.mem_map_of_mem hfield)
    have hplace : placeSection fields (⟨false, [], name⟩, assignmentsOf ms) =
        some (fields ++ [(name, .table false false (valuesOf ms))]) := by
      show placeTable name (assignmentsOf ms) fields = _
      rw [placeTable, hfind, assignAll_assignmentsOf h.distinct]
      rfl
    have hunder := foldlM_under (.table false false) (fun _ _ _ => rfl) hname
      (memberSections ms) (valuesOf ms)
    rw [h.place] at hunder
    rw [if_pos rfl, List.singleton_append, List.foldlM_cons, hplace]
    exact hunder
  | false =>
    refine ⟨.table true false inner, ?_, h.tree⟩
    have hnone : valuesOf ms = [] := by
      rw [valuesOf, filter_eq_nil_of_hasHeader hheader]
      rfl
    have hplace := h.place
    have hunder := foldlM_under_absent hname (hsections hheader)
    rw [hnone] at hplace
    rw [hplace] at hunder
    exact hunder

theorem Placed.item {inner : Fields} (h : Placed ms inner) (hname : name ∉ fields.map (·.1))
    (done : List Fields) : ((memberSections ms).map (under name)).foldlM placeSection
      (fields ++ [(name, .tables (done ++ [valuesOf ms]))]) =
        some (fields ++ [(name, .tables (done ++ [inner]))]) := by
  have hunder := foldlM_under (fun inner => .tables (done ++ [inner]))
    (fun place path inner => by
      simp [descend, alterLast_append, Function.comp_def]) hname (memberSections ms) (valuesOf ms)
  rw [h.place] at hunder
  exact hunder

/-- A list of tables that is there already takes in the sections of more of them. -/
theorem exists_items_placed (hname : name ∉ fields.map (·.1)) {items : List (List (String × Tree))}
    (h : ∀ ms ∈ items, ∃ inner, Placed ms inner) (done : List Fields) : ∃ more,
    (itemSections name (items.map .table)).foldlM placeSection (fields ++ [(name, .tables done)]) =
      some (fields ++ [(name, .tables (done ++ more))]) ∧
    tableTrees more = arrangeItems (items.map .table) := by
  induction items generalizing done with
  | nil => exact ⟨[], by rw [List.append_nil]; rfl, rfl⟩
  | cons ms items ih =>
    obtain ⟨⟨inner, hinner⟩, hitems⟩ := List.forall_mem_cons.1 h
    obtain ⟨more, hmore, htrees⟩ := ih hitems (done ++ [inner])
    have hplace : placeSection (fields ++ [(name, .tables done)])
        (⟨true, [], name⟩, assignmentsOf ms) =
          some (fields ++ [(name, .tables (done ++ [valuesOf ms]))]) := by
      show placeItem name (assignmentsOf ms) _ = _
      rw [placeItem, assignAll_assignmentsOf hinner.distinct]
      exact alter_last hname _ _
    refine ⟨inner :: more, ?_, ?_⟩
    · rw [List.map_cons, itemSections, List.foldlM_cons, hplace]
      show List.foldlM placeSection _ (_ ++ _) = _
      rw [List.foldlM_append, hinner.item hname done]
      rw [List.append_assoc] at hmore
      exact hmore
    · rw [List.map_cons, tableTrees, arrangeItems, hinner.tree, htrees]

theorem exists_member_placed {IsTable : List (String × Tree) → Prop}
    (h : ∀ {ms}, IsTable ms → (∃ inner, Placed ms inner) ∧
      (hasHeader ms = false → memberSections ms ≠ [])) {t : Tree}
    (ht : Member IsTable t) (hsection : isSection t = true) (hname : name ∉ fields.map (·.1)) :
    ∃ node, (sectionsOf name t).foldlM placeSection fields = some (fields ++ [(name, node)]) ∧
      node.tree = arrange t := by
  cases ht with
  | value flat => rw [flat.not_isSection] at hsection; cases hsection
  | table htable =>
    obtain ⟨⟨inner, hinner⟩, hsections⟩ := h htable
    exact hinner.table hname hsections
  | @tables m ms hm hms =>
    obtain ⟨⟨inner, hinner⟩, -⟩ := h hm
    obtain ⟨more, hmore, htrees⟩ := exists_items_placed hname (fun m hm => (h (hms m hm)).1) [inner]
    have hplace : placeSection fields (⟨true, [], name⟩, assignmentsOf m) =
        some (fields ++ [(name, .tables ([] ++ [valuesOf m]))]) := by
      show placeItem name (assignmentsOf m) _ = _
      rw [placeItem, assignAll_assignmentsOf hinner.distinct]
      exact alter_of_not_mem hname _
    refine ⟨.tables (inner :: more), ?_, ?_⟩
    · rw [sectionsOf, if_pos hsection, itemSections, List.foldlM_cons, hplace]
      show List.foldlM placeSection _ (_ ++ _) = _
      rw [List.foldlM_append, hinner.item hname []]
      exact hmore
    · rw [Node.tree, arrange, if_pos hsection, tableTrees, arrangeItems, hinner.tree, htrees]

theorem memberSections_ne_nil (depth : Nat) : ∀ {ms}, Plain depth ms → hasHeader ms = false →
    memberSections ms ≠ [] := by
  induction depth with
  | zero => exact fun h => h.elim
  | succ depth ih =>
    intro ms h hheader
    have hvalues := filter_eq_nil_of_hasHeader hheader
    cases ms with
    | nil => cases hheader
    | cons m ms =>
      obtain ⟨name, t⟩ := m
      have hsection : isSection t = true := by
        cases hsection : isSection t with
        | true => rfl
        | false => simp [hsection] at hvalues
      have hne : sectionsOf name t ≠ [] := by
        cases h.2 _ List.mem_cons_self with
        | value flat => rw [flat.not_isSection] at hsection; cases hsection
        | @table ms htable =>
          rw [sectionsOf]
          cases hheader : hasHeader ms with
          | true => exact List.cons_ne_nil _ _
          | false => simpa using ih htable hheader
        | tables => rw [sectionsOf, if_pos hsection, itemSections]; exact List.cons_ne_nil _ _
      exact List.append_ne_nil_of_left_ne_nil hne _

/-- The sections of the members of a table are put behind what stands there, given that the
sections of a table build it. -/
theorem exists_members_placed {IsTable : List (String × Tree) → Prop}
    (h : ∀ {ms}, IsTable ms → (∃ inner, Placed ms inner) ∧
      (hasHeader ms = false → memberSections ms ≠ []))
    (hms : ∀ m ∈ ms, Member IsTable m.2) (hnodup : (ms.map (·.1)).Nodup)
    (hfields : ∀ m ∈ ms, isSection m.2 = true → m.1 ∉ fields.map (·.1)) :
    ∃ more, (memberSections ms).foldlM placeSection fields = some (fields ++ more) ∧
      fieldTrees more = arrangeSections ms := by
  induction ms generalizing fields with
  | nil => exact ⟨[], by rw [List.append_nil]; rfl, rfl⟩
  | cons m ms ih =>
    obtain ⟨name, t⟩ := m
    obtain ⟨ht, hms⟩ := List.forall_mem_cons.1 hms
    obtain ⟨hname, hfields⟩ := List.forall_mem_cons.1 hfields
    obtain ⟨hfresh, hnodup⟩ := List.nodup_cons.1 hnodup
    cases hsection : isSection t with
    | false =>
      obtain ⟨more, hmore, htrees⟩ := ih hms hnodup hfields
      refine ⟨more, ?_, ?_⟩
      · rw [memberSections, sectionsOf_flat (ht.isFlat hsection)]
        exact hmore
      · rw [arrangeSections, hsection]
        exact htrees
    | true =>
      obtain ⟨node, hnode, htree⟩ := exists_member_placed h ht hsection (hname hsection)
      -- The node just made has a name of its own, so the members after it are put behind it.
      have hfields' : ∀ m ∈ ms, isSection m.2 = true →
          m.1 ∉ (fields ++ [(name, node)]).map (·.1) := by
        intro m hm hm'
        rw [List.map_append, List.mem_append, not_or]
        exact ⟨hfields m hm hm', fun heq =>
          hfresh (List.mem_singleton.1 heq ▸ List.mem_map_of_mem hm)⟩
      obtain ⟨more, hmore, htrees⟩ := ih hms hnodup hfields'
      refine ⟨(name, node) :: more, ?_, ?_⟩
      · rw [memberSections, List.foldlM_append, hnode]
        rw [List.append_assoc] at hmore
        exact hmore
      · rw [fieldTrees, arrangeSections, if_pos hsection, htree, htrees]

/-- **The sections of a table** build the table from its values. -/
theorem exists_placed (depth : Nat) : ∀ {ms}, Plain depth ms → ∃ inner, Placed ms inner := by
  induction depth with
  | zero => exact fun h => h.elim
  | succ depth ih =>
    intro ms hplain
    obtain ⟨hnodup, hmembers⟩ := hplain
    have hdeeper : ∀ {ms}, Plain depth ms → (∃ inner, Placed ms inner) ∧
        (hasHeader ms = false → memberSections ms ≠ []) := fun h =>
      ⟨ih h, memberSections_ne_nil depth h⟩
    have hapart : ∀ m ∈ ms, isSection m.2 = true → m.1 ∉ (valuesOf ms).map (·.1) := by
      intro m hm hsection hmem
      rw [valuesOf, List.map_map] at hmem
      obtain ⟨m', hm', heq⟩ := List.mem_map.1 hmem
      obtain ⟨hm', hvalue⟩ := List.mem_filter.1 hm'
      obtain rfl := List.inj_on_of_nodup_map hnodup hm' hm heq
      simp [hsection] at hvalue
    obtain ⟨more, hmore, htrees⟩ := exists_members_placed hdeeper hmembers hnodup hapart
    refine ⟨valuesOf ms ++ more, hnodup, hmore, ?_⟩
    rw [fieldTrees_append, fieldTrees_valuesOf, htrees, arrange]

end GpuPartition.Toml
