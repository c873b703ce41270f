/-
Sorted maps and their entries: an entry is one that a look-up finds (`SortedMap.mem_toList_iff`), in
front of an entry are those with smaller keys (`SortedMap.mem_before_iff`), and the entries in any
order make the map again (`SortedMap.ofList_perm`).
-/
import Mathlib.Order.Basic
import GpuPartition.SortedMap

namespace GpuPartition.SortedMap

variable {κ α : Type} [DecidableEq κ]

/-- In a list of entries in order, an entry answers the look-up of its key. -/
theorem lookupEntry_of_mem [Preorder κ] {l : List (κ × α)}
    (hl : l.Pairwise (fun a b => a.1 < b.1)) {e : κ × α} (he : e ∈ l) :
    lookupEntry e.1 l = some e.2 := by
  induction l with
  | nil => simp at he
  | cons hd tl ih =>
    rw [List.pairwise_cons] at hl
    rcases List.mem_cons.1 he with rfl | he
    · simp [lookupEntry]
    · rw [lookupEntry, if_neg (hl.1 e he).ne]
      exact ih hl.2 he

theorem mem_of_lookupEntry {k : κ} {v : α} {l : List (κ × α)} (h : lookupEntry k l = some v) :
    (k, v) ∈ l := by
  induction l with
  | nil => cases h
  | cons e l ih =>
    obtain ⟨k', v'⟩ := e
    rw [lookupEntry] at h
    split at h
    next heq =>
      obtain rfl := Option.some.inj h
      exact heq ▸ List.mem_cons_self
    next => exact List.mem_cons_of_mem _ (ih h)

/-- The entries of a map are what its look-ups find. -/
theorem mem_toList_iff [Preorder κ] {m : SortedMap κ α} {k : κ} {v : α} :
    (k, v) ∈ m.toList ↔ m.find? k = some v :=
  ⟨fun h => lookupEntry_of_mem m.sorted h, mem_of_lookupEntry⟩

omit [DecidableEq κ] in
/-- In front of an entry are the entries with smaller keys. -/
theorem mem_before_iff [Preorder κ] {m : SortedMap κ α} {before after : List (κ × α)}
    {e e' : κ × α} (h : m.toList = before ++ e :: after) :
    e' ∈ before ↔ e' ∈ m.toList ∧ e'.1 < e.1 := by
  have hsorted := m.sorted
  rw [h] at hsorted
  obtain ⟨-, hrest, hbefore⟩ := List.pairwise_append.1 hsorted
  constructor
  · exact fun hmem => ⟨by simp [h, hmem], hbefore e' hmem e List.mem_cons_self⟩
  · rintro ⟨hmem, hlt⟩
    rw [h, List.mem_append, List.mem_cons] at hmem
    rcases hmem with hmem | rfl | hmem
    · exact hmem
    · exact absurd hlt (lt_irrefl _)
    · exact absurd hlt ((List.pairwise_cons.1 hrest).1 e' hmem).asymm

theorem mem_values_iff [Preorder κ] {m : SortedMap κ α} {v : α} :
    v ∈ m.values ↔ ∃ k, m.find? k = some v := by
  simp only [values, List.mem_map, Prod.exists, exists_eq_right, mem_toList_iff]

/-! ## Entries in any order -/

theorem lookupEntry_eq_some_iff {l : List (κ × α)} (h : (l.map (·.1)).Nodup) {k : κ} {v : α} :
    lookupEntry k l = some v ↔ (k, v) ∈ l := by
  refine ⟨mem_of_lookupEntry, fun hmem => ?_⟩
  induction l with
  | nil => cases hmem
  | cons e l ih =>
    obtain ⟨hfresh, hl⟩ := List.nodup_cons.1 h
    rcases List.mem_cons.1 hmem with rfl | hmem
    · exact if_pos rfl
    · have hne : e.1 ≠ k := fun heq => hfresh (List.mem_map.2 ⟨(k, v), hmem, heq.symm⟩)
      rw [lookupEntry, if_neg hne]
      exact ih hl hmem

section Ordered

variable [LT κ] [LE κ] [DecidableLT κ] [Std.IsLinearOrder κ] [Std.LawfulOrderLT κ]

omit [DecidableEq κ] [DecidableLT κ] [Std.IsLinearOrder κ] in
theorem keys_nodup (m : SortedMap κ α) : m.keys.Nodup :=
  List.pairwise_map.2 (m.sorted.imp fun hlt => Std.ne_of_lt hlt)

theorem find?_ofList {l : List (κ × α)} (h : (l.map (·.1)).Nodup) (k : κ) :
    (ofList l).find? k = lookupEntry k l := by
  have hfold : ∀ m : SortedMap κ α, (l.foldl (fun m e => m.insert e.1 e.2) m).find? k =
      (lookupEntry k l).or (m.find? k) := by
    induction l with
    | nil => exact fun m => rfl
    | cons e l ih =>
      intro m
      obtain ⟨hfresh, hl⟩ := List.nodup_cons.1 h
      rw [List.foldl_cons, ih hl, find?_insert, lookupEntry]
      by_cases heq : e.1 = k
      · have hnone : lookupEntry k l = none := lookupEntry_eq_none fun e' he' heq' =>
          hfresh (List.mem_map.2 ⟨e', he', heq'.trans heq.symm⟩)
        simp [heq, hnone]
      · simp [heq]
  rw [ofList, hfold, find?_empty, Option.or_none]

/-- The entries of a map in any order make the map. -/
theorem ofList_perm {l : List (κ × α)} {m : SortedMap κ α} (h : l.Perm m.toList) :
    ofList l = m := by
  have hnodup : (l.map (·.1)).Nodup := (h.map _).nodup_iff.2 m.keys_nodup
  refine ext_find? fun k => Option.ext fun v => ?_
  rw [find?_ofList hnodup, lookupEntry_eq_some_iff hnodup, h.mem_iff]
  exact (lookupEntry_eq_some_iff m.keys_nodup).symm

end Ordered

end GpuPartition.SortedMap
