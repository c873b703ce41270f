/-
What a reader and a writer of JSON owe each other (`Json.Lawful`), as far as objects go that have
machine words under distinct names: such an object is read from its text as it is, but for the order
of its members, and a name that needs no escape stands in the text as it is. The reader and the
writer of this library are lawful (`Json.lawful`).
-/
import GpuPartition.Layout
import GpuPartition.Proofs.Json
import GpuPartition.Proofs.Tree

namespace GpuPartition.Json

/-- An object of numbers. -/
def object (ms : List (String × Nat)) : Tree := .table (ms.map fun m => (m.1, .natural m.2))

/-- The text of an object of numbers, `{"name":number,…}`, with the names as they are. -/
def objectText (ms : List (String × Nat)) : String :=
  "\x7b" ++ ",".intercalate (ms.map fun m => "\"" ++ m.1 ++ "\":" ++ toString m.2) ++ "\x7d"

/-- The character stands for itself in a string. -/
def IsVerbatim (c : Char) : Prop := 0x20 ≤ c.toNat ∧ c ≠ '"' ∧ c ≠ '\\'

/-- Machine words under distinct names. -/
structure IsRecord (ms : List (String × Nat)) : Prop where
  distinct : (ms.map (·.1)).Nodup
  words : ∀ m ∈ ms, m.2 ≤ wordMax

/-- The reader undoes the writer on objects of machine words, and the writer writes them without
spaces. -/
structure Lawful (write : Tree → String) (document : String → Tree × Bool) : Prop where
  verbatim : ∀ ms, IsRecord ms → (∀ m ∈ ms, ∀ c ∈ m.1.toList, IsVerbatim c) →
    write (object ms) = objectText ms
  read_back : ∀ ms, IsRecord ms →
    ∃ t, document (write (object ms)) = (t, true) ∧ (object ms).Alike t

variable {ms : List (String × Nat)}

theorem IsVerbatim.escape_eq {c : Char} (h : IsVerbatim c) : escape c = c.toString := by
  obtain ⟨hplain, hquote, hbackslash⟩ := h
  unfold escape
  split
  case h_1 => exact absurd rfl hquote
  case h_2 => exact absurd rfl hbackslash
  case h_8 => exact if_neg (Nat.not_lt.2 hplain)
  all_goals exact absurd hplain (by decide)

theorem quote_verbatim {s : String} (h : ∀ c ∈ s.toList, IsVerbatim c) :
    quote s = "\"" ++ s ++ "\"" := by
  have hescape : s.toList.map escape = s.toList.map Char.toString :=
    List.map_congr_left fun c hc => (h c hc).escape_eq
  have hjoin : String.join (s.toList.map Char.toString) = s := by
    refine String.toList_inj.1 ?_
    simp [String.toList_join, List.flatMap_map]
  rw [quote, hescape, hjoin]

theorem compact_object (h : ∀ m ∈ ms, ∀ c ∈ m.1.toList, IsVerbatim c) :
    compact (object ms) = objectText ms := by
  have hmembers : compactMembers (ms.map fun m => (m.1, .natural m.2)) =
      ms.map fun m => "\"" ++ m.1 ++ "\":" ++ toString m.2 := by
    induction ms with
    | nil => rfl
    | cons m ms ih =>
      obtain ⟨hm, hms⟩ := List.forall_mem_cons.1 h
      have hquote : "\"" ++ m.1 ++ "\"" ++ ":" = "\"" ++ m.1 ++ "\":" := String.append_assoc
      rw [List.map_cons, compactMembers, ih hms, quote_verbatim hm, compact, hquote]
      rfl
  rw [object, compact, hmembers, objectText]

theorem isData_object (ms : List (String × Nat)) : (object ms).isData = true := by
  rw [object, Tree.isData]
  induction ms with
  | nil => rfl
  | cons m ms ih => exact ih

/-- **The law of JSON.** The reader and the writer of JSON undo each other. -/
theorem lawful : Lawful compact document where
  verbatim := fun _ _ hverbatim => compact_object hverbatim
  read_back := fun ms _ => ⟨_, document_compact (isData_object ms), .refl _⟩

end GpuPartition.Json
