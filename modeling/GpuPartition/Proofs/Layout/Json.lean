/-
Layouts in JSON, whatever lawful reader and writer of JSON there is. The text of a layout is in
canonical form: an object with one member for each profile that the layout counts, under the
profile's own text and in profile order (`Layout.writeBy_eq`). Since a layout is read back from its
text exactly if it is legible, and only legible layouts are ever read, texts that are accepted stand
for the same layout exactly if they are rewritten to the same text (`Layout.json_round_trip`).
`Layout.ofJson` and `Layout.json` take the reader and the writer of this library.
-/
import GpuPartition.Proofs.Json.Lawful
import GpuPartition.Proofs.Layout.Tree

namespace GpuPartition.Layout

/-- The JSON text of a layout, given a writer of trees. -/
def writeBy (write : Tree → String) (l : Layout) : String := write l.toTree

/-- The layout of a JSON text, given a reader of trees. -/
def readBy (document : String → Tree × Bool) (text : String) : Reading Layout :=
  Json.readBy document Layout.ofTree text

/-- The compact JSON text of a layout. -/
def json (l : Layout) : String := Json.compact l.toTree

/-- The layout of a JSON text. -/
def ofJson (text : String) : Reading Layout := Json.read Layout.ofTree text

/-- Profile texts and counts, in profile order. -/
def records (l : Layout) : List (String × Nat) := l.toList.map fun e => (e.1.text, e.2)

/-- Entries in canonical form: strictly ordered by slices and then memory, their profiles proper,
their counts positive and within a machine word. -/
structure Canonical (entries : List (Profile × Nat)) : Prop where
  ordered : entries.Pairwise fun a b =>
    a.1.slices < b.1.slices ∨ a.1.slices = b.1.slices ∧ a.1.memory < b.1.memory
  proper : ∀ e ∈ entries, e.1.Proper
  counted : ∀ e ∈ entries, 0 < e.2 ∧ e.2 ≤ wordMax

variable {l l' : Layout}

theorem toTree_eq_object (l : Layout) : l.toTree = Json.object l.records := by
  rw [toTree, Json.object, records, List.map_map]
  rfl

/-- No character of the text of a profile needs an escape. -/
theorem isVerbatim_of_mem_text {p : Profile} {c : Char} (h : c ∈ p.text.toList) :
    Json.IsVerbatim c := by
  rcases Profile.isTextChar_of_mem_text h with h | rfl | rfl | rfl
  · have hrange := Text.isDigit_iff.1 h
    exact ⟨by omega, Text.ne_of_isDigit h rfl, Text.ne_of_isDigit h rfl⟩
  all_goals exact ⟨by decide, by decide, by decide⟩

theorem legible_of_readBy {document : String → Tree × Bool} {text : String}
    (h : readBy document text = .ok l) : l.Legible :=
  legible_of_ofTree (Json.readBy_eq_ok.1 h).1

theorem Legible.canonical (h : l.Legible) : Canonical l.toList where
  ordered := l.counts.sorted.imp fun hlt => Profile.lt_iff.1 hlt
  proper := fun e he => h.proper e.1 (contains_of_mem he).1
  counted := fun e he => by
    obtain ⟨hcontains, hcount⟩ := contains_of_mem he
    rw [hcount]
    exact ⟨(contains_iff l e.1).1 hcontains, h.fits e.1⟩

theorem isRecord_records (h : ∀ p, l.count p ≤ wordMax) : Json.IsRecord l.records where
  distinct := by
    rw [records, List.map_map]
    exact l.texts_nodup
  words := fun m hm => by
    obtain ⟨e, he, rfl⟩ := List.mem_map.1 hm
    exact (contains_of_mem he).2 ▸ h e.1

section Lawful

variable {write : Tree → String} {document : String → Tree × Bool} (h : Json.Lawful write document)

include h

theorem writeBy_eq (hfits : ∀ p, l.count p ≤ wordMax) :
    l.writeBy write = Json.objectText l.records := by
  rw [writeBy, toTree_eq_object]
  refine h.verbatim _ (isRecord_records hfits) fun m hm => ?_
  obtain ⟨e, -, rfl⟩ := List.mem_map.1 hm
  exact fun c => isVerbatim_of_mem_text

/-- What is read from the text of a layout is what is read from its tree, in some order. -/
theorem readBy_writeBy (hfits : ∀ p, l.count p ≤ wordMax) :
    ∃ t, l.toTree.Alike t ∧ readBy document (l.writeBy write) = Layout.ofTree t := by
  obtain ⟨t, hdocument, halike⟩ := h.read_back _ (isRecord_records hfits)
  rw [← toTree_eq_object] at hdocument halike
  exact ⟨t, halike, Json.readBy_of_document hdocument⟩

theorem Legible.read_back (hl : l.Legible) : readBy document (l.writeBy write) = .ok l := by
  obtain ⟨t, halike, hread⟩ := readBy_writeBy h hl.fits
  rw [hread, ofTree_of_alike hl halike]

/-- **Layouts in JSON.** A layout with proper profiles and any counts is read back from its text.
Whatever text is accepted, the layout is written in canonical form and read back from there, so two
accepted texts stand for equal layouts exactly if they are rewritten to the same text. The text of a
layout with a profile that is not proper is refused. -/
theorem json_round_trip :
    (∀ l : Layout, (∀ p, l.contains p = true → p.Proper ∧ l.count p ≤ wordMax) →
      readBy document (l.writeBy write) = .ok l) ∧
    (∀ text l, readBy document text = .ok l →
      Canonical l.toList ∧ l.writeBy write = Json.objectText l.records ∧
        readBy document (l.writeBy write) = .ok l) ∧
    (∀ text text' l l', readBy document text = .ok l → readBy document text' = .ok l' →
      (l = l' ↔ l.writeBy write = l'.writeBy write)) ∧
    ∀ (l : Layout) (p : Profile), (∀ q, l.count q ≤ wordMax) → l.contains p = true → ¬ p.Proper →
      readBy document (l.writeBy write) = .error .malformed := by
  refine ⟨fun l hl => ?_, fun text l hl => ?_,
    fun text text' l l' hl hl' => ⟨fun heq => by rw [heq], fun heq => ?_⟩,
    fun l p hfits hp hzero => ?_⟩
  · refine Legible.read_back h ⟨fun p hp => (hl p hp).1, fun p => ?_⟩
    by_cases hp : l.contains p = true
    · exact (hl p hp).2
    · rw [contains_iff] at hp
      omega
  · have hlegible := legible_of_readBy hl
    exact ⟨hlegible.canonical, writeBy_eq h hlegible.fits, hlegible.read_back h⟩
  · have hback := (legible_of_readBy hl).read_back h
    rw [heq, (legible_of_readBy hl').read_back h] at hback
    exact (Except.ok.inj hback).symm
  · obtain ⟨t, halike, hread⟩ := readBy_writeBy h hfits
    rw [hread, malformed_of_alike hp hzero halike]

end Lawful

theorem ofJson_json (h : l.Legible) : ofJson l.json = .ok l := h.read_back Json.lawful

/-- Two texts of one layout; the second has other spellings, another order, a repeated profile and a
count of zero. -/
theorem json_round_trip_two_texts :
    let text := "\x7b\"1g.5gb\":1,\"3g.20gb\":1\x7d"
    let text' := "\x7b\"3g.20gb\":1,\" 1G.5GB\":1,\"2g.10gb\":0,\"1g.5gb\":0\x7d"
    let l := ofProfiles [⟨1, 5⟩, ⟨3, 20⟩]
    ofJson text' = .ok l ∧ Canonical l.toList ∧ l.json = text ∧ ofJson text = .ok l := by
  intro text text' l
  let tree : Tree := .table [("3g.20gb", .natural 1), (" 1G.5GB", .natural 1),
    ("2g.10gb", .natural 0), ("1g.5gb", .natural 0)]
  have htext : l.json = text := by decide
  have htext' : text' = Json.compact tree := by decide
  have h : ofJson text' = .ok l := by
    rw [htext', ofJson, Json.read_compact _ rfl]
    decide +kernel
  obtain ⟨hcanonical, -, hback⟩ := (json_round_trip Json.lawful).2.1 text' l h
  exact ⟨h, hcanonical, htext, htext ▸ hback⟩

end GpuPartition.Layout
