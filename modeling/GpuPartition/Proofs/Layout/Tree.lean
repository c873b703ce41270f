/-
Layouts and their trees. A layout is legible if its profiles are proper and its counts fit a machine
word. What is read from a tree is legible (`Layout.legible_of_ofTree`), and the tree of a layout is
read back as it was if the layout is legible, in whichever order its members come
(`Layout.ofTree_of_alike`). With a profile that is not proper it is malformed
(`Layout.malformed_of_alike`).
-/
import GpuPartition.Proofs.Layout
import GpuPartition.Proofs.Profile
import GpuPartition.Proofs.Tree
import GpuPartition.Tree.Records

namespace GpuPartition

theorem Tree.readNatural_eq_ok {most n : Nat} {t : Tree} :
    t.readNatural most = .ok n ↔ t = .natural n ∧ n ≤ most := by
  cases t with
  | natural m =>
    simp only [readNatural, natural.injEq]
    split
    next h =>
      constructor
      · intro heq
        obtain rfl := Except.ok.inj heq
        exact ⟨rfl, h⟩
      · rintro ⟨rfl, -⟩
        rfl
    next h =>
      constructor
      · intro heq
        cases heq
      · rintro ⟨rfl, hm⟩
        exact absurd hm h
  | _ => simp [readNatural]

theorem Profile.ofText_eq_ok {s : String} {p : Profile} :
    Profile.ofText s = .ok p ↔ Profile.parse s = .ok p := by
  rw [Profile.ofText]
  cases Profile.parse s <;> simp

namespace Layout

/-- The layout can be read from a document: its profiles are proper, and its counts fit. -/
structure Legible (l : Layout) : Prop where
  proper : ∀ p, l.contains p = true → p.Proper
  fits : ∀ p, l.count p ≤ wordMax

/-- A layout whose counts fit, or an overflow. -/
def orOverflow : Option Layout → Reading Layout
  | some l => .ok l
  | none => .error .overflow

theorem orOverflow_ne_malformed (l? : Option Layout) : orOverflow l? ≠ .error .malformed := by
  cases l? <;> simp [orOverflow]

theorem ofCounts?_eq_some {pairs : List (Profile × Nat)}
    (h : ∀ p, (ofCounts pairs).count p ≤ wordMax) : ofCounts? pairs = some (ofCounts pairs) := by
  rw [ofCounts?, if_pos (fits_iff.2 h)]

theorem ofCounts?_perm {pairs pairs' : List (Profile × Nat)} (h : pairs.Perm pairs') :
    ofCounts? pairs = ofCounts? pairs' := by
  have heq : ofCounts pairs = ofCounts pairs' := ext_count fun p => by
    rw [count_ofCounts, count_ofCounts, (h.map _).sum_eq]
  rw [ofCounts?, ofCounts?, heq]

/-! ## Entries -/

theorem ofTree_table (members : List (String × Tree)) : Layout.ofTree (.table members) =
    members.mapM readEntry >>= fun pairs => orOverflow (ofCounts? pairs) := by
  rw [Layout.ofTree]
  refine bind_congr fun pairs => ?_
  cases ofCounts? pairs <;> rfl

theorem readEntry_eq_ok {e : String × Tree} {q : Profile × Nat} :
    readEntry e = .ok q ↔ Profile.parse e.1 = .ok q.1 ∧ e.2 = .natural q.2 ∧ q.2 ≤ wordMax := by
  simp only [readEntry, except_bind_eq_ok, Profile.ofText_eq_ok, Tree.readNatural_eq_ok]
  constructor
  · rintro ⟨p, hp, n, hn, heq⟩
    obtain rfl := Except.ok.inj heq
    exact ⟨hp, hn⟩
  · rintro ⟨hp, hn⟩
    exact ⟨q.1, hp, q.2, hn, rfl⟩

/-- A single entry cannot overflow. -/
theorem malformed_of_readEntry {e : String × Tree} {error : ReadError}
    (h : readEntry e = .error error) : error = .malformed := by
  rcases except_bind_eq_error.1 h with h | ⟨p, -, h⟩
  · rw [Profile.ofText] at h
    split at h <;> cases h
    rfl
  · rcases except_bind_eq_error.1 h with h | ⟨n, -, h⟩
    · unfold Tree.readNatural at h
      split at h
      · split at h <;> cases h
        rfl
      · cases h
        rfl
    · cases h

/-- If some entry is not read, the table is malformed. -/
theorem ofTree_table_malformed {members : List (String × Tree)} {m : String × Tree}
    (hm : m ∈ members) (h : ∀ q, readEntry m ≠ .ok q) :
    Layout.ofTree (.table members) = .error .malformed := by
  rw [ofTree_table]
  refine except_bind_eq_error.2 (.inl ?_)
  cases hread : members.mapM readEntry with
  | ok pairs =>
    obtain ⟨q, -, hq⟩ := read_of_mapM_eq_ok hread m hm
    exact absurd hq (h q)
  | error error =>
    obtain ⟨x, -, hx⟩ := exists_of_mapM_eq_error hread
    rw [malformed_of_readEntry hx]

/-! ## Legible layouts -/

/-- What is read from a tree is legible. -/
theorem legible_of_ofTree {t : Tree} {l : Layout} (h : Layout.ofTree t = .ok l) : l.Legible := by
  cases t with
  | table members =>
    rw [ofTree_table] at h
    obtain ⟨pairs, hpairs, hfits⟩ := except_bind_eq_ok.1 h
    rw [ofCounts?] at hfits
    split at hfits
    next hfit =>
      obtain rfl := Except.ok.inj hfits
      refine ⟨fun p hp => ?_, fits_iff.1 hfit⟩
      obtain ⟨q, hq, rfl⟩ : ∃ q ∈ pairs, q.1 = p := by
        by_contra hnone
        have hmem : p ∉ pairs.map (·.1) := fun hmem => hnone (List.mem_map.1 hmem)
        have hcount := (contains_iff _ _).1 hp
        rw [count_ofCounts, sum_eq_zero_of_not_mem hmem] at hcount
        exact absurd hcount (Nat.lt_irrefl 0)
      obtain ⟨m, -, hm⟩ := source_of_mapM_eq_ok hpairs q hq
      exact Profile.proper_of_parse (readEntry_eq_ok.1 hm).1
    next => cases hfits
  | _ => cases h

theorem sum_eq_lookupEntry {es : List (Profile × Nat)} (h : es.Pairwise (fun a b => a.1 < b.1))
    (p : Profile) : (es.map fun e => if e.1 = p then e.2 else 0).sum =
      (SortedMap.lookupEntry p es).getD 0 := by
  induction es with
  | nil => rfl
  | cons e es ih =>
    obtain ⟨q, n⟩ := e
    rw [List.pairwise_cons] at h
    rw [List.map_cons, List.sum_cons, ih h.2, SortedMap.lookupEntry]
    by_cases hq : q = p
    · have hrest : SortedMap.lookupEntry p es = none :=
        SortedMap.lookupEntry_eq_none fun e he => hq ▸ (h.1 e he).ne'
      simp [hq, hrest]
    · simp [hq]

/-- A layout is made by its own entries. -/
theorem ofCounts_toList (l : Layout) : ofCounts l.toList = l := by
  refine ext_count fun p => ?_
  rw [count_ofCounts]
  exact sum_eq_lookupEntry l.counts.sorted p

theorem contains_of_mem {l : Layout} {e : Profile × Nat} (he : e ∈ l.toList) :
    l.contains e.1 = true ∧ e.2 = l.count e.1 := by
  obtain ⟨hpos, heq⟩ := mem_toList_iff.1 (show (e.1, e.2) ∈ l.toList from he)
  exact ⟨(contains_iff l e.1).2 (heq ▸ hpos), heq⟩

theorem texts_nodup (l : Layout) : (l.toList.map fun e => e.1.text).Nodup := by
  have hnodup := l.counts.keys_nodup.map Profile.text_injective
  rwa [SortedMap.keys, List.map_map] at hnodup

/-- A legible layout is read from its tree as it was, with the members in any order. -/
theorem ofTree_of_alike {l : Layout} (h : l.Legible) {t : Tree} (ht : l.toTree.Alike t) :
    Layout.ofTree t = .ok l := by
  obtain ⟨ms, shuffled, rfl, halike, hperm⟩ := ht
  have hmembers := List.forall₂_map_left_iff.1 (Tree.membersAlike_iff.1 halike)
  have hread : ms.mapM readEntry = .ok l.toList := by
    refine mapM_of_forall₂ hmembers fun e he m ⟨hname, hvalue⟩ => readEntry_eq_ok.2 ?_
    obtain ⟨hcontains, hcount⟩ := contains_of_mem he
    exact ⟨hname ▸ Profile.parse_text (h.proper _ hcontains), hvalue.symm, hcount ▸ h.fits _⟩
  obtain ⟨pairs, hpairs, hsame⟩ := mapM_perm hread hperm
  have hcounts : ofCounts? l.toList = some l := by
    have hself := l.ofCounts_toList
    rw [ofCounts?_eq_some fun p => hself.symm ▸ h.fits p, hself]
  rw [ofTree_table, hpairs]
  exact congrArg orOverflow ((ofCounts?_perm hsame).trans hcounts)

/-- The tree of a layout with a profile that is not proper is malformed. -/
theorem malformed_of_alike {l : Layout} {p : Profile} (hp : l.contains p = true) (h : ¬ p.Proper)
    {t : Tree} (ht : l.toTree.Alike t) : Layout.ofTree t = .error .malformed := by
  obtain ⟨ms, shuffled, rfl, halike, hperm⟩ := ht
  have hentry : (p, l.count p) ∈ l.toList := mem_toList_iff.2 ⟨(contains_iff l p).1 hp, rfl⟩
  have hmembers := List.forall₂_map_left_iff.1 (Tree.membersAlike_iff.1 halike)
  obtain ⟨m, hm, hname, -⟩ := exists_of_forall₂ hmembers _ hentry
  refine ofTree_table_malformed (hperm.mem_iff.2 hm) fun q hq => ?_
  have hparse := (readEntry_eq_ok.1 hq).1
  rw [← hname, Profile.parse_text_eq, if_neg h] at hparse
  cases hparse

end Layout

end GpuPartition
