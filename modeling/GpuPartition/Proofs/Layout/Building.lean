/-
Layouts are multisets of profiles, whatever they are built by. The operations that build or change
a layout (`Step`) have counterparts on multisets (`Step.Makes`); as long as every count fits a
machine word, a layout that is built step by step holds the multiset that the same steps make
(`run_of_builds`). What it means to hold one fixes the layout (`Holds.eq_iff`), so layouts are told
apart by their counts alone.

Pairs of profiles and counts, the same pairs with the profiles spelled out, and a document that
maps the spellings to the counts are one and the same to the three operations that read them, in
any order (`run_spelled`). The latter two fail exactly if some text spells no profile.
-/
import Mathlib.Data.Multiset.Replicate
import GpuPartition.Proofs.Layout.Tree

namespace GpuPartition.Layout

/-! ## Operations -/

/-- An operation that builds a layout, or changes the one there is. Counts are machine words. -/
inductive Step where
  | new
  | counts (pairs : List (Profile × UInt64))
  | records (entries : List (String × UInt64))
  | document (entries : List (String × UInt64))
  | profiles (ps : List Profile)
  | set (p : Profile) (n : UInt64)
  | increment (p : Profile)

/-- Pairs with their counts as numbers. -/
def numbered {α : Type} (pairs : List (α × UInt64)) : List (α × Nat) :=
  pairs.map fun e => (e.1, e.2.toNat)

/-- What the operation makes of a layout. -/
def Step.run : Step → Layout → Reading Layout
  | new, _ => .ok empty
  | counts pairs, _ => orOverflow (ofCounts? (numbered pairs))
  | records entries, _ =>
    match parseRecords (numbered entries) with
    | .ok l => orOverflow l
    | .error _ => .error .malformed
  | document entries, _ =>
    Layout.ofTree (.table ((numbered entries).map fun e => (e.1, .natural e.2)))
  | profiles ps, _ => .ok (ofProfiles ps)
  | set p n, l => .ok (l.set p n.toNat)
  | increment p, l => orOverflow (l.increment? p)

/-- Runs operations one after another, up to the first that fails. -/
def runSteps (steps : List Step) (l : Layout) : Reading Layout :=
  steps.foldlM (fun l step => step.run l) l

/-! ## The same on multisets -/

/-- The text is a spelling of the profile, and the counts are the same. -/
def Spells (e : String × UInt64) (q : Profile × UInt64) : Prop :=
  Profile.parse e.1 = .ok q.1 ∧ e.2 = q.2

/-- So many of each profile. -/
def pooled (pairs : List (Profile × UInt64)) : Multiset Profile :=
  (pairs.map fun e => Multiset.replicate e.2.toNat e.1).sum

/-- What the operation makes of a multiset; nothing if a text spells no profile. -/
inductive Step.Makes (m : Multiset Profile) : Step → Multiset Profile → Prop
  | new : Makes m .new 0
  | counts (pairs) : Makes m (.counts pairs) (pooled pairs)
  | records {entries pairs} (spells : List.Forall₂ Spells entries pairs) :
    Makes m (.records entries) (pooled pairs)
  | document {entries pairs} (spells : List.Forall₂ Spells entries pairs) :
    Makes m (.document entries) (pooled pairs)
  | profiles (ps : List Profile) : Makes m (.profiles ps) ps
  | set (p : Profile) (n : UInt64) :
    Makes m (.set p n) (m.filter (· ≠ p) + Multiset.replicate n.toNat p)
  | increment (p : Profile) : Makes m (.increment p) (p ::ₘ m)

/-- The operations make the one multiset of the other, and on the way no count outgrows a machine
word. -/
inductive Builds : List Step → Multiset Profile → Multiset Profile → Prop
  | nil (m) : Builds [] m m
  | cons {step steps m m' m''} (makes : step.Makes m m') (fits : ∀ p, m'.count p ≤ wordMax)
    (builds : Builds steps m' m'') : Builds (step :: steps) m m''

/-- The layout holds the multiset: it lists the profiles that occur, each with its count. -/
structure Holds (l : Layout) (m : Multiset Profile) : Prop where
  count : ∀ p, l.count p = m.count p
  listed : ∀ p n, (p, n) ∈ l.toList ↔ 0 < n ∧ n = m.count p
  contains : ∀ p, l.contains p = true ↔ 0 < l.count p
  isEmpty : l.isEmpty = true ↔ ∀ p, l.count p = 0

variable {l l' : Layout} {m m' : Multiset Profile}

theorem isEmpty_iff {l : Layout} : l.isEmpty = true ↔ ∀ p, l.count p = 0 := by
  rw [isEmpty, SortedMap.isEmpty, List.isEmpty_iff]
  constructor
  · intro hnil p
    rw [count, SortedMap.find?, hnil]
    rfl
  · intro hzero
    refine List.eq_nil_iff_forall_not_mem.2 fun e he => ?_
    obtain ⟨hpos, heq⟩ := mem_toList_iff.1 (show (e.1, e.2) ∈ l.toList from he)
    have := hzero e.1
    omega

theorem holds_of_count (h : ∀ p, l.count p = m.count p) : l.Holds m where
  count := h
  listed p n := by rw [mem_toList_iff, h]
  contains := l.contains_iff
  isEmpty := isEmpty_iff

/-- Layouts that hold multisets are equal exactly if these are. -/
theorem Holds.eq_iff (h : l.Holds m) (h' : l'.Holds m') : l = l' ↔ m = m' := by
  rw [Multiset.ext]
  simp only [← h.count, ← h'.count]
  exact ⟨fun heq p => by rw [heq], ext_count⟩

theorem count_pooled (pairs : List (Profile × UInt64)) (p : Profile) :
    (pooled pairs).count p = (ofCounts (numbered pairs)).count p := by
  rw [count_ofCounts, numbered, List.map_map, pooled]
  induction pairs with
  | nil => rfl
  | cons e pairs ih =>
    rw [List.map_cons, List.sum_cons, List.map_cons, List.sum_cons, Multiset.count_add, ih,
      Multiset.count_replicate]
    rfl

/-! ## Reading pairs -/

section Entries

variable {entries entries' : List (String × UInt64)} {pairs pairs' : List (Profile × UInt64)}

theorem run_records (h : List.Forall₂ Spells entries pairs) (l : Layout) :
    (Step.records entries).run l = (Step.counts pairs).run l := by
  have hread : readRecords (numbered entries) = .ok (numbered pairs) := by
    refine mapM_eq_ok_iff.2 (List.forall₂_map_left_iff.2 (List.forall₂_map_right_iff.2 ?_))
    refine h.imp fun e q hq => except_bind_eq_ok.2 ⟨q.1, hq.1, ?_⟩
    rw [hq.2]
    rfl
  have hparse : parseRecords (numbered entries) = .ok (ofCounts? (numbered pairs)) :=
    except_bind_eq_ok.2 ⟨_, hread, rfl⟩
  simp only [Step.run, hparse]

theorem run_document (h : List.Forall₂ Spells entries pairs) (l : Layout) :
    (Step.document entries).run l = (Step.counts pairs).run l := by
  have hread : ((numbered entries).map fun e => (e.1, Tree.natural e.2)).mapM readEntry =
      .ok (numbered pairs) := by
    refine mapM_eq_ok_iff.2 (List.forall₂_map_left_iff.2 (List.forall₂_map_left_iff.2
      (List.forall₂_map_right_iff.2 (h.imp fun e q hq => readEntry_eq_ok.2 ⟨hq.1, ?_, ?_⟩))))
    · rw [hq.2]
    · exact Nat.le_sub_one_of_lt q.2.toNat_lt
  simp only [Step.run, ofTree_table, hread]
  rfl

/-- The same pairs in any order, spelled or not, make the same layout. -/
theorem run_spelled (h : List.Forall₂ Spells entries pairs) (hentries : entries'.Perm entries)
    (hpairs : pairs'.Perm pairs) (l : Layout) :
    (Step.counts pairs').run l = (Step.counts pairs).run l ∧
      (Step.records entries').run l = (Step.counts pairs).run l ∧
      (Step.document entries').run l = (Step.counts pairs).run l := by
  have hcounts : ∀ {pairs' : List (Profile × UInt64)}, pairs'.Perm pairs →
      (Step.counts pairs').run l = (Step.counts pairs).run l := fun hperm =>
    congrArg orOverflow (ofCounts?_perm (hperm.map _))
  obtain ⟨pairs'', hspells, hperm⟩ := List.perm_comp_forall₂ hentries h
  exact ⟨hcounts hpairs, (run_records hspells l).trans (hcounts hperm),
    (run_document hspells l).trans (hcounts hperm)⟩

theorem exists_spells (h : ∀ e ∈ entries, ∃ p, Profile.parse e.1 = .ok p) :
    ∃ pairs, List.Forall₂ Spells entries pairs := by
  induction entries with
  | nil => exact ⟨[], .nil⟩
  | cons e entries ih =>
    obtain ⟨⟨p, hp⟩, hrest⟩ := List.forall_mem_cons.1 h
    obtain ⟨pairs, hpairs⟩ := ih hrest
    exact ⟨(p, e.2) :: pairs, .cons ⟨hp, rfl⟩ hpairs⟩

/-- Reading spelled pairs fails exactly if some text spells no profile, whatever its count. -/
theorem run_malformed_iff (l : Layout) :
    ((Step.records entries).run l = .error .malformed ↔
      ∃ e ∈ entries, ∀ p, Profile.parse e.1 ≠ .ok p) ∧
    ((Step.document entries).run l = .error .malformed ↔
      ∃ e ∈ entries, ∀ p, Profile.parse e.1 ≠ .ok p) := by
  by_cases h : ∀ e ∈ entries, ∃ p, Profile.parse e.1 = .ok p
  · obtain ⟨pairs, hspells⟩ := exists_spells h
    have hnone : ¬ ∃ e ∈ entries, ∀ p, Profile.parse e.1 ≠ .ok p := fun ⟨e, he, hne⟩ => by
      obtain ⟨p, hp⟩ := h e he
      exact hne p hp
    rw [run_records hspells, run_document hspells]
    exact ⟨iff_of_false (orOverflow_ne_malformed _) hnone,
      iff_of_false (orOverflow_ne_malformed _) hnone⟩
  · obtain ⟨e, he, hbad⟩ : ∃ e ∈ entries, ∀ p, Profile.parse e.1 ≠ .ok p := by
      simpa only [not_forall, not_exists, exists_prop] using h
    have hrecords : (Step.records entries).run l = .error .malformed := by
      cases hread : readRecords (numbered entries) with
      | ok pairs =>
        obtain ⟨q, -, hq⟩ := read_of_mapM_eq_ok hread _ (List.mem_map_of_mem he)
        obtain ⟨p, hp, -⟩ := except_bind_eq_ok.1 hq
        exact absurd hp (hbad p)
      | error fault =>
        have hparse : parseRecords (numbered entries) = .error fault :=
          except_bind_eq_error.2 (.inl hread)
        simp only [Step.run, hparse]
    have hdocument : (Step.document entries).run l = .error .malformed :=
      ofTree_table_malformed (List.mem_map_of_mem (List.mem_map_of_mem he))
        fun q hq => hbad q.1 (readEntry_eq_ok.1 hq).1
    exact ⟨iff_of_true hrecords ⟨e, he, hbad⟩, iff_of_true hdocument ⟨e, he, hbad⟩⟩

end Entries

/-! ## Runs -/

theorem holds_of_pooled {pairs : List (Profile × UInt64)}
    (hfits : ∀ p, (pooled pairs).count p ≤ wordMax) (l : Layout) :
    ∃ l', (Step.counts pairs).run l = .ok l' ∧ l'.Holds (pooled pairs) := by
  simp only [count_pooled] at hfits
  refine ⟨ofCounts (numbered pairs), ?_, holds_of_count fun p => (count_pooled pairs p).symm⟩
  simp only [Step.run, ofCounts?_eq_some hfits, orOverflow]

theorem count_set_eq (hl : l.Holds m) (p q : Profile) (n : Nat) :
    (l.set p n).count q = (m.filter (· ≠ p) + Multiset.replicate n p).count q := by
  rw [count_set, Multiset.count_add, Multiset.count_filter, Multiset.count_replicate, hl.count]
  by_cases h : p = q
  · simp [h]
  · simp [h, Ne.symm h]

/-- An operation does to a layout what it does to the multiset there. -/
theorem Step.run_of_makes {step : Step} (hl : l.Holds m) (hmakes : step.Makes m m')
    (hfits : ∀ p, m'.count p ≤ wordMax) : ∃ l', step.run l = .ok l' ∧ l'.Holds m' := by
  cases hmakes with
  | new => exact ⟨empty, rfl, holds_of_count fun p => (Multiset.count_zero p).symm⟩
  | counts pairs => exact holds_of_pooled hfits l
  | records spells => rw [run_records spells]; exact holds_of_pooled hfits l
  | document spells => rw [run_document spells]; exact holds_of_pooled hfits l
  | profiles ps =>
    refine ⟨ofProfiles ps, rfl, holds_of_count fun p => ?_⟩
    rw [count_ofProfiles, Multiset.coe_count]
  | set p n => exact ⟨l.set p n.toNat, rfl, holds_of_count fun q => count_set_eq hl p q _⟩
  | increment p =>
    have hcount : ∀ q, (l.increment p).count q = (p ::ₘ m).count q := fun q => by
      rw [Layout.increment, count_add, Multiset.count_cons, hl.count]
      simp only [eq_comm]
    have hroom : l.count p < wordMax := by
      have := hfits p
      rw [Multiset.count_cons_self, ← hl.count] at this
      omega
    refine ⟨l.increment p, ?_, holds_of_count hcount⟩
    simp only [Step.run, increment?, if_pos hroom, orOverflow]

/-- **A run.** What builds a multiset builds a layout that holds it. -/
theorem run_of_builds {steps : List Step} (hbuilds : Builds steps m m') (hl : l.Holds m) :
    ∃ l', runSteps steps l = .ok l' ∧ l'.Holds m' := by
  induction hbuilds generalizing l with
  | nil m => exact ⟨l, rfl, hl⟩
  | cons makes fits _ ih =>
    obtain ⟨l₁, hrun, hl₁⟩ := Step.run_of_makes hl makes fits
    obtain ⟨l', hruns, hl'⟩ := ih hl₁
    exact ⟨l', except_bind_eq_ok.2 ⟨l₁, hrun, hruns⟩, hl'⟩

/-- **Layouts are multisets.** Operations that make a multiset build a layout that holds it, and two
layouts built in any two ways are equal exactly if they count every profile alike. Pairs in any
order, and the same pairs with their profiles spelled out, make one layout; reading them fails
exactly if some text spells no profile. -/
theorem layouts_are_multisets :
    (∀ steps m, Builds steps 0 m → ∃ l, runSteps steps empty = .ok l ∧ l.Holds m) ∧
    (∀ steps steps' m m' l l', Builds steps 0 m → Builds steps' 0 m' →
      runSteps steps empty = .ok l → runSteps steps' empty = .ok l' →
      (l = l' ↔ ∀ p, l.count p = l'.count p) ∧ (l = l' ↔ m = m')) ∧
    (∀ entries pairs, List.Forall₂ Spells entries pairs →
      ∀ entries' pairs', entries'.Perm entries → pairs'.Perm pairs → ∀ l,
        (Step.counts pairs').run l = (Step.counts pairs).run l ∧
        (Step.records entries').run l = (Step.counts pairs).run l ∧
        (Step.document entries').run l = (Step.counts pairs).run l) ∧
    ∀ entries l,
      ((Step.records entries).run l = .error .malformed ↔
        ∃ e ∈ entries, ∀ p, Profile.parse e.1 ≠ .ok p) ∧
      ((Step.document entries).run l = .error .malformed ↔
        ∃ e ∈ entries, ∀ p, Profile.parse e.1 ≠ .ok p) := by
  have hempty : empty.Holds 0 := holds_of_count fun p => (Multiset.count_zero p).symm
  refine ⟨fun steps m h => run_of_builds h hempty, ?_, ?_, fun entries l => run_malformed_iff l⟩
  · intro steps steps' m m' l l' h h' hl hl'
    obtain ⟨l₁, hrun, hholds⟩ := run_of_builds h hempty
    obtain ⟨l₁', hrun', hholds'⟩ := run_of_builds h' hempty
    obtain rfl := Except.ok.inj (hrun.symm.trans hl)
    obtain rfl := Except.ok.inj (hrun'.symm.trans hl')
    exact ⟨⟨fun heq p => by rw [heq], ext_count⟩, hholds.eq_iff hholds'⟩
  · exact fun entries pairs h entries' pairs' hentries hpairs l => run_spelled h hentries hpairs l

/-- Two spellings of one profile, a count of zero, and changes of the layout read. -/
theorem layouts_are_multisets_two_spellings :
    let steps : List Step := [.records [("1g.5gb", 2), (" 1G.5GB ", 1), ("3g.20gb", 0)],
      .increment ⟨2, 10⟩, .set ⟨1, 5⟩ 1]
    let m : Multiset Profile := {⟨1, 5⟩, ⟨2, 10⟩}
    Builds steps 0 m ∧ ∃ l, runSteps steps empty = .ok l ∧ l.Holds m := by
  intro steps m
  have hspells : List.Forall₂ Spells [("1g.5gb", 2), (" 1G.5GB ", 1), ("3g.20gb", 0)]
      [(⟨1, 5⟩, 2), (⟨1, 5⟩, 1), (⟨3, 20⟩, 0)] :=
    .cons ⟨rfl, rfl⟩ (.cons ⟨rfl, rfl⟩ (.cons ⟨rfl, rfl⟩ .nil))
  have hfits : ∀ m' : Multiset Profile, m'.card ≤ 4 → ∀ p, m'.count p ≤ wordMax :=
    fun m' hcard p => (m'.count_le_card p).trans (hcard.trans (by decide))
  have hbuilds : Builds steps 0 m := by
    refine .cons (.records hspells) (hfits _ (by decide)) (.cons (.increment _)
      (hfits _ (by decide)) ?_)
    have hlast : (⟨2, 10⟩ ::ₘ pooled [(⟨1, 5⟩, 2), (⟨1, 5⟩, 1), (⟨3, 20⟩, 0)]).filter
        (· ≠ ⟨1, 5⟩) + Multiset.replicate (UInt64.toNat 1) ⟨1, 5⟩ = m := by decide
    exact .cons (hlast ▸ .set _ _) (hfits _ (by decide)) (.nil _)
  exact ⟨hbuilds, layouts_are_multisets.1 steps m hbuilds⟩

end GpuPartition.Layout
