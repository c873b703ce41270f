/-
Admission, said of lists of profiles. A list fits a model when every profile in it is
offered, and offered so often, and the needs add up to no more than there is
(`Model.Fits`, which does not depend on the order); a layout is admitted exactly when its
flat form fits (`check_eq_ok_iff`). Every instance takes a compute slice, so what fits is
short, and its orders can be counted (`orderings_lt_of_check`).
-/
import Mathlib.Algebra.BigOperators.Group.List.Basic
import GpuPartition.Model
import GpuPartition.Proofs.Layout

namespace GpuPartition

namespace Model

/-! ## Offers -/

/-- The compute slices that an instance of `p` takes, none if `p` is not offered. -/
def computeOf (m : Model) (p : Profile) : Nat := ((m.offer? p).map Offer.compute).getD 0

/-- The memory slices that an instance of `p` takes, none if `p` is not offered. -/
def memoryOf (m : Model) (p : Profile) : Nat := ((m.offer? p).map Offer.memory).getD 0

/-- Every offer takes as many compute slices as its profile says, at least one of each kind, and
lists its starts from the left. -/
theorem offers_regular (m : Model) : ∀ o ∈ m.offers,
    o.compute = o.profile.slices.toNat ∧ 0 < o.compute ∧ 0 < o.memory ∧
      o.starts.Pairwise (· < ·) := by
  cases m <;> decide

/-- Every offer keeps within the memory, wherever it starts. -/
theorem offers_inside (m : Model) : ∀ o ∈ m.offers, ∀ start ∈ o.starts,
    start + o.memory ≤ m.memorySlices := by
  cases m <;> decide

variable {m : Model} {p : Profile} {o : Offer}

theorem mem_offers_of_offer? (h : m.offer? p = some o) : o ∈ m.offers ∧ o.profile = p :=
  ⟨List.mem_of_find?_eq_some h, by simpa using List.find?_some h⟩

theorem computeOf_eq (h : m.offer? p = some o) : m.computeOf p = o.compute := by
  rw [computeOf, h]
  rfl

theorem memoryOf_eq (h : m.offer? p = some o) : m.memoryOf p = o.memory := by
  rw [memoryOf, h]
  rfl

theorem compute_eq_slices (h : m.offer? p = some o) : o.compute = p.slices.toNat := by
  obtain ⟨hmem, rfl⟩ := mem_offers_of_offer? h
  exact (m.offers_regular o hmem).1

theorem compute_pos (h : m.offer? p = some o) : 0 < o.compute :=
  (m.offers_regular o (mem_offers_of_offer? h).1).2.1

theorem memory_pos (h : m.offer? p = some o) : 0 < o.memory :=
  (m.offers_regular o (mem_offers_of_offer? h).1).2.2.1

theorem starts_ascending (h : m.offer? p = some o) : o.starts.Pairwise (· < ·) :=
  (m.offers_regular o (mem_offers_of_offer? h).1).2.2.2

theorem starts_inside (h : m.offer? p = some o) {start : Nat} (hstart : start ∈ o.starts) :
    start + o.memory ≤ m.memorySlices :=
  m.offers_inside o (mem_offers_of_offer? h).1 start hstart

/-! ## Lists that fit -/

/-- The model can hold the profiles, as far as numbers tell. -/
structure Fits (m : Model) (ps : List Profile) : Prop where
  offered : ∀ p ∈ ps, ∃ o, m.offer? p = some o ∧ ps.count p ≤ o.limit
  compute : (ps.map m.computeOf).sum ≤ m.computeSlices
  memory : (ps.map m.memoryOf).sum ≤ m.memorySlices

theorem Fits.perm {ps qs : List Profile} (h : m.Fits ps) (hp : ps.Perm qs) : m.Fits qs where
  offered p hm := by
    obtain ⟨o, ho, hle⟩ := h.offered p (hp.mem_iff.2 hm)
    exact ⟨o, ho, hp.count_eq p ▸ hle⟩
  compute := (hp.map m.computeOf).sum_eq ▸ h.compute
  memory := (hp.map m.memoryOf).sum_eq ▸ h.memory

/-- Every instance takes a compute slice. -/
theorem Fits.length_le {ps : List Profile} (h : m.Fits ps) : ps.length ≤ m.computeSlices := by
  refine le_trans ?_ h.compute
  have hpos : ∀ c ∈ ps.map m.computeOf, 1 ≤ c := by
    intro c hc
    obtain ⟨p, hp, rfl⟩ := List.mem_map.1 hc
    obtain ⟨o, ho, -⟩ := h.offered p hp
    rw [computeOf_eq ho]
    exact compute_pos ho
  have hlen := List.length_le_sum_of_one_le (ps.map m.computeOf) hpos
  rwa [List.length_map] at hlen

/-! ## Admission -/

theorem take_eq_ok_iff {used used' : Usage} {n : Nat} :
    m.take used p n = .ok used' ↔ ∃ o, m.offer? p = some o ∧ n ≤ o.limit ∧
      used' = ⟨used.compute + o.compute * n, used.memory + o.memory * n⟩ := by
  rw [take]
  cases h : m.offer? p with
  | none => simp
  | some o =>
    by_cases hn : o.limit < n
    · simp [hn]
    · simp [hn, eq_comm, not_lt.1 hn]

theorem foldlM_take_eq_ok_iff {es : List (Profile × Nat)} {used used' : Usage} :
    es.foldlM (fun used e => m.take used e.1 e.2) used = .ok used' ↔
      (∀ e ∈ es, ∃ o, m.offer? e.1 = some o ∧ e.2 ≤ o.limit) ∧
      used' = ⟨used.compute + (es.map fun e => m.computeOf e.1 * e.2).sum,
        used.memory + (es.map fun e => m.memoryOf e.1 * e.2).sum⟩ := by
  induction es generalizing used with
  | nil => simp [pure, Except.pure, eq_comm]
  | cons e es ih =>
    rw [List.foldlM_cons]
    constructor
    · intro h
      cases h' : m.take used e.1 e.2 with
      | error cause => rw [h'] at h; cases h
      | ok used₁ =>
        rw [h'] at h
        obtain ⟨o, ho, hle, rfl⟩ := take_eq_ok_iff.1 h'
        obtain ⟨hes, rfl⟩ := ih.1 h
        refine ⟨fun e' he' => ?_, ?_⟩
        · rcases List.mem_cons.1 he' with rfl | he'
          · exact ⟨o, ho, hle⟩
          · exact hes e' he'
        · simp [computeOf_eq ho, memoryOf_eq ho, Nat.add_assoc]
    · rintro ⟨hes, rfl⟩
      obtain ⟨o, ho, hle⟩ := hes e List.mem_cons_self
      have htake : m.take used e.1 e.2 = .ok _ := take_eq_ok_iff.2 ⟨o, ho, hle, rfl⟩
      rw [htake]
      refine ih.2 ⟨fun e' he' => hes e' (List.mem_cons_of_mem _ he'), ?_⟩
      simp [computeOf_eq ho, memoryOf_eq ho, Nat.add_assoc]

theorem sum_map_flatten (f : Profile → Nat) (l : Layout) :
    (l.flatten.map f).sum = (l.toList.map fun e => f e.1 * e.2).sum := by
  rw [Layout.flatten]
  induction l.toList with
  | nil => rfl
  | cons e es ih => simp [List.flatMap_cons, ih, Nat.mul_comm]

theorem offered_iff {l : Layout} :
    (∀ e ∈ l.toList, ∃ o, m.offer? e.1 = some o ∧ e.2 ≤ o.limit) ↔
      ∀ p ∈ l.flatten, ∃ o, m.offer? p = some o ∧ l.flatten.count p ≤ o.limit := by
  have hcount : ∀ e ∈ l.toList, l.flatten.count e.1 = e.2 := fun e he => by
    rw [Layout.count_flatten, Layout.count, SortedMap.find?,
      SortedMap.lookupEntry_of_mem l.counts.sorted he]
    rfl
  constructor
  · intro h p hp
    obtain ⟨e, he, rfl⟩ := List.mem_map.1 (Layout.mem_keys.2 (Layout.mem_flatten.1 hp))
    rw [hcount e he]
    exact h e he
  · intro h e he
    have hp : e.1 ∈ l.flatten :=
      Layout.mem_flatten.2 (Layout.mem_keys.1 (List.mem_map_of_mem he))
    simpa [hcount e he] using h e.1 hp

/-- A layout is admitted exactly when its flat form fits, with what that takes. -/
theorem check_eq_ok_iff {l : Layout} {used : Usage} :
    m.check l = .ok used ↔ m.Fits l.flatten ∧
      used = ⟨(l.flatten.map m.computeOf).sum, (l.flatten.map m.memoryOf).sum⟩ := by
  have husage : ∀ used', m.usage l.toList = .ok used' ↔
      (∀ p ∈ l.flatten, ∃ o, m.offer? p = some o ∧ l.flatten.count p ≤ o.limit) ∧
      used' = ⟨(l.flatten.map m.computeOf).sum, (l.flatten.map m.memoryOf).sum⟩ := fun used' => by
    rw [usage, foldlM_take_eq_ok_iff, offered_iff, sum_map_flatten, sum_map_flatten]
    simp
  rw [check]
  cases h : m.usage l.toList with
  | error cause =>
    have hnot := fun used' => (husage used').not.1 (by simp [h])
    constructor
    · intro h'
      cases h'
    · rintro ⟨hfits, -⟩
      exact absurd ⟨hfits.offered, rfl⟩ (hnot _)
  | ok used₁ =>
    obtain ⟨hoffered, rfl⟩ := (husage used₁).1 h
    change (if _ then _ else if _ then _ else _) = _ ↔ _
    constructor
    · intro h'
      split at h'
      · cases h'
      · split at h'
        · cases h'
        · next hc hm =>
          exact ⟨⟨hoffered, not_lt.1 hc, not_lt.1 hm⟩, by simpa using h'.symm⟩
    · rintro ⟨hfits, rfl⟩
      rw [if_neg (not_lt.2 hfits.compute), if_neg (not_lt.2 hfits.memory)]

theorem fits_of_check {l : Layout} {used : Usage} (h : m.check l = .ok used) :
    m.Fits l.flatten :=
  (check_eq_ok_iff.1 h).1

theorem computeSlices_le (m : Model) : m.computeSlices ≤ 7 := by
  cases m <;> decide

/-- A layout that is admitted has few orders. -/
theorem orderings_lt_of_check {l : Layout} {used : Usage} (h : m.check l = .ok used) :
    l.orderings < UInt64.size := by
  have hlen := (fits_of_check h).length_le.trans m.computeSlices_le
  calc l.orderings ≤ Nat.factorial l.flatten.length := by
        rw [Layout.orderings_eq, ← Arrangement.sum_count_dedup]
        exact Arrangement.multinomial_le_factorial _
    _ ≤ Nat.factorial 7 := Nat.factorial_le hlen
    _ < UInt64.size := by decide

end Model

end GpuPartition
