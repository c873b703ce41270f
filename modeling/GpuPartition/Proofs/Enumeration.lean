/-
Enumerating layouts is exact. The choices of counts are those that stay within the limits
and the two budgets (`mem_choices`), in increasing order (`choices_increasing`), so none
comes twice. Among offers of distinct profiles a choice is read off its layout again
(`countsOf_layoutOf`), hence a model enumerates the layouts it admits, each once
(`Model.mem_layouts_iff_check`).
-/
import Mathlib.Data.List.Forall2
import Mathlib.Data.List.Nodup
import GpuPartition.Enumeration
import GpuPartition.Proofs.Packing

namespace GpuPartition

variable {o : Offer} {offers : List Offer} {counts : List Nat} {compute memory : Nat}

/-! ## Choices -/

theorem le_fitting_iff (limit need budget n : Nat) :
    n ≤ min limit (fitting limit need budget) ↔ n ≤ limit ∧ need * n ≤ budget := by
  rw [le_min_iff, fitting]
  by_cases hneed : need = 0
  · simp [hneed]
  · rw [if_neg hneed, Nat.le_div_iff_mul_le (Nat.pos_of_ne_zero hneed), Nat.mul_comm]

theorem Offer.le_most_iff {n : Nat} :
    n ≤ o.most compute memory ↔ n ≤ o.limit ∧ o.compute * n ≤ compute ∧ o.memory * n ≤ memory := by
  have hcompute := le_fitting_iff o.limit o.compute compute n
  have hmemory := le_fitting_iff o.limit o.memory memory n
  rw [le_min_iff] at hcompute hmemory
  rw [Offer.most, le_min_iff, le_min_iff]
  tauto

/-- What so many instances of each offer take of one kind of slices. -/
def needOf (need : Offer → Nat) (offers : List Offer) (counts : List Nat) : Nat :=
  (List.zipWith (fun o n => need o * n) offers counts).sum

@[simp] theorem needOf_nil (need : Offer → Nat) (counts : List Nat) : needOf need [] counts = 0 := rfl

@[simp] theorem needOf_cons (need : Offer → Nat) (o : Offer) (offers : List Offer) (n : Nat)
    (counts : List Nat) :
    needOf need (o :: offers) (n :: counts) = need o * n + needOf need offers counts := by
  rw [needOf, List.zipWith_cons_cons, List.sum_cons, needOf]

/-- The choices are the counts within the limits that take no more than the budgets. -/
theorem mem_choices : counts ∈ choices offers compute memory ↔
    List.Forall₂ (fun o n => n ≤ o.limit) offers counts ∧
      needOf Offer.compute offers counts ≤ compute ∧
      needOf Offer.memory offers counts ≤ memory := by
  induction offers generalizing counts compute memory with
  | nil => simp [choices]
  | cons o offers ih =>
    rw [choices, List.mem_flatMap]
    constructor
    · rintro ⟨n, hn, hmem⟩
      obtain ⟨counts, hcounts, rfl⟩ := List.mem_map.1 hmem
      obtain ⟨hlimit, hcompute, hmemory⟩ :=
        Offer.le_most_iff.1 (Nat.le_of_lt_succ (List.mem_range.1 hn))
      obtain ⟨hlimits, hcomputes, hmemories⟩ := ih.1 hcounts
      rw [needOf_cons, needOf_cons]
      exact ⟨.cons hlimit hlimits, by omega, by omega⟩
    · rintro ⟨hlimits, hcomputes, hmemories⟩
      cases hlimits with
      | @cons _ n _ counts hlimit hlimits =>
        rw [needOf_cons] at hcomputes hmemories
        have hmost : n ≤ o.most compute memory :=
          Offer.le_most_iff.2 ⟨hlimit, by omega, by omega⟩
        refine ⟨n, List.mem_range.2 (Nat.lt_succ_of_le hmost), List.mem_map.2 ⟨counts, ?_, rfl⟩⟩
        exact ih.2 ⟨hlimits, by omega, by omega⟩

/-- The choices come in strictly increasing lexicographic order. -/
theorem choices_increasing (offers : List Offer) (compute memory : Nat) :
    (choices offers compute memory).Pairwise (· < ·) := by
  induction offers generalizing compute memory with
  | nil => exact List.pairwise_singleton _ _
  | cons o offers ih =>
    rw [choices, List.pairwise_flatMap]
    constructor
    -- Choices with one count of the first offer are ordered by the rest, others by that count.
    · intro n _
      exact (ih _ _).map _ fun a b hab => List.Lex.cons hab
    · refine List.pairwise_lt_range.imp fun {n k} hlt a ha b hb => ?_
      obtain ⟨a, -, rfl⟩ := List.mem_map.1 ha
      obtain ⟨b, -, rfl⟩ := List.mem_map.1 hb
      exact List.Lex.rel hlt

/-! ## From choices to layouts -/

/-- The layout with so many instances of each offer. -/
def layoutOf (offers : List Offer) (counts : List Nat) : Layout :=
  .ofCounts ((offers.map (·.profile)).zip counts)

/-- How often a layout counts each offer. -/
def countsOf (offers : List Offer) (l : Layout) : List Nat := offers.map fun o => l.count o.profile

theorem layoutsWithin_eq (offers : List Offer) (compute memory : Nat) :
    layoutsWithin offers compute memory =
      (choices offers compute memory).map (layoutOf offers) := rfl

theorem count_layoutOf_of_not_mem {p : Profile} (hp : p ∉ offers.map (·.profile))
    (counts : List Nat) : (layoutOf offers counts).count p = 0 := by
  rw [layoutOf, Layout.count_ofCounts]
  refine Layout.sum_eq_zero_of_not_mem fun hmem => ?_
  obtain ⟨e, he, rfl⟩ := List.mem_map.1 hmem
  exact hp (List.of_mem_zip he).1

theorem count_layoutOf_cons (o : Offer) (offers : List Offer) (n : Nat) (counts : List Nat)
    (p : Profile) : (layoutOf (o :: offers) (n :: counts)).count p =
      (if o.profile = p then n else 0) + (layoutOf offers counts).count p := by
  simp only [layoutOf, Layout.count_ofCounts, List.map_cons, List.zip_cons_cons, List.sum_cons]

/-- Among offers of distinct profiles a choice is read off its layout again. -/
theorem countsOf_layoutOf (hdistinct : (offers.map (·.profile)).Nodup)
    (hlength : offers.length = counts.length) : countsOf offers (layoutOf offers counts) = counts := by
  induction offers generalizing counts with
  | nil => exact (List.eq_nil_of_length_eq_zero hlength.symm).symm
  | cons o offers ih =>
    cases counts with
    | nil => cases hlength
    | cons n counts =>
      obtain ⟨ho, hdistinct⟩ := List.nodup_cons.1 hdistinct
      have hhead : (layoutOf (o :: offers) (n :: counts)).count o.profile = n := by
        rw [count_layoutOf_cons, if_pos rfl, count_layoutOf_of_not_mem ho, Nat.add_zero]
      have htail : countsOf offers (layoutOf (o :: offers) (n :: counts)) =
          countsOf offers (layoutOf offers counts) := by
        refine List.map_congr_left fun o' ho' => ?_
        have hne : o.profile ≠ o'.profile := fun h => ho (List.mem_map.2 ⟨o', ho', h.symm⟩)
        rw [count_layoutOf_cons, if_neg hne, Nat.zero_add]
      rw [countsOf, List.map_cons, hhead, ← countsOf, htail, ih hdistinct (Nat.succ.inj hlength)]

theorem layoutOf_countsOf (hdistinct : (offers.map (·.profile)).Nodup) {l : Layout}
    (hl : ∀ p, 0 < l.count p → p ∈ offers.map (·.profile)) :
    layoutOf offers (countsOf offers l) = l := by
  have hcounts : countsOf offers (layoutOf offers (countsOf offers l)) = countsOf offers l :=
    countsOf_layoutOf hdistinct (by simp [countsOf])
  refine Layout.ext_count fun p => ?_
  by_cases hp : p ∈ offers.map (·.profile)
  · obtain ⟨o, ho, rfl⟩ := List.mem_map.1 hp
    exact List.map_inj_left.1 hcounts o ho
  · rw [count_layoutOf_of_not_mem hp]
    exact (Nat.eq_zero_of_not_pos fun h => hp (hl p h)).symm

theorem layoutsWithin_nodup (hdistinct : (offers.map (·.profile)).Nodup) (compute memory : Nat) :
    (layoutsWithin offers compute memory).Nodup := by
  have hchoices : (choices offers compute memory).Nodup :=
    (choices_increasing offers compute memory).imp ne_of_lt
  have hread : ∀ counts ∈ choices offers compute memory,
      countsOf offers (layoutOf offers counts) = counts := fun counts hcounts =>
    countsOf_layoutOf hdistinct (mem_choices.1 hcounts).1.length_eq
  rw [layoutsWithin_eq]
  exact hchoices.map_on fun a ha b hb hab => by rw [← hread a ha, ← hread b hb, hab]

theorem mem_layoutsWithin (hdistinct : (offers.map (·.profile)).Nodup) {l : Layout} :
    l ∈ layoutsWithin offers compute memory ↔
      (∀ p, 0 < l.count p → p ∈ offers.map (·.profile)) ∧
        countsOf offers l ∈ choices offers compute memory := by
  rw [layoutsWithin_eq, List.mem_map]
  constructor
  · rintro ⟨counts, hcounts, rfl⟩
    rw [countsOf_layoutOf hdistinct (mem_choices.1 hcounts).1.length_eq]
    refine ⟨fun p hp => ?_, hcounts⟩
    by_contra hmem
    exact absurd (count_layoutOf_of_not_mem hmem counts) hp.ne'
  · rintro ⟨hl, hcounts⟩
    exact ⟨_, hcounts, layoutOf_countsOf hdistinct hl⟩

/-! ## The layouts of a model -/

namespace Model

variable {m : Model} {l : Layout}

/-- What a layout takes, added up offer by offer. -/
theorem needOf_countsOf {need : Offer → Nat} {needs : Profile → Nat}
    (hneeds : ∀ o ∈ m.offers, needs o.profile = need o)
    (hl : ∀ p, 0 < l.count p → p ∈ m.offers.map (·.profile)) :
    needOf need m.offers (countsOf m.offers l) = (l.flatten.map needs).sum := by
  -- The flat form is sorted by profile, the needs by offer: both are groups of one list.
  have hperm : (grouped l.flatten (m.offers.map (·.profile))).Perm l.flatten :=
    Model.grouped_perm m.profiles_nodup fun p hp => hl p (Layout.mem_flatten.1 hp)
  rw [← (hperm.map needs).sum_eq, sum_grouped, List.map_map, needOf, countsOf,
    List.zipWith_map_right, List.zipWith_self]
  congr 1
  refine List.map_congr_left fun o ho => ?_
  rw [Function.comp, hneeds o ho, Layout.count_flatten, Nat.mul_comm]

theorem fits_flatten_iff : m.Fits l.flatten ↔
    (∀ p, 0 < l.count p → p ∈ m.offers.map (·.profile)) ∧
      countsOf m.offers l ∈ choices m.offers m.computeSlices m.memorySlices := by
  have hcompute : ∀ o ∈ m.offers, m.computeOf o.profile = o.compute := fun o ho =>
    computeOf_eq (offer?_of_mem o ho)
  have hmemory : ∀ o ∈ m.offers, m.memoryOf o.profile = o.memory := fun o ho =>
    memoryOf_eq (offer?_of_mem o ho)
  constructor
  · intro hfits
    have hl : ∀ p, 0 < l.count p → p ∈ m.offers.map (·.profile) := fun p hp => by
      obtain ⟨o, ho, -⟩ := hfits.offered p (Layout.mem_flatten.2 hp)
      obtain ⟨hmem, rfl⟩ := mem_offers_of_offer? ho
      exact List.mem_map_of_mem hmem
    refine ⟨hl, mem_choices.2 ⟨?_, ?_, ?_⟩⟩
    · rw [countsOf, List.forall₂_map_right_iff, List.forall₂_same]
      intro o ho
      by_cases hp : 0 < l.count o.profile
      · obtain ⟨o', ho', hle⟩ := hfits.offered _ (Layout.mem_flatten.2 hp)
        obtain rfl : o = o' := Option.some.inj ((offer?_of_mem o ho).symm.trans ho')
        rwa [Layout.count_flatten] at hle
      · omega
    · rw [needOf_countsOf hcompute hl]
      exact hfits.compute
    · rw [needOf_countsOf hmemory hl]
      exact hfits.memory
  · rintro ⟨hl, hcounts⟩
    obtain ⟨hlimits, hcomputes, hmemories⟩ := mem_choices.1 hcounts
    rw [countsOf, List.forall₂_map_right_iff, List.forall₂_same] at hlimits
    rw [needOf_countsOf hcompute hl] at hcomputes
    rw [needOf_countsOf hmemory hl] at hmemories
    refine ⟨fun p hp => ?_, hcomputes, hmemories⟩
    obtain ⟨o, ho, rfl⟩ := List.mem_map.1 (hl p (Layout.mem_flatten.1 hp))
    exact ⟨o, offer?_of_mem o ho, (Layout.count_flatten l _).symm ▸ hlimits o ho⟩

/-- **Enumeration and admission agree.** The layouts of a model are those that it admits, and none
of them comes twice. -/
theorem mem_layouts_iff_check (m : Model) (l : Layout) :
    (l ∈ m.layouts ↔ ∃ used, m.check l = .ok used) ∧ (l ∈ m.layouts → m.layouts.count l = 1) := by
  constructor
  · rw [Model.layouts, mem_layoutsWithin m.profiles_nodup, ← fits_flatten_iff]
    constructor
    · exact fun hfits => ⟨_, check_eq_ok_iff.2 ⟨hfits, rfl⟩⟩
    · rintro ⟨used, hcheck⟩
      exact fits_of_check hcheck
  · exact List.count_eq_one_of_mem (layoutsWithin_nodup m.profiles_nodup _ _)

example : Model.a30With24.layouts.length = 10 := by decide

end Model

end GpuPartition
