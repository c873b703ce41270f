/-
The number of distinct arrangements. `multinomial` is the closed form `n! / (c₁! ⋯ cₖ!)`;
the capped product of binomial coefficients is its minimum with the cap
(`cappedCount_eq`), and a list of all the distinct rearrangements of some items has that
length, for the multiplicities of the items (`length_eq_multinomial`).
-/
import Mathlib.Algebra.BigOperators.Ring.Finset
import Mathlib.Data.List.Permutation
import Mathlib.Data.Nat.Choose.Basic
import GpuPartition.Arrangement.Count

namespace GpuPartition.Arrangement

open scoped Nat

/-- `n! / (c₁! ⋯ cₖ!)` for the multiplicities `c₁ … cₖ` of sum `n`. -/
def multinomial (multiplicities : List Nat) : Nat :=
  multiplicities.sum ! / (multiplicities.map Nat.factorial).prod

/-! ## The closed form -/

theorem prod_factorial_pos (cs : List Nat) : 0 < (cs.map Nat.factorial).prod := by
  induction cs with
  | nil => simp
  | cons c cs ih => simpa using Nat.mul_pos (Nat.factorial_pos c) ih

theorem prod_factorial_dvd (cs : List Nat) : (cs.map Nat.factorial).prod ∣ cs.sum ! := by
  induction cs with
  | nil => simp
  | cons c cs ih =>
    simp only [List.map_cons, List.prod_cons, List.sum_cons]
    exact (Nat.mul_dvd_mul_left _ ih).trans (Nat.factorial_mul_factorial_dvd_factorial_add c _)

/-- The division is exact. -/
theorem multinomial_mul_prod (cs : List Nat) :
    multinomial cs * (cs.map Nat.factorial).prod = cs.sum ! :=
  Nat.div_mul_cancel (prod_factorial_dvd cs)

theorem multinomial_pos (cs : List Nat) : 0 < multinomial cs := by
  have h := multinomial_mul_prod cs
  have := Nat.factorial_pos cs.sum
  exact Nat.pos_of_ne_zero fun h0 => by simp [h0] at h; omega

theorem multinomial_perm {cs cs' : List Nat} (h : cs.Perm cs') :
    multinomial cs = multinomial cs' := by
  rw [multinomial, multinomial, h.sum_nat, (h.map _).prod_eq]

/-- One more kind of item, put in among the items before it. -/
theorem multinomial_append (cs : List Nat) (c : Nat) :
    multinomial (cs ++ [c]) = multinomial cs * (cs.sum + c).choose c := by
  apply Nat.eq_of_mul_eq_mul_right (prod_factorial_pos (cs ++ [c]))
  rw [multinomial_mul_prod]
  calc (cs ++ [c]).sum !
      = (cs.sum + c).choose c * cs.sum ! * c ! := by
        rw [List.sum_append, List.sum_singleton, Nat.add_choose_mul_factorial_mul_factorial]
    _ = (cs.sum + c).choose c * (multinomial cs * (cs.map Nat.factorial).prod) * c ! := by
        rw [multinomial_mul_prod]
    _ = multinomial cs * (cs.sum + c).choose c * ((cs ++ [c]).map Nat.factorial).prod := by
        simp only [List.map_append, List.map_singleton, List.prod_append, List.prod_singleton]
        ac_rfl

theorem multinomial_le_factorial (cs : List Nat) : multinomial cs ≤ cs.sum ! :=
  Nat.div_le_self _ _

/-! ## The capped product -/

/-- Binomial coefficients do not fall up to the middle. -/
theorem choose_le_choose_of_le_half {n i j : Nat} (hij : i ≤ j) (hj : j ≤ n / 2) :
    n.choose i ≤ n.choose j := by
  induction j, hij using Nat.le_induction with
  | base => exact le_rfl
  | succ j hij ih =>
    exact (ih (by omega)).trans (Nat.choose_le_succ_of_lt_half_left (by omega))

theorem min_chooseFrom (cap n : Nat) {steps i : Nat} (h : i + steps ≤ n / 2) :
    min cap (chooseFrom cap n steps i (n.choose i)) = min cap (n.choose (i + steps)) := by
  induction steps generalizing i with
  | zero => rfl
  | succ steps ih =>
    rw [chooseFrom]
    split
    next hcap =>
      have hle : n.choose i ≤ n.choose (i + (steps + 1)) :=
        choose_le_choose_of_le_half (by omega) h
      omega
    next =>
      have hstep : n.choose i * (n - i) / (i + 1) = n.choose (i + 1) := by
        rw [← Nat.choose_succ_right_eq, Nat.mul_div_cancel _ i.succ_pos]
      rw [hstep, ih (by omega)]
      congr 2
      omega

theorem cappedChoose_eq (cap : Nat) {n k : Nat} (hk : k ≤ n) :
    cappedChoose cap n k = min cap (n.choose k) := by
  have h : min cap (chooseFrom cap n (min k (n - k)) 0 (n.choose 0)) =
      min cap (n.choose (0 + min k (n - k))) := min_chooseFrom cap n (by omega)
  rw [Nat.choose_zero_right, Nat.zero_add] at h
  rw [cappedChoose, h]
  rcases Nat.le_total k (n - k) with hle | hle
  · rw [Nat.min_eq_left hle]
  · rw [Nat.min_eq_right hle, Nat.choose_symm hk]

theorem min_mul_min (cap : Nat) {a b : Nat} (ha : 0 < a) (hb : 0 < b) :
    min cap (min cap a * min cap b) = min cap (a * b) := by
  rcases Nat.eq_zero_or_pos cap with rfl | hcap
  · simp
  · rcases Nat.le_total cap a with hca | hca
    · have h₁ : cap ≤ cap * min cap b := Nat.le_mul_of_pos_right _ (by omega)
      have h₂ : cap ≤ a * b := hca.trans (Nat.le_mul_of_pos_right _ hb)
      rw [Nat.min_eq_left hca, Nat.min_eq_left h₁, Nat.min_eq_left h₂]
    · rw [Nat.min_eq_right hca]
      rcases Nat.le_total cap b with hcb | hcb
      · have h₁ : cap ≤ a * cap := Nat.le_mul_of_pos_left _ ha
        have h₂ : cap ≤ a * b := hcb.trans (Nat.le_mul_of_pos_left _ ha)
        rw [Nat.min_eq_left hcb, Nat.min_eq_left h₁, Nat.min_eq_left h₂]
      · rw [Nat.min_eq_right hcb]

/-- The capped count is the number of distinct arrangements, or the cap where that is less. -/
theorem cappedCount_eq (cap : Nat) (cs : List Nat) :
    cappedCount cap cs = min cap (multinomial cs) := by
  -- The fold has seen `pre`, and holds its sum and its capped count.
  suffices ∀ pre : List Nat, (cs.foldl (fun seen c =>
      (seen.1 + c, min cap (seen.2 * cappedChoose cap (seen.1 + c) c)))
      (pre.sum, min cap (multinomial pre))).2 = min cap (multinomial (pre ++ cs)) by
    simpa [cappedCount, multinomial] using this []
  induction cs with
  | nil => simp
  | cons c cs ih =>
    intro pre
    have hstep : min cap (min cap (multinomial pre) * cappedChoose cap (pre.sum + c) c) =
        min cap (multinomial (pre ++ [c])) := by
      rw [cappedChoose_eq cap (Nat.le_add_left c _), multinomial_append,
        min_mul_min cap (multinomial_pos pre) (Nat.choose_pos (Nat.le_add_left c _))]
    have hsum : pre.sum + c = (pre ++ [c]).sum := by simp
    rw [List.foldl_cons]
    simp only
    rw [hstep, hsum, ih (pre ++ [c]), List.append_assoc, List.singleton_append]

/-- As far as a machine word tells, the count is exact. -/
theorem count_eq (cs : List Nat) : count cs = min wordMax (multinomial cs) :=
  cappedCount_eq wordMax cs

/-! ## Counting rearrangements -/

section Rearrangements

variable {α : Type} [DecidableEq α]

/-- The distinct rearrangements of some items. -/
def rearrangements (items : List α) : Finset (List α) := items.permutations.toFinset

@[simp] theorem mem_rearrangements {items u : List α} :
    u ∈ rearrangements items ↔ u.Perm items := by
  rw [rearrangements, List.mem_toFinset, List.mem_permutations]

/-- A rearrangement is one of the items in front of a rearrangement of the others. -/
theorem rearrangements_eq_biUnion {items : List α} (h : items ≠ []) :
    rearrangements items =
      items.toFinset.biUnion fun a => (rearrangements (items.erase a)).image (a :: ·) := by
  ext u
  simp only [mem_rearrangements, Finset.mem_biUnion, List.mem_toFinset, Finset.mem_image]
  constructor
  · intro hu
    cases u with
    | nil => exact absurd hu.symm.eq_nil h
    | cons a u =>
      have ha : a ∈ items := hu.subset List.mem_cons_self
      exact ⟨a, ha, u, List.Perm.cons_inv (hu.trans (List.perm_cons_erase ha)), rfl⟩
  · rintro ⟨a, ha, v, hv, rfl⟩
    exact (hv.cons a).trans (List.perm_cons_erase ha).symm

/-- Taking out one item of `a` divides the factorials by its multiplicity. -/
theorem prod_factorial_erase {items : List α} {a : α} (ha : a ∈ items) :
    ∏ b ∈ items.toFinset, (items.count b)! =
      items.count a * ∏ b ∈ (items.erase a).toFinset, ((items.erase a).count b)! := by
  have hsub : (items.erase a).toFinset ⊆ items.toFinset := fun b hb => by
    simpa using List.mem_of_mem_erase (List.mem_toFinset.1 hb)
  rw [Finset.prod_subset hsub fun b _ hb => by
      rw [List.count_eq_zero.2 (by simpa using hb), Nat.factorial_zero],
    ← Finset.mul_prod_erase _ _ (List.mem_toFinset.2 ha),
    ← Finset.mul_prod_erase _ _ (List.mem_toFinset.2 ha), ← Nat.mul_assoc]
  congr 1
  · have hpos := List.count_pos_iff.2 ha
    rw [List.count_erase_self, Nat.mul_factorial_pred (by omega)]
  · refine Finset.prod_congr rfl fun b hb => ?_
    rw [List.count_erase_of_ne (Finset.ne_of_mem_erase hb)]

theorem card_rearrangements_mul (items : List α) :
    (rearrangements items).card * ∏ a ∈ items.toFinset, (items.count a)! = items.length ! := by
  induction hn : items.length generalizing items with
  | zero => simp [rearrangements, List.length_eq_zero_iff.1 hn]
  | succ n ih =>
    have hne : items ≠ [] := fun h => by simp [h] at hn
    rw [rearrangements_eq_biUnion hne, Finset.card_biUnion, Finset.sum_mul]
    · calc ∑ a ∈ items.toFinset, ((rearrangements (items.erase a)).image (a :: ·)).card *
              ∏ b ∈ items.toFinset, (items.count b)!
          = ∑ a ∈ items.toFinset, items.count a * n ! := by
            refine Finset.sum_congr rfl fun a ha => ?_
            rw [List.mem_toFinset] at ha
            have hlen : (items.erase a).length = n := by rw [List.length_erase_of_mem ha, hn]; rfl
            rw [Finset.card_image_of_injective _ (List.cons_injective), prod_factorial_erase ha,
              ← ih (items.erase a) hlen]
            ac_rfl
        _ = (n + 1)! := by
            rw [← Finset.sum_mul, List.sum_toFinset_count_eq_length, hn, Nat.factorial_succ]
    · intro a _ b _ hab
      rw [Function.onFun, Finset.disjoint_left]
      intro u hu hu'
      obtain ⟨v, -, rfl⟩ := Finset.mem_image.1 hu
      obtain ⟨v', -, he⟩ := Finset.mem_image.1 hu'
      exact hab (List.cons.inj he).1.symm

theorem sum_count_dedup (items : List α) : (items.dedup.map items.count).sum = items.length := by
  have hdedup : items.dedup.toFinset = items.toFinset := by ext; simp
  rw [← List.sum_toFinset _ items.nodup_dedup, hdedup, List.sum_toFinset_count_eq_length]

/-- A list of all distinct rearrangements has `n! / (c₁! ⋯ cₖ!)` members, where `c₁ … cₖ` are the
multiplicities of the distinct items. -/
theorem length_eq_multinomial {items : List α} {l : List (List α)} (hl : l.Nodup)
    (hmem : ∀ u, u ∈ l ↔ u.Perm items) :
    l.length = multinomial (items.dedup.map items.count) := by
  have hcard : l.length = (rearrangements items).card := by
    rw [← List.toFinset_card_of_nodup hl]
    congr 1
    ext u
    simp [hmem]
  have hdedup : items.dedup.toFinset = items.toFinset := by ext; simp
  have hprod : ((items.dedup.map items.count).map Nat.factorial).prod =
      ∏ a ∈ items.toFinset, (items.count a)! := by
    rw [List.map_map, ← List.prod_toFinset _ items.nodup_dedup, hdedup]
    rfl
  rw [multinomial, hprod, sum_count_dedup, hcard, ← card_rearrangements_mul items]
  refine (Nat.mul_div_cancel _ ?_).symm
  exact hprod ▸ prod_factorial_pos _

end Rearrangements

end GpuPartition.Arrangement
