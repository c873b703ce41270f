/-
Lists that fit can be laid end to end. Fitting is a matter of numbers alone, while an
instance may start at few slices only; still, in the right order each instance may start
where the one before stopped (`Model.exists_packing`). Larger instances come first, but
for one case: a 3g instance among smaller ones that fill the other half goes last, since
nothing but another 3g may start at slice 6 and take two.
-/
import GpuPartition.Proofs.Model

namespace GpuPartition.Model

variable {m : Model} {p : Profile} {o : Offer}

theorem offer?_of_mem : ∀ o ∈ m.offers, m.offer? o.profile = some o := by
  cases m <;> decide

theorem profiles_nodup (m : Model) : (m.offers.map (·.profile)).Nodup := by
  cases m <;> decide

/-- From slice `u` on, each profile may start where the one before it stops. -/
def Packs (m : Model) : Nat → List Profile → Prop
  | _, [] => True
  | u, p :: ps => (∃ o, m.offer? p = some o ∧ u ∈ o.starts) ∧ m.Packs (u + m.memoryOf p) ps

theorem packs_append {ps qs : List Profile} {u : Nat} :
    m.Packs u (ps ++ qs) ↔ m.Packs u ps ∧ m.Packs (u + (ps.map m.memoryOf).sum) qs := by
  induction ps generalizing u with
  | nil => simp [Packs]
  | cons p ps ih => simp [Packs, ih, and_assoc, Nat.add_assoc]

theorem packs_replicate (ho : m.offer? p = some o) {n u : Nat}
    (h : ∀ i < n, u + i * o.memory ∈ o.starts) : m.Packs u (List.replicate n p) := by
  induction n generalizing u with
  | zero => trivial
  | succ n ih =>
    rw [List.replicate_succ, Packs, memoryOf_eq ho]
    refine ⟨⟨o, ho, ?_⟩, ih fun i hi => ?_⟩
    · simpa using h 0 (Nat.succ_pos n)
    · have hstart := h (i + 1) (Nat.succ_lt_succ hi)
      rw [Nat.succ_mul] at hstart
      rwa [Nat.add_assoc, Nat.add_comm o.memory]

/-! ## Groups -/

/-- The list with equal profiles side by side, the groups in the order of `qs`. -/
def grouped (ps qs : List Profile) : List Profile :=
  qs.flatMap fun q => List.replicate (ps.count q) q

theorem count_grouped {ps qs : List Profile} (hqs : qs.Nodup) (p : Profile) :
    (grouped ps qs).count p = if p ∈ qs then ps.count p else 0 := by
  induction qs with
  | nil => rfl
  | cons q qs ih =>
    obtain ⟨hq, hqs⟩ := List.nodup_cons.1 hqs
    rw [grouped, List.flatMap_cons, List.count_append, List.count_replicate]
    change _ + (grouped ps qs).count p = _
    rw [ih hqs]
    by_cases hp : q = p
    · subst hp
      simp [hq]
    · have hp' : ¬ p = q := fun h => hp h.symm
      simp [hp, hp']

theorem sum_grouped (f : Profile → Nat) (ps qs : List Profile) :
    ((grouped ps qs).map f).sum = (qs.map fun q => ps.count q * f q).sum := by
  induction qs with
  | nil => rfl
  | cons q qs ih =>
    rw [List.map_cons, List.sum_cons, ← ih, grouped, List.flatMap_cons, List.map_append,
      List.sum_append, List.map_replicate, List.sum_replicate_nat]
    rfl

theorem grouped_perm {ps qs : List Profile} (hqs : qs.Nodup) (h : ∀ p ∈ ps, p ∈ qs) :
    (grouped ps qs).Perm ps := by
  rw [List.perm_iff_count]
  intro p
  rw [count_grouped hqs]
  split
  next => rfl
  next hp => exact (List.count_eq_zero.2 fun hmem => hp (h p hmem)).symm

/-- However the offers are ordered, what fits can be grouped by them. -/
theorem Fits.grouped_perm {ps qs : List Profile} (h : m.Fits ps)
    (hqs : qs.Perm (m.offers.map (·.profile))) : (grouped ps qs).Perm ps := by
  refine Model.grouped_perm (hqs.nodup_iff.2 m.profiles_nodup) fun p hp => hqs.mem_iff.2 ?_
  obtain ⟨o, ho, -⟩ := h.offered p hp
  obtain ⟨hmem, rfl⟩ := mem_offers_of_offer? ho
  exact List.mem_map_of_mem hmem

/-- What fits, counted offer by offer. -/
theorem Fits.sums_le {ps qs : List Profile} (h : m.Fits ps)
    (hqs : qs.Perm (m.offers.map (·.profile))) :
    (qs.map fun q => ps.count q * m.computeOf q).sum ≤ m.computeSlices ∧
      (qs.map fun q => ps.count q * m.memoryOf q).sum ≤ m.memorySlices := by
  have hfits := h.perm (h.grouped_perm hqs).symm
  exact ⟨sum_grouped m.computeOf ps qs ▸ hfits.compute, sum_grouped m.memoryOf ps qs ▸ hfits.memory⟩

theorem packs_grouped_cons (ho : m.offer? p = some o) {ps qs : List Profile} {u : Nat}
    (hstarts : ∀ i < ps.count p, u + i * o.memory ∈ o.starts)
    (h : m.Packs (u + ps.count p * o.memory) (grouped ps qs)) :
    m.Packs u (grouped ps (p :: qs)) := by
  rw [grouped, List.flatMap_cons]
  refine packs_append.2 ⟨packs_replicate ho hstarts, ?_⟩
  rw [List.map_replicate, List.sum_replicate_nat, memoryOf_eq ho]
  exact h

/-! ## Packings -/

section

variable {p₁ p₂ p₃ p₄ p₇ : Profile} {ps : List Profile}

/-- Seven compute slices and eight memory slices. -/
theorem exists_packing_seven (hm : m.offers = [⟨p₁, 1, 1, 7, [0, 1, 2, 3, 4, 5, 6]⟩,
      ⟨p₂, 2, 2, 3, [0, 2, 4]⟩, ⟨p₃, 3, 4, 2, [0, 4]⟩, ⟨p₄, 4, 4, 1, [0]⟩, ⟨p₇, 7, 8, 1, [0]⟩])
    (hc : m.computeSlices = 7) (hs : m.memorySlices = 8) (h : m.Fits ps) :
    ∃ order, order.Perm ps ∧ m.Packs 0 order := by
  have ho : ∀ o ∈ m.offers, m.offer? o.profile = some o := offer?_of_mem
  simp only [hm, List.forall_mem_cons] at ho
  obtain ⟨h₁, h₂, h₃, h₄, h₇, -⟩ := ho
  have hup : [p₁, p₂, p₃, p₄, p₇].Perm (m.offers.map (·.profile)) := by rw [hm]; rfl
  obtain ⟨hcompute, hmemory⟩ := h.sums_le hup
  simp only [List.map_cons, List.map_nil, List.sum_cons, List.sum_nil, computeOf_eq h₁,
    computeOf_eq h₂, computeOf_eq h₃, computeOf_eq h₄, computeOf_eq h₇, hc] at hcompute
  simp only [List.map_cons, List.map_nil, List.sum_cons, List.sum_nil, memoryOf_eq h₁,
    memoryOf_eq h₂, memoryOf_eq h₃, memoryOf_eq h₄, memoryOf_eq h₇, hs] at hmemory
  by_cases hhalf : ps.count p₃ = 1 ∧ ps.count p₁ + 2 * ps.count p₂ = 4
  · -- The smaller instances take slices 0 to 3; there are no larger ones.
    refine ⟨_, h.grouped_perm ((List.Perm.swap p₁ p₂ [p₃, p₄, p₇]).trans hup), ?_⟩
    refine packs_grouped_cons h₂ ?_ <| packs_grouped_cons h₁ ?_ <| packs_grouped_cons h₃ ?_ <|
      packs_grouped_cons h₄ ?_ <| packs_grouped_cons h₇ ?_ trivial
    all_goals
      intro i hi
      simp only [List.mem_cons, List.not_mem_nil, or_false]
      omega
  · refine ⟨_, h.grouped_perm ((List.reverse_perm [p₁, p₂, p₃, p₄, p₇]).trans hup), ?_⟩
    refine packs_grouped_cons h₇ ?_ <| packs_grouped_cons h₄ ?_ <| packs_grouped_cons h₃ ?_ <|
      packs_grouped_cons h₂ ?_ <| packs_grouped_cons h₁ ?_ trivial
    all_goals
      intro i hi
      simp only [List.mem_cons, List.not_mem_nil, or_false]
      omega

/-- Four slices of either kind. -/
theorem exists_packing_four (hm : m.offers = [⟨p₁, 1, 1, 4, [0, 1, 2, 3]⟩, ⟨p₂, 2, 2, 2, [0, 2]⟩,
      ⟨p₄, 4, 4, 1, [0]⟩]) (hs : m.memorySlices = 4) (h : m.Fits ps) :
    ∃ order, order.Perm ps ∧ m.Packs 0 order := by
  have ho : ∀ o ∈ m.offers, m.offer? o.profile = some o := offer?_of_mem
  simp only [hm, List.forall_mem_cons] at ho
  obtain ⟨h₁, h₂, h₄, -⟩ := ho
  have hup : [p₁, p₂, p₄].Perm (m.offers.map (·.profile)) := by rw [hm]; rfl
  obtain ⟨-, hmemory⟩ := h.sums_le hup
  simp only [List.map_cons, List.map_nil, List.sum_cons, List.sum_nil, memoryOf_eq h₁,
    memoryOf_eq h₂, memoryOf_eq h₄, hs] at hmemory
  refine ⟨_, h.grouped_perm ((List.reverse_perm [p₁, p₂, p₄]).trans hup), ?_⟩
  refine packs_grouped_cons h₄ ?_ <| packs_grouped_cons h₂ ?_ <| packs_grouped_cons h₁ ?_ trivial
  all_goals
    intro i hi
    simp only [List.mem_cons, List.not_mem_nil, or_false]
    omega

end

/-- What fits can be packed, in some order. -/
theorem exists_packing (m : Model) {ps : List Profile} (h : m.Fits ps) :
    ∃ order, order.Perm ps ∧ m.Packs 0 order := by
  cases m with
  | a100With40 => exact exists_packing_seven rfl rfl rfl h
  | a100With80 => exact exists_packing_seven rfl rfl rfl h
  | h100With80 => exact exists_packing_seven rfl rfl rfl h
  | a30With24 => exact exists_packing_four rfl rfl h

end GpuPartition.Model
