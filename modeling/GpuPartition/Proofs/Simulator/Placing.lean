/-
Where a simulated GPU puts a new instance. `place_eq_ok` says all it takes for a creation to
be granted, in the order in which it is looked at; `firstFit_eq_some` and `exists_firstFit`
say which start first fit takes and when there is one.
-/
import GpuPartition.Simulator
import GpuPartition.Proofs.Model
import GpuPartition.Proofs.Placement

namespace GpuPartition.Simulator

variable {m : Model} {s : Simulator} {p : Profile} {o : Offer} {placement : Placement}

/-! ## First fit -/

theorem isFree_iff : s.isFree placement = true ↔
    ∀ i ∈ s.live, i.placement.overlaps placement = false := by
  simp [isFree]

/-- First fit takes the first start that is free. -/
theorem firstFit_eq_some : s.firstFit o = some placement ↔
    ∃ before start after, o.starts = before ++ start :: after ∧ placement = ⟨start, o.memory⟩ ∧
      s.isFree placement = true ∧ ∀ start' ∈ before, s.isFree ⟨start', o.memory⟩ = false := by
  rw [firstFit, List.find?_eq_some_iff_append]
  constructor
  · rintro ⟨hfree, before, after, hstarts, hbefore⟩
    obtain ⟨before, rest, hsplit, rfl, hrest⟩ := List.map_eq_append_iff.1 hstarts
    obtain ⟨start, after, rfl, rfl, -⟩ := List.map_eq_cons_iff.1 hrest
    refine ⟨before, start, after, hsplit, rfl, hfree, fun start' hstart' => ?_⟩
    simpa using hbefore _ (List.mem_map_of_mem hstart')
  · rintro ⟨before, start, after, hstarts, rfl, hfree, hbefore⟩
    refine ⟨hfree, _, _, by rw [hstarts, List.map_append, List.map_cons], fun placement hmem => ?_⟩
    obtain ⟨start', hstart', rfl⟩ := List.mem_map.1 hmem
    simp [hbefore start' hstart']

/-- Where some start is free, first fit finds one. -/
theorem exists_firstFit {start : Nat} (hstart : start ∈ o.starts)
    (hfree : s.isFree ⟨start, o.memory⟩ = true) : ∃ placement, s.firstFit o = some placement :=
  Option.isSome_iff_exists.1 (List.find?_isSome.2 ⟨_, List.mem_map_of_mem hstart, hfree⟩)

/-! ## Granting -/

theorem refusal_eq_none (h : s.rules = []) (p : Profile) : s.refusal p = none := by
  rw [refusal, h]
  rfl

/-- All it takes for an instance of `p`, which `o` offers, to be put at `placement`. -/
structure Grants (s : Simulator) (p : Profile) (o : Offer) (placement : Placement) : Prop where
  on : s.enabled = true
  offer : s.model.offer? p = some o
  limit : s.live.countP (·.profile = p) < o.limit
  compute : s.computeUsed + o.compute ≤ s.model.computeSlices
  accepted : s.refusal p = none
  fit : s.firstFit o = some placement

theorem place_eq_ok : s.place p = .ok placement ↔ ∃ o, s.Grants p o placement := by
  constructor
  · intro h
    rw [place] at h
    split at h
    · cases h
    next hon =>
    split at h
    · cases h
    next o ho =>
    split at h
    · cases h
    next hlimit =>
    split at h
    · cases h
    next hcompute =>
    split at h
    · cases h
    next hrefusal =>
    split at h
    · cases h
    next placement' hfit =>
    obtain rfl := Except.ok.inj h
    exact ⟨o, by simpa using hon, ho, not_le.1 hlimit, not_lt.1 hcompute, hrefusal, hfit⟩
  · rintro ⟨o, hon, ho, hlimit, hcompute, hrefusal, hfit⟩
    rw [place, hon, ho]
    simp only [if_neg (not_le.2 hlimit), if_neg (not_lt.2 hcompute), hrefusal, hfit]
    rfl

/-! ## Slices in use -/

theorem computeUsed_eq_sum (s : Simulator) :
    s.computeUsed = ((s.live.map (·.profile)).map (·.slices.toNat)).sum := by
  rw [computeUsed, ← List.sum_eq_foldr, List.map_map]
  rfl

theorem computeUsed_append {s' : Simulator} {i : Instance} (h : s'.live = s.live ++ [i]) :
    s'.computeUsed = s.computeUsed + i.profile.slices.toNat := by
  rw [computeUsed_eq_sum, computeUsed_eq_sum, h]
  simp

theorem computeUsed_eq (h : ∀ p ∈ s.live.map (·.profile), ∃ o, m.offer? p = some o) :
    s.computeUsed = ((s.live.map (·.profile)).map m.computeOf).sum := by
  rw [computeUsed_eq_sum]
  congr 1
  refine List.map_congr_left fun p hp => ?_
  obtain ⟨o, ho⟩ := h p hp
  rw [Model.computeOf_eq ho, Model.compute_eq_slices ho]

/-- The instances of a profile, counted among the profiles of what lives. -/
theorem count_profiles (live : List Instance) (p : Profile) :
    (live.map (·.profile)).count p = live.countP (·.profile = p) := by
  rw [List.count, List.countP_map]
  exact List.countP_congr fun i _ => by simp

theorem countP_append (live : List Instance) (i : Instance) (p : Profile) :
    (live ++ [i]).countP (·.profile = p) =
      live.countP (·.profile = p) + if i.profile = p then 1 else 0 := by
  rw [List.countP_append, List.countP_singleton]
  simp

end GpuPartition.Simulator
