/-
Creating instances one by one, in a given order, up to the first creation that fails. An
attempt of the manager does the same, and then rolls back the numbers handed out, latest first
(`createOnto_attempted`).

In an order that packs, every instance is put where the one before stopped: all that lives
covers the slices below some `u` and none above (`Filled`), so the first start that is free
is `u`, and nothing fails (`Filled.creates`).
-/
import GpuPartition.Proofs.Manager.Steps
import GpuPartition.Proofs.Packing
import GpuPartition.Proofs.Simulator.Lawful
import GpuPartition.Proofs.Simulator.Placing

namespace GpuPartition.Simulator

variable {s s' s₁ s₂ : Simulator} {p : Profile} {o : Offer} {order : List Profile} {u : Nat}
  {e : DeviceError}

/-! ## Creating one after the other -/

/-- Creates instances one by one, up to the first creation that fails. -/
def createEach : List Profile → DeviceM Simulator Unit
  | [] => pure ()
  | p :: ps => do
    let _ ← create p
    createEach ps

theorem createEach_cons (p : Profile) (ps : List Profile) (s : Simulator) :
    createEach (p :: ps) s = match create p s with
      | .ok _ s' => createEach ps s'
      | .error e s' => .error e s' := by
  cases h : create p s with
  | ok id s' => exact bind_of_ok h _
  | error e s' => exact bind_of_error h _

/-- The instances can be created in this order. -/
def Creates (s : Simulator) (order : List Profile) : Prop := ∃ u s', createEach order s = .ok u s'

theorem creates_nil (s : Simulator) : s.Creates [] := ⟨(), s, rfl⟩

theorem not_creates_of_error {e : DeviceError} (h : createEach order s = .error e s') :
    ¬ s.Creates order := by
  rintro ⟨u, s'', hok⟩
  cases h.symm.trans hok

theorem Creates.cons {id : Nat} (hcreate : create p s = .ok id s') (h : s'.Creates order) :
    s.Creates (p :: order) := by
  obtain ⟨u, s'', hok⟩ := h
  exact ⟨u, s'', by rw [createEach_cons, hcreate]; exact hok⟩

/-! ## Attempts -/

theorem device_create (p : Profile) : (Device.create p : DeviceM Simulator Nat) = create p := rfl

/-- What the end of its rollback makes of an attempt. -/
def undone (e : DeviceError) :
    EStateM.Result DeviceError Simulator Unit → Verdict DeviceError × Simulator
  | .ok () s => (.retry e, s)
  | .error e' s => (.fatal e', s)

/-- An attempt on top of what is created already: everything is created, or the first creation that
fails is followed by a rollback, latest first. -/
inductive Attempted (s : Simulator) (order : List Profile) (created : List Nat) :
    Verdict DeviceError × Simulator → Prop
  | accepted {s' : Simulator} (all : createEach order s = .ok () s') :
    Attempted s order created (.accepted, s')
  | undone {before : List Profile} {p : Profile} {after : List Profile} {s₁ s₂ : Simulator}
    {e : DeviceError} (split : order = before ++ p :: after)
    (before_ok : createEach before s = .ok () s₁) (fails : create p s₁ = .error e s₂) :
    Attempted s order created (undone e
      (Manager.rollback ((List.range' s.nextId before.length).reverse ++ created) s₂))

theorem createOnto_of_error (h : create p s = .error e s') (created : List Nat)
    (order : List Profile) :
    Manager.createOnto created (p :: order) s = undone e (Manager.rollback created s') := by
  rw [Manager.createOnto_cons, device_create, h]
  dsimp only
  cases Manager.rollback created s' <;> rfl

theorem createOnto_attempted (order : List Profile) (created : List Nat) (s : Simulator) :
    Attempted s order created (Manager.createOnto created order s) := by
  induction order generalizing created s with
  | nil => exact .accepted rfl
  | cons p order ih =>
    cases hcreate : create p s with
    | error e s₁ =>
      rw [createOnto_of_error hcreate]
      exact .undone (List.nil_append _).symm rfl hcreate
    | ok id s₁ =>
      have hout := ih (id :: created) s₁
      rw [Manager.createOnto_cons, device_create, hcreate]
      dsimp only
      generalize Manager.createOnto (id :: created) order s₁ = r at hout
      cases hout with
      | accepted all => exact .accepted (by rw [createEach_cons, hcreate]; exact all)
      | @undone before q after s₂ s₃ e split before_ok fails =>
        obtain ⟨placement, -, rfl, hs₁⟩ := create_eq_ok.1 hcreate
        have hids : (List.range' s₁.nextId before.length).reverse ++ s.nextId :: created =
            (List.range' s.nextId (p :: before).length).reverse ++ created := by
          rw [hs₁, List.length_cons, List.range'_succ, List.reverse_cons, List.append_assoc]
          rfl
        rw [hids]
        refine .undone (congrArg (p :: ·) split) ?_ fails
        rw [createEach_cons, hcreate]
        exact before_ok

theorem createEach_of_error {before : List Profile} (before_ok : createEach before s = .ok () s₁)
    (fails : create p s₁ = .error e s₂) (rest : List Profile) :
    createEach (before ++ p :: rest) s = .error e s₂ := by
  induction before generalizing s with
  | nil =>
    obtain ⟨-, rfl⟩ := EStateM.Result.ok.inj before_ok
    rw [List.nil_append, createEach_cons, fails]
  | cons q before ih =>
    obtain ⟨id, s', hcreate, hrest⟩ := bind_eq_ok.1 before_ok
    rw [List.cons_append, createEach_cons, hcreate]
    exact ih hrest

/-- An attempt is accepted with what creating the instances leaves; when they cannot be created, it
is to be retried with the error met, or breaks off in the rollback. -/
theorem createOnto_of_createEach (order : List Profile) (created : List Nat) (s : Simulator) :
    match createEach order s with
    | .ok _ s' => Manager.createOnto created order s = (.accepted, s')
    | .error e _ => (∃ s', Manager.createOnto created order s = (.retry e, s')) ∨
        ∃ e' s', Manager.createOnto created order s = (.fatal e', s') := by
  have hout := createOnto_attempted order created s
  generalize Manager.createOnto created order s = r at hout
  cases hout with
  | accepted all => rw [all]
  | @undone before p after s₁ s₂ e split before_ok fails =>
    rw [split, createEach_of_error before_ok fails]
    dsimp only
    cases Manager.rollback ((List.range' s.nextId before.length).reverse ++ created) s₂ with
    | ok u s' => exact .inl ⟨s', rfl⟩
    | error e' s' => exact .inr ⟨e', s', rfl⟩

theorem Creates.accepted (h : s.Creates order) : (Manager.createInOrder order s).1 = .accepted := by
  obtain ⟨u, s', hok⟩ := h
  have hattempt := createOnto_of_createEach order [] s
  rw [hok] at hattempt
  exact congrArg Prod.fst hattempt

/-! ## Orders that pack -/

/-- What lives covers the slices below `u`, and no others. -/
structure Filled (s : Simulator) (u : Nat) : Prop where
  stop_le : ∀ i ∈ s.live, i.placement.stop ≤ u
  covered : ∀ slice < u, ∃ i ∈ s.live, i.placement.Covers slice

theorem filled_of_live_nil (h : s.live = []) : s.Filled 0 :=
  ⟨by simp [h], fun slice hslice => absurd hslice (Nat.not_lt_zero slice)⟩

theorem Filled.firstFit (h : s.Filled u) (hu : u ∈ o.starts) (hsize : 0 < o.memory)
    (hasc : o.starts.Pairwise (· < ·)) : s.firstFit o = some ⟨u, o.memory⟩ := by
  obtain ⟨before, after, hstarts⟩ := List.append_of_mem hu
  rw [hstarts, List.pairwise_append] at hasc
  refine firstFit_eq_some.2 ⟨before, u, after, hstarts, rfl, isFree_iff.2 fun i hi => ?_,
    fun start hstart => ?_⟩
  · rw [← Bool.not_eq_true, Placement.overlaps_eq_true]
    exact fun hoverlap => absurd (h.stop_le i hi) (not_le.2 hoverlap.2)
  · obtain ⟨i, hi, hle, hlt⟩ := h.covered start (hasc.2.2 start hstart u List.mem_cons_self)
    have hoverlap : i.placement.overlaps ⟨start, o.memory⟩ = true :=
      Placement.overlaps_eq_true.2 ⟨hle.trans_lt (Nat.lt_add_of_pos_right hsize), hlt⟩
    rw [← Bool.not_eq_true, isFree_iff]
    exact fun hfree => Bool.noConfusion (hoverlap.symm.trans (hfree i hi))

/-- The next profile of a list that fits goes to slice `u`. -/
theorem Filled.place (h : s.Filled u) (hon : s.enabled = true) (hrules : s.rules = [])
    (ho : s.model.offer? p = some o) (hu : u ∈ o.starts) {rest : List Profile}
    (hfits : s.model.Fits (s.live.map (·.profile) ++ p :: rest)) :
    s.place p = .ok ⟨u, o.memory⟩ := by
  have hlimit : s.live.countP (·.profile = p) < o.limit := by
    obtain ⟨o', ho', hle⟩ := hfits.offered p (by simp)
    obtain rfl : o = o' := Option.some.inj (ho.symm.trans ho')
    rw [List.count_append, List.count_cons_self, count_profiles] at hle
    omega
  have hcompute : s.computeUsed + o.compute ≤ s.model.computeSlices := by
    have hle := hfits.compute
    rw [List.map_append, List.sum_append, List.map_cons, List.sum_cons,
      Model.computeOf_eq ho] at hle
    rw [computeUsed_eq fun q hq =>
      (hfits.offered q (List.mem_append_left _ hq)).imp fun _ h => h.1]
    omega
  have hfit := h.firstFit hu (Model.memory_pos ho) (Model.starts_ascending ho)
  exact place_eq_ok.2 ⟨o, hon, ho, hlimit, hcompute, refusal_eq_none hrules p, hfit⟩

theorem Filled.creates (h : s.Filled u) (hon : s.enabled = true) (hrules : s.rules = [])
    (hpacks : s.model.Packs u order)
    (hfits : s.model.Fits (s.live.map (·.profile) ++ order)) : s.Creates order := by
  induction order generalizing s u with
  | nil => exact creates_nil s
  | cons p order ih =>
    obtain ⟨⟨o, ho, hu⟩, hpacks⟩ := hpacks
    have hplace := h.place hon hrules ho hu hfits
    rw [Model.memoryOf_eq ho] at hpacks
    refine .cons (create_eq_ok.2 ⟨_, hplace, rfl, rfl⟩)
      (ih ⟨fun i hi => ?_, fun slice hslice => ?_⟩ hon hrules hpacks (by simpa using hfits))
    · rcases List.mem_append.1 hi with hi | hi
      · exact (h.stop_le i hi).trans (Nat.le_add_right u _)
      · rw [List.mem_singleton.1 hi]
        exact le_refl _
    · by_cases hlt : slice < u
      · obtain ⟨i, hi, hcovers⟩ := h.covered slice hlt
        exact ⟨i, List.mem_append_left _ hi, hcovers⟩
      · exact ⟨_, List.mem_append_right _ (List.mem_singleton_self _), not_lt.1 hlt, hslice⟩

/-- On an empty device without rules, what fits can be created in some order. -/
theorem exists_order_created_of_fits {m : Model} {ps : List Profile} (h : m.Fits ps) :
    ∃ order, order.Perm ps ∧ ∀ s : Simulator, s.model = m → s.enabled = true → s.rules = [] →
      s.live = [] → s.Creates order := by
  obtain ⟨order, hperm, hpacks⟩ := m.exists_packing h
  refine ⟨order, hperm, fun s hmodel hon hrules hlive => ?_⟩
  subst hmodel
  refine (filled_of_live_nil hlive).creates hon hrules hpacks ?_
  rw [hlive]
  exact h.perm hperm.symm

end GpuPartition.Simulator
