/-
What checking a layout comes to (`Model.check_exact`): which layouts are admitted, with what usage,
and which error the others meet. A layout with fewer instances of some profiles is admitted too.

The check can be made in machine words. A profile adds to the slices only after its limit has been
looked at, every profile is listed once, and there are five offers at most; so nothing outgrows 32
bits, however large the counts are (`Model.check?_eq`).
-/
import Mathlib.Algebra.Order.BigOperators.Group.List
import Mathlib.Algebra.Order.Group.Nat
import Mathlib.Data.List.Perm.Subperm
import GpuPartition.Model.Words
import GpuPartition.Proofs.Model
import GpuPartition.Proofs.Reading

namespace GpuPartition

/-! ## Machine words -/

theorem narrow?_eq {n : Nat} (h : n < UInt32.size) : narrow? n = some n := if_pos h

theorem addSlices?_eq {used need count : Nat} (h : used + need * count < UInt32.size) :
    addSlices? used need count = some (used + need * count) := by
  rw [addSlices?, narrow?_eq (Nat.lt_of_add_left_lt h)]
  exact narrow?_eq h

/-- An offer whose instances need little fits into 32 bits once more. -/
theorem Offer.charge?_eq {o : Offer} {used : Usage} {count : Nat} (hcount : count < UInt32.size)
    (hcompute : used.compute + o.compute * count < UInt32.size)
    (hmemory : used.memory + o.memory * count < UInt32.size) : o.charge? used count =
      some ⟨used.compute + o.compute * count, used.memory + o.memory * count⟩ := by
  simp only [charge?, narrow?_eq hcount, addSlices?_eq hcompute, addSlices?_eq hmemory,
    Option.bind_eq_bind, Option.bind_some]
  rfl

namespace Model

variable {m : Model} {p : Profile} {n : Nat} {used : Usage} {l : Layout} {err : AdmissionError}

theorem offers_length_le (m : Model) : m.offers.length ≤ 5 := by
  cases m <;> decide

/-- Within its limit no offer takes more than all slices. -/
theorem offers_limited (m : Model) : ∀ o ∈ m.offers,
    o.limit ≤ 7 ∧ o.compute * o.limit ≤ 8 ∧ o.memory * o.limit ≤ 8 := by
  cases m <;> decide

/-- As many instances as are offered are few and need few slices. -/
theorem need_le {o : Offer} (ho : m.offer? p = some o) (hn : n ≤ o.limit) :
    n ≤ 7 ∧ o.compute * n ≤ 8 ∧ o.memory * n ≤ 8 := by
  obtain ⟨hseven, hcompute, hmemory⟩ := m.offers_limited o (mem_offers_of_offer? ho).1
  exact ⟨hn.trans hseven, (Nat.mul_le_mul_left o.compute hn).trans hcompute,
    (Nat.mul_le_mul_left o.memory hn).trans hmemory⟩

/-- While there is room for all slices once more, taking keeps to 32 bits. -/
theorem take?_eq (hcompute : used.compute + 8 < UInt32.size)
    (hmemory : used.memory + 8 < UInt32.size) :
    (m.take? used p n).run = some (m.take used p n) := by
  rw [take?, take]
  cases ho : m.offer? p with
  | none => rfl
  | some o =>
    dsimp only
    split
    · rfl
    next hlimit =>
      obtain ⟨hseven, hc, hm⟩ := need_le ho (not_lt.1 hlimit)
      have hsmall : n < UInt32.size := hseven.trans_lt (by decide)
      rw [o.charge?_eq hsmall (by omega) (by omega)]
      rfl

/-- The profiles taken so far are offered, and took no more than all slices each. -/
structure Took (m : Model) (seen : List Profile) (used : Usage) : Prop where
  offered : seen ⊆ m.offers.map (·.profile)
  compute : used.compute ≤ 8 * seen.length
  memory : used.memory ≤ 8 * seen.length

theorem Took.take {seen : List Profile} {used' : Usage} (h : m.Took seen used)
    (htake : m.take used p n = .ok used') : m.Took (seen ++ [p]) used' := by
  obtain ⟨o, ho, hn, rfl⟩ := take_eq_ok_iff.1 htake
  obtain ⟨-, hc, hm⟩ := need_le ho hn
  obtain ⟨hmem, rfl⟩ := mem_offers_of_offer? ho
  have hcompute := h.compute
  have hmemory := h.memory
  refine ⟨?_, ?_, ?_⟩
  · exact List.append_subset.2 ⟨h.offered, by simpa using ⟨o, hmem, rfl⟩⟩
  · rw [List.length_append, List.length_singleton]
    dsimp only
    omega
  · rw [List.length_append, List.length_singleton]
    dsimp only
    omega

theorem foldlM_take?_eq {es : List (Profile × Nat)} {seen : List Profile} (h : m.Took seen used)
    (hdistinct : (seen ++ es.map (·.1)).Nodup) :
    (es.foldlM (fun used e => m.take? used e.1 e.2) used).run =
      some (es.foldlM (fun used e => m.take used e.1 e.2) used) := by
  induction es generalizing seen used with
  | nil => rfl
  | cons e es ih =>
    -- No profile comes twice, so no more have been taken than are offered, and there is room.
    have hfew : seen.length ≤ 5 := by
      have hsub := (List.subperm_of_subset hdistinct.of_append_left h.offered).length_le
      rw [List.length_map] at hsub
      exact hsub.trans m.offers_length_le
    have hcompute := h.compute
    have hmemory := h.memory
    have htake : (m.take? used e.1 e.2).run = some (m.take used e.1 e.2) :=
      take?_eq (by simp only [UInt32.size]; omega) (by simp only [UInt32.size]; omega)
    rw [List.foldlM_cons, List.foldlM_cons, ExceptT.run_bind, htake]
    cases hused : m.take used e.1 e.2 with
    | error err => rfl
    | ok used' =>
      rw [List.map_cons, List.append_cons] at hdistinct
      exact ih (h.take hused) hdistinct

/-- Checked in machine words, no layout leaves them. -/
theorem check?_eq (m : Model) (l : Layout) : (m.check? l).run = some (m.check l) := by
  have hnothing : m.Took [] ⟨0, 0⟩ := ⟨List.nil_subset _, Nat.le_refl _, Nat.le_refl _⟩
  have husage : (m.usage? l.toList).run = some (m.usage l.toList) :=
    foldlM_take?_eq hnothing l.counts.keys_nodup
  rw [check?, check, ExceptT.run_bind, husage]
  cases m.usage l.toList with
  | error err => rfl
  | ok used =>
    change ExceptT.run (if _ then _ else if _ then _ else _) =
      some (if _ then _ else if _ then _ else _)
    split
    · rfl
    · split <;> rfl

/-! ## Admission -/

/-- The model offers so many instances of the profile. -/
def Offers (m : Model) (p : Profile) (n : Nat) : Prop := ∃ o, m.offer? p = some o ∧ n ≤ o.limit

/-- Why the model does not offer so many instances of the profile. -/
inductive Refuses (m : Model) (p : Profile) (n : Nat) : AdmissionError → Prop where
  | unsupported (h : m.offer? p = none) : Refuses m p n (.unsupported m p)
  | overLimit {o : Offer} (ho : m.offer? p = some o) (h : o.limit < n) :
    Refuses m p n (.overLimit m p n o.limit)

/-- The compute slices that the instances of a layout need. -/
def computeNeed (m : Model) (l : Layout) : Nat := (l.toList.map fun e => e.2 * m.computeOf e.1).sum

/-- The memory slices that the instances of a layout need. -/
def memoryNeed (m : Model) (l : Layout) : Nat := (l.toList.map fun e => e.2 * m.memoryOf e.1).sum

/-- The model offers what is in the layout, and has the slices for it. -/
structure Admits (m : Model) (l : Layout) : Prop where
  offered : ∀ p, 0 < l.count p → m.Offers p (l.count p)
  compute : m.computeNeed l ≤ m.computeSlices
  memory : m.memoryNeed l ≤ m.memorySlices

/-- Why the model does not admit the layout: the first profile of which it does not offer so many, or
the compute slices, or the memory slices. Each counts if nothing before it does. -/
inductive Rejects (m : Model) (l : Layout) : AdmissionError → Prop where
  | profile {p : Profile} {err : AdmissionError} (hp : 0 < l.count p)
    (hbefore : ∀ q < p, 0 < l.count q → m.Offers q (l.count q))
    (h : m.Refuses p (l.count p) err) : Rejects m l err
  | compute (hoffered : ∀ p, 0 < l.count p → m.Offers p (l.count p))
    (h : m.computeSlices < m.computeNeed l) :
    Rejects m l (.overCapacity m .compute (m.computeNeed l) m.computeSlices)
  | memory (hoffered : ∀ p, 0 < l.count p → m.Offers p (l.count p))
    (hcompute : m.computeNeed l ≤ m.computeSlices) (h : m.memorySlices < m.memoryNeed l) :
    Rejects m l (.overCapacity m .memory (m.memoryNeed l) m.memorySlices)

theorem take_eq_error_iff : m.take used p n = .error err ↔ m.Refuses p n err := by
  rw [take]
  constructor
  · intro h
    split at h
    next ho =>
      obtain rfl := Except.error.inj h
      exact .unsupported ho
    next o ho =>
      split at h
      next hn =>
        obtain rfl := Except.error.inj h
        exact .overLimit ho hn
      next => cases h
  · rintro (ho | ⟨ho, hn⟩)
    · rw [ho]
    · rw [ho]
      exact if_pos hn

theorem forall_toList_offers_iff : (∀ e ∈ l.toList, m.Offers e.1 e.2) ↔
    ∀ p, 0 < l.count p → m.Offers p (l.count p) := by
  constructor
  · exact fun h p hp => h (p, l.count p) (Layout.mem_toList_iff.2 ⟨hp, rfl⟩)
  · rintro h ⟨p, n⟩ he
    obtain ⟨hp, rfl⟩ := Layout.mem_toList_iff.1 he
    exact h p hp

theorem usage_eq_ok_iff : m.usage l.toList = .ok used ↔
    (∀ p, 0 < l.count p → m.Offers p (l.count p)) ∧
      used = ⟨m.computeNeed l, m.memoryNeed l⟩ := by
  rw [usage, foldlM_take_eq_ok_iff, ← forall_toList_offers_iff, computeNeed, memoryNeed]
  simp only [Nat.zero_add, Nat.mul_comm, Offers]

/-- The usage ends at the first profile of which the model does not offer so many. -/
theorem usage_eq_error_iff : m.usage l.toList = .error err ↔ ∃ p, 0 < l.count p ∧
    (∀ q < p, 0 < l.count q → m.Offers q (l.count q)) ∧ m.Refuses p (l.count p) err := by
  rw [usage, foldlM_eq_error_iff]
  simp only [take_eq_error_iff, foldlM_take_eq_ok_iff]
  constructor
  · rintro ⟨before, ⟨p, n⟩, after, hsplit, used, ⟨hbefore, -⟩, hrefuses⟩
    have hmem : (p, n) ∈ l.toList := by simp [hsplit]
    obtain ⟨hp, rfl⟩ := Layout.mem_toList_iff.1 hmem
    refine ⟨p, hp, fun q hlt hq => hbefore (q, l.count q) ?_, hrefuses⟩
    exact (SortedMap.mem_before_iff hsplit).2 ⟨Layout.mem_toList_iff.2 ⟨hq, rfl⟩, hlt⟩
  · rintro ⟨p, hp, hbefore, hrefuses⟩
    obtain ⟨before, after, hsplit⟩ := List.append_of_mem (Layout.mem_toList_iff.2 ⟨hp, rfl⟩)
    refine ⟨before, _, after, hsplit, _, ⟨fun e he => ?_, rfl⟩, hrefuses⟩
    obtain ⟨hmem, hlt⟩ := (SortedMap.mem_before_iff hsplit).1 he
    obtain ⟨hq, heq⟩ := Layout.mem_toList_iff.1 hmem
    rw [heq] at hq ⊢
    exact hbefore e.1 hlt hq

theorem check_eq_ok_iff_admits : m.check l = .ok used ↔
    m.Admits l ∧ used = ⟨m.computeNeed l, m.memoryNeed l⟩ := by
  rw [check, except_bind_eq_ok]
  simp only [usage_eq_ok_iff]
  constructor
  · rintro ⟨_, ⟨hoffered, rfl⟩, h⟩
    split at h
    · cases h
    next hc =>
    split at h
    · cases h
    next hm =>
    exact ⟨⟨hoffered, not_lt.1 hc, not_lt.1 hm⟩, (Except.ok.inj h).symm⟩
  · rintro ⟨hadmits, rfl⟩
    refine ⟨_, ⟨hadmits.offered, rfl⟩, ?_⟩
    rw [if_neg (not_lt.2 hadmits.compute), if_neg (not_lt.2 hadmits.memory)]

theorem check_eq_error_iff : m.check l = .error err ↔ m.Rejects l err := by
  rw [check, except_bind_eq_error, usage_eq_error_iff]
  simp only [usage_eq_ok_iff]
  constructor
  · rintro (⟨p, hp, hbefore, hrefuses⟩ | ⟨_, ⟨hoffered, rfl⟩, h⟩)
    · exact .profile hp hbefore hrefuses
    split at h
    next hc =>
      obtain rfl := Except.error.inj h
      exact .compute hoffered hc
    next hc =>
    split at h
    next hm =>
      obtain rfl := Except.error.inj h
      exact .memory hoffered (not_lt.1 hc) hm
    next => cases h
  · rintro (⟨hp, hbefore, hrefuses⟩ | ⟨hoffered, hc⟩ | ⟨hoffered, hc, hm⟩)
    · exact .inl ⟨_, hp, hbefore, hrefuses⟩
    · exact .inr ⟨_, ⟨hoffered, rfl⟩, if_pos hc⟩
    · exact .inr ⟨_, ⟨hoffered, rfl⟩, by rw [if_neg (not_lt.2 hc), if_pos hm]⟩

/-! ## Fewer instances -/

/-- Fewer instances need no more. -/
theorem sum_toList_le (f : Profile → Nat) {l' : Layout} (h : ∀ p, l'.count p ≤ l.count p) :
    (l'.toList.map fun e => e.2 * f e.1).sum ≤ (l.toList.map fun e => e.2 * f e.1).sum := by
  have hsub : l'.flatten.Subperm l.flatten := List.subperm_iff_count.2 fun p => by
    rw [Layout.count_flatten, Layout.count_flatten]
    exact h p
  obtain ⟨ps, hperm, hsublist⟩ := hsub
  calc (l'.toList.map fun e => e.2 * f e.1).sum = (l'.flatten.map f).sum := by
        simp only [sum_map_flatten, Nat.mul_comm]
    _ = (ps.map f).sum := (hperm.map f).sum_eq.symm
    _ ≤ (l.flatten.map f).sum := (hsublist.map f).sum_le_sum fun _ _ => Nat.zero_le _
    _ = (l.toList.map fun e => e.2 * f e.1).sum := by
        simp only [sum_map_flatten, Nat.mul_comm]

theorem Admits.of_le (hadmits : m.Admits l) {l' : Layout} (h : ∀ p, l'.count p ≤ l.count p) :
    m.Admits l' where
  offered p hp := by
    obtain ⟨o, ho, hle⟩ := hadmits.offered p (hp.trans_le (h p))
    exact ⟨o, ho, (h p).trans hle⟩
  compute := (sum_toList_le m.computeOf h).trans hadmits.compute
  memory := (sum_toList_le m.memoryOf h).trans hadmits.memory

/-- **The check is exact.** In machine words it comes to what it comes to in whole numbers, so nothing
overflows and no count is cut short. The errors are those that have a reason in the layout, of which
there is one at most; and what is admitted has exactly the usage that its instances need. With a
layout every layout is admitted that counts no profile higher. -/
theorem check_exact (m : Model) (l : Layout) :
    (m.check? l).run = some (m.check l) ∧
    (∀ err, m.check l = .error err ↔ m.Rejects l err) ∧
    (∀ used, m.check l = .ok used ↔
      m.Admits l ∧ used = ⟨m.computeNeed l, m.memoryNeed l⟩) ∧
    ((∃ used, m.check l = .ok used) → ∀ l' : Layout, (∀ p, l'.count p ≤ l.count p) →
      ∃ used, m.check l' = .ok used) := by
  refine ⟨check?_eq m l, fun _ => check_eq_error_iff, fun _ => check_eq_ok_iff_admits, ?_⟩
  rintro ⟨used, hused⟩ l' hle
  obtain ⟨hadmits, -⟩ := check_eq_ok_iff_admits.1 hused
  exact ⟨_, check_eq_ok_iff_admits.2 ⟨hadmits.of_le hle, rfl⟩⟩

/-- All slices of a GPU in use, and fewer of them; and as many instances as a machine word counts. -/
theorem check_exact_a100 :
    let m : Model := .a100With40
    let full : Layout := .ofCounts [(⟨1, 5⟩, 2), (⟨2, 10⟩, 1), (⟨3, 20⟩, 1)]
    let part : Layout := .ofCounts [(⟨1, 5⟩, 1), (⟨3, 20⟩, 1)]
    let large : Layout := .ofCounts [(⟨7, 41⟩, 1), (⟨2, 10⟩, wordMax)]
    m.check full = .ok ⟨7, 8⟩ ∧ (∀ p, part.count p ≤ full.count p) ∧
      (∃ used, m.check part = .ok used) ∧
      (m.check? large).run = some (.error (.overLimit m ⟨2, 10⟩ wordMax 3)) := by
  intro m full part large
  have hfull : m.check full = .ok ⟨7, 8⟩ := by rfl
  have hle : ∀ p, part.count p ≤ full.count p := fun p => by
    simp only [part, full, Layout.count_ofCounts, List.map_cons, List.map_nil, List.sum_cons,
      List.sum_nil]
    split_ifs <;> omega
  have hlarge : m.check large = .error (.overLimit m ⟨2, 10⟩ wordMax 3) := by
    decide +kernel
  exact ⟨hfull, hle, (check_exact m full).2.2.2 ⟨_, hfull⟩ part hle,
    (check_exact m large).1.trans (congrArg some hlarge)⟩

end Model

end GpuPartition
