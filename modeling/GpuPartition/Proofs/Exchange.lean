/-
Seats for new instances beside what is taken, and how to exchange one for another. A plan
names a legal start for each instance; it accommodates them when they lie apart from each
other and from all that is taken (`Model.Accommodates`).

A largest instance of a plan need not keep its seat: if something is taken already, it may
have any other start that is free, and whatever was to lie there moves to the seat it gives
up (`Accommodates.exchange`). On an empty GPU this fails: a 3g instance at slice 0 leaves
four 1g instances nowhere to go, since none may start at slice 7, while at slice 4 it does
not stand in their way.
-/
import GpuPartition.Proofs.Model
import GpuPartition.Proofs.Placement

namespace GpuPartition

namespace Placement

variable {f a p p' q q' t : Placement}

/-- What becomes of a run when everything in `f` moves to `a`, as far from its start as before. -/
inductive Swept (f a : Placement) : Placement → Placement → Prop
  | stays {p : Placement} (apart : f.Apart p) : Swept f a p p
  | goes {p p' : Placement} (covers : ∀ slice, p'.Covers slice →
      a.Covers slice ∧ p.Covers (f.start + (slice - a.start))) : Swept f a p p'

/-- Runs that leave `a` free still lie apart. -/
theorem Swept.apart (hp : Swept f a p p') (hq : Swept f a q q') (hpa : a.Apart p)
    (hqa : a.Apart q) (h : p.Apart q) : p'.Apart q' := by
  intro slice hboth
  cases hp with
  | stays hfp =>
    cases hq with
    | stays hfq => exact h slice hboth
    | goes hcovers => exact hpa slice ⟨(hcovers slice hboth.2).1, hboth.1⟩
  | goes hcovers =>
    cases hq with
    | stays hfq => exact hqa slice ⟨(hcovers slice hboth.1).1, hboth.2⟩
    | goes hcovers' => exact h _ ⟨(hcovers slice hboth.1).2, (hcovers' slice hboth.2).2⟩

theorem Swept.apart_of_apart (hp : Swept f a p p') (hta : t.Apart a) (htp : t.Apart p) :
    t.Apart p' := by
  cases hp with
  | stays hfp => exact htp
  | goes hcovers => exact fun slice hboth => hta slice ⟨hboth.1, (hcovers slice hboth.2).1⟩

theorem Swept.leaves (hp : Swept f a p p') (hfa : f.Apart a) : f.Apart p' := by
  cases hp with
  | stays hfp => exact hfp
  | goes hcovers => exact fun slice hboth => hfa slice ⟨hboth.1, (hcovers slice hboth.2).1⟩

end Placement

namespace Model

variable {m : Model} {p : Profile} {o : Offer} {taken : List Placement} {e : Profile × Nat}
  {plan : List (Profile × Nat)} {f a : Nat}

/-! ## Plans -/

/-- Where an instance of the profile lies if it starts there. -/
def seat (m : Model) (e : Profile × Nat) : Placement := ⟨e.2, m.memoryOf e.1⟩

/-- The profile is offered and may start there. -/
def Legal (m : Model) (e : Profile × Nat) : Prop := ∃ o ∈ m.offer? e.1, e.2 ∈ o.starts

instance (m : Model) (e : Profile × Nat) : Decidable (m.Legal e) :=
  inferInstanceAs (Decidable (∃ o ∈ m.offer? e.1, e.2 ∈ o.starts))

/-- The planned instances may all be added to what is taken. -/
structure Accommodates (m : Model) (taken : List Placement) (plan : List (Profile × Nat)) :
    Prop where
  legal : ∀ e ∈ plan, m.Legal e
  apart : plan.Pairwise fun e e' => (m.seat e).Apart (m.seat e')
  free : ∀ e ∈ plan, ∀ t ∈ taken, t.Apart (m.seat e)

theorem Accommodates.perm {plan' : List (Profile × Nat)} (h : m.Accommodates taken plan)
    (hp : plan.Perm plan') : m.Accommodates taken plan' where
  legal e he := h.legal e (hp.mem_iff.2 he)
  apart := hp.pairwise h.apart fun hapart => hapart.symm
  free e he := h.free e (hp.mem_iff.2 he)

theorem seat_eq (ho : m.offer? e.1 = some o) : m.seat e = ⟨e.2, o.memory⟩ := by
  rw [seat, memoryOf_eq ho]

theorem Accommodates.memory_le (h : m.Accommodates taken plan) :
    ((plan.map (·.1)).map m.memoryOf).sum ≤ m.memorySlices := by
  have hsizes : (plan.map (·.1)).map m.memoryOf = (plan.map m.seat).map Placement.size := by
    rw [List.map_map, List.map_map]
    rfl
  rw [hsizes]
  refine Placement.sum_size_le (fun seat hseat => ?_) (List.pairwise_map.2 h.apart)
  obtain ⟨e, he, rfl⟩ := List.mem_map.1 hseat
  obtain ⟨o, ho, hstart⟩ := h.legal e he
  rw [seat_eq ho]
  exact starts_inside ho hstart

/-! ## Exchange -/

/-- What is no larger than the offer and meets its seat at `f` lies within that seat, and may lie as
far into the one at `a`. -/
def Exchanges (m : Model) (o : Offer) (f a : Nat) : Prop :=
  ∀ q ∈ m.offers, q.memory ≤ o.memory → ∀ b ∈ q.starts, b < f + o.memory → f < b + q.memory →
    f ≤ b ∧ b + q.memory ≤ f + o.memory ∧ a + (b - f) ∈ q.starts

/-- Two seats of one offer in the catalog can be exchanged, unless they cover everything. -/
theorem exchanges_or_covered (m : Model) : ∀ o ∈ m.offers, ∀ f ∈ o.starts, ∀ a ∈ o.starts,
    f ≠ a → m.Exchanges o f a ∨ ∀ slice < m.memorySlices,
      f ≤ slice ∧ slice < f + o.memory ∨ a ≤ slice ∧ slice < a + o.memory := by
  unfold Exchanges
  cases m <;> decide

/-- Moves what starts in the seat at `f` to the one at `a`. -/
def moved (o : Offer) (f a : Nat) (e : Profile × Nat) : Profile × Nat :=
  if f ≤ e.2 ∧ e.2 < f + o.memory then (e.1, a + (e.2 - f)) else e

theorem moved_fst (o : Offer) (f a : Nat) (e : Profile × Nat) : (moved o f a e).1 = e.1 := by
  rw [moved]
  split <;> rfl

theorem Exchanges.moved (h : m.Exchanges o f a) (he : m.Legal e)
    (hle : m.memoryOf e.1 ≤ o.memory) : m.Legal (moved o f a e) ∧
      Placement.Swept ⟨f, o.memory⟩ ⟨a, o.memory⟩ (m.seat e) (m.seat (Model.moved o f a e)) := by
  obtain ⟨q, hq, hb⟩ := he
  rw [memoryOf_eq hq] at hle
  have hpos := memory_pos hq
  have hmeets := h q (mem_offers_of_offer? hq).1 hle e.2 hb
  rw [Model.moved, seat_eq hq]
  split
  next hin =>
    obtain ⟨-, hwithin, hstart⟩ := hmeets hin.2 (hin.1.trans_lt (Nat.lt_add_of_pos_right hpos))
    have hseat : m.seat (e.1, a + (e.2 - f)) = ⟨a + (e.2 - f), q.memory⟩ := seat_eq hq
    refine ⟨⟨q, hq, hstart⟩, hseat ▸ .goes fun slice => ?_⟩
    simp only [Placement.Covers, Placement.stop]
    omega
  next hout =>
    have hstays : f + o.memory ≤ e.2 ∨ e.2 + q.memory ≤ f := by
      by_contra hmeet
      rw [not_or, not_le, not_le] at hmeet
      exact hout ⟨(hmeets hmeet.1 hmeet.2).1, hmeet.1⟩
    rw [seat_eq hq]
    exact ⟨⟨q, hq, hb⟩, .stays ((Placement.apart_iff (hpos.trans_le hle) hpos).2 hstays)⟩

theorem Exchanges.apart (h : m.Exchanges o f a) (ho : m.offer? p = some o) (ha : a ∈ o.starts)
    (hne : f ≠ a) : Placement.Apart ⟨f, o.memory⟩ ⟨a, o.memory⟩ := by
  rw [Placement.apart_iff (memory_pos ho) (memory_pos ho)]
  by_contra hmeet
  rw [not_or, not_le, not_le] at hmeet
  obtain ⟨hle, hwithin, -⟩ := h o (mem_offers_of_offer? ho).1 le_rfl a ha hmeet.1 hmeet.2
  exact hne (hle.antisymm (Nat.le_of_add_le_add_right hwithin))

/-- The first may take the seat that is planned for it. -/
theorem Accommodates.settle (h : m.Accommodates taken (e :: plan)) :
    m.Accommodates (taken ++ [m.seat e]) plan where
  legal e' he' := h.legal e' (List.mem_cons_of_mem _ he')
  apart := h.apart.of_cons
  free e' he' t ht := by
    rcases List.mem_append.1 ht with ht | ht
    · exact h.free e' (List.mem_cons_of_mem _ he') t ht
    · exact List.mem_singleton.1 ht ▸ List.rel_of_pairwise_cons h.apart he'

/-- The first may take another seat if the two can be exchanged. -/
theorem Accommodates.settle_moved (h : m.Accommodates taken ((p, a) :: plan))
    (ho : m.offer? p = some o) (hlargest : ∀ e ∈ plan, m.memoryOf e.1 ≤ o.memory)
    (hex : m.Exchanges o f a) (hleft : Placement.Apart ⟨f, o.memory⟩ ⟨a, o.memory⟩) :
    m.Accommodates (taken ++ [⟨f, o.memory⟩]) (plan.map (moved o f a)) := by
  have hseat : m.seat (p, a) = ⟨a, o.memory⟩ := seat_eq ho
  -- What is left of the plan and what is taken both keep off the seat that is given up.
  have hothers : ∀ e ∈ plan, Placement.Apart ⟨a, o.memory⟩ (m.seat e) := fun e he =>
    hseat ▸ List.rel_of_pairwise_cons h.apart he
  have htaken : ∀ t ∈ taken, t.Apart ⟨a, o.memory⟩ := hseat ▸ h.free (p, a) List.mem_cons_self
  have hmoved := fun e he =>
    hex.moved (h.legal e (List.mem_cons_of_mem _ he)) (hlargest e he)
  constructor
  · exact List.forall_mem_map.2 fun e he => (hmoved e he).1
  · rw [List.pairwise_map]
    refine h.apart.of_cons.imp_of_mem fun he he' hapart => ?_
    exact (hmoved _ he).2.apart (hmoved _ he').2 (hothers _ he) (hothers _ he') hapart
  · refine List.forall_mem_map.2 fun e he t ht => ?_
    rcases List.mem_append.1 ht with ht | ht
    · exact (hmoved e he).2.apart_of_apart (htaken t ht)
        (h.free e (List.mem_cons_of_mem _ he) t ht)
    · exact List.mem_singleton.1 ht ▸ (hmoved e he).2.leaves hleft

/-- **Exchange.** Beside something taken, a largest instance may have any start that is free, and
the others can still be accommodated. -/
theorem Accommodates.exchange (h : m.Accommodates taken ((p, a) :: plan))
    (ho : m.offer? p = some o) (hlargest : ∀ e ∈ plan, m.memoryOf e.1 ≤ o.memory)
    {t : Placement} (ht : t ∈ taken) {slice : Nat} (hslice : t.Covers slice)
    (hbelow : slice < m.memorySlices) (hf : f ∈ o.starts)
    (hfree : ∀ t ∈ taken, t.Apart ⟨f, o.memory⟩) :
    ∃ plan', plan'.map (·.1) = plan.map (·.1) ∧
      m.Accommodates (taken ++ [⟨f, o.memory⟩]) plan' := by
  have hseat : m.seat (p, a) = ⟨a, o.memory⟩ := seat_eq ho
  by_cases hfa : f = a
  · subst hfa
    exact ⟨plan, rfl, hseat ▸ h.settle⟩
  obtain ⟨o', ho', ha⟩ := h.legal (p, a) List.mem_cons_self
  obtain rfl : o = o' := Option.some.inj (ho.symm.trans ho')
  rcases m.exchanges_or_covered o (mem_offers_of_offer? ho).1 f hf a ha hfa with hex | hcovered
  · refine ⟨plan.map (moved o f a), ?_, h.settle_moved ho hlargest hex (hex.apart ho ha hfa)⟩
    rw [List.map_map]
    exact List.map_congr_left fun e _ => moved_fst o f a e
  · -- The slice that is taken belongs to one of the seats, but both are free.
    have hgiven := h.free (p, a) List.mem_cons_self t ht
    rw [hseat] at hgiven
    rcases hcovered slice hbelow with hin | hin
    · exact absurd ⟨hslice, hin⟩ (hfree t ht slice)
    · exact absurd ⟨hslice, hin⟩ (hgiven slice)

end Model

end GpuPartition
