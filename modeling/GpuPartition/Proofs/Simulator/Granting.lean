/-
When a simulated GPU creates an instance, which one, and with which error it refuses.

`place_eq_ok` says it in the terms of the search for a place. Here it is said in terms of what
lives. In a safe state a start is free when no live instance has a slice in common with a
placement there (`isFree_iff_apart`), and as an offer lists its starts from the left, first fit
takes the least such start (`firstFit_eq_some_iff`). A refusal names the first condition that is
not met (`Unmet`), and so there is always exactly one outcome (`create_exact`).
-/
import GpuPartition.Proofs.Simulator.Safety
import GpuPartition.Simulator.Rules

namespace GpuPartition.Simulator

variable {s : Simulator} {p : Profile} {o : Offer} {placement : Placement} {fault : DeviceFault}

/-! ## Conditions -/

/-- The mode is on, the model offers `p` on the terms `o`, and one more of it keeps to its limit and
to the compute slices. -/
structure Room (s : Simulator) (p : Profile) (o : Offer) : Prop where
  on : s.enabled = true
  offer : s.model.offer? p = some o
  limit : s.live.countP (·.profile = p) < o.limit
  compute : s.computeUsed + o.compute ≤ s.model.computeSlices

/-- No rule refuses an instance of `p`. -/
def Unopposed (s : Simulator) (p : Profile) : Prop := ∀ rule ∈ s.rules, rule s.live p = none

/-- An instance may start here, and would have no slice in common with any that lives. -/
structure Open (s : Simulator) (o : Offer) (start : Nat) : Prop where
  listed : start ∈ o.starts
  apart : ∀ i ∈ s.live, i.placement.Apart ⟨start, o.memory⟩

/-- An instance of `p` is to be created at `start`. -/
structure Creatable (s : Simulator) (p : Profile) (o : Offer) (start : Nat) : Prop where
  room : s.Room p o
  unopposed : s.Unopposed p
  isOpen : s.Open o start
  least : ∀ start', s.Open o start' → start ≤ start'

/-- The first condition for an instance of `p` that is not met, as the fault that tells of it. The
conditions come in the order of the constructors. -/
inductive Unmet (s : Simulator) (p : Profile) : DeviceFault → Prop
  | modeOff (off : s.enabled = false) : Unmet s p .modeOff
  | unsupported (on : s.enabled = true) (offer : s.model.offer? p = none) :
    Unmet s p (.unsupported p)
  | limit {o : Offer} (on : s.enabled = true) (offer : s.model.offer? p = some o)
    (limit : o.limit ≤ s.live.countP (·.profile = p)) :
    Unmet s p (.insufficient p (.limit o.limit))
  | compute {o : Offer} (on : s.enabled = true) (offer : s.model.offer? p = some o)
    (limit : s.live.countP (·.profile = p) < o.limit)
    (compute : s.model.computeSlices < s.computeUsed + o.compute) :
    Unmet s p (.insufficient p .compute)
  /-- Of several rules that refuse, the reason is that of the first. -/
  | rejected {o : Offer} {before after : List CreateRule} {rule : CreateRule} {reason : String}
    (room : s.Room p o) (rules : s.rules = before ++ rule :: after)
    (passed : ∀ rule' ∈ before, rule' s.live p = none) (refused : rule s.live p = some reason) :
    Unmet s p (.rejected p reason)
  | placement {o : Offer} (room : s.Room p o) (unopposed : s.Unopposed p)
    (taken : ∀ start ∈ o.starts, ∃ i ∈ s.live, ¬ i.placement.Apart ⟨start, o.memory⟩) :
    Unmet s p (.insufficient p .placement)

/-! ## Rules -/

theorem refusal_eq_none_iff : s.refusal p = none ↔ s.Unopposed p := List.findSome?_eq_none_iff

theorem refusal_eq_some_iff {reason : String} : s.refusal p = some reason ↔
    ∃ before rule after, s.rules = before ++ rule :: after ∧ rule s.live p = some reason ∧
      ∀ rule' ∈ before, rule' s.live p = none :=
  List.findSome?_eq_some_iff

/-! ## Places -/

theorem isFree_iff_open (h : s.Safe) (ho : s.model.offer? p = some o) {start : Nat}
    (hstart : start ∈ o.starts) : s.isFree ⟨start, o.memory⟩ = true ↔ s.Open o start := by
  rw [isFree_iff_apart h (Model.memory_pos ho)]
  exact ⟨fun hapart => ⟨hstart, hapart⟩, Open.apart⟩

/-- First fit takes the least start that is open. -/
theorem firstFit_eq_some_iff (h : s.Safe) (ho : s.model.offer? p = some o) :
    s.firstFit o = some placement ↔ ∃ start, placement = ⟨start, o.memory⟩ ∧ s.Open o start ∧
      ∀ start', s.Open o start' → start ≤ start' := by
  have hleast : ∀ {placement}, s.firstFit o = some placement → ∃ start,
      placement = ⟨start, o.memory⟩ ∧ s.Open o start ∧ ∀ start', s.Open o start' → start ≤ start' := by
    intro placement hfit
    obtain ⟨before, start, after, hstarts, rfl, hfree, hbefore⟩ := firstFit_eq_some.1 hfit
    have hlisted : start ∈ o.starts := by simp [hstarts]
    refine ⟨start, rfl, (isFree_iff_open h ho hlisted).1 hfree, fun start' hopen => ?_⟩
    -- What is listed before has been passed over, and the rest is listed in ascending order.
    have hmem := hopen.listed
    have hascending := Model.starts_ascending ho
    rw [hstarts] at hmem hascending
    rcases List.mem_append.1 hmem with hmem | hmem
    · have hfree' := (isFree_iff_open h ho hopen.listed).2 hopen
      cases hfree'.symm.trans (hbefore start' hmem)
    · rcases List.mem_cons.1 hmem with rfl | hmem
      · exact le_rfl
      · exact (List.rel_of_pairwise_cons (List.pairwise_append.1 hascending).2.1 hmem).le
  refine ⟨hleast, ?_⟩
  rintro ⟨start, rfl, hopen, hmin⟩
  obtain ⟨placement, hfit⟩ :=
    exists_firstFit hopen.listed ((isFree_iff_open h ho hopen.listed).2 hopen)
  obtain ⟨start', rfl, hopen', hmin'⟩ := hleast hfit
  rwa [le_antisymm (hmin start' hopen') (hmin' start hopen)]

theorem firstFit_eq_none_iff (h : s.Safe) (ho : s.model.offer? p = some o) :
    s.firstFit o = none ↔
      ∀ start ∈ o.starts, ∃ i ∈ s.live, ¬ i.placement.Apart ⟨start, o.memory⟩ := by
  rw [firstFit, List.find?_eq_none, List.forall_mem_map]
  refine forall₂_congr fun start hstart => ?_
  rw [isFree_iff_apart h (Model.memory_pos ho)]
  simp only [not_forall, exists_prop]

theorem exists_least_open (h : s.Safe) (ho : s.model.offer? p = some o) {start : Nat}
    (hopen : s.Open o start) :
    ∃ least, s.Open o least ∧ ∀ start', s.Open o start' → least ≤ start' := by
  obtain ⟨placement, hfit⟩ :=
    exists_firstFit hopen.listed ((isFree_iff_open h ho hopen.listed).2 hopen)
  obtain ⟨least, -, hleast⟩ := (firstFit_eq_some_iff h ho).1 hfit
  exact ⟨least, hleast⟩

/-! ## Outcomes -/

theorem place_eq_ok_iff (h : s.Safe) : s.place p = .ok placement ↔
    ∃ o start, s.Creatable p o start ∧ placement = ⟨start, o.memory⟩ := by
  rw [place_eq_ok]
  constructor
  · rintro ⟨o, hgrants⟩
    obtain ⟨start, rfl, hopen, hmin⟩ := (firstFit_eq_some_iff h hgrants.offer).1 hgrants.fit
    exact ⟨o, start, ⟨⟨hgrants.on, hgrants.offer, hgrants.limit, hgrants.compute⟩,
      refusal_eq_none_iff.1 hgrants.accepted, hopen, hmin⟩, rfl⟩
  · rintro ⟨o, start, ⟨⟨hon, ho, hlimit, hcompute⟩, hunopposed, hopen, hmin⟩, rfl⟩
    exact ⟨o, hon, ho, hlimit, hcompute, refusal_eq_none_iff.2 hunopposed,
      (firstFit_eq_some_iff h ho).2 ⟨start, rfl, hopen, hmin⟩⟩

/-- With room for the profile, only the rules and the places are left to be looked at. -/
theorem Room.place_eq (hroom : s.Room p o) : s.place p =
    match s.refusal p with
    | some reason => .error (.rejected p reason)
    | none =>
      match s.firstFit o with
      | none => .error (.insufficient p .placement)
      | some placement => .ok placement := by
  rw [place, hroom.on, hroom.offer]
  exact (if_neg (not_le.2 hroom.limit)).trans (if_neg (not_lt.2 hroom.compute))

theorem Unmet.place_eq (h : s.Safe) (hunmet : s.Unmet p fault) : s.place p = .error fault := by
  cases hunmet with
  | modeOff hoff => rw [place, hoff]; rfl
  | unsupported hon ho => rw [place, hon, ho]; rfl
  | limit hon ho hlimit => rw [place, hon, ho]; simp only [if_pos hlimit]; rfl
  | compute hon ho hlimit hcompute =>
    rw [place, hon, ho]
    simp only [if_neg (not_le.2 hlimit), if_pos hcompute]
    rfl
  | rejected hroom hrules hpassed hrefused =>
    rw [hroom.place_eq, refusal_eq_some_iff.2 ⟨_, _, _, hrules, hrefused, hpassed⟩]
  | placement hroom hunopposed htaken =>
    rw [hroom.place_eq, refusal_eq_none_iff.2 hunopposed,
      (firstFit_eq_none_iff h hroom.offer).2 htaken]

/-- Some condition is not met, or there is a place. -/
theorem unmet_or_creatable (h : s.Safe) (p : Profile) :
    (∃ fault, s.Unmet p fault) ∨ ∃ o start, s.Creatable p o start := by
  cases hon : s.enabled with
  | false => exact .inl ⟨_, .modeOff hon⟩
  | true =>
  cases ho : s.model.offer? p with
  | none => exact .inl ⟨_, .unsupported hon ho⟩
  | some o =>
  rcases Nat.lt_or_ge (s.live.countP (·.profile = p)) o.limit with hlimit | hlimit
  case inr => exact .inl ⟨_, .limit hon ho hlimit⟩
  rcases Nat.lt_or_ge s.model.computeSlices (s.computeUsed + o.compute) with hcompute | hcompute
  case inl => exact .inl ⟨_, .compute hon ho hlimit hcompute⟩
  have hroom : s.Room p o := ⟨hon, ho, hlimit, hcompute⟩
  cases hrefusal : s.refusal p with
  | some reason =>
    obtain ⟨before, rule, after, hrules, hrefused, hpassed⟩ := refusal_eq_some_iff.1 hrefusal
    exact .inl ⟨_, .rejected hroom hrules hpassed hrefused⟩
  | none =>
  have hunopposed := refusal_eq_none_iff.1 hrefusal
  cases hfit : s.firstFit o with
  | none => exact .inl ⟨_, .placement hroom hunopposed ((firstFit_eq_none_iff h ho).1 hfit)⟩
  | some placement =>
    obtain ⟨start, -, hopen, hmin⟩ := (firstFit_eq_some_iff h ho).1 hfit
    exact .inr ⟨o, start, hroom, hunopposed, hopen, hmin⟩

theorem place_eq_error (h : s.Safe) : s.place p = .error fault ↔ s.Unmet p fault := by
  refine ⟨fun herror => ?_, Unmet.place_eq h⟩
  rcases unmet_or_creatable h p with ⟨fault', hunmet⟩ | ⟨o, start, hcreatable⟩
  · obtain rfl := Except.error.inj (herror.symm.trans (hunmet.place_eq h))
    exact hunmet
  · cases herror.symm.trans ((place_eq_ok_iff h).2 ⟨o, start, hcreatable, rfl⟩)

/-- **Creation, exactly.** In every state that can come about, an instance of `p` is created when
there is room for it, no rule refuses it and some start is open. It is then put last, under the
next number, which is above all that live, and at the least open start. Otherwise the first
condition that is not met is the error. Nothing else changes, but that the creation is counted. -/
theorem create_exact (h : s.Reachable) (p : Profile) :
    ((∃ id s', create p s = .ok id s') ↔
      ∃ o, s.Room p o ∧ s.Unopposed p ∧ ∃ start, s.Open o start) ∧
    (∀ id s', create p s = .ok id s' ↔ ∃ o start, s.Creatable p o start ∧ id = s.nextId ∧
      s' = { s with
        calls.create := s.calls.create + 1
        live := s.live ++ [⟨s.nextId, p, ⟨start, o.memory⟩⟩]
        nextId := s.nextId + 1 }) ∧
    (∀ e s', create p s = .error e s' ↔ ∃ fault, s.Unmet p fault ∧ e = s.fails fault ∧
      s' = { s with calls.create := s.calls.create + 1 }) ∧
    ∀ i ∈ s.live, i.id < s.nextId := by
  have hok : ∀ id s', create p s = .ok id s' ↔ ∃ o start, s.Creatable p o start ∧
      id = s.nextId ∧ s' = { s with
        calls.create := s.calls.create + 1
        live := s.live ++ [⟨s.nextId, p, ⟨start, o.memory⟩⟩]
        nextId := s.nextId + 1 } := fun id s' => by
    rw [create_eq_ok]
    constructor
    · rintro ⟨placement, hplace, rfl, rfl⟩
      obtain ⟨o, start, hcreatable, rfl⟩ := (place_eq_ok_iff h.safe).1 hplace
      exact ⟨o, start, hcreatable, rfl, rfl⟩
    · rintro ⟨o, start, hcreatable, rfl, rfl⟩
      exact ⟨_, (place_eq_ok_iff h.safe).2 ⟨o, start, hcreatable, rfl⟩, rfl, rfl⟩
  refine ⟨?_, hok, fun e s' => ?_, h.sound.valid⟩
  · constructor
    · rintro ⟨id, s', hcreate⟩
      obtain ⟨o, start, hcreatable, -⟩ := (hok id s').1 hcreate
      exact ⟨o, hcreatable.room, hcreatable.unopposed, start, hcreatable.isOpen⟩
    · rintro ⟨o, hroom, hunopposed, start, hopen⟩
      obtain ⟨least, hleast, hmin⟩ := exists_least_open h.safe hroom.offer hopen
      exact ⟨_, _, (hok _ _).2 ⟨o, least, ⟨hroom, hunopposed, hleast, hmin⟩, rfl, rfl⟩⟩
  · rw [create_eq_error]
    exact exists_congr fun fault => and_congr_left fun _ => place_eq_error h.safe

/-- A device with a gap before its only instance, under a rule and a plan that lets no other call go
well: a 1g goes into the gap, a 3g is refused by the rule, and a 4g finds no place. -/
theorem create_exact_a100 :
    let destroyed := (Action.destroy 0).run ((Action.create ⟨2, 10⟩).run
      ((Action.create ⟨1, 5⟩).run (Action.enable.run (.new 0 .a100With40))))
    let s := (Action.setFaults ⟨true, some 0, true⟩).run
      ((Action.addRule (.always ⟨3, 20⟩ "reserved")).run destroyed)
    s.Reachable ∧ s.live = [⟨1, ⟨2, 10⟩, ⟨2, 2⟩⟩] ∧
      (∃ o start, s.Creatable ⟨1, 5⟩ o start ∧ Placement.mk start o.memory = ⟨0, 1⟩) ∧
      s.Unmet ⟨3, 20⟩ (.rejected ⟨3, 20⟩ "reserved") ∧
      s.Unmet ⟨4, 20⟩ (.insufficient ⟨4, 20⟩ .placement) := by
  intro destroyed s
  have hs : s.Reachable :=
    .run _ (.run _ (.run _ (.run _ (.run _ (.run _ (.new 0 .a100With40))))))
  have herror : ∀ {p fault s'}, create p s = .error (s.fails fault) s' → s.Unmet p fault := by
    intro p fault s' hcreate
    obtain ⟨fault', hunmet, hfails, -⟩ := ((create_exact hs p).2.2.1 _ _).1 hcreate
    rwa [(DeviceError.mk.inj hfails).2]
  refine ⟨hs, by rfl, ?_, herror rfl, herror rfl⟩
  obtain ⟨o, start, hcreatable, -, hs'⟩ := ((create_exact hs ⟨1, 5⟩).2.1 2 _).1 rfl
  have hlive := congrArg (fun s' => s'.live.map (·.placement)) hs'
  exact ⟨o, start, hcreatable, (List.cons.inj (List.cons.inj hlive).2).1.symm⟩

end GpuPartition.Simulator
