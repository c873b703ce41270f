/-
Simulated GPUs that differ in nothing but the numbers of their instances and what they have
counted (`Alike`), under rules that do not look at numbers (`CreateRule.Blind`). They answer a
creation alike and stay alike (`Alike.create`), hence also a list of creations one after the
other (`Alike.createEach`).
-/
import GpuPartition.Simulator.Rules
import GpuPartition.Proofs.Simulator.Creating

namespace GpuPartition

/-- The profile of an instance and where it lies: all but its number. -/
def Instance.spot (i : Instance) : Profile × Placement := (i.profile, i.placement)

/-- The rule does not look at the numbers of what lives. -/
def CreateRule.Blind (rule : CreateRule) : Prop :=
  ∀ live live' : List Instance, live.map Instance.spot = live'.map Instance.spot →
    ∀ p, rule live p = rule live' p

theorem CreateRule.blind_after (profile blocker : Profile) :
    (CreateRule.after profile blocker).Blind := by
  intro live live' h p
  have hany : ∀ l : List Instance, l.any (·.profile = blocker) =
      (l.map Instance.spot).any (·.1 = blocker) := fun l => by
    rw [List.any_map]
    rfl
  rw [CreateRule.after, CreateRule.after, hany, hany, h]

namespace Simulator

variable {s t : Simulator}

/-! ## Devices alike -/

/-- What lies where, in order of creation. -/
def spots (s : Simulator) : List (Profile × Placement) := s.live.map Instance.spot

/-- The devices differ in nothing but the numbers of their instances, what they have counted and
what is to fail, and their rules do not look at numbers. -/
structure Alike (t s : Simulator) : Prop where
  index : s.index = t.index
  model : s.model = t.model
  rules : s.rules = t.rules
  blind : ∀ rule ∈ t.rules, rule.Blind
  enabled : s.enabled = t.enabled
  spots : s.spots = t.spots

theorem isFree_spots (s : Simulator) (placement : Placement) :
    s.isFree placement = s.spots.all fun spot => !spot.2.overlaps placement := by
  rw [isFree, spots, List.all_map]
  rfl

theorem Alike.profiles (h : Alike t s) : s.live.map (·.profile) = t.live.map (·.profile) := by
  have hspots := congrArg (List.map Prod.fst) h.spots
  rwa [Simulator.spots, Simulator.spots, List.map_map, List.map_map] at hspots

theorem Alike.firstFit (h : Alike t s) (o : Offer) : s.firstFit o = t.firstFit o := by
  have hfree : s.isFree = t.isFree := funext fun placement => by
    rw [isFree_spots, isFree_spots, h.spots]
  rw [Simulator.firstFit, Simulator.firstFit, hfree]

theorem Alike.refusal (h : Alike t s) (p : Profile) : s.refusal p = t.refusal p := by
  have hrule : ∀ rule ∈ t.rules, rule s.live p = rule t.live p := fun rule hmem =>
    h.blind rule hmem _ _ h.spots p
  rw [Simulator.refusal, Simulator.refusal, h.rules]
  generalize t.rules = rules at hrule
  induction rules with
  | nil => rfl
  | cons rule rules ih =>
    rw [List.findSome?_cons, List.findSome?_cons, hrule rule List.mem_cons_self,
      ih fun r hr => hrule r (List.mem_cons_of_mem _ hr)]

/-- A new instance would go to the same place, or be refused for the same reason. -/
theorem Alike.place (h : Alike t s) (p : Profile) : s.place p = t.place p := by
  have hcompute : s.computeUsed = t.computeUsed := by
    rw [computeUsed_eq_sum, computeUsed_eq_sum, h.profiles]
  have hcount : s.live.countP (·.profile = p) = t.live.countP (·.profile = p) := by
    rw [← count_profiles, ← count_profiles, h.profiles]
  have hfit : s.firstFit = t.firstFit := funext h.firstFit
  rw [Simulator.place, Simulator.place, h.enabled, h.model, hcompute, hcount, h.refusal, hfit]

/-- The results cannot be told apart: both went well or both failed with the same error, and the
devices left are alike. Values do not count, since they may be numbers of instances. -/
inductive Agree {α : Type} :
    EStateM.Result DeviceError Simulator α → EStateM.Result DeviceError Simulator α → Prop
  | ok {a b : α} {t s} (h : Alike t s) : Agree (.ok a t) (.ok b s)
  | error {e t s} (h : Alike t s) : Agree (.error e t) (.error e s)

theorem Agree.bind {α β : Type} {x y : DeviceM Simulator α} {f g : α → DeviceM Simulator β}
    (hx : Agree (x t) (y s)) (hf : ∀ a b {t' s'}, Alike t' s' → Agree (f a t') (g b s')) :
    Agree ((x >>= f) t) ((y >>= g) s) := by
  generalize hxt : x t = r, hys : y s = r' at hx
  cases hx with
  | ok h =>
    rw [bind_of_ok hxt, bind_of_ok hys]
    exact hf _ _ h
  | error h =>
    rw [bind_of_error hxt, bind_of_error hys]
    exact .error h

theorem Alike.create (h : Alike t s) (p : Profile) : Agree (create p t) (create p s) := by
  have hplace := h.place p
  cases ht : t.place p with
  | ok placement =>
    rw [create_eq_ok.2 ⟨placement, ht, rfl, rfl⟩,
      create_eq_ok.2 ⟨placement, hplace.trans ht, rfl, rfl⟩]
    have hspots : s.live.map Instance.spot = t.live.map Instance.spot := h.spots
    refine .ok ⟨h.index, h.model, h.rules, h.blind, h.enabled, ?_⟩
    simp [Simulator.spots, Instance.spot, hspots]
  | error fault =>
    have hfails : s.fails fault = t.fails fault := by
      rw [fails, fails, identifier, identifier, h.index]
    rw [create_eq_error.2 ⟨fault, ht, rfl, rfl⟩,
      create_eq_error.2 ⟨fault, hplace.trans ht, hfails.symm, rfl⟩]
    exact .error ⟨h.index, h.model, h.rules, h.blind, h.enabled, h.spots⟩

theorem Alike.createEach (h : Alike t s) (ps : List Profile) :
    Agree (createEach ps t) (createEach ps s) := by
  induction ps generalizing t s with
  | nil => exact .ok h
  | cons p ps ih => exact (h.create p).bind fun _ _ _ _ h' => ih h'

end Simulator

end GpuPartition
