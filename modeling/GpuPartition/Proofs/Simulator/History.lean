/-
What setting a layout comes to on a simulated GPU does not depend on what the device held
before. A cleared device is like a fresh one of the same setup (`Fresh.alike`), and each
attempt that is to be retried leaves it cleared again, so every order is judged as the fresh
device judges it (`createInOrder_judged`) and the search ends as it would there
(`Foretold`). Two results foretold by one fresh device cannot be told apart
(`Foretold.observed_eq`).
-/
import Mathlib.Data.List.Sort
import GpuPartition.Proofs.Simulator.Alike
import GpuPartition.Proofs.Simulator.Setup

namespace GpuPartition.Simulator

open Arrangement

variable {s s' t : Simulator} {target : Layout}

/-! ## Fresh devices -/

/-- Nothing lives on the device, its mode is on, nothing is to fail, and its rules do not look at
numbers. -/
structure Fresh (t : Simulator) : Prop where
  live : t.live = []
  on : t.enabled = true
  faults : t.faults = .none
  blind : ∀ rule ∈ t.rules, rule.Blind

/-- The view in which only devices set up like `t` are valid. -/
abbrev setUpLike (t : Simulator) : View Simulator := view.restrict (·.setup = t.setup)

theorem setUpLike_lawful (t : Simulator) : (setUpLike t).Lawful :=
  view_lawful.restrict (keptByCalls_of_setup fun h hs => h.trans hs)

theorem Fresh.faults_of_setup (ht : t.Fresh) {s : Simulator} (h : s.setup = t.setup) :
    s.faults = .none :=
  (Setup.mk.inj h).2.2.2.trans ht.faults

/-- A cleared device is like a fresh one, but for numbers and counters. -/
theorem Fresh.alike (ht : t.Fresh) (hs : (setUpLike t).Cleared s) : Alike t s := by
  obtain ⟨hindex, hmodel, hrules, -⟩ := Setup.mk.inj hs.valid.2
  have hlive : s.live = [] := hs.live
  exact ⟨hindex, hmodel, hrules, ht.blind, hs.mode.trans ht.on.symm, by
    rw [spots, spots, hlive, ht.live]⟩

/-- What an attempt at the order comes to on a cleared device, as the fresh device `t` tells. -/
inductive Judged (t : Simulator) (order : List Profile) : Verdict DeviceError × Simulator → Prop
  | accepted {u t' s'} (order_ok : createEach order t = .ok u t') (spots : s'.spots = t'.spots) :
    Judged t order (.accepted, s')
  | retry {e t' s'} (order_fail : createEach order t = .error e t') :
    Judged t order (.retry e, s')

theorem createInOrder_judged (ht : t.Fresh) (hs : (setUpLike t).Cleared s)
    (order : List Profile) : Judged t order (Manager.createInOrder order s) := by
  have hagree := (ht.alike hs).createEach order
  have hattempt := createOnto_of_createEach order [] s
  have hout : Manager.AttemptOutcome (setUpLike t) s order (Manager.createOnto [] order s) :=
    Manager.createInOrder_outcome (setUpLike_lawful t) order hs.sound hs.live
  change Judged t order (Manager.createOnto [] order s)
  generalize ht' : createEach order t = r, createEach order s = r' at hagree hattempt
  cases hagree with
  | ok h => exact hattempt ▸ .accepted ht' h.spots
  | error h =>
    rcases hattempt with ⟨s', hretry⟩ | ⟨e', s', hfatal⟩
    · exact hretry ▸ .retry ht'
    · cases hfatal ▸ hout with
      | fatal failed mode part =>
        exact absurd failed (not_destroyFailed_of_faults ht.faults_of_setup (mode.trans hs.mode))

/-! ## Outcomes foretold by a fresh device -/

/-- How setting the layout ends, as the fresh device `t` tells. The distinct orders of the layout
are tried in lexicographic order; an empty layout needs no attempt. -/
inductive Foretold (t : Simulator) (target : Layout) :
    EStateM.Result ManagerError Simulator Report → Prop
  /-- The first order that can be created on `t` is taken, and all lies as it would there. -/
  | created {before order after u t' s'}
    (orders : Enumerates target.flatten (before ++ order :: after))
    (before_fail : ∀ o ∈ before, ¬ t.Creates o)
    (order_ok : createEach order t = .ok u t') (spots : s'.spots = t'.spots) :
    Foretold t target (.ok ⟨t.identifier, true, target,
      if target = .empty then 0 else before.length + 1, order⟩ s')
  /-- No order can be created on `t`, and the error is what the last one meets there. -/
  | exhausted {before last e t' s'}
    (orders : Enumerates target.flatten (before ++ [last]))
    (before_fail : ∀ o ∈ before, ¬ t.Creates o)
    (last_fail : createEach last t = .error e t') (live : s'.live = []) :
    Foretold t target
      (.error (.exhausted t.identifier target target.orderings target.orderings (some e)) s')

theorem createLayout_foretold (ht : t.Fresh) (hs : (setUpLike t).Cleared s)
    (hcount : target.orderings < UInt64.size) :
    Foretold t target (Manager.createLayout target s) := by
  have hname : (Device.identifier s : String) = t.identifier := by
    change s.identifier = t.identifier
    rw [identifier, identifier, (ht.alike hs).index]
  have hfails : ∀ o : List Profile, Manager.createInOrder.Retries (setUpLike t).Cleared o →
      ¬ t.Creates o := by
    rintro o ⟨s₁, e, s₂, hs₁, hretry⟩
    cases hretry ▸ createInOrder_judged ht hs₁ o with
    | retry order_fail => exact not_creates_of_error order_fail
  by_cases hempty : target = .empty
  · have hrun := (searchOrders_eq hcount Manager.createInOrder s).trans (if_pos hempty)
    have horders : Enumerates target.flatten ([] ++ [] :: []) := by
      rw [Layout.flatten_eq_nil_iff.2 hempty]
      exact ⟨List.pairwise_singleton _ _, fun u => by simp⟩
    have hcreated : Foretold t target (.ok ⟨t.identifier, true, target, _, _⟩ s) :=
      .created horders (by simp) rfl (ht.alike hs).spots
    rw [if_pos hempty] at hcreated
    rw [Manager.createLayout, StateT.run, hrun, hname]
    exact hcreated
  have hout := searchOrders_outcome hcount
    (Manager.createInOrder_restores (setUpLike_lawful t)) hs
  rw [Manager.createLayout, hname]
  rcases hrun : (searchOrders target Manager.createInOrder).run s with ⟨result, s'⟩
  cases hrun ▸ hout with
  | empty h hs' => exact absurd h hempty
  | @accepted before order after s₁ _ hall hbefore hs₁ hattempt =>
    cases hattempt ▸ createInOrder_judged ht hs₁ order with
    | accepted order_ok spots =>
      have hcreated := Foretold.created (hall ▸ enumerates_all target.flatten)
        (fun o ho => hfails o (hbefore o ho)) order_ok spots
      rwa [if_neg hempty] at hcreated
  | @aborted before order after s₁ _ e hall hbefore hs₁ hattempt =>
    -- Without faults, no attempt breaks off in its rollback.
    cases hattempt ▸ createInOrder_judged ht hs₁ order
  | @exhausted before last s₁ _ e hall hbefore hs₁ hattempt hs' =>
    cases hattempt ▸ createInOrder_judged ht hs₁ last with
    | retry order_fail =>
      exact .exhausted (hall ▸ enumerates_all target.flatten)
        (fun o ho => hfails o (hbefore o ho)) order_fail hs'.live

theorem setLayout_foretold (ht : t.Fresh) (hs : (setUpLike t).Sound s) (hon : s.enabled = true)
    {used : Usage} (hcheck : t.model.check target = .ok used) :
    Foretold t target (Manager.setLayout target s) := by
  have hmodel : (Device.model s : Model) = t.model := (Setup.mk.inj hs.valid.2).2.1
  have hmode : (Manager.mode : ManagerM Simulator Bool) s = .ok true s := by
    rw [Manager.mode, Manager.calling_eq_ok, ← hon]
    rfl
  have hclear := Manager.clear_outcome (setUpLike_lawful t) hs hon
  rw [Manager.setLayout_eq, hmodel, hcheck]
  simp only [hmode]
  cases h : (Manager.clear : ManagerM Simulator Unit) s with
  | ok u s₁ =>
    rw [h] at hclear
    cases hclear with
    | ok valid live mode =>
      exact createLayout_foretold ht ⟨valid, live, mode.trans hon⟩
        (Model.orderings_lt_of_check hcheck)
  | error e s₁ =>
    rw [h] at hclear
    cases hclear with
    | queryMode failed same => exact absurd failed not_queryFailed_isEnabled
    | list failed same => exact absurd failed (not_listFailed ht.faults_of_setup)
    | destroy failed part mode =>
      exact absurd failed (not_destroyFailed_of_faults ht.faults_of_setup (mode.trans hon))

/-! ## One outcome only -/

/-- A list is split by its first member with a property in one way only. -/
theorem first_unique {α : Type} {C : α → Prop} {before after before' after' : List α} {x x' : α}
    (h : before ++ x :: after = before' ++ x' :: after') (hbefore : ∀ y ∈ before, ¬ C y)
    (hx : C x) (hbefore' : ∀ y ∈ before', ¬ C y) (hx' : C x') : before = before' ∧ x = x' := by
  induction before generalizing before' with
  | nil =>
    cases before' with
    | nil => exact ⟨rfl, (List.cons.inj h).1⟩
    | cons y before' =>
      obtain rfl : x = y := (List.cons.inj h).1
      exact absurd hx (hbefore' x List.mem_cons_self)
  | cons y before ih =>
    cases before' with
    | nil =>
      obtain rfl : y = x' := (List.cons.inj h).1
      exact absurd hx' (hbefore y List.mem_cons_self)
    | cons y' before' =>
      obtain ⟨rfl, htail⟩ := List.cons.inj h
      obtain ⟨rfl, rfl⟩ := ih htail (fun z hz => hbefore z (List.mem_cons_of_mem _ hz))
        fun z hz => hbefore' z (List.mem_cons_of_mem _ hz)
      exact ⟨rfl, rfl⟩

/-- What is to be seen of a result: the value or the error, and what lies where. -/
def observed {ε α : Type} : EStateM.Result ε Simulator α → Except ε α × List (Profile × Placement)
  | .ok a s => (.ok a, s.spots)
  | .error e s => (.error e, s.spots)

variable {r r' : EStateM.Result ManagerError Simulator Report}

theorem Foretold.ok_iff (h : Foretold t target r) :
    (∃ report s', r = .ok report s') ↔ ∃ order, order.Perm target.flatten ∧ t.Creates order := by
  cases h with
  | @created before order after u t' s' orders before_fail order_ok spots =>
    have horder := (orders.mem_iff order).1 (by simp)
    exact ⟨fun _ => ⟨order, horder, u, t', order_ok⟩, fun _ => ⟨_, _, rfl⟩⟩
  | @exhausted before last e t' s' orders before_fail last_fail live =>
    constructor
    · rintro ⟨report, s', h⟩
      cases h
    · rintro ⟨order, horder, hcreates⟩
      rcases List.mem_append.1 ((orders.mem_iff order).2 horder) with hmem | hmem
      · exact absurd hcreates (before_fail order hmem)
      · obtain rfl := List.mem_singleton.1 hmem
        exact absurd hcreates (not_creates_of_error last_fail)

/-- A fresh device foretells one outcome. -/
theorem Foretold.observed_eq (h : Foretold t target r) (h' : Foretold t target r') :
    observed r = observed r' := by
  have hiff := h.ok_iff.trans h'.ok_iff.symm
  cases h with
  | @created before order after u t₁ s₁ orders before_fail order_ok spots =>
    cases h' with
    | @created before' order' after' u' t₁' s₁' orders' before_fail' order_ok' spots' =>
      have hlist := orders.increasing.eq_of_mem_iff orders'.increasing fun o => by
        rw [orders.mem_iff, orders'.mem_iff]
      obtain ⟨rfl, rfl⟩ := first_unique hlist before_fail ⟨u, t₁, order_ok⟩ before_fail'
        ⟨u', t₁', order_ok'⟩
      obtain ⟨-, rfl⟩ := EStateM.Result.ok.inj (order_ok.symm.trans order_ok')
      rw [observed, observed, spots, spots']
    | exhausted =>
      obtain ⟨report, s', h⟩ := hiff.1 ⟨_, _, rfl⟩
      cases h
  | @exhausted before last e t₁ s₁ orders before_fail last_fail live =>
    cases h' with
    | created =>
      obtain ⟨report, s', h⟩ := hiff.2 ⟨_, _, rfl⟩
      cases h
    | @exhausted before' last' e' t₁' s₁' orders' before_fail' last_fail' live' =>
      have hlist := orders.increasing.eq_of_mem_iff orders'.increasing fun o => by
        rw [orders.mem_iff, orders'.mem_iff]
      obtain ⟨-, hlast⟩ := List.append_inj' hlist rfl
      obtain rfl := List.singleton_inj.1 hlast
      obtain ⟨rfl, rfl⟩ := EStateM.Result.error.inj (last_fail.symm.trans last_fail')
      rw [observed, observed, Simulator.spots, Simulator.spots, live, live']

/-! ## Independence of history -/

/-- A device that can be reached, its mode on, without faults, under rules that do not look at
numbers. -/
structure Ready (s : Simulator) : Prop where
  reachable : s.Reachable
  on : s.enabled = true
  faults : s.faults = .none
  blind : ∀ rule ∈ s.rules, rule.Blind

/-- A device of the same index, model and rules that holds nothing yet, its mode on. -/
def renewed (s : Simulator) : Simulator :=
  { new s.index s.model with enabled := true, rules := s.rules }

theorem Ready.foretold (hs : s.Ready) {used : Usage} (hcheck : s.model.check target = .ok used) :
    Foretold s.renewed target (Manager.setLayout target s) := by
  have hsetup : s.setup = s.renewed.setup := by
    rw [setup, hs.faults]
    rfl
  exact setLayout_foretold ⟨rfl, rfl, rfl, hs.blind⟩
    (View.sound_restrict.2 ⟨hs.reachable.sound, hsetup⟩) hs.on hcheck

/-- **Independence of history.** Whatever the device held before, setting an admitted layout ends as
a device foretells that holds nothing yet. It goes well exactly when some order of the layout can
be created there, and from two states of one index, model and rules nothing different is to be
seen. -/
theorem setLayout_independent_of_history (hs : s.Ready) {used : Usage}
    (hcheck : s.model.check target = .ok used) :
    Foretold s.renewed target (Manager.setLayout target s) ∧
    ((∃ report s', Manager.setLayout target s = .ok report s') ↔
      ∃ order, order.Perm target.flatten ∧ s.renewed.Creates order) ∧
    ∀ s₂ : Simulator, s₂.Ready → s₂.index = s.index → s₂.model = s.model → s₂.rules = s.rules →
      observed (Manager.setLayout target s₂) = observed (Manager.setLayout target s) := by
  have hforetold := hs.foretold hcheck
  refine ⟨hforetold, hforetold.ok_iff, fun s₂ hs₂ hindex hmodel hrules => ?_⟩
  have hrenewed : s₂.renewed = s.renewed := by rw [renewed, hindex, hmodel, hrules, renewed]
  have hforetold₂ := hs₂.foretold (hmodel.symm ▸ hcheck)
  exact (hrenewed ▸ hforetold₂).observed_eq hforetold

/-- Two devices under a rule that wants the 4g first: one that holds a 1g, and a new one. -/
theorem setLayout_independent_of_history_a100 :
    let s₂ := Action.enable.run ((Action.addRule (.after ⟨4, 20⟩ ⟨1, 5⟩)).run (.new 0 .a100With40))
    let s := (Action.create ⟨1, 5⟩).run s₂
    let target := Layout.ofProfiles [⟨1, 5⟩, ⟨4, 20⟩, ⟨2, 10⟩]
    s.Ready ∧ s₂.Ready ∧ s.model.check target = .ok ⟨7, 7⟩ ∧ s.live ≠ s₂.live ∧
      Foretold s.renewed target (Manager.setLayout target s) ∧
      observed (Manager.setLayout target s₂) = observed (Manager.setLayout target s) := by
  intro s₂ s target
  have hblind : ∀ rule ∈ [CreateRule.after ⟨4, 20⟩ ⟨1, 5⟩], rule.Blind := by
    simpa using CreateRule.blind_after _ _
  have hs₂ : s₂.Ready := ⟨.run _ (.run _ (.new 0 .a100With40)), rfl, rfl, hblind⟩
  have hs : s.Ready := ⟨.run _ hs₂.reachable, rfl, rfl, hblind⟩
  have hcheck : s.model.check target = .ok ⟨7, 7⟩ := by decide
  obtain ⟨hforetold, -, hsame⟩ := setLayout_independent_of_history hs hcheck
  exact ⟨hs, hs₂, hcheck, by decide, hforetold, hsame s₂ hs₂ rfl rfl rfl⟩

/-- The number of attempts is not the rank of the order for the empty layout: its only order is the
first, but no attempt is made at it. -/
theorem attempts_ne_rank_of_empty_layout :
    let s := Action.enable.run (.new 0 .a30With24)
    s.Ready ∧ s.model.check .empty = .ok ⟨0, 0⟩ ∧
      ∃ report s', Manager.setLayout .empty s = .ok report s' ∧
        ∀ orders, Enumerates Layout.empty.flatten orders →
          report.attempts ≠ orders.idxOf report.order + 1 := by
  intro s
  have hs : s.Ready := ⟨.run _ (.new 0 .a30With24), rfl, rfl, fun _ h => absurd h List.not_mem_nil⟩
  exact ⟨hs, by decide, ⟨s.identifier, true, .empty, 0, []⟩, _, rfl, fun orders _ =>
    (Nat.succ_ne_zero _).symm⟩

end GpuPartition.Simulator
