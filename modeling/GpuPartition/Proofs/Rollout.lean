/-
A rollout ends well once its config has resolved (`settles_every_target`). Every target gets the
device of its number, since no two targets have the same number. That device is fresh, without
rules and faults, so a target that suits its model is reached, and the device read back is found as
the target says. So a rollout fails only where the config does not load or does not resolve, and
then before any device has been taken.
-/
import GpuPartition.Command
import GpuPartition.Proofs.Simulator.Faultless
import GpuPartition.Proofs.Simulator.RoundTrip

namespace GpuPartition

namespace Simulator

variable {s : Simulator} {m : Model} {t : Target}

theorem server_getElem? {count i : Nat} (h : i < count) :
    (server m count)[i]? = some (new i m) := by
  rw [server, List.getElem?_map, List.getElem?_range h, Option.map_some]

/-- On a device without rules and faults a target that suits the model is reached. -/
theorem applyTarget_of_plain (hs : s.Reachable) (hplain : Plain m s) (hsuits : t.Suits m) :
    ∃ report s', Manager.applyTarget t s = .ok report s' ∧ Reached t report s' := by
  cases h : Manager.applyTarget t s with
  | ok report s' => exact ⟨report, s', rfl, applyTarget_ok hs h⟩
  | error e s' =>
    have hsound : (view.restrict (Plain m)).Sound s := View.sound_restrict.2 ⟨hs.sound, hplain⟩
    cases applyTarget_error keptByCalls_plain hsound (hplain.model ▸ hsuits) h with
    | exhausted on tried =>
      -- One of the orders tried is accepted by every empty device.
      obtain ⟨used, hcheck⟩ := hsuits.on on
      obtain ⟨order, hperm, haccepted⟩ := exists_order_accepted hcheck
      obtain ⟨s₁, e₁, s₂, hs₁, hretry⟩ := tried order hperm
      have := haccepted s₁ hs₁.valid.2 hs₁.mode hs₁.live
      rw [hretry] at this
      cases this
    | fatal fatal =>
      cases fatal.symm.trans (Faultless.applyTarget_not_fatal ⟨hs, hplain.faults⟩ h)

end Simulator

namespace Rollout

open Simulator (new)

variable {r : Rollout} {c : Config} {ts : List Target} {m : Model} {t : Target}

/-! ## One device -/

/-- The target is reached: its own device has the mode and the layout, the report says so, and so
does the device when it is read back. -/
structure Outcome.Settled (o : Outcome) : Prop where
  device : o.device.index = o.target.index
  enabled : o.device.enabled = o.target.enabled
  layout : Layout.ofProfiles (Simulator.view.profiles o.device) = o.target.layout
  reported : ∃ report, o.result = .ok report ∧ report.enabled = o.target.enabled ∧
    report.layout = o.target.layout
  matching : o.finding = .matching

theorem target_settle (t : Target) (device : Simulator) : (settle t device).target = t := by
  rw [settle]
  cases Manager.applyTarget t device <;> rfl

theorem settled_new (hsuits : t.Suits m) : (settle t (new t.index m)).Settled := by
  have hs : (new t.index m).Reachable := .new _ _
  obtain ⟨report, s', happly, hreached⟩ :=
    Simulator.applyTarget_of_plain hs ⟨rfl, rfl, rfl⟩ hsuits
  -- The index and the plan without faults are still those of the fresh device.
  have hsetup : s'.setup = (new t.index m).setup :=
    (Manager.keeps_applyTarget (Simulator.keptByCalls_of_setup fun h hs => h.trans hs) t).of_ok
      rfl happly
  obtain ⟨hindex, -, -, hfaults⟩ := Simulator.Setup.mk.inj hsetup
  have hlayout := hreached.layout.trans hsuits.wanted_eq
  rw [settle, happly]
  refine ⟨hindex, hreached.enabled, hlayout,
    ⟨report, rfl, hreached.report_enabled, hreached.report_layout.trans hsuits.wanted_eq⟩, ?_⟩
  have hassert : Manager.assertLayout t.layout s' = .ok () _ :=
    (bind_of_ok (Simulator.layout_of_faults hfaults) _).trans (by rw [if_pos hlayout]; rfl)
  rw [Outcome.finding]
  dsimp only
  rw [if_neg (not_not_intro hreached.enabled), hassert]

/-! ## All devices -/

/-- Targets of different devices all get theirs: the one taken leaves the others in place. -/
theorem assign_eq_ok {places : List (Option Simulator)} (device : Nat → Simulator)
    (hdistinct : (ts.map Target.index).Nodup)
    (hplaces : ∀ t ∈ ts, places[t.index]? = some (some (device t.index))) :
    assign places ts = .ok (ts.map fun t => (t, device t.index)) := by
  -- Along the targets more and more places are empty, so this is about all places.
  induction ts generalizing places with
  | nil => rfl
  | cons t ts ih =>
    obtain ⟨hfirst, hplaces⟩ := List.forall_mem_cons.1 hplaces
    obtain ⟨hnot, hdistinct⟩ := List.nodup_cons.1 hdistinct
    have htake : take places t.index = some (device t.index, places.set t.index none) := by
      rw [take, hfirst]
    have hrest : ∀ u ∈ ts, (places.set t.index none)[u.index]? = some (some (device u.index)) := by
      intro u hu
      have hne : t.index ≠ u.index := fun heq => hnot (heq ▸ List.mem_map_of_mem hu)
      rw [List.getElem?_set_ne hne]
      exact hplaces u hu
    rw [assign, htake]
    dsimp only
    rw [ih hdistinct hrest]
    rfl

theorem runConfig_eq_ok (hresolve : c.resolve r.select r.model r.gpus = .ok ts) :
    r.runConfig c = .ok (ts.map fun t => settle t (new t.index r.model)) := by
  obtain ⟨entries, -, hresolved⟩ := Config.resolve_eq_ok hresolve
  have hassign : assign ((Simulator.server r.model r.gpus).map some) ts =
      .ok (ts.map fun t => (t, new t.index r.model)) := by
    refine assign_eq_ok (new · r.model) hresolved.distinct fun t ht => ?_
    rw [List.getElem?_map, Simulator.server_getElem? (hresolved.index_lt ht), Option.map_some]
  rw [runConfig, targets, hresolve]
  change (assign _ ts >>= _) = _
  rw [hassign]
  exact congrArg Except.ok (List.map_map ..)

theorem runConfig_eq_error {cause : ConfigError}
    (hresolve : c.resolve r.select r.model r.gpus = .error cause) :
    r.runConfig c = .error (.resolve r.select cause) := by
  rw [runConfig, targets, hresolve]
  rfl

/-- A rollout fails only where its config does not load or does not resolve. -/
theorem run_eq_error_iff {source : Source} {f : Failure} :
    r.run source = .error f ↔ r.load source = .error f ∨ ∃ c cause, r.load source = .ok c ∧
      c.resolve r.select r.model r.gpus = .error cause ∧ f = .resolve r.select cause := by
  rw [run]
  cases hload : r.load source with
  | error f' =>
    change Except.error f' = Except.error f ↔ _
    simp
  | ok c =>
    change r.runConfig c = .error f ↔ _
    cases hresolve : c.resolve r.select r.model r.gpus with
    | ok ts => simp [runConfig_eq_ok hresolve, hresolve]
    | error cause => simp [runConfig_eq_error hresolve, hresolve, eq_comm]

/-! ## The whole of a rollout -/

/-- How many devices no entry selects. -/
def unselected (r : Rollout) (entries : List Entry) : Nat :=
  (List.range r.gpus).countP (!anySelects entries ·)

/-- There is one outcome for each target, in order of device indices; every target is reached, and
all other devices are those that no entry selects. -/
structure Complete (r : Rollout) (entries : List Entry) (ts : List Target)
    (outcomes : List Outcome) : Prop where
  targets : outcomes.map (·.target) = ts
  increasing : (outcomes.map (·.target.index)).Pairwise (· < ·)
  settled : ∀ o ∈ outcomes, o.Settled
  total : outcomes.length + r.unselected entries = r.gpus

theorem complete_of_resolved {entries : List Entry}
    (h : Config.Resolved r.model r.gpus entries ts) :
    Complete r entries ts (ts.map fun t => settle t (new t.index r.model)) where
  targets := by simp [Function.comp_def, target_settle]
  increasing := by simpa [Function.comp_def, target_settle] using h.increasing
  settled o ho := by
    obtain ⟨t, ht, rfl⟩ := List.mem_map.1 ho
    exact settled_new (h.suits ht)
  total := by
    rw [List.length_map]
    exact h.length_add_unselected

end Rollout

namespace Command

open Rollout (Outcome)

variable {r : Rollout} {entries : List Entry} {ts : List Target} {outcomes : List Outcome}

theorem rolloutScreen_eq (h : r.Complete entries ts outcomes) :
    rolloutScreen r outcomes = .success (rolloutHeading r ++ outcomes.flatMap outcomeRows ++ ["",
      s!"  Applied: {outcomes.length}   Failed: 0   Untouched: {r.unselected entries}"]) := by
  have hfailed : outcomes.countP (!·.applied) = 0 := by
    refine List.countP_eq_zero.2 fun o ho => ?_
    obtain ⟨report, hok, -⟩ := (h.settled o ho).reported
    simp [Outcome.applied, hok]
  have huntouched : r.gpus - outcomes.length = r.unselected entries :=
    Nat.sub_eq_of_eq_add' h.total.symm
  have hcounts : s!"  Applied: {outcomes.length - 0}   Failed: {0}   " ++
      s!"Untouched: {r.unselected entries}" =
      s!"  Applied: {outcomes.length}   Failed: 0   Untouched: {r.unselected entries}" := by
    simp [← String.toList_inj, toString]
  rw [rolloutScreen, hfailed, huntouched, if_pos rfl, hcounts]

theorem findingScreen_eq (h : r.Complete entries ts outcomes) :
    findingScreen r outcomes = .success (banner "Assert Config" ++
      outcomes.map (fun o => s!"{deviceLabel o.target.index} OK  {o.target.layout.text}") ++ ["",
      s!"  All {outcomes.length} targeted devices match '{r.select}'."]) := by
  have hothers : outcomes.countP (!·.finding.isMatching) = 0 := by
    refine List.countP_eq_zero.2 fun o ho => ?_
    simp [(h.settled o ho).matching, Rollout.Finding.isMatching]
  have hrows : outcomes.map findingRow =
      outcomes.map fun o => s!"{deviceLabel o.target.index} OK  {o.target.layout.text}" := by
    refine List.map_congr_left fun o ho => ?_
    rw [findingRow, (h.settled o ho).matching]
    simp [← String.toList_inj, toString]
  rw [findingScreen, hothers, hrows]
  simp

end Command

namespace Rollout

open Command

/-- **Rollouts.** If the config resolves, the rollout is complete: it has an outcome for each
target, by which the target is reached. Applying the config then ends without a failed device, and
asserting it finds every target matched. A rollout fails only where the config does not load or
does not resolve, and then no device has been configured. -/
theorem settles_every_target (r : Rollout) :
    (∀ c ts, c.resolve r.select r.model r.gpus = .ok ts → ∃ entries outcomes,
      c.configs.find? r.select = some entries ∧ r.runConfig c = .ok outcomes ∧
      r.Complete entries ts outcomes ∧
      ∀ files : String → Source, r.load (files r.path) = .ok c →
        r.run (files r.path) = .ok outcomes ∧
        (Request.apply r).run files =
          .success (rolloutHeading r ++ outcomes.flatMap outcomeRows ++ ["",
            s!"  Applied: {outcomes.length}   Failed: 0   Untouched: {r.unselected entries}"]) ∧
        (Request.check r).run files =
          .success (banner "Assert Config" ++
            outcomes.map (fun o => s!"{deviceLabel o.target.index} OK  {o.target.layout.text}") ++
            ["", s!"  All {outcomes.length} targeted devices match '{r.select}'."])) ∧
    ∀ source f, r.run source = .error f ↔ r.load source = .error f ∨
      ∃ c cause, r.load source = .ok c ∧ c.resolve r.select r.model r.gpus = .error cause ∧
        f = .resolve r.select cause := by
  refine ⟨fun c ts hresolve => ?_, fun source f => run_eq_error_iff⟩
  obtain ⟨entries, hentries, hresolved⟩ := Config.resolve_eq_ok hresolve
  obtain ⟨outcomes, hconfig, hcomplete⟩ :
      ∃ outcomes, r.runConfig c = .ok outcomes ∧ r.Complete entries ts outcomes :=
    ⟨_, runConfig_eq_ok hresolve, complete_of_resolved hresolved⟩
  refine ⟨entries, outcomes, hentries, hconfig, hcomplete, fun files hload => ?_⟩
  have hrun : r.run (files r.path) = .ok outcomes := by
    rw [run, hload]
    exact hconfig
  refine ⟨hrun, ?_, ?_⟩
  · rw [Request.run, rollOut, hrun]
    exact rolloutScreen_eq hcomplete
  · rw [Request.run, rollOut, hrun]
    exact findingScreen_eq hcomplete

/-- Of three devices, one is to hold a layout that an attempt in sorted order does not get, and
another is to have its mode off. Without the file no device is configured. -/
theorem settles_every_target_a100 :
    let r : Rollout := ⟨"server.toml", "mixed", .a100With40, 3⟩
    let target := Layout.ofProfiles [⟨1, 5⟩, ⟨4, 20⟩]
    let entries : List Entry := [⟨.indices [2], true, target⟩, ⟨.indices [0], false, .empty⟩]
    let c : Config := ⟨"v1", .ofList [("mixed", entries)]⟩
    let ts : List Target := [⟨0, false, .empty⟩, ⟨2, true, target⟩]
    c.resolve r.select r.model r.gpus = .ok ts ∧ r.unselected entries = 1 ∧
      (∃ outcomes, r.runConfig c = .ok outcomes ∧ r.Complete entries ts outcomes) ∧
      r.run .missing = .error (.load r.path (.read r.path .missing)) := by
  intro r target entries c ts
  have hresolve : c.resolve r.select r.model r.gpus = .ok ts := rfl
  obtain ⟨hsettles, hfails⟩ := settles_every_target r
  obtain ⟨entries', outcomes, hentries, hconfig, hcomplete, -⟩ := hsettles c ts hresolve
  have hfind : c.configs.find? r.select = some entries := rfl
  obtain rfl := Option.some.inj (hfind.symm.trans hentries)
  exact ⟨hresolve, by decide, ⟨outcomes, hconfig, hcomplete⟩, (hfails _ _).2 (.inl rfl)⟩

end Rollout

end GpuPartition
