/-
Targets applied to several devices, one after the other. An operation on one device leaves the
others alone (`onDevice_eq_ok`), so as long as no two targets name the same device, each target
meets its device as it was at first: all of them are reached exactly when each is reached by
itself, and the devices are left as each by itself leaves its own (`applyTargets_eq_ok_iff`).
Nothing in this depends on the order of the targets. A failure ends the run between the targets
before it and those after it (`applyTargets_eq_error`).
-/
import Mathlib.Data.List.Forall2
import GpuPartition.Proofs.Layout.Flattening
import GpuPartition.Proofs.Manager.Steps
import GpuPartition.Proofs.Simulator.Lawful

namespace GpuPartition

/-- Pairs follow one component through a rearrangement. -/
theorem exists_forall₂_zip_perm {α β : Type} {R : α → β → Prop} {l l' : List α} {v : List β}
    (hperm : l'.Perm l) (h : List.Forall₂ R l v) :
    ∃ v', List.Forall₂ R l' v' ∧ (l'.zip v').Perm (l.zip v) := by
  induction hperm generalizing v with
  | nil => exact ⟨v, h, .refl _⟩
  | cons x _ ih =>
    cases h with
    | cons hx h =>
      obtain ⟨v', h', hzip⟩ := ih h
      exact ⟨_ :: v', .cons hx h', hzip.cons _⟩
  | swap x y l =>
    cases h with
    | cons hx h =>
      cases h with
      | cons hy h => exact ⟨_, .cons hy (.cons hx h), .swap _ _ _⟩
  | trans _ _ ih₁ ih₂ =>
    obtain ⟨v₂, h₂, hzip₂⟩ := ih₂ h
    obtain ⟨v₁, h₁, hzip₁⟩ := ih₁ h₂
    exact ⟨v₁, h₁, hzip₁.trans hzip₂⟩

namespace Manager

variable {δ : Type}

/-! ## One device of several -/

section

variable {α : Type} {operation : ManagerM δ α} {ds ds' : List δ} {i : Nat}

theorem onDevice_eq_ok {a : α} : onDevice i operation ds = .ok a ds' ↔
    ∃ d d', ds[i]? = some d ∧ operation d = .ok a d' ∧ ds' = ds.set i d' := by
  rw [onDevice]
  cases ds[i]? with
  | none => simp
  | some d => cases h : operation d <;> simp [h, eq_comm]

theorem onDevice_eq_error {e : ManagerError} : onDevice i operation ds = .error e ds' ↔
    (ds[i]? = none ∧ e = .noSuchDevice i ds.length ∧ ds' = ds) ∨
      ∃ d d', ds[i]? = some d ∧ operation d = .error e d' ∧ ds' = ds.set i d' := by
  rw [onDevice]
  cases ds[i]? with
  | none => simp [eq_comm]
  | some d => cases h : operation d <;> simp [h, eq_comm]

end

/-! ## Steps -/

variable [Device δ] {ds ds₁ ds' : List δ} {t u : Target} {ts : List Target}

theorem applyTargets_cons_eq_ok {reports : List Report} :
    applyTargets (t :: ts) ds = .ok reports ds' ↔ ∃ report reports' ds₁,
      onDevice t.index (applyTarget t) ds = .ok report ds₁ ∧
      applyTargets ts ds₁ = .ok reports' ds' ∧ reports = report :: reports' := by
  rw [applyTargets, bind_eq_ok]
  constructor
  · rintro ⟨report, ds₁, h₁, h⟩
    obtain ⟨reports', ds₂, h₂, h⟩ := bind_eq_ok.1 h
    obtain ⟨rfl, rfl⟩ := EStateM.Result.ok.inj h
    exact ⟨report, reports', ds₁, h₁, h₂, rfl⟩
  · rintro ⟨report, reports', ds₁, h₁, h₂, rfl⟩
    exact ⟨report, ds₁, h₁, (bind_of_ok h₂ _).trans rfl⟩

/-- A run that fails has gone well up to a target at which it fails. -/
theorem exists_split_of_error {e : ManagerError} (h : applyTargets ts ds = .error e ds') :
    ∃ done t rest reports ds₁, ts = done ++ t :: rest ∧ applyTargets done ds = .ok reports ds₁ ∧
      onDevice t.index (applyTarget t) ds₁ = .error e ds' := by
  induction ts generalizing ds with
  | nil => cases h
  | cons t ts ih =>
    rw [applyTargets] at h
    rcases bind_eq_error.1 h with h₁ | ⟨report, ds₁, h₁, h⟩
    · exact ⟨[], t, ts, [], ds, rfl, rfl, h₁⟩
    · rcases bind_eq_error.1 h with h₂ | ⟨reports, ds₂, -, h⟩
      · obtain ⟨done, u, rest, reports, ds₂, rfl, hdone, hu⟩ := ih h₂
        exact ⟨t :: done, u, rest, report :: reports, ds₂, rfl,
          applyTargets_cons_eq_ok.2 ⟨report, reports, ds₁, h₁, hdone, rfl⟩, hu⟩
      · cases h

/-! ## Each target by itself -/

/-- In `ds'` the device of the target is what applying the target to it in `ds` leaves, and that
gives the report. -/
def Reaches (ds ds' : List δ) (t : Target) (report : Report) : Prop :=
  ∃ d d', ds[t.index]? = some d ∧ applyTarget t d = .ok report d' ∧ ds'[t.index]? = some d'

/-- There is no device of the target; or applying the target to it in `ds` fails, and what that
leaves is in `ds'`. -/
inductive Fails (ds ds' : List δ) (t : Target) : ManagerError → Prop
  | noDevice (h : ds[t.index]? = none) : Fails ds ds' t (.noSuchDevice t.index ds.length)
  | failed {d d' : δ} {e : ManagerError} (device : ds[t.index]? = some d)
    (fails : applyTarget t d = .error e d') (device' : ds'[t.index]? = some d') : Fails ds ds' t e

/-- No device has changed but those of the targets. -/
structure Untouched (ts : List Target) (ds ds' : List δ) : Prop where
  length : ds'.length = ds.length
  others : ∀ i, (∀ t ∈ ts, t.index ≠ i) → ds'[i]? = ds[i]?

omit [Device δ] in
theorem Untouched.eq_of_nil (h : Untouched [] ds ds') : ds' = ds :=
  List.ext_getElem? fun i => h.others i fun _ ht => absurd ht List.not_mem_nil

omit [Device δ] in
/-- What one target leaves, the targets after it have before them. -/
theorem untouched_cons_iff {d d' : δ} (hd : ds[t.index]? = some d)
    (hts : ∀ u ∈ ts, u.index ≠ t.index) :
    Untouched ts (ds.set t.index d') ds' ↔
      Untouched (t :: ts) ds ds' ∧ ds'[t.index]? = some d' := by
  have hlt : t.index < ds.length := (List.getElem?_eq_some_iff.1 hd).1
  constructor
  · intro h
    refine ⟨⟨h.length.trans List.length_set, fun i hi => ?_⟩, ?_⟩
    · obtain ⟨hne, hi⟩ := List.forall_mem_cons.1 hi
      rw [h.others i hi, List.getElem?_set_ne hne]
    · rw [h.others _ hts, List.getElem?_set_self hlt]
  · rintro ⟨h, hd'⟩
    refine ⟨h.length.trans List.length_set.symm, fun i hi => ?_⟩
    by_cases hti : t.index = i
    · rw [← hti, hd', List.getElem?_set_self hlt]
    · rw [h.others i (List.forall_mem_cons.2 ⟨hti, hi⟩), List.getElem?_set_ne hti]

omit [Device δ] in
theorem Untouched.set (h : Untouched ts ds ds') (d : δ) :
    Untouched (ts ++ [t]) ds (ds'.set t.index d) := by
  refine ⟨List.length_set.trans h.length, fun i hi => ?_⟩
  rw [List.forall_mem_append, List.forall_mem_singleton] at hi
  rw [List.getElem?_set_ne hi.2, h.others i hi.1]

omit [Device δ] in
theorem Untouched.append (h : Untouched ts ds ds') : Untouched (ts ++ [t]) ds ds' :=
  ⟨h.length, fun i hi => h.others i (List.forall_mem_append.1 hi).1⟩

theorem reaches_set {i : Nat} {d : δ} (hne : u.index ≠ i) (report : Report) :
    Reaches (ds.set i d) ds' u report ↔ Reaches ds ds' u report := by
  rw [Reaches, List.getElem?_set_ne hne.symm, Reaches]

theorem forall₂_reaches_set {i : Nat} {d : δ} (hts : ∀ u ∈ ts, u.index ≠ i)
    {reports : List Report} : List.Forall₂ (Reaches (ds.set i d) ds') ts reports ↔
      List.Forall₂ (Reaches ds ds') ts reports :=
  ⟨fun h => ((List.forall₂_and_left ts reports).2 ⟨hts, h⟩).imp
      fun _ r hu => (reaches_set hu.1 r).1 hu.2,
    fun h => ((List.forall₂_and_left ts reports).2 ⟨hts, h⟩).imp
      fun _ r hu => (reaches_set hu.1 r).2 hu.2⟩

/-- **Each target by itself.** Targets of different devices are all reached exactly when each is
reached by itself; what they leave and report is then what each leaves and reports by itself. -/
theorem applyTargets_eq_ok_iff (hdistinct : (ts.map Target.index).Nodup) {reports : List Report} :
    applyTargets ts ds = .ok reports ds' ↔
      List.Forall₂ (Reaches ds ds') ts reports ∧ Untouched ts ds ds' := by
  induction ts generalizing ds reports with
  | nil =>
    constructor
    · intro h
      obtain ⟨rfl, rfl⟩ := EStateM.Result.ok.inj h
      exact ⟨.nil, rfl, fun _ _ => rfl⟩
    · rintro ⟨h, huntouched⟩
      rw [List.forall₂_nil_left_iff.1 h, huntouched.eq_of_nil]
      rfl
  | cons t ts ih =>
    obtain ⟨hnot, hdistinct⟩ := List.nodup_cons.1 hdistinct
    have hts : ∀ u ∈ ts, u.index ≠ t.index := fun u hu heq =>
      hnot (heq ▸ List.mem_map_of_mem hu)
    rw [applyTargets_cons_eq_ok]
    constructor
    · rintro ⟨report, reports', ds₁, hfirst, hrest, rfl⟩
      obtain ⟨d, d', hd, happly, rfl⟩ := onDevice_eq_ok.1 hfirst
      obtain ⟨hall, huntouched⟩ := (ih hdistinct).1 hrest
      obtain ⟨huntouched, hd'⟩ := (untouched_cons_iff hd hts).1 huntouched
      exact ⟨.cons ⟨d, d', hd, happly, hd'⟩ ((forall₂_reaches_set hts).1 hall), huntouched⟩
    · rintro ⟨hall, huntouched⟩
      cases hall with
      | @cons _ report _ reports' hfirst hall =>
        obtain ⟨d, d', hd, happly, hd'⟩ := hfirst
        exact ⟨report, reports', _, onDevice_eq_ok.2 ⟨d, d', hd, happly, rfl⟩,
          (ih hdistinct).2 ⟨(forall₂_reaches_set hts).2 hall, (untouched_cons_iff hd hts).2
            ⟨huntouched, hd'⟩⟩, rfl⟩

/-- A run that fails has reached the targets before the one at which it fails; those after it it
has not come to. -/
theorem applyTargets_eq_error (hdistinct : (ts.map Target.index).Nodup) {e : ManagerError}
    (h : applyTargets ts ds = .error e ds') : ∃ done t rest reports, ts = done ++ t :: rest ∧
      List.Forall₂ (Reaches ds ds') done reports ∧ Fails ds ds' t e ∧
      Untouched (done ++ [t]) ds ds' := by
  obtain ⟨done, t, rest, reports, ds₁, rfl, hdone, hfail⟩ := exists_split_of_error h
  refine ⟨done, t, rest, reports, rfl, ?_⟩
  rw [List.map_append, List.map_cons, List.nodup_append] at hdistinct
  obtain ⟨hdone_distinct, -, hne⟩ := hdistinct
  have ht : ∀ u ∈ done, u.index ≠ t.index := fun u hu =>
    hne _ (List.mem_map_of_mem hu) _ List.mem_cons_self
  obtain ⟨hreached, huntouched⟩ := (applyTargets_eq_ok_iff hdone_distinct).1 hdone
  -- The device of the failing target is as it was at first.
  have hsame : ds₁[t.index]? = ds[t.index]? := huntouched.others _ ht
  rcases onDevice_eq_error.1 hfail with ⟨hnone, rfl, rfl⟩ | ⟨d, d', hd, happly, rfl⟩
  · rw [huntouched.length]
    exact ⟨hreached, .noDevice (hsame ▸ hnone), huntouched.append⟩
  · have hlt : t.index < ds₁.length := (List.getElem?_eq_some_iff.1 hd).1
    refine ⟨?_, .failed (hsame ▸ hd) happly (List.getElem?_set_self hlt), huntouched.set d'⟩
    refine ((List.forall₂_and_left done reports).2 ⟨ht, hreached⟩).imp ?_
    rintro u r ⟨hne, d₀, d₀', hd₀, happly₀, hd₀'⟩
    exact ⟨d₀, d₀', hd₀, happly₀, (List.getElem?_set_ne hne.symm).trans hd₀'⟩

/-! ## Independence -/

/-- In another order, targets of different devices are reached as well, and leave the same. -/
theorem applyTargets_perm (hdistinct : (ts.map Target.index).Nodup) {reports : List Report}
    (h : applyTargets ts ds = .ok reports ds') {ts' : List Target} (hperm : ts'.Perm ts) :
    ∃ reports', applyTargets ts' ds = .ok reports' ds' ∧
      (ts'.zip reports').Perm (ts.zip reports) := by
  obtain ⟨hreached, huntouched⟩ := (applyTargets_eq_ok_iff hdistinct).1 h
  obtain ⟨reports', hreached', hzip⟩ := exists_forall₂_zip_perm hperm hreached
  have hdistinct' : (ts'.map Target.index).Nodup := (hperm.map _).nodup_iff.2 hdistinct
  have huntouched' : Untouched ts' ds ds' :=
    ⟨huntouched.length, fun i hi => huntouched.others i fun t ht => hi t (hperm.mem_iff.2 ht)⟩
  exact ⟨reports', (applyTargets_eq_ok_iff hdistinct').2 ⟨hreached', huntouched'⟩, hzip⟩

/-- **Independence of targets.** Of targets of different devices, if all are reached, each report is
what applying the target to its device as it was at first gives, and a device without a target has
not changed; and so it is in every other order, with the reports rearranged likewise and the same
devices left. If one fails, those before it are reached as by themselves, it fails as by itself,
and no other device has changed. -/
theorem applyTargets_independent (hdistinct : (ts.map Target.index).Nodup) (ds : List δ) :
    (∀ reports ds', applyTargets ts ds = .ok reports ds' →
      List.Forall₂ (Reaches ds ds') ts reports ∧ Untouched ts ds ds' ∧
      ∀ ts', ts'.Perm ts → ∃ reports', applyTargets ts' ds = .ok reports' ds' ∧
        (ts'.zip reports').Perm (ts.zip reports)) ∧
    ∀ e ds', applyTargets ts ds = .error e ds' → ∃ done t rest reports, ts = done ++ t :: rest ∧
      List.Forall₂ (Reaches ds ds') done reports ∧ Fails ds ds' t e ∧
      Untouched (done ++ [t]) ds ds' ∧ ∀ u ∈ rest, ds'[u.index]? = ds[u.index]? := by
  refine ⟨fun reports ds' h => ?_, fun e ds' h => ?_⟩
  · obtain ⟨hreached, huntouched⟩ := (applyTargets_eq_ok_iff hdistinct).1 h
    exact ⟨hreached, huntouched, fun ts' hperm => applyTargets_perm hdistinct h hperm⟩
  · obtain ⟨done, t, rest, reports, rfl, hreached, hfails, huntouched⟩ :=
      applyTargets_eq_error hdistinct h
    refine ⟨done, t, rest, reports, rfl, hreached, hfails, huntouched, fun u hu => ?_⟩
    rw [List.append_cons, List.map_append, List.nodup_append] at hdistinct
    exact huntouched.others _ fun w hw =>
      hdistinct.2.2 _ (List.mem_map_of_mem hw) _ (List.mem_map_of_mem hu)

/-- Three devices, of which the second does not let its mode be changed. -/
theorem applyTargets_independent_a30 :
    let ds : List Simulator := [.new 0 .a30With24,
      Simulator.Action.run (.setFaults ⟨false, none, true⟩) (.new 1 .a30With24),
      .new 2 .a30With24]
    let t : Target := ⟨2, true, .ofProfiles [⟨2, 12⟩, ⟨1, 6⟩]⟩
    let u : Target := ⟨0, true, .ofProfiles [⟨4, 24⟩]⟩
    let stuck : Target := ⟨1, true, .empty⟩
    ([t, u].map Target.index).Nodup ∧ ([t, stuck, u].map Target.index).Nodup ∧
    (∃ reports ds', applyTargets [t, u] ds = .ok reports ds' ∧
      List.Forall₂ (Reaches ds ds') [t, u] reports ∧ Untouched [t, u] ds ds' ∧
      ∃ reports', applyTargets [u, t] ds = .ok reports' ds' ∧
        ([u, t].zip reports').Perm ([t, u].zip reports)) ∧
    ∃ e ds', applyTargets [t, stuck, u] ds = .error e ds' ∧
      ∃ done w rest reports, [t, stuck, u] = done ++ w :: rest ∧
        List.Forall₂ (Reaches ds ds') done reports ∧ Fails ds ds' w e ∧
        Untouched (done ++ [w]) ds ds' ∧ ∀ u ∈ rest, ds'[u.index]? = ds[u.index]? := by
  intro ds t u stuck
  -- Sorting is not decided by evaluation, but a flat form is in order already.
  obtain ⟨hok, herror⟩ :
      (match applyTargets [t, u] ds with | .ok .. => true | .error .. => false) = true ∧
      (match applyTargets [t, stuck, u] ds with
        | .ok .. => false | .error .. => true) = true := by
    simp only [ds, t, u, stuck, applyTargets, applyTarget, setLayout]
    unfold createLayout
    simp only [searchOrders, Arrangement.Cursor.start, Layout.first_flatten]
    decide +kernel
  have hdistinct : ([t, u].map Target.index).Nodup := by decide
  have hdistinct' : ([t, stuck, u].map Target.index).Nodup := by decide
  obtain ⟨hreached, -⟩ := applyTargets_independent hdistinct ds
  obtain ⟨-, hfails⟩ := applyTargets_independent hdistinct' ds
  refine ⟨hdistinct, hdistinct', ?_, ?_⟩
  · cases h : applyTargets [t, u] ds with
    | ok reports ds' =>
      obtain ⟨hall, huntouched, hperm⟩ := hreached reports ds' h
      exact ⟨reports, ds', rfl, hall, huntouched, hperm [u, t] (.swap _ _ _)⟩
    | error e ds' => simp [h] at hok
  · cases h : applyTargets [t, stuck, u] ds with
    | ok reports ds' => simp [h] at herror
    | error e ds' => exact ⟨e, ds', rfl, hfails e ds' h⟩

end Manager

end GpuPartition
