/-
Destroying instances of a simulated GPU one by one, up to the first destruction that fails. What
goes takes itself out of the list and nothing else (`Simulator.without`), and as no two instances
share a number, it does not matter in which order they go.

While the mode is on, nothing stands in the way of destroying what lives but the fault plan, which
lets so many destructions go well in the life of the device (`Affords`). So a list of destructions
comes to its end, or breaks off after a known number of them (`rollback_outcome`).
-/
import GpuPartition.Proofs.Manager.Steps
import GpuPartition.Proofs.Simulator.Lawful

namespace GpuPartition.Simulator

variable {s : Simulator} {id : Nat} {ids : List Nat} {before gone rest : List Instance}

/-! ## What is left -/

/-- The device after the instances of these numbers have been destroyed. -/
def without (s : Simulator) (ids : List Nat) : Simulator :=
  { s with
    live := s.live.filter (·.id ∉ ids)
    destroyed := s.destroyed + ids.length
    calls.destroy := s.calls.destroy + ids.length }

theorem without_nil (s : Simulator) : s.without [] = s := by
  simp [without]

theorem without_cons (s : Simulator) (id : Nat) (ids : List Nat) :
    s.without (id :: ids) = (s.without [id]).without ids := by
  have hlive : s.live.filter (·.id ∉ id :: ids) =
      (s.live.filter (·.id ∉ [id])).filter (·.id ∉ ids) := by
    rw [List.filter_filter]
    exact List.filter_congr fun i _ => by simp [Bool.and_comm]
  have hlength (n : Nat) : n + (id :: ids).length = n + [id].length + ids.length := by
    rw [List.length_cons, List.length_singleton]
    omega
  simp only [without, hlive, hlength]

theorem mem_ids_without : id ∈ view.ids (s.without ids) ↔ id ∈ view.ids s ∧ id ∉ ids := by
  have hids : view.ids (s.without ids) = (view.ids s).filter (· ∉ ids) := by
    rw [View.ids, View.ids, List.filter_map]
    rfl
  rw [hids, List.mem_filter, decide_eq_true_iff]

/-- What goes is a part of the list, if the numbers are those of that part in whatever order. -/
theorem filter_notMem_ids (hdistinct : ((before ++ gone ++ rest).map Instance.id).Nodup)
    (hids : ∀ id, id ∈ ids ↔ id ∈ gone.map Instance.id) :
    (before ++ gone ++ rest).filter (·.id ∉ ids) = before ++ rest := by
  rw [List.map_append, List.map_append, List.nodup_append, List.nodup_append] at hdistinct
  obtain ⟨⟨-, -, hbefore⟩, -, hrest⟩ := hdistinct
  have hkept : ∀ i ∈ before, i.id ∉ ids := fun i hi hid =>
    hbefore _ (List.mem_map_of_mem hi) _ ((hids _).1 hid) rfl
  have hgone : ∀ i ∈ gone, i.id ∈ ids := fun i hi => (hids _).2 (List.mem_map_of_mem hi)
  have hlater : ∀ i ∈ rest, i.id ∉ ids := fun i hi hid =>
    hrest _ (List.mem_append_right _ ((hids _).1 hid)) _ (List.mem_map_of_mem hi) rfl
  rw [List.filter_append, List.filter_append, List.filter_eq_self.2 (by simpa using hkept),
    List.filter_eq_nil_iff.2 (by simpa using hgone), List.filter_eq_self.2 (by simpa using hlater),
    List.append_nil]

theorem without_eq (hs : view.Sound s) (hlive : s.live = before ++ gone ++ rest)
    (hids : ∀ id, id ∈ ids ↔ id ∈ gone.map Instance.id) : s.without ids = { s with
      live := before ++ rest
      destroyed := s.destroyed + ids.length
      calls.destroy := s.calls.destroy + ids.length } := by
  have hdistinct : ((before ++ gone ++ rest).map Instance.id).Nodup := hlive ▸ hs.distinct
  rw [without, hlive, filter_notMem_ids hdistinct hids]

/-! ## One destruction -/

theorem eraseP_eq_filter {live : List Instance} (hdistinct : (live.map Instance.id).Nodup)
    (hlive : ∃ i ∈ live, i.id = id) :
    live.eraseP (·.id = id) = live.filter (·.id ∉ [id]) := by
  obtain ⟨before, i, after, rfl, rfl, herase⟩ := eraseP_splits hlive
  rw [herase, List.append_cons] at *
  exact (filter_notMem_ids hdistinct (by simp)).symm

/-- With the mode on, what lives is destroyed unless the fault plan forbids it. -/
theorem destroy_live (hs : view.Sound s) (hon : s.enabled = true) (hlive : id ∈ view.ids s) :
    destroy id s = if s.destroyBlocked then
      .error (s.fails (injected .destroy)) { s with calls.destroy := s.calls.destroy + 1 }
    else .ok () (s.without [id]) := by
  have hfound : ∃ i ∈ s.live, i.id = id := List.mem_map.1 hlive
  cases hblocked : s.destroyBlocked with
  | true =>
    change (if !s.enabled then _ else if s.destroyBlocked then _ else _) = _
    rw [hon, hblocked]
    rfl
  | false =>
    have herase : s.live.eraseP (·.id = id) = s.live.filter (·.id ∉ [id]) :=
      eraseP_eq_filter hs.distinct hfound
    refine destroy_eq_ok.2 ⟨hon, hblocked, hfound, ?_⟩
    rw [without, herase]
    rfl

/-! ## One after the other -/

/-- The fault plan lets so many more destructions go well. -/
def Affords (s : Simulator) (n : Nat) : Prop :=
  ∀ limit, s.faults.destroyAfter = some limit → n ≤ limit - s.destroyed

/-- How destroying the instances of these numbers ends. -/
inductive Destroyed (s : Simulator) (ids : List Nat) :
    EStateM.Result DeviceError Simulator Unit → Prop
  | all (affords : s.Affords ids.length) : Destroyed s ids (.ok () (s.without ids))
  /-- As many have gone as the fault plan lets go, and the next destruction has failed. -/
  | part {gone rest : List Nat} {id limit : Nat} {s' : Simulator}
    (plan : s.faults.destroyAfter = some limit) (split : ids = gone ++ id :: rest)
    (number : gone.length = limit - s.destroyed)
    (stuck : destroy id (s.without gone) = .error (s.fails (injected .destroy)) s') :
    Destroyed s ids (.error (s.fails (injected .destroy)) s')

theorem destroyBlocked_eq_true : s.destroyBlocked = true ↔
    ∃ limit, s.faults.destroyAfter = some limit ∧ limit ≤ s.destroyed := by
  rw [destroyBlocked]
  cases s.faults.destroyAfter <;> simp

theorem rollback_outcome (hs : view.Sound s) (hon : ids ≠ [] → s.enabled = true)
    (hdistinct : ids.Nodup) (hlive : ∀ id ∈ ids, id ∈ view.ids s) :
    Destroyed s ids (Manager.rollback ids s) := by
  induction ids generalizing s with
  | nil =>
    have hnone : Destroyed s [] (.ok () (s.without [])) := .all fun _ _ => Nat.zero_le _
    rwa [without_nil] at hnone
  | cons id ids ih =>
    obtain ⟨hid, hdistinct⟩ := List.nodup_cons.1 hdistinct
    obtain ⟨hidLive, hlive⟩ := List.forall_mem_cons.1 hlive
    have hon : s.enabled = true := hon (List.cons_ne_nil id ids)
    have hstep := destroy_live hs hon hidLive
    split at hstep
    next hblocked =>
      obtain ⟨limit, hplan, hle⟩ := destroyBlocked_eq_true.1 hblocked
      have hroll : Manager.rollback (id :: ids) s = .error _ _ := bind_of_error hstep _
      rw [hroll]
      have hnone : ([] : List Nat).length = limit - s.destroyed := (Nat.sub_eq_zero_of_le hle).symm
      exact .part hplan rfl hnone ((congrArg (destroy id) (without_nil s)).trans hstep)
    next hfree =>
      have hroll : Manager.rollback (id :: ids) s = Manager.rollback ids (s.without [id]) :=
        bind_of_ok hstep _
      have hs₁ : view.Sound (s.without [id]) := (keptByCalls_sound.destroy id).of_ok hs hstep
      have hlive₁ : ∀ id' ∈ ids, id' ∈ view.ids (s.without [id]) := fun id' hid' =>
        mem_ids_without.2 ⟨hlive id' hid', by rw [List.mem_singleton]; rintro rfl; exact hid hid'⟩
      -- The plan did not forbid this destruction, so it lets one more go well than afterwards.
      have hroom : ∀ limit, s.faults.destroyAfter = some limit →
          limit - s.destroyed = limit - (s.without [id]).destroyed + 1 := by
        intro limit hplan
        have hlt : s.destroyed < limit := not_le.1 fun hle =>
          hfree (destroyBlocked_eq_true.2 ⟨limit, hplan, hle⟩)
        change _ = limit - (s.destroyed + 1) + 1
        omega
      rw [hroll]
      have hout := ih hs₁ (fun _ => hon) hdistinct hlive₁
      generalize Manager.rollback ids (s.without [id]) = r at hout
      cases hout with
      | all affords =>
        rw [← without_cons]
        exact .all fun limit hplan =>
          (Nat.succ_le_succ (affords limit hplan)).trans (hroom limit hplan).ge
      | @part gone rest id' limit s' plan split number stuck =>
        refine .part plan (split ▸ (List.cons_append ..).symm) ?_ (without_cons s id gone ▸ stuck)
        rw [List.length_cons, number, hroom limit plan]

/-- How taking away the last instances ends, the latest first. -/
inductive Retreated (s : Simulator) (left last : List Instance) :
    EStateM.Result DeviceError Simulator Unit → Prop
  | all (affords : s.Affords last.length) : Retreated s left last (.ok () { s with
      live := left
      destroyed := s.destroyed + last.length
      calls.destroy := s.calls.destroy + last.length })
  /-- The destruction of `i` has failed, after all that came later has gone. -/
  | part {kept gone : List Instance} {i : Instance} {limit : Nat} {e : DeviceError}
    {s₁ s' : Simulator} (split : last = kept ++ i :: gone)
    (plan : s.faults.destroyAfter = some limit) (number : gone.length = limit - s.destroyed)
    (stuck : destroy i.id s₁ = .error e s') (stopped : s' = { s with
      live := left ++ (kept ++ [i])
      destroyed := s.destroyed + gone.length
      calls.destroy := s.calls.destroy + gone.length + 1 }) :
    Retreated s left last (.error e s')

theorem rollback_last {left last : List Instance} (hs : view.Sound s)
    (hon : last ≠ [] → s.enabled = true) (hlive : s.live = left ++ last) :
    Retreated s left last (Manager.rollback (last.map Instance.id).reverse s) := by
  have hids : view.ids s = left.map Instance.id ++ last.map Instance.id := by
    rw [View.ids, ← List.map_append]
    exact congrArg _ hlive
  have hdistinct := hs.distinct
  rw [hids, List.nodup_append] at hdistinct
  have hout : Destroyed s (last.map Instance.id).reverse
      (Manager.rollback (last.map Instance.id).reverse s) :=
    rollback_outcome hs (fun hne => hon fun hnil => hne (by rw [hnil]; rfl))
      (List.nodup_reverse.2 hdistinct.2.1) fun id hid =>
        hids ▸ List.mem_append_right _ (List.mem_reverse.1 hid)
  generalize Manager.rollback (last.map Instance.id).reverse s = r at hout
  cases hout with
  | all affords =>
    rw [without_eq hs (hlive.trans (List.append_nil _).symm) fun id => List.mem_reverse,
      List.length_reverse, List.length_map, List.append_nil]
    exact .all (by rwa [List.length_reverse, List.length_map] at affords)
  | @part goneIds keptIds id limit s' plan split number stuck =>
    rw [List.reverse_eq_iff, List.reverse_append, List.reverse_cons, List.append_assoc,
      List.singleton_append] at split
    obtain ⟨kept, rest, rfl, -, hrest⟩ := List.map_eq_append_iff.1 split
    obtain ⟨i, gone, rfl, rfl, hgone⟩ := List.map_eq_cons_iff.1 hrest
    have hsplit : s.live = (left ++ (kept ++ [i])) ++ gone ++ [] := by
      rw [hlive, List.append_nil, List.append_assoc, List.append_assoc, List.singleton_append]
    have hnumbers : ∀ id, id ∈ goneIds ↔ id ∈ gone.map Instance.id := fun id => by
      rw [hgone, List.mem_reverse]
    have hcount : goneIds.length = gone.length := by
      rw [← List.length_reverse, ← hgone, List.length_map]
    refine .part rfl plan (hcount.symm.trans number) stuck ?_
    rw [destroy_of_error stuck, without_eq hs hsplit hnumbers, hcount, List.append_nil]

end GpuPartition.Simulator
