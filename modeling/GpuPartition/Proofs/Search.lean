/-
The search for a creation order, against the list of all orders.

`Attempt.calls` makes the calls of a search along a list of orders, up to the first that is
not to be retried; `searchOrders_eq` says that searching for a layout is that along the
distinct rearrangements of its flat form, and that its result is read off the last call.

* `searchOrders_run`: the calls made, seen by an attempt that keeps a record of them, and
  what the search answers for them.
* `searchOrders_outcome`: how a search ends, given what holds between two attempts.
-/
import GpuPartition.Search.Script
import GpuPartition.Proofs.Arrangement.Walk
import GpuPartition.Proofs.Layout

namespace GpuPartition

open Arrangement

variable {σ ε : Type}

theorem bind_apply {α β : Type} (x : StateM σ α) (f : α → StateM σ β) (s : σ) :
    (x >>= f) s = f (x s).1 (x s).2 := rfl

/-! ## The calls of a search -/

namespace Attempt

/-- The attempt with a record of the calls made so far and their answers, the latest last. -/
def recorded (attempt : Attempt σ ε) : Attempt (σ × List (List Profile × Verdict ε)) ε :=
  fun order s =>
    match attempt order s.1 with
    | (verdict, s') => (verdict, s', s.2 ++ [(order, verdict)])

/-- Calls the attempt on one order after the other, until an answer is not to retry: the calls
with their answers, and the state they leave. -/
def calls (attempt : Attempt σ ε) : List (List Profile) → σ → List (List Profile × Verdict ε) × σ
  | [], s => ([], s)
  | order :: orders, s =>
    match attempt order s with
    | (.retry e, s') =>
      ((order, .retry e) :: (calls attempt orders s').1, (calls attempt orders s').2)
    | (verdict, s') => ([(order, verdict)], s')

theorem calls_recorded (attempt : Attempt σ ε) (orders : List (List Profile)) (s : σ)
    (log : List (List Profile × Verdict ε)) :
    attempt.recorded.calls orders (s, log) =
      ((attempt.calls orders s).1, (attempt.calls orders s).2,
        log ++ (attempt.calls orders s).1) := by
  induction orders generalizing s log with
  | nil => simp [calls]
  | cons order orders ih =>
    simp only [calls, recorded]
    rcases attempt order s with ⟨_ | e | e, s'⟩
    · rfl
    · simp only [ih, List.append_assoc, List.singleton_append]
    · rfl

/-- The orders called are the first of the list. -/
theorem map_fst_calls (attempt : Attempt σ ε) (orders : List (List Profile)) (s : σ) :
    (attempt.calls orders s).1.map (·.1) = orders.take (attempt.calls orders s).1.length := by
  induction orders generalizing s with
  | nil => simp [calls]
  | cons order orders ih =>
    simp only [calls]
    rcases attempt order s with ⟨_ | e | e, s'⟩
    · simp
    · simpa using ih s'
    · simp

theorem length_calls_le (attempt : Attempt σ ε) (orders : List (List Profile)) (s : σ) :
    (attempt.calls orders s).1.length ≤ orders.length := by
  have h := congrArg List.length (map_fst_calls attempt orders s)
  rw [List.length_map, List.length_take] at h
  omega

theorem calls_ne_nil (attempt : Attempt σ ε) {orders : List (List Profile)} (h : orders ≠ [])
    (s : σ) : (attempt.calls orders s).1 ≠ [] := by
  cases orders with
  | nil => exact absurd rfl h
  | cons order orders =>
    simp only [calls]
    rcases attempt order s with ⟨_ | e | e, s'⟩ <;> simp

/-- There is no call after one that was not answered with a retry. -/
theorem retry_of_mem_dropLast (attempt : Attempt σ ε) (orders : List (List Profile)) (s : σ) :
    ∀ c ∈ (attempt.calls orders s).1.dropLast, ∃ e, c.2 = .retry e := by
  induction orders generalizing s with
  | nil => simp [calls]
  | cons order orders ih =>
    simp only [calls]
    rcases attempt order s with ⟨_ | e | e, s'⟩
    · simp
    · intro c hc
      simp only at hc
      cases hcs : (attempt.calls orders s').1 with
      | nil => simp [hcs] at hc
      | cons c' cs =>
        rw [hcs, List.dropLast_cons_cons, ← hcs] at hc
        rcases List.mem_cons.1 hc with rfl | hc
        · exact ⟨e, rfl⟩
        · exact ih s' c hc
    · simp

/-- A last call answered with a retry was for the last order. -/
theorem length_calls_of_retry {attempt : Attempt σ ε} {orders : List (List Profile)} {s : σ}
    {order : List Profile} {e : ε}
    (h : (attempt.calls orders s).1.getLast? = some (order, .retry e)) :
    (attempt.calls orders s).1.length = orders.length := by
  induction orders generalizing s with
  | nil => simp [calls]
  | cons order' orders ih =>
    simp only [calls] at h ⊢
    rcases hv : attempt order' s with ⟨_ | e' | e', s'⟩
    · simp [hv] at h
    · simp only [hv] at h ⊢
      cases hcs : (attempt.calls orders s').1 with
      | nil =>
        have : orders = [] := by
          by_contra hne
          exact calls_ne_nil attempt hne s' hcs
        simp [this]
      | cons c cs =>
        rw [hcs, List.getLast?_cons_cons, ← hcs] at h
        rw [← hcs, List.length_cons, List.length_cons, ih h]
    · simp [hv] at h

end Attempt

/-! ## The result of a search -/

/-- What a search answers that has made these calls after `attempts` others, of which `last` is the
last error. -/
def searchResult (layout : Layout) (distinct attempts : Nat) (last : Option ε)
    (calls : List (List Profile × Verdict ε)) : Except (SearchError ε) Found :=
  match calls.getLast? with
  | none => .error (.exhausted layout attempts distinct last)
  | some (order, .accepted) => .ok ⟨attempts + calls.length, order⟩
  | some (_, .retry e) => .error (.exhausted layout (attempts + calls.length) distinct (some e))
  | some (_, .fatal e) => .error (.aborted layout (attempts + calls.length) e)

theorem searchResult_retry_cons (layout : Layout) (distinct attempts : Nat) (last : Option ε)
    (order : List Profile) (e : ε) (calls : List (List Profile × Verdict ε)) :
    searchResult layout distinct attempts last ((order, .retry e) :: calls) =
      searchResult layout distinct (attempts + 1) (some e) calls := by
  cases calls with
  | nil => rfl
  | cons c cs =>
    have hlen : attempts + ((order, Verdict.retry e) :: c :: cs).length =
        attempts + 1 + (c :: cs).length := by simp; omega
    rw [searchResult, searchResult, List.getLast?_cons_cons, hlen, List.getLast?_cons]
    rcases cs.getLast?.getD c with ⟨_, _ | _ | _⟩ <;> rfl

theorem searchFrom_some (attempt : Attempt σ ε) (layout : Layout) (distinct fuel attempts : Nat)
    (last : Option ε) (order : List Profile) (s : σ) :
    searchFrom attempt layout distinct (fuel + 1) attempts last ⟨some order⟩ s =
      match attempt order s with
      | (.accepted, s') => (.ok ⟨attempts + 1, order⟩, s')
      | (.retry e, s') =>
        searchFrom attempt layout distinct fuel (attempts + 1) (some e) ⟨next? order⟩ s'
      | (.fatal e, s') => (.error (.aborted layout (attempts + 1) e), s') := by
  rw [searchFrom]
  simp only [Cursor.next, bind_apply]
  rcases attempt order s with ⟨_ | _ | _, s'⟩ <;> rfl

/-- A search with as many steps as there are orders ahead makes the calls along them. -/
theorem searchFrom_eq (attempt : Attempt σ ε) (layout : Layout) (distinct attempts : Nat)
    (last : Option ε) {orders : List (List Profile)} {cursor : Cursor Profile}
    (h : cursor.Yields orders) (s : σ) :
    searchFrom attempt layout distinct orders.length attempts last cursor s =
      (searchResult layout distinct attempts last (attempt.calls orders s).1,
        (attempt.calls orders s).2) := by
  induction orders generalizing cursor attempts last s with
  | nil => rfl
  | cons order orders ih =>
    obtain ⟨rfl, h⟩ := h
    rw [List.length_cons, searchFrom_some, Attempt.calls]
    rcases attempt order s with ⟨_ | e | e, s'⟩
    · rfl
    · simp only [ih (attempts + 1) (some e) h s', searchResult_retry_cons]
    · rfl

@[simp] theorem length_all_flatten (layout : Layout) :
    (all layout.flatten).length = layout.orderings := by
  rw [(enumerates_all layout.flatten).length_eq, Layout.orderings_eq]

theorem all_flatten_ne_nil (layout : Layout) : all layout.flatten ≠ [] := by
  rw [← List.length_pos_iff, length_all_flatten]
  exact multinomial_pos _

theorem count_multiplicities {layout : Layout} (h : layout.orderings < UInt64.size) :
    Arrangement.count layout.multiplicities = layout.orderings := by
  rw [count_eq, ← Layout.orderings, wordMax]
  omega

/-- A search makes the calls along the arrangements of the flat form, unless that is empty. -/
theorem searchOrders_eq {layout : Layout} (h : layout.orderings < UInt64.size)
    (attempt : Attempt σ ε) (s : σ) :
    searchOrders layout attempt s =
      if layout = .empty then (.ok ⟨0, []⟩, s)
      else (searchResult layout layout.orderings 0 none (attempt.calls (all layout.flatten) s).1,
        (attempt.calls (all layout.flatten) s).2) := by
  rw [searchOrders]
  by_cases hempty : layout = .empty
  · rw [if_pos hempty, if_pos (by rw [Layout.flatten_eq_nil_iff.2 hempty]; rfl)]
    rfl
  · have hne : ¬ layout.flatten.isEmpty = true := by
      rwa [List.isEmpty_iff, Layout.flatten_eq_nil_iff]
    have hsearch := searchFrom_eq attempt layout layout.orderings 0 none
      (yields_all layout.flatten) s
    rw [length_all_flatten] at hsearch
    rw [if_neg hempty, if_neg hne, count_multiplicities h, hsearch]

/-- A run of a search for the orders of a layout: its result, the calls it has made and the state
it leaves. -/
structure SearchRun (layout : Layout) (attempt : Attempt σ ε) (s : σ)
    (result : Except (SearchError ε) Found) (calls : List (List Profile × Verdict ε))
    (s' : σ) : Prop where
  run : (searchOrders layout attempt).run s = (result, s')
  /-- An attempt that keeps a record of its calls is answered alike. -/
  recorded : (searchOrders layout attempt.recorded).run (s, []) = (result, s', calls)
  /-- The calls are for the first of the distinct rearrangements, in lexicographic order. -/
  orders : ∃ all, Enumerates layout.flatten all ∧ all.length = layout.orderings ∧
    calls.map (·.1) = all.take calls.length
  length_le : calls.length ≤ layout.orderings
  counts : ∀ c ∈ calls, Layout.ofProfiles c.1 = layout
  retry : ∀ c ∈ calls.dropLast, ∃ e, c.2 = .retry e
  of_empty : layout = .empty → calls = [] ∧ result = .ok ⟨0, []⟩
  of_nonempty : layout ≠ .empty → ∃ order verdict, calls.getLast? = some (order, verdict) ∧
    match verdict with
    | .accepted => result = .ok ⟨calls.length, order⟩
    | .fatal e => result = .error (.aborted layout calls.length e)
    | .retry e => calls.length = layout.orderings ∧
      result = .error (.exhausted layout layout.orderings layout.orderings (some e))

/-- **What a search does.** A search whose orders can be counted by a machine word calls the attempt
on the first of the distinct orders, lexicographically, until one is not to be retried, and its
result is the answer to the last call, with the number of calls. -/
theorem searchOrders_run {layout : Layout} (h : layout.orderings < UInt64.size)
    (attempt : Attempt σ ε) (s : σ) :
    ∃ result calls s', SearchRun layout attempt s result calls s' := by
  by_cases hempty : layout = .empty
  · refine ⟨.ok ⟨0, []⟩, [], s, ?_, ?_, ⟨all layout.flatten, enumerates_all _,
      length_all_flatten _, rfl⟩, Nat.zero_le _, by simp, by simp, fun _ => ⟨rfl, rfl⟩,
      fun hne => absurd hempty hne⟩
    · exact (searchOrders_eq h attempt s).trans (if_pos hempty)
    · exact (searchOrders_eq h attempt.recorded (s, [])).trans (if_pos hempty)
  have hlen := length_all_flatten layout
  have hrun := (searchOrders_eq h attempt s).trans (if_neg hempty)
  have hrecorded := (searchOrders_eq h attempt.recorded (s, [])).trans (if_neg hempty)
  simp only [Attempt.calls_recorded, List.nil_append] at hrecorded
  have horders := attempt.map_fst_calls (all layout.flatten) s
  refine ⟨_, _, _, hrun, hrecorded, ⟨all layout.flatten, enumerates_all _, hlen, horders⟩,
    hlen ▸ attempt.length_calls_le _ s, fun c hc => ?_, attempt.retry_of_mem_dropLast _ s,
    fun he => absurd he hempty, fun _ => ?_⟩
  · have hmem := List.mem_map_of_mem (f := fun c : List Profile × Verdict ε => c.1) hc
    rw [horders] at hmem
    exact Layout.ofProfiles_eq_iff.2 ((enumerates_all _).mem_iff _ |>.1 (List.mem_of_mem_take hmem))
  · obtain ⟨c, hc⟩ := Option.ne_none_iff_exists'.1
      (mt List.getLast?_eq_none_iff.1 (attempt.calls_ne_nil (all_flatten_ne_nil layout) s))
    obtain ⟨order, verdict⟩ := c
    refine ⟨order, verdict, hc, ?_⟩
    rw [searchResult, hc]
    cases verdict with
    | accepted => simp
    | fatal e => simp
    | retry e =>
      have := Attempt.length_calls_of_retry hc
      simp [this, hlen]

/-- A script that accepts nothing, on a layout of three orders. -/
theorem searchOrders_run_of_script :
    let layout := Layout.ofProfiles [⟨1, 5⟩, ⟨2, 10⟩, ⟨1, 5⟩]
    let script : Script := ⟨none, ⟨[], none⟩, none⟩
    layout.orderings < UInt64.size ∧ ∃ result calls s',
      SearchRun layout (script.attempt none) ⟨0, []⟩ result calls s' :=
  ⟨by decide, searchOrders_run (by decide) _ _⟩

/-! ## Searching under an invariant -/

/-- The attempt answers the order with a retry, from some state with the property. -/
def Attempt.Retries (attempt : Attempt σ ε) (Inv : σ → Prop) (order : List Profile) : Prop :=
  ∃ s e s', Inv s ∧ attempt order s = (.retry e, s')

/-- An attempt that is to be retried keeps the property. -/
def Attempt.Restores (attempt : Attempt σ ε) (Inv : σ → Prop) : Prop :=
  ∀ order s e s', Inv s → attempt order s = (.retry e, s') → Inv s'

/-- How a search ends when `Inv` holds before every attempt. -/
inductive SearchOutcome (attempt : Attempt σ ε) (Inv : σ → Prop) (layout : Layout) :
    Except (SearchError ε) Found × σ → Prop
  | empty {s} (hempty : layout = .empty) (hs : Inv s) :
    SearchOutcome attempt Inv layout (.ok ⟨0, []⟩, s)
  | accepted {before order after s s'} (hall : all layout.flatten = before ++ order :: after)
    (hbefore : ∀ o ∈ before, attempt.Retries Inv o) (hs : Inv s)
    (hattempt : attempt order s = (.accepted, s')) :
    SearchOutcome attempt Inv layout (.ok ⟨before.length + 1, order⟩, s')
  | aborted {before order after s s' e} (hall : all layout.flatten = before ++ order :: after)
    (hbefore : ∀ o ∈ before, attempt.Retries Inv o) (hs : Inv s)
    (hattempt : attempt order s = (.fatal e, s')) :
    SearchOutcome attempt Inv layout (.error (.aborted layout (before.length + 1) e), s')
  | exhausted {before order s s' e} (hall : all layout.flatten = before ++ [order])
    (hbefore : ∀ o ∈ before, attempt.Retries Inv o) (hs : Inv s)
    (hattempt : attempt order s = (.retry e, s')) (hs' : Inv s') :
    SearchOutcome attempt Inv layout
      (.error (.exhausted layout layout.orderings layout.orderings (some e)), s')

/-- A search that has had retries for `done`, the last of them from `s₀`, and has `orders` ahead. -/
theorem searchFrom_outcome {attempt : Attempt σ ε} {Inv : σ → Prop} {layout : Layout}
    (hretry : attempt.Restores Inv)
    {orders done : List (List Profile)} {cursor : Cursor Profile} {last : Option ε} {s : σ}
    (hall : all layout.flatten = done ++ orders) (hdone : ∀ o ∈ done, attempt.Retries Inv o)
    (hs : Inv s) (hcursor : cursor.Yields orders)
    (hlast : orders = [] → ∃ before order s₀ e, done = before ++ [order] ∧ Inv s₀ ∧
      attempt order s₀ = (.retry e, s) ∧ last = some e) :
    SearchOutcome attempt Inv layout
      (searchFrom attempt layout layout.orderings orders.length done.length last cursor s) := by
  induction orders generalizing done cursor last s with
  | nil =>
    obtain ⟨before, order, s₀, e, rfl, hs₀, hattempt, rfl⟩ := hlast rfl
    have hlen : (before ++ [order]).length = layout.orderings := by
      rw [← length_all_flatten, hall, List.append_nil]
    rw [hlen]
    exact .exhausted (by rw [hall, List.append_nil]) (fun o ho => hdone o (by simp [ho])) hs₀
      hattempt hs
  | cons order orders ih =>
    obtain ⟨rfl, hcursor⟩ := hcursor
    rw [List.length_cons, searchFrom_some]
    rcases hattempt : attempt order s with ⟨_ | e | e, s'⟩
    · exact .accepted hall hdone hs hattempt
    · have hlen : done.length + 1 = (done ++ [order]).length := by simp
      simp only [hlen]
      refine ih (by rw [hall, List.append_assoc, List.singleton_append]) (fun o ho => ?_)
        (hretry order s e s' hs hattempt) hcursor
        fun _ => ⟨done, order, s, e, rfl, hs, hattempt, rfl⟩
      rcases List.mem_append.1 ho with ho | ho
      · exact hdone o ho
      · exact ⟨s, e, s', hs, List.mem_singleton.1 ho ▸ hattempt⟩
    · exact .aborted hall hdone hs hattempt

/-- What holds at the start and again after every attempt that is to be retried holds before
every attempt. -/
theorem searchOrders_outcome {attempt : Attempt σ ε} {Inv : σ → Prop} {layout : Layout}
    (h : layout.orderings < UInt64.size) (hretry : attempt.Restores Inv) {s : σ} (hs : Inv s) :
    SearchOutcome attempt Inv layout ((searchOrders layout attempt).run s) := by
  by_cases hempty : layout = .empty
  · have hrun := (searchOrders_eq h attempt s).trans (if_pos hempty)
    rw [StateT.run, hrun]
    exact .empty hempty hs
  · have hne : ¬ layout.flatten.isEmpty = true := by
      rwa [List.isEmpty_iff, Layout.flatten_eq_nil_iff]
    rw [searchOrders, if_neg hne, count_multiplicities h, StateT.run]
    nth_rewrite 2 [← length_all_flatten]
    exact searchFrom_outcome hretry (List.nil_append (all layout.flatten)).symm (by simp) hs
      (yields_all layout.flatten) fun hnil => absurd hnil (all_flatten_ne_nil layout)

end GpuPartition
