/-
The step in place is the successor in lexicographic order, and it never leads off the row.

Within a non-increasing part of the row the first scan goes on to its start (`Row.pivot_append`),
and over items that are not above the one in front the second scan goes on to the first that is
(`Row.successor_append`). Where there is a next arrangement, the row comes apart at the places where
the scans stop (`next?_eq_some_split`), so that the exchange and the turn make what `next?` gives
(`Row.advance_eq`).
-/
import GpuPartition.Arrangement.Row
import GpuPartition.Proofs.Arrangement.Successor
import GpuPartition.Proofs.Reading

namespace GpuPartition.Arrangement

variable {α : Type} [LinearOrder α]

/-- Where there is a next arrangement, a non-increasing end stands behind an item `a`. Of that end
the items up to `b` are above `a`, and the others are not. -/
theorem next?_eq_some_split {v w : List α} (h : next? v = some w) :
    ∃ before a above b below, v = before ++ a :: (above ++ b :: below) ∧
      (above ++ b :: below).Pairwise (· ≥ ·) ∧ (∀ x ∈ above, a < x) ∧ a < b ∧
      (∀ x ∈ below, x ≤ a) ∧ w = before ++ b :: (below.reverse ++ a :: above.reverse) := by
  induction v generalizing w with
  | nil => simp [next?] at h
  | cons c rest ih =>
    rcases next?_cons_eq_some h with ⟨rest', hr, rfl⟩ | ⟨hr, h⟩
    · obtain ⟨before, a, above, b, below, rfl, hend, habove, hab, hbelow, rfl⟩ := ih hr
      exact ⟨c :: before, a, above, b, below, rfl, hend, habove, hab, hbelow, rfl⟩
    · have hend := next?_eq_none_iff.1 hr
      obtain ⟨above, b, below, hrest, habove, hab, hbelow, rfl⟩ := replaceHead?_eq_some h
      exact ⟨[], c, above, b, below, by rw [hrest, List.nil_append], hrest ▸ hend, habove, hab,
        hbelow ▸ dropWhile_lt_le hend, rfl⟩

namespace Row

variable {row before rest : List α} {a b : α} {i front : Nat}

omit [LinearOrder α] in
theorem getElem?_append_add (left rest : List α) (k : Nat) :
    (left ++ rest)[left.length + k]? = rest[k]? := by
  rw [List.getElem?_append_right (Nat.le_add_right _ _), Nat.add_sub_cancel_left]

/-! ## One turn of a scan -/

theorem pivot_succ (ha : row[i]? = some a) (hb : row[i + 1]? = some b) :
    pivot row (i + 1) = if a < b then .ok (i + 1) else pivot row i := by
  simp only [pivot, item, ha, hb]
  rfl

theorem successor_of_lt (ha : row[front]? = some a) (hb : row[i]? = some b) (hab : a < b) :
    successor row front i = .ok i := by
  rw [successor.eq_def]
  simp only [item, ha, hb]
  exact if_pos hab

theorem successor_succ (ha : row[front]? = some a) (hb : row[i + 1]? = some b) (hba : b ≤ a) :
    successor row front (i + 1) = successor row front i := by
  rw [successor.eq_def]
  simp only [item, ha, hb]
  exact if_neg (not_lt.2 hba)

/-! ## The scans -/

/-- In a non-increasing part of the row the scan goes on to its start. -/
theorem pivot_append (before : List α) (hrest : rest.Pairwise (· ≥ ·)) {k : Nat}
    (hk : k < rest.length) :
    pivot (before ++ rest) (before.length + k) = pivot (before ++ rest) before.length := by
  induction k with
  | zero => rfl
  | succ k ih =>
    have hle : rest[k + 1] ≤ rest[k] :=
      List.pairwise_iff_getElem.1 hrest k (k + 1) _ hk k.lt_succ_self
    have hitem : (before ++ rest)[before.length + k]? = some rest[k] := by
      rw [getElem?_append_add, List.getElem?_eq_getElem]
    have hitem' : (before ++ rest)[before.length + k + 1]? = some rest[k + 1] := by
      rw [Nat.add_assoc, getElem?_append_add, List.getElem?_eq_getElem]
    rw [← Nat.add_assoc, pivot_succ hitem hitem', if_neg (not_lt.2 hle)]
    exact ih (Nat.lt_of_succ_lt hk)

/-- From the end of the row the scan goes on to the non-increasing end behind a lesser item. -/
theorem pivot_eq {c : α} (hrest : rest.Pairwise (· ≥ ·)) (hc : rest[0]? = some c) (hac : a < c) :
    pivot (before ++ a :: rest) (before.length + rest.length) = .ok (before.length + 1) := by
  obtain ⟨hpos, -⟩ := List.getElem?_eq_some_iff.1 hc
  -- The scan goes on to the first item of `rest`, and one turn more finds `a` below it.
  have hscan := pivot_append (before ++ [a]) hrest (Nat.sub_lt hpos Nat.one_pos)
  have hstart : before.length + 1 + (rest.length - 1) = before.length + rest.length := by omega
  rw [List.append_assoc, List.singleton_append, List.length_append, List.length_singleton,
    hstart] at hscan
  have hitem : (before ++ a :: rest)[before.length]? = some a := getElem?_append_add before _ 0
  have hitem' : (before ++ a :: rest)[before.length + 1]? = some c :=
    (getElem?_append_add before _ 1).trans hc
  rw [hscan, pivot_succ hitem hitem', if_pos hac]

/-- Over items that are not above the one in front the scan goes on to the item that is. -/
theorem successor_append {left below : List α} (ha : (left ++ b :: below)[front]? = some a)
    (hab : a < b) (hbelow : ∀ x ∈ below, x ≤ a) {k : Nat} (hk : k ≤ below.length) :
    successor (left ++ b :: below) front (left.length + k) = .ok left.length := by
  induction k with
  | zero =>
    have hitem : (left ++ b :: below)[left.length]? = some b := by simp
    exact successor_of_lt ha hitem hab
  | succ k ih =>
    have hitem : (left ++ b :: below)[left.length + k + 1]? = some below[k] := by
      rw [Nat.add_assoc, getElem?_append_add, List.getElem?_cons_succ, List.getElem?_eq_getElem]
    rw [← Nat.add_assoc, successor_succ ha hitem (hbelow _ (List.getElem_mem hk))]
    exact ih (Nat.le_of_succ_le hk)

/-! ## The changes -/

omit [LinearOrder α] in
theorem exchange_append (before above below : List α) (a b : α) :
    exchange (before ++ a :: (above ++ b :: below)) before.length
        (before.length + (above.length + 1)) =
      .ok (before ++ b :: (above ++ a :: below)) := by
  have hitem : (before ++ a :: (above ++ b :: below))[before.length]? = some a :=
    getElem?_append_add before _ 0
  have hitem' : (before ++ a :: (above ++ b :: below))[before.length + (above.length + 1)]? =
      some b :=
    (getElem?_append_add before _ _).trans (getElem?_append_add above _ 0)
  simp only [exchange, item, hitem, hitem']
  change Except.ok _ = _
  simp [List.set_append_right]

omit [LinearOrder α] in
theorem turn_append (before rest : List α) :
    turn (before ++ rest) before.length = .ok (before ++ rest.reverse) := by
  simp [turn]

/-! ## The step -/

theorem pivot_of_nonincreasing {v : List α} (hv : v.Pairwise (· ≥ ·)) :
    pivot v (v.length - 1) = .ok 0 := by
  cases v with
  | nil => rfl
  | cons a v =>
    have hscan := pivot_append [] hv (Nat.lt_succ_self v.length)
    rw [List.nil_append, List.length_nil, Nat.zero_add] at hscan
    exact hscan

theorem advance_of_nonincreasing {v : List α} (hv : v.Pairwise (· ≥ ·)) :
    advance v = .ok (false, v) := by
  rw [advance, pivot_of_nonincreasing hv]
  split <;> rfl

section Split

variable {above below : List α}

theorem pivot_split (hend : (above ++ b :: below).Pairwise (· ≥ ·)) (habove : ∀ x ∈ above, a < x)
    (hab : a < b) :
    pivot (before ++ a :: (above ++ b :: below))
        ((before ++ a :: (above ++ b :: below)).length - 1) = .ok (before.length + 1) := by
  -- The end starts with an item above `a`, be it `b` or one in front of `b`.
  obtain ⟨c, hc, hac⟩ : ∃ c, (above ++ b :: below)[0]? = some c ∧ a < c := by
    cases above with
    | nil => exact ⟨b, rfl, hab⟩
    | cons c above => exact ⟨c, rfl, habove c List.mem_cons_self⟩
  rw [List.length_append, List.length_cons, ← Nat.add_assoc, Nat.add_sub_cancel]
  exact pivot_eq hend hc hac

theorem successor_split (hab : a < b) (hbelow : ∀ x ∈ below, x ≤ a) :
    successor (before ++ a :: (above ++ b :: below)) before.length
        ((before ++ a :: (above ++ b :: below)).length - 1) =
      .ok (before.length + (above.length + 1)) := by
  have hfront : ((before ++ a :: above) ++ b :: below)[before.length]? = some a := by simp
  have hscan := successor_append hfront hab hbelow (Nat.le_refl _)
  have hlast : (before ++ a :: (above ++ b :: below)).length - 1 =
      (before ++ a :: above).length + below.length := by
    simp only [List.length_append, List.length_cons]
    omega
  rw [hlast]
  simpa using hscan

theorem advance_split (hend : (above ++ b :: below).Pairwise (· ≥ ·))
    (habove : ∀ x ∈ above, a < x) (hab : a < b) (hbelow : ∀ x ∈ below, x ≤ a) :
    advance (before ++ a :: (above ++ b :: below)) =
      .ok (true, before ++ b :: (below.reverse ++ a :: above.reverse)) := by
  have hturn : turn (before ++ b :: (above ++ a :: below)) (before.length + 1) =
      .ok (before ++ b :: (below.reverse ++ a :: above.reverse)) := by
    simpa using turn_append (before ++ [b]) (above ++ a :: below)
  have hlen : ¬ (before ++ a :: (above ++ b :: below)).length < 2 := by
    simp only [List.length_append, List.length_cons]
    omega
  rw [advance, if_neg hlen]
  exact except_bind_eq_ok.2 ⟨_, pivot_split hend habove hab, except_bind_eq_ok.2
    ⟨_, successor_split hab hbelow, except_bind_eq_ok.2
      ⟨_, exchange_append before above below a b, except_bind_eq_ok.2 ⟨_, hturn, rfl⟩⟩⟩⟩

end Split

/-- The step in place and the next arrangement are one. -/
theorem advance_eq (v : List α) : advance v = .ok ((next? v).isSome, (next? v).getD v) := by
  cases h : next? v with
  | none => exact advance_of_nonincreasing (next?_eq_none_iff.1 h)
  | some w =>
    obtain ⟨before, a, above, b, below, rfl, hend, habove, hab, hbelow, rfl⟩ :=
      next?_eq_some_split h
    exact advance_split hend habove hab hbelow

/-- From the last place of the row the first scan stops at a place of the row. If that is not the
first one, the second scan stops behind the item in front of it. -/
theorem scans_stop {v : List α} {last : Nat} (hlast : v.length = last + 1) :
    ∃ i ≤ last, pivot v last = .ok i ∧
      ∀ front, i = front + 1 → ∃ j ≤ last, front < j ∧ successor v front last = .ok j := by
  obtain rfl : v.length - 1 = last := by omega
  cases h : next? v with
  | none =>
    exact ⟨0, Nat.zero_le _, pivot_of_nonincreasing (next?_eq_none_iff.1 h), fun _ h => nomatch h⟩
  | some w =>
    obtain ⟨before, a, above, b, below, rfl, hend, habove, hab, hbelow, -⟩ :=
      next?_eq_some_split h
    have hlen : before.length + (above.length + 1) ≤
        (before ++ a :: (above ++ b :: below)).length - 1 := by
      simp only [List.length_append, List.length_cons]
      omega
    refine ⟨_, Nat.le_trans (by omega) hlen, pivot_split hend habove hab, fun front hfront => ?_⟩
    obtain rfl := Nat.succ.inj hfront
    exact ⟨_, hlen, by omega, successor_split hab hbelow⟩

/-- **The step in place is the successor.** It never leads off the row: from the last place both
scans stop at places of the row, the second behind the item in front of the pivot. A row that is
non-increasing is left as it is, and the step says that there is no next arrangement. Any other row
becomes a greater rearrangement of itself, with no rearrangement in between, the one that `next?`
gives. -/
theorem advance_is_successor (v : List α) :
    (∀ last, v.length = last + 1 → ∃ i ≤ last, pivot v last = .ok i ∧
      ∀ front, i = front + 1 → ∃ j ≤ last, front < j ∧ successor v front last = .ok j) ∧
    advance v = .ok ((next? v).isSome, (next? v).getD v) ∧
    (v.Pairwise (· ≥ ·) → advance v = .ok (false, v)) ∧
    (¬ v.Pairwise (· ≥ ·) → ∃ w, advance v = .ok (true, w) ∧ w.Perm v ∧ v < w ∧
      ∀ u, u.Perm v → ¬ (v < u ∧ u < w)) := by
  refine ⟨fun last => scans_stop, advance_eq v, advance_of_nonincreasing, fun hv => ?_⟩
  obtain ⟨w, hw⟩ := Option.ne_none_iff_exists'.1 fun h => hv (next?_eq_none_iff.1 h)
  refine ⟨w, by rw [advance_eq, hw]; rfl, perm_of_next? hw, lt_of_next? hw, fun u hu => ?_⟩
  rintro ⟨hvu, huw⟩
  exact absurd huw (not_lt.2 (le_of_next? hw hu hvu))

/-- Items that occur twice, in front of the place where the second scan stops and behind it. -/
theorem advance_is_successor_repeated :
    let v := [1, 3, 3, 2, 1]
    let w := [2, 1, 1, 3, 3]
    let greatest := [3, 3, 2, 1, 1]
    v.length = 4 + 1 ∧ (∃ i ≤ 4, pivot v 4 = .ok i) ∧ ¬ v.Pairwise (· ≥ ·) ∧
      advance v = .ok (true, w) ∧ v < w ∧ (∀ u, u.Perm v → ¬ (v < u ∧ u < w)) ∧
      greatest.Pairwise (· ≥ ·) ∧ advance greatest = .ok (false, greatest) := by
  intro v w greatest
  have hv : ¬ v.Pairwise (· ≥ ·) := by decide
  have hgreatest : greatest.Pairwise (· ≥ ·) := by decide
  have hstep : advance v = .ok (true, w) := by rfl
  obtain ⟨hscans, -, -, hnext⟩ := advance_is_successor v
  obtain ⟨i, hi, hpivot, -⟩ := hscans 4 rfl
  obtain ⟨w', hstep', -, hlt, hbetween⟩ := hnext hv
  obtain rfl : w = w' := by cases hstep.symm.trans hstep'; rfl
  exact ⟨rfl, ⟨i, hi, hpivot⟩, hv, hstep, hlt, hbetween, hgreatest,
    (advance_is_successor greatest).2.2.1 hgreatest⟩

end Row

end GpuPartition.Arrangement
