/-
Results that are values or errors, one after another. A list is read item by item exactly if each
item is read (`mapM_eq_ok_iff`), so each item has its result (`read_of_mapM_eq_ok`) and each result
its item (`source_of_mapM_eq_ok`), whatever their order (`mapM_perm`). What goes wrong does so at one of the items
(`exists_of_mapM_eq_error`), and those before it are read (`mapM_eq_error_iff`). So it is with items
that are only looked at (`forM_eq_error_iff`), and with a state that is carried from item to item
(`foldlM_eq_error_iff`).
-/
import Mathlib.Data.List.Perm.Basic

namespace GpuPartition

variable {ε α β : Type}

theorem except_bind_eq_ok {x : Except ε α} {f : α → Except ε β} {b : β} :
    (x >>= f) = .ok b ↔ ∃ a, x = .ok a ∧ f a = .ok b := by
  change Except.bind x f = _ ↔ _
  cases x <;> simp [Except.bind]

theorem except_bind_eq_error {x : Except ε α} {f : α → Except ε β} {e : ε} :
    (x >>= f) = .error e ↔ x = .error e ∨ ∃ a, x = .ok a ∧ f a = .error e := by
  change Except.bind x f = _ ↔ _
  cases x <;> simp [Except.bind]

theorem except_bind_pure_eq_error {x : Except ε α} {f : α → β} {e : ε} :
    (x >>= fun a => pure (f a)) = .error e ↔ x = .error e := by
  rw [except_bind_eq_error]
  exact or_iff_left fun ⟨_, _, h⟩ => nomatch h

theorem mapM_eq_ok_iff {f : α → Except ε β} {xs : List α} {ys : List β} :
    xs.mapM f = .ok ys ↔ List.Forall₂ (fun x y => f x = .ok y) xs ys := by
  induction xs generalizing ys with
  | nil =>
    rw [List.mapM_nil, List.forall₂_nil_left_iff]
    exact ⟨fun h => (Except.ok.inj h).symm, fun h => h ▸ rfl⟩
  | cons x xs ih =>
    rw [List.mapM_cons, except_bind_eq_ok, List.forall₂_cons_left_iff]
    refine exists_congr fun y => ?_
    rw [except_bind_eq_ok]
    constructor
    · rintro ⟨hx, ys', hxs, hys⟩
      exact ⟨ys', hx, ih.1 hxs, (Except.ok.inj hys).symm⟩
    · rintro ⟨ys', hx, hxs, rfl⟩
      exact ⟨hx, ys', ih.2 hxs, rfl⟩

theorem exists_of_mapM_eq_error {f : α → Except ε β} {xs : List α} {e : ε}
    (h : xs.mapM f = .error e) : ∃ x ∈ xs, f x = .error e := by
  induction xs with
  | nil => cases h
  | cons x xs ih =>
    rw [List.mapM_cons, except_bind_eq_error] at h
    rcases h with hx | ⟨y, -, h⟩
    · exact ⟨x, List.mem_cons_self, hx⟩
    · rcases except_bind_eq_error.1 h with hxs | ⟨ys, -, h⟩
      · obtain ⟨x', hmem, hx'⟩ := ih hxs
        exact ⟨x', List.mem_cons_of_mem _ hmem, hx'⟩
      · cases h

theorem exists_of_forall₂ {r : α → β → Prop} {xs : List α} {ys : List β}
    (h : List.Forall₂ r xs ys) : ∀ x ∈ xs, ∃ y ∈ ys, r x y := by
  induction h with
  | nil => exact fun x hx => absurd hx List.not_mem_nil
  | @cons x y _ _ hx _ ih =>
    refine List.forall_mem_cons.2 ⟨⟨y, List.mem_cons_self, hx⟩, fun x' hx' => ?_⟩
    obtain ⟨y', hy', hread⟩ := ih x' hx'
    exact ⟨y', List.mem_cons_of_mem _ hy', hread⟩

theorem read_of_mapM_eq_ok {f : α → Except ε β} {xs : List α} {ys : List β}
    (h : xs.mapM f = .ok ys) : ∀ x ∈ xs, ∃ y ∈ ys, f x = .ok y :=
  exists_of_forall₂ (mapM_eq_ok_iff.1 h)

theorem source_of_mapM_eq_ok {f : α → Except ε β} {xs : List α} {ys : List β}
    (h : xs.mapM f = .ok ys) : ∀ y ∈ ys, ∃ x ∈ xs, f x = .ok y :=
  exists_of_forall₂ (mapM_eq_ok_iff.1 h).flip

/-- Items are read as what they are related to, if the relation says so of each. -/
theorem mapM_of_forall₂ {f : α → Except ε β} {R : β → α → Prop} {xs : List α} {ys : List β}
    (h : List.Forall₂ R ys xs) (hread : ∀ y ∈ ys, ∀ x, R y x → f x = .ok y) :
    xs.mapM f = .ok ys := by
  have hreads := ((List.forall₂_and_left _ _).2 ⟨hread, h⟩).flip
  exact mapM_eq_ok_iff.2 (hreads.imp fun x y ⟨hy, hxy⟩ => hy x hxy)

/-- Items in another order are read as the same results in another order. -/
theorem mapM_perm {f : α → Except ε β} {xs xs' : List α} {ys : List β} (h : xs.mapM f = .ok ys)
    (hperm : xs'.Perm xs) : ∃ ys', xs'.mapM f = .ok ys' ∧ ys'.Perm ys := by
  obtain ⟨ys', hread, hys⟩ := List.perm_comp_forall₂ hperm (mapM_eq_ok_iff.1 h)
  exact ⟨ys', mapM_eq_ok_iff.2 hread, hys⟩

/-! ## The item that goes wrong -/

/-- A split of a list with a head is at the head or in the tail. -/
theorem exists_split_cons {P : List α → α → Prop} {y : α} {ys : List α} :
    (∃ before x after, y :: ys = before ++ x :: after ∧ P before x) ↔
      P [] y ∨ ∃ before x after, ys = before ++ x :: after ∧ P (y :: before) x := by
  constructor
  · rintro ⟨before, x, after, hsplit, h⟩
    cases before with
    | nil =>
      obtain ⟨rfl, rfl⟩ := List.cons.inj hsplit
      exact .inl h
    | cons z before =>
      obtain ⟨rfl, rfl⟩ := List.cons.inj hsplit
      exact .inr ⟨before, x, after, rfl, h⟩
  · rintro (h | ⟨before, x, after, rfl, h⟩)
    · exact ⟨[], y, ys, rfl, h⟩
    · exact ⟨y :: before, x, after, rfl, h⟩

theorem mapM_eq_error_iff {f : α → Except ε β} {xs : List α} {e : ε} :
    xs.mapM f = .error e ↔ ∃ before x after, xs = before ++ x :: after ∧
      ((∀ y ∈ before, ∃ z, f y = .ok z) ∧ f x = .error e) := by
  induction xs with
  | nil => simp [pure, Except.pure]
  | cons x xs ih =>
    rw [exists_split_cons, List.mapM_cons, except_bind_eq_error]
    refine or_congr (by simp) ?_
    simp only [List.forall_mem_cons, and_assoc]
    constructor
    · rintro ⟨y, hy, h⟩
      rcases except_bind_eq_error.1 h with h | ⟨ys, -, h⟩
      · obtain ⟨before, x', after, hsplit, hbefore, hx'⟩ := ih.1 h
        exact ⟨before, x', after, hsplit, ⟨y, hy⟩, hbefore, hx'⟩
      · cases h
    · rintro ⟨before, x', after, hsplit, ⟨y, hy⟩, hbefore, hx'⟩
      exact ⟨y, hy, except_bind_eq_error.2 (.inl (ih.2 ⟨before, x', after, hsplit, hbefore, hx'⟩))⟩

theorem forM_eq_ok_iff {f : α → Except ε Unit} {xs : List α} :
    xs.forM f = .ok () ↔ ∀ x ∈ xs, f x = .ok () := by
  induction xs with
  | nil => simp [pure, Except.pure]
  | cons x xs ih =>
    rw [List.forM, except_bind_eq_ok, List.forall_mem_cons, ← ih]
    exact ⟨fun ⟨_, hx, hxs⟩ => ⟨hx, hxs⟩, fun ⟨hx, hxs⟩ => ⟨(), hx, hxs⟩⟩

theorem forM_eq_error_iff {f : α → Except ε Unit} {xs : List α} {e : ε} :
    xs.forM f = .error e ↔ ∃ before x after, xs = before ++ x :: after ∧
      ((∀ y ∈ before, f y = .ok ()) ∧ f x = .error e) := by
  induction xs with
  | nil => simp [pure, Except.pure]
  | cons x xs ih =>
    rw [exists_split_cons, List.forM, except_bind_eq_error]
    refine or_congr (by simp) ?_
    simp only [List.forall_mem_cons, and_assoc]
    constructor
    · rintro ⟨_, hx, h⟩
      obtain ⟨before, x', after, hsplit, hbefore, hx'⟩ := ih.1 h
      exact ⟨before, x', after, hsplit, hx, hbefore, hx'⟩
    · rintro ⟨before, x', after, hsplit, hx, hbefore, hx'⟩
      exact ⟨(), hx, ih.2 ⟨before, x', after, hsplit, hbefore, hx'⟩⟩

theorem foldlM_eq_error_iff {f : β → α → Except ε β} {xs : List α} {b : β} {e : ε} :
    xs.foldlM f b = .error e ↔ ∃ before x after, xs = before ++ x :: after ∧
      ∃ b', before.foldlM f b = .ok b' ∧ f b' x = .error e := by
  induction xs generalizing b with
  | nil => simp [pure, Except.pure]
  | cons x xs ih =>
    rw [exists_split_cons, List.foldlM_cons, except_bind_eq_error]
    refine or_congr (by simp [pure, Except.pure]) ?_
    simp only [List.foldlM_cons, except_bind_eq_ok]
    constructor
    · rintro ⟨b₁, hb₁, h⟩
      obtain ⟨before, x', after, hsplit, b', hb', hx'⟩ := ih.1 h
      exact ⟨before, x', after, hsplit, b', ⟨b₁, hb₁, hb'⟩, hx'⟩
    · rintro ⟨before, x', after, hsplit, b', ⟨b₁, hb₁, hb'⟩, hx'⟩
      exact ⟨b₁, hb₁, ih.2 ⟨before, x', after, hsplit, b', hb', hx'⟩⟩

end GpuPartition
