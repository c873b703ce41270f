/-
What the targets of a named config are, when it resolves (`Config.Resolved`): in order of device
indices, one for each device that some entry selects, and it is what that entry asks for. Every
layout asked for is one the model admits. How many devices no entry selects is said by
`Resolved.length_add_unselected`.
-/
import Mathlib.Data.List.Perm.Basic
import Mathlib.Data.List.Nodup
import GpuPartition.Config
import GpuPartition.Proofs.Layout
import GpuPartition.Proofs.Reading

namespace GpuPartition

/-! ## What an entry asks for -/

/-- Whether the device is one of those selected. The word is for all of them. -/
def Selector.selects (i : Nat) : Selector → Bool
  | .named word => word.toList.map Char.toLower = ['a', 'l', 'l']
  | .indices is => i ∈ is

/-- The target an entry gives a device. With the mode off its layout is the empty one. -/
def Entry.target (e : Entry) (i : Nat) : Target :=
  ⟨i, e.enabled, if e.enabled then e.layout else .empty⟩

/-- Whether some entry selects the device. -/
def anySelects (entries : List Entry) (i : Nat) : Bool := entries.any (·.devices.selects i)

/-- The model admits the layout of the target, which is the empty one with the mode off. -/
structure Target.Suits (m : Model) (t : Target) : Prop where
  on : t.enabled = true → ∃ used, m.check t.layout = .ok used
  off : t.enabled = false → t.layout = .empty

theorem Selector.mem_resolve {selector : Selector} {config : String} {count : Nat} {is : List Nat}
    (h : selector.resolve config count = .ok is) (i : Nat) :
    i ∈ is ↔ i < count ∧ selector.selects i = true := by
  cases selector with
  | named word =>
    rw [Selector.resolve] at h
    split at h
    next hword =>
      obtain rfl := Except.ok.inj h
      simp [selects, hword]
    next => cases h
  | indices js =>
    rw [Selector.resolve] at h
    split at h
    · cases h
    · next hfind =>
      obtain rfl := Except.ok.inj h
      have hlt : ∀ j ∈ js, j < count := by simpa using hfind
      simpa [selects] using hlt i

theorem Entry.layoutOn_eq_ok {e : Entry} {config : String} {m : Model} {l : Layout} :
    e.layoutOn config m = .ok l ↔
      (e.enabled = true → ∃ used, m.check e.layout = .ok used) ∧
      l = if e.enabled then e.layout else .empty := by
  rw [layoutOn]
  cases e.enabled with
  | false => simp [eq_comm]
  | true => cases m.check e.layout <;> simp [eq_comm]

theorem Entry.target_suits {e : Entry} {m : Model}
    (h : e.enabled = true → ∃ used, m.check e.layout = .ok used) (i : Nat) :
    (e.target i).Suits m where
  on hon := by
    have hon : e.enabled = true := hon
    rw [target, if_pos hon]
    exact h hon
  off hoff := by
    have hoff : e.enabled = false := hoff
    rw [target, hoff]
    rfl

namespace Config

variable {config name : String} {m : Model} {count : Nat} {entries : List Entry}
  {targets targets' : SortedMap Nat Target} {ts : List Target}

/-! ## Adding targets -/

theorem assign_eq_ok {enabled : Bool} {layout : Layout} {is : List Nat}
    (h : assign config enabled layout targets is = .ok targets') :
    is.Nodup ∧ (∀ i ∈ is, targets.find? i = none) ∧
      ∀ j, targets'.find? j = if j ∈ is then some ⟨j, enabled, layout⟩ else targets.find? j := by
  induction is generalizing targets with
  | nil =>
    obtain rfl := Except.ok.inj h
    simp
  | cons i is ih =>
    rw [assign] at h
    split at h
    · cases h
    · next hnone =>
      obtain ⟨hnodup, hfree, hfind⟩ := ih h
      have hne : ∀ j ∈ is, i ≠ j ∧ targets.find? j = none := fun j hj => by
        have := hfree j hj
        rw [SortedMap.find?_insert] at this
        split at this
        · cases this
        · exact ⟨‹_›, this⟩
      refine ⟨List.nodup_cons.2 ⟨fun hmem => (hne i hmem).1 rfl, hnodup⟩, ?_, fun j => ?_⟩
      · exact List.forall_mem_cons.2 ⟨hnone, fun j hj => (hne j hj).2⟩
      · rw [hfind, SortedMap.find?_insert]
        by_cases hj : j ∈ is
        · simp [hj]
        · by_cases hij : i = j
          · simp [hij]
          · simp [hj, hij, Ne.symm hij]

/-- The targets of one entry. -/
theorem find?_of_assign {e : Entry} {is : List Nat} {layout : Layout}
    (hlayout : e.layoutOn config m = .ok layout)
    (hdevices : e.devices.resolve config count = .ok is)
    (h : assign config e.enabled layout targets is = .ok targets') (i : Nat) (t : Target) :
    targets'.find? i = some t ↔
      targets.find? i = some t ∨ i < count ∧ e.devices.selects i = true ∧ t = e.target i := by
  obtain ⟨-, hfree, hfind⟩ := assign_eq_ok h
  obtain ⟨-, rfl⟩ := Entry.layoutOn_eq_ok.1 hlayout
  rw [hfind, ← and_assoc, ← Selector.mem_resolve hdevices]
  split
  next hmem =>
    rw [hfree i hmem, Option.some.injEq]
    change e.target i = t ↔ _
    simp [hmem, eq_comm]
  next hmem => simp [hmem]

theorem addEntries_eq_ok (h : addEntries config m count targets entries = .ok targets') :
    (∀ e ∈ entries, e.enabled = true → ∃ used, m.check e.layout = .ok used) ∧
      ∀ i t, targets'.find? i = some t ↔ targets.find? i = some t ∨
        i < count ∧ ∃ e ∈ entries, e.devices.selects i = true ∧ t = e.target i := by
  induction entries generalizing targets with
  | nil =>
    obtain rfl := Except.ok.inj h
    simp
  | cons e entries ih =>
    obtain ⟨layout, hlayout, h⟩ := except_bind_eq_ok.1 h
    obtain ⟨is, hdevices, h⟩ := except_bind_eq_ok.1 h
    obtain ⟨targets₁, hassign, h⟩ := except_bind_eq_ok.1 h
    obtain ⟨hadmitted, hfind⟩ := ih h
    refine ⟨List.forall_mem_cons.2 ⟨(Entry.layoutOn_eq_ok.1 hlayout).1, hadmitted⟩, fun i t => ?_⟩
    rw [hfind, find?_of_assign hlayout hdevices hassign]
    simp only [List.mem_cons, exists_eq_or_imp, and_or_left, or_assoc]

/-! ## Targets of a config that resolves -/

/-- The targets are those the entries ask for, one for each selected device, by device index. -/
structure Resolved (m : Model) (count : Nat) (entries : List Entry) (ts : List Target) : Prop where
  increasing : (ts.map Target.index).Pairwise (· < ·)
  mem_iff : ∀ t, t ∈ ts ↔
    t.index < count ∧ ∃ e ∈ entries, e.devices.selects t.index = true ∧ t = e.target t.index
  admitted : ∀ e ∈ entries, e.enabled = true → ∃ used, m.check e.layout = .ok used

theorem resolve_eq_ok {c : Config} (h : c.resolve name m count = .ok ts) :
    ∃ entries, c.configs.find? name = some entries ∧ Resolved m count entries ts := by
  rw [resolve] at h
  split at h
  · cases h
  next entries hentries =>
    refine ⟨entries, hentries, ?_⟩
    cases hadd : addEntries name m count .empty entries with
    | error e => rw [hadd] at h; cases h
    | ok targets =>
      rw [hadd] at h
      obtain rfl : targets.values = ts := Except.ok.inj h
      obtain ⟨hadmitted, hfind⟩ := addEntries_eq_ok hadd
      simp only [SortedMap.find?_empty, reduceCtorEq, false_or] at hfind
      have hindex : ∀ i t, targets.find? i = some t → t.index = i := fun i t ht => by
        obtain ⟨-, e, -, -, rfl⟩ := (hfind i t).1 ht
        rfl
      refine ⟨?_, fun t => ?_, hadmitted⟩
      · have hkeys : targets.values.map Target.index = targets.keys := by
          rw [SortedMap.values, SortedMap.keys, List.map_map]
          exact List.map_congr_left fun e he => hindex e.1 e.2 (SortedMap.mem_toList_iff.1 he)
        rw [hkeys]
        exact List.pairwise_map.2 targets.sorted
      · rw [SortedMap.mem_values_iff]
        constructor
        · rintro ⟨i, ht⟩
          obtain rfl := hindex i t ht
          exact (hfind _ t).1 ht
        · exact fun ht => ⟨t.index, (hfind _ t).2 ht⟩

namespace Resolved

variable (h : Resolved m count entries ts)

include h

theorem distinct : (ts.map Target.index).Nodup := h.increasing.imp ne_of_lt

theorem index_lt {t : Target} (ht : t ∈ ts) : t.index < count := ((h.mem_iff t).1 ht).1

theorem suits {t : Target} (ht : t ∈ ts) : t.Suits m := by
  obtain ⟨-, e, he, -, heq⟩ := (h.mem_iff t).1 ht
  exact heq ▸ Entry.target_suits (h.admitted e he) _

/-- The devices with a target are those some entry selects. -/
theorem indices_eq : ts.map Target.index = (List.range count).filter (anySelects entries) := by
  refine List.Perm.eq_of_pairwise' h.increasing (List.pairwise_lt_range.filter _) ?_
  refine (List.perm_ext_iff_of_nodup h.distinct (List.nodup_range.filter _)).2 fun i => ?_
  rw [List.mem_map, List.mem_filter, List.mem_range, anySelects, List.any_eq_true]
  constructor
  · rintro ⟨t, ht, rfl⟩
    obtain ⟨hlt, e, he, hselects, -⟩ := (h.mem_iff t).1 ht
    exact ⟨hlt, e, he, hselects⟩
  · rintro ⟨hlt, e, he, hselects⟩
    exact ⟨e.target i, (h.mem_iff _).2 ⟨hlt, e, he, hselects, rfl⟩, rfl⟩

/-- Targets and devices that no entry selects make up all devices. -/
theorem length_add_unselected :
    ts.length + (List.range count).countP (!anySelects entries ·) = count := by
  have hlength := congrArg List.length h.indices_eq
  rw [List.length_map, ← List.countP_eq_length_filter] at hlength
  have htotal := List.length_eq_countP_add_countP (anySelects entries) (l := List.range count)
  rw [List.length_range] at htotal
  simp only [Bool.not_eq_true, Bool.decide_eq_false] at htotal
  rw [hlength, ← htotal]

end Resolved

end Config

end GpuPartition
