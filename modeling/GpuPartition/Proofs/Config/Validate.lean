/-
What validating a config says of resolving it (`Config.validate_agrees`). Both look at the entries
with their mode on and stop at the first whose layout the model does not admit. Validating goes
through all named configs in order of their names; resolving goes through one, and looks at selectors
and devices in between.

So a config that is valid resolves, if at all, without an invalid layout; and of the first name that
is not valid, resolving meets the same entry unless something else is wrong in front of it.
-/
import Mathlib.Data.String.Basic
import GpuPartition.Proofs.Config.Resolve

namespace GpuPartition

variable {c : Config} {config name : String} {m : Model} {count : Nat} {entries : List Entry}
  {cause : AdmissionError} {err : ConfigError}

/-! ## Entries -/

namespace Entry

/-- Why the model does not admit the layout of the first entry that has its mode on and a layout that
is not admitted. -/
inductive FirstRefused (m : Model) : List Entry → AdmissionError → Prop where
  | intro {before after : List Entry} {e : Entry} {cause : AdmissionError}
    (hbefore : ∀ e' ∈ before, e'.Admitted m) (hon : e.enabled = true)
    (h : m.check e.layout = .error cause) : FirstRefused m (before ++ e :: after) cause

theorem layoutOn_admitted {e : Entry} : (e.layoutOn config m >>= fun _ => pure ()) = .ok () ↔
    e.Admitted m := by
  rw [except_bind_eq_ok]
  constructor
  · rintro ⟨l, h, -⟩
    exact (layoutOn_eq_ok.1 h).1
  · exact fun h => ⟨_, layoutOn_eq_ok.2 ⟨h, rfl⟩, rfl⟩

theorem forM_eq_ok_iff_admitted :
    entries.forM (fun e => do let _ ← e.layoutOn config m) = .ok () ↔
      ∀ e ∈ entries, e.Admitted m := by
  rw [forM_eq_ok_iff]
  exact forall₂_congr fun e _ => layoutOn_admitted

theorem forM_eq_error_iff_refused :
    entries.forM (fun e => do let _ ← e.layoutOn config m) = .error err ↔
      ∃ cause, FirstRefused m entries cause ∧ err = .invalidLayout config cause := by
  simp only [forM_eq_error_iff, layoutOn_admitted, except_bind_pure_eq_error,
    layoutOn_eq_error_iff]
  constructor
  · rintro ⟨before, e, after, rfl, hbefore, hon, cause, hcause, rfl⟩
    exact ⟨cause, .intro hbefore hon hcause, rfl⟩
  · rintro ⟨cause, @⟨before, after, e, _, hbefore, hon, hcause⟩, rfl⟩
    exact ⟨before, e, after, rfl, hbefore, hon, cause, hcause, rfl⟩

end Entry

namespace Config

/-! ## Validating -/

theorem validate_eq_ok_iff : c.validate m = .ok () ↔
    ∀ named ∈ c.configs.toList, ∀ e ∈ named.2, e.Admitted m := by
  rw [validate, forM_eq_ok_iff]
  exact forall₂_congr fun named _ => Entry.forM_eq_ok_iff_admitted

/-- The first name in order of which some entry is refused, and why. -/
structure FirstInvalid (c : Config) (m : Model) (name : String) (entries : List Entry)
    (cause : AdmissionError) : Prop where
  found : c.configs.find? name = some entries
  refused : Entry.FirstRefused m entries cause
  before : ∀ name' entries', c.configs.find? name' = some entries' → name' < name →
    ∀ e ∈ entries', e.Admitted m

theorem validate_eq_error_iff : c.validate m = .error err ↔
    ∃ name entries cause, c.FirstInvalid m name entries cause ∧
      err = .invalidLayout name cause := by
  rw [validate, forM_eq_error_iff]
  simp only [Entry.forM_eq_ok_iff_admitted, Entry.forM_eq_error_iff_refused]
  constructor
  · rintro ⟨before, ⟨name, entries⟩, after, hsplit, hbefore, cause, hrefused, rfl⟩
    have hfound : (name, entries) ∈ c.configs.toList := by simp [hsplit]
    refine ⟨name, entries, cause, ⟨SortedMap.mem_toList_iff.1 hfound, hrefused, ?_⟩, rfl⟩
    intro name' entries' hfound' hlt
    exact hbefore (name', entries')
      ((SortedMap.mem_before_iff hsplit).2 ⟨SortedMap.mem_toList_iff.2 hfound', hlt⟩)
  · rintro ⟨name, entries, cause, ⟨hfound, hrefused, hbefore⟩, rfl⟩
    obtain ⟨before, after, hsplit⟩ := List.append_of_mem (SortedMap.mem_toList_iff.2 hfound)
    refine ⟨before, _, after, hsplit, fun named hnamed => ?_, cause, hrefused, rfl⟩
    obtain ⟨hmem, hlt⟩ := (SortedMap.mem_before_iff hsplit).1 hnamed
    exact hbefore _ _ (SortedMap.mem_toList_iff.1 hmem) hlt

/-! ## Resolving -/

/-- An entry is at fault with an invalid layout only where the model does not admit its layout. -/
theorem not_admitted_of_fault {e : Entry} {taken : List Nat}
    (h : e.Fault name m count taken (.invalidLayout config cause)) : ¬ e.Admitted m := by
  intro hadmitted
  cases h with
  | layout hon h =>
    obtain ⟨used, hused⟩ := hadmitted hon
    cases h.symm.trans hused
  | selector _ h =>
    generalize e.devices = selector at h
    cases h

/-- Entries of which one is refused do not resolve. -/
theorem exists_resolve_error (hfound : c.configs.find? name = some entries)
    (h : Entry.FirstRefused m entries cause) (count : Nat) :
    ∃ err, c.resolve name m count = .error err := by
  cases hresolve : c.resolve name m count with
  | error err => exact ⟨err, rfl⟩
  | ok ts =>
    obtain ⟨hresolvable, -⟩ := (resolve_eq_ok_iff hfound).1 hresolve
    obtain ⟨-, hon, hcause⟩ := h
    obtain ⟨used, hused⟩ := hresolvable.admitted _ (by simp) hon
    cases hcause.symm.trans hused

/-- Where the selectors are in order, resolving fails at the first entry that is refused. -/
theorem resolve_eq_of_refused (hfound : c.configs.find? name = some entries)
    (h : Entry.FirstRefused m entries cause) (hvalid : ∀ e ∈ entries, e.devices.Valid count)
    (hdistinct : (selected count entries).Nodup) :
    c.resolve name m count = .error (.invalidLayout name cause) := by
  obtain @⟨before, after, e, _, hbefore, hon, hcause⟩ := h
  refine (resolve_eq_error_iff hfound).2 ⟨before, e, after, rfl, ⟨hbefore, ?_, ?_⟩, .layout hon hcause⟩
  · exact fun e' he' => hvalid e' (List.mem_append_left _ he')
  · rw [selected, List.flatMap_append] at hdistinct
    exact hdistinct.of_append_left

/-- **Validating and resolving agree on layouts.** If validating goes well, no name fails to resolve
for an invalid layout. Otherwise it reports the first name in order that has an entry with its mode
on and a layout that is not admitted, with what is wrong with the first such entry. That name does
not resolve, however many devices there are; and where its selectors are valid and name no device
twice, it fails to resolve with the same report. -/
theorem validate_agrees (c : Config) (m : Model) :
    (c.validate m = .ok () → ∀ name count config cause,
      c.resolve name m count ≠ .error (.invalidLayout config cause)) ∧
    ∀ err, c.validate m = .error err → ∃ name entries cause,
      err = .invalidLayout name cause ∧ c.FirstInvalid m name entries cause ∧
      ∀ count, (∃ err', c.resolve name m count = .error err') ∧
        ((∀ e ∈ entries, e.devices.Valid count) → (selected count entries).Nodup →
          c.resolve name m count = .error err) := by
  constructor
  · intro hvalid name count config cause hresolve
    rw [validate_eq_ok_iff] at hvalid
    cases hfound : c.configs.find? name with
    | none =>
      rw [resolve, hfound] at hresolve
      cases hresolve
    | some entries =>
      obtain ⟨before, e, after, rfl, -, hfault⟩ := (resolve_eq_error_iff hfound).1 hresolve
      have hadmitted := hvalid _ (SortedMap.mem_toList_iff.2 hfound) e (by simp)
      exact not_admitted_of_fault hfault hadmitted
  · intro err herr
    obtain ⟨name, entries, cause, hfirst, rfl⟩ := validate_eq_error_iff.1 herr
    exact ⟨name, entries, cause, rfl, hfirst, fun count =>
      ⟨exists_resolve_error hfirst.found hfirst.refused count,
        resolve_eq_of_refused hfirst.found hfirst.refused⟩⟩

/-- Two configs with a layout that is not admitted: in one the mode of its entry is off, in the other
the second of three names has another such entry behind one that is in order. -/
theorem validate_agrees_three_names :
    let m : Model := .a100With40
    let off : Entry := ⟨.named "all", false, .ofProfiles [⟨1, 6⟩]⟩
    let whole : Entry := ⟨.indices [1, 0], true, .ofProfiles [⟨7, 40⟩]⟩
    let twice : Entry := ⟨.indices [2], true, .ofProfiles [⟨7, 40⟩, ⟨7, 40⟩]⟩
    let wrong : Entry := ⟨.named "ALL", true, .ofProfiles [⟨1, 6⟩]⟩
    let valid : Config := ⟨"v1", .ofList [("off", [off]), ("mixed", [whole])]⟩
    let invalid : Config :=
      ⟨"v1", .ofList [("wrong", [wrong]), ("twice", [whole, twice]), ("off", [off])]⟩
    let report : ConfigError := .invalidLayout "twice" (.overLimit m ⟨7, 40⟩ 2 1)
    valid.validate m = .ok () ∧ (∀ name count config cause,
      valid.resolve name m count ≠ .error (.invalidLayout config cause)) ∧
      invalid.validate m = .error report ∧ invalid.resolve "twice" m 3 = .error report := by
  intro m off whole twice wrong valid invalid report
  have hvalid : valid.validate m = .ok () := by cbv
  have hinvalid : invalid.validate m = .error report := by cbv
  refine ⟨hvalid, (validate_agrees valid m).1 hvalid, hinvalid, ?_⟩
  obtain ⟨name, entries, cause, heq, hfirst, hresolve⟩ := (validate_agrees invalid m).2 _ hinvalid
  obtain ⟨rfl, rfl⟩ := ConfigError.invalidLayout.inj heq
  have hfound : invalid.configs.find? "twice" = some [whole, twice] := by cbv
  obtain rfl := Option.some.inj (hfound.symm.trans hfirst.found)
  refine (hresolve 3).2 (fun e he => ?_) (by decide)
  rcases List.mem_pair.1 he with rfl | rfl <;> simp [whole, twice, Selector.Valid]

end Config

end GpuPartition
