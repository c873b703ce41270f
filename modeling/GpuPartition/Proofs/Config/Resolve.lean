/-
When a named config resolves, to what, and with which error it does not (`Config.resolve_exact`).

A config resolves if each of its entries asks for a layout that the model admits and names devices
that exist, and no device is named twice (`Config.Resolvable`). What it resolves to does not depend
on the order of the entries (`Config.Resolved.unique`, `Config.Resolved.perm`). The error does: it
is the fault (`Entry.Fault`) of the first entry that has one, given the devices that the entries
before it have taken.
-/
import GpuPartition.Proofs.Config
import GpuPartition.Proofs.Text

namespace GpuPartition

variable {config name : String} {m : Model} {count : Nat} {taken : List Nat}

/-! ## The word for all devices -/

/-- One of the eight ways to write the word for all devices. -/
def IsAll (word : String) : Prop :=
  ∃ a ∈ ['a', 'A'], ∃ b ∈ ['l', 'L'], ∃ c ∈ ['l', 'L'], word.toList = [a, b, c]

theorem toLower_eq_a {c : Char} : c.toLower = 'a' ↔ c ∈ ['a', 'A'] :=
  Text.toLower_eq_iff (by decide) rfl

theorem toLower_eq_l {c : Char} : c.toLower = 'l' ↔ c ∈ ['l', 'L'] :=
  Text.toLower_eq_iff (by decide) rfl

theorem isAll_iff {word : String} :
    IsAll word ↔ word.toList.map Char.toLower = ['a', 'l', 'l'] := by
  constructor
  · rintro ⟨a, ha, b, hb, c, hc, hword⟩
    rw [hword, List.map_cons, List.map_cons, List.map_cons, List.map_nil, toLower_eq_a.2 ha,
      toLower_eq_l.2 hb, toLower_eq_l.2 hc]
  · intro h
    obtain ⟨a, as, hword, ha, h⟩ := List.map_eq_cons_iff.1 h
    obtain ⟨b, bs, rfl, hb, h⟩ := List.map_eq_cons_iff.1 h
    obtain ⟨c, cs, rfl, hc, h⟩ := List.map_eq_cons_iff.1 h
    obtain rfl := List.map_eq_nil_iff.1 h
    exact ⟨a, toLower_eq_a.1 ha, b, toLower_eq_l.1 hb, c, toLower_eq_l.1 hc, hword⟩

/-! ## Selectors -/

namespace Selector

/-- The selector names devices: it is the word for all of them, or lists devices that exist. -/
def Valid (count : Nat) : Selector → Prop
  | named word => IsAll word
  | indices is => ∀ i ∈ is, i < count

/-- The devices that a valid selector names, in order. -/
def listed (count : Nat) : Selector → List Nat
  | named _ => List.range count
  | indices is => is

/-- What is wrong with a selector: its word, or its first index that is no device. -/
inductive Fault (config : String) (count : Nat) : Selector → ConfigError → Prop where
  | word {word : String} (h : ¬ IsAll word) :
    Fault config count (named word) (.invalidSelector word)
  | index {before after : List Nat} {i : Nat} (hbefore : ∀ j ∈ before, j < count) (h : count ≤ i) :
    Fault config count (indices (before ++ i :: after)) (.outOfRange config i count)

theorem resolve_eq_ok_iff {selector : Selector} {is : List Nat} :
    selector.resolve config count = .ok is ↔ selector.Valid count ∧ is = selector.listed count := by
  cases selector with
  | named word =>
    rw [resolve, Valid, isAll_iff, listed]
    split
    next h => simp only [Except.ok.injEq, h, true_and, eq_comm]
    next h => simp only [reduceCtorEq, h, false_and]
  | indices js =>
    rw [resolve, Valid, listed]
    split
    next i hfind =>
      have hout : count ≤ i := by simpa using List.find?_some hfind
      have hmem := List.mem_of_find?_eq_some hfind
      simp only [reduceCtorEq, false_iff, not_and]
      exact fun hvalid => absurd (hvalid i hmem) (Nat.not_lt.2 hout)
    next hfind =>
      have hvalid : ∀ i ∈ js, i < count := by simpa using hfind
      simp only [Except.ok.injEq, and_iff_right hvalid, eq_comm]

theorem resolve_eq_error_iff {selector : Selector} {err : ConfigError} :
    selector.resolve config count = .error err ↔ selector.Fault config count err := by
  constructor
  · intro h
    cases selector with
    | named word =>
      rw [resolve] at h
      split at h
      · cases h
      next hword =>
        obtain rfl := Except.error.inj h
        exact .word (mt isAll_iff.1 hword)
    | indices is =>
      rw [resolve] at h
      split at h
      next i hfind =>
        obtain rfl := Except.error.inj h
        obtain ⟨hout, before, after, rfl, hbefore⟩ := List.find?_eq_some_iff_append.1 hfind
        exact .index (by simpa using hbefore) (by simpa using hout)
      · cases h
  · intro h
    cases h with
    | word hword => rw [resolve, if_neg (mt isAll_iff.2 hword)]
    | @index before after i hbefore hout =>
      have hfind : (before ++ i :: after).find? (count ≤ ·) = some i := by
        refine List.find?_eq_some_iff_append.2 ⟨by simpa using hout, before, after, rfl, ?_⟩
        simpa using hbefore
      rw [resolve, hfind]

theorem Fault.not_valid {selector : Selector} {err : ConfigError}
    (h : selector.Fault config count err) : ¬ selector.Valid count := by
  intro hvalid
  have hok : selector.resolve config count = .ok _ := resolve_eq_ok_iff.2 ⟨hvalid, rfl⟩
  rw [resolve_eq_error_iff.2 h] at hok
  cases hok

/-- A valid selector names the devices that it selects. -/
theorem mem_listed {selector : Selector} (h : selector.Valid count) (i : Nat) :
    i ∈ selector.listed count ↔ i < count ∧ selector.selects i = true := by
  have hok : selector.resolve "" count = .ok _ := resolve_eq_ok_iff.2 ⟨h, rfl⟩
  exact mem_resolve hok i

end Selector

/-! ## Entries -/

namespace Entry

/-- The model admits the layout of the entry, which is not looked at with the mode off. -/
def Admitted (m : Model) (e : Entry) : Prop :=
  e.enabled = true → ∃ used, m.check e.layout = .ok used

/-- Nothing is wrong with the entry, which finds some devices taken. -/
structure Clean (m : Model) (count : Nat) (taken : List Nat) (e : Entry) : Prop where
  admitted : e.Admitted m
  valid : e.devices.Valid count
  distinct : (taken ++ e.devices.listed count).Nodup

/-- The first thing that is wrong with an entry that finds some devices taken: its layout, or its
selector, or the first device that it names and that is taken or was named before. -/
inductive Fault (config : String) (m : Model) (count : Nat) (taken : List Nat) (e : Entry) :
    ConfigError → Prop where
  | layout {cause : AdmissionError} (hon : e.enabled = true) (h : m.check e.layout = .error cause) :
    Fault config m count taken e (.invalidLayout config cause)
  | selector {err : ConfigError} (hadmitted : e.Admitted m) (h : e.devices.Fault config count err) :
    Fault config m count taken e err
  | duplicate {before after : List Nat} {i : Nat} (hadmitted : e.Admitted m)
    (hvalid : e.devices.Valid count) (hlisted : e.devices.listed count = before ++ i :: after)
    (hbefore : (taken ++ before).Nodup) (h : i ∈ taken ++ before) :
    Fault config m count taken e (.duplicate config i)

theorem Clean.no_fault {e : Entry} {err : ConfigError} (hclean : e.Clean m count taken)
    (h : e.Fault config m count taken err) : False := by
  cases h with
  | layout hon h =>
    obtain ⟨used, hused⟩ := hclean.admitted hon
    rw [h] at hused
    cases hused
  | selector _ h => exact h.not_valid hclean.valid
  | duplicate _ _ hlisted _ h =>
    have hdistinct := hclean.distinct
    rw [hlisted, ← List.append_assoc] at hdistinct
    exact (List.nodup_append.1 hdistinct).2.2 _ h _ List.mem_cons_self rfl

theorem layoutOn_eq_error_iff {e : Entry} {err : ConfigError} :
    e.layoutOn config m = .error err ↔ e.enabled = true ∧
      ∃ cause, m.check e.layout = .error cause ∧ err = .invalidLayout config cause := by
  rw [layoutOn]
  cases e.enabled with
  | false => simp
  | true => cases m.check e.layout <;> simp [eq_comm]

end Entry

namespace Config

variable {targets targets' : SortedMap Nat Target} {entries : List Entry} {err : ConfigError}

/-! ## Devices that are taken -/

/-- The devices taken are those with a target, each once. -/
structure Taken (targets : SortedMap Nat Target) (taken : List Nat) : Prop where
  nodup : taken.Nodup
  free_iff : ∀ i, targets.find? i = none ↔ i ∉ taken

theorem taken_empty : Taken .empty [] where
  nodup := .nil
  free_iff i := by simp

theorem Taken.of_assign {enabled : Bool} {layout : Layout} {is : List Nat} (h : Taken targets taken)
    (hassign : assign config enabled layout targets is = .ok targets') :
    Taken targets' (taken ++ is) where
  nodup := by
    obtain ⟨hnodup, hfree, -⟩ := assign_eq_ok hassign
    refine List.nodup_append.2 ⟨h.nodup, hnodup, fun i htaken j hj heq => ?_⟩
    exact (h.free_iff j).1 (hfree j hj) (heq ▸ htaken)
  free_iff i := by
    rw [(assign_eq_ok hassign).2.2 i, List.mem_append, not_or, ← h.free_iff]
    split <;> simp [*]

/-- Targets are given up to the first device that has one. -/
theorem assign_eq_error_iff {enabled : Bool} {layout : Layout} {is : List Nat}
    (h : Taken targets taken) :
    assign config enabled layout targets is = .error err ↔ ∃ before i after,
      is = before ++ i :: after ∧
      ((taken ++ before).Nodup ∧ i ∈ taken ++ before ∧ err = .duplicate config i) := by
  -- On the devices left; what is given a target on the way is taken from then on.
  induction is generalizing targets taken with
  | nil => simp [assign]
  | cons i is ih =>
    rw [exists_split_cons, List.append_nil, and_iff_right h.nodup, assign]
    cases hfind : targets.find? i with
    | some t =>
      have hmem : i ∈ taken := by
        by_contra hfree
        rw [(h.free_iff i).2 hfree] at hfind
        cases hfind
      have hrepeated : ∀ before, ¬ (taken ++ i :: before).Nodup := fun before hnodup =>
        (List.nodup_append.1 hnodup).2.2 i hmem i List.mem_cons_self rfl
      simp only [hmem, hrepeated, Except.error.injEq, true_and, false_and, and_false, exists_false,
        or_false, eq_comm]
    | none =>
      have hfree : i ∉ taken := (h.free_iff i).1 hfind
      have hone : assign config enabled layout targets [i] =
          .ok (targets.insert i ⟨i, enabled, layout⟩) := by
        rw [assign, hfind]
        rfl
      simp only [ih (h.of_assign hone), List.append_assoc, List.singleton_append, hfree, false_and,
        false_or]

/-! ## Adding one entry -/

/-- Adds the targets of one entry. -/
def addEntry (config : String) (m : Model) (count : Nat) (targets : SortedMap Nat Target)
    (e : Entry) : Except ConfigError (SortedMap Nat Target) := do
  let layout ← e.layoutOn config m
  let devices ← e.devices.resolve config count
  assign config e.enabled layout targets devices

theorem addEntries_cons (e : Entry) : addEntries config m count targets (e :: entries) =
    addEntry config m count targets e >>=
      fun targets => addEntries config m count targets entries := by
  simp only [addEntries, addEntry, bind_assoc]

variable {e : Entry}

theorem Taken.of_addEntry (h : Taken targets taken)
    (hadd : addEntry config m count targets e = .ok targets') :
    e.Clean m count taken ∧ Taken targets' (taken ++ e.devices.listed count) := by
  obtain ⟨layout, hlayout, hadd⟩ := except_bind_eq_ok.1 hadd
  obtain ⟨is, hdevices, hassign⟩ := except_bind_eq_ok.1 hadd
  obtain ⟨hvalid, rfl⟩ := Selector.resolve_eq_ok_iff.1 hdevices
  have htaken := h.of_assign hassign
  exact ⟨⟨(Entry.layoutOn_eq_ok.1 hlayout).1, hvalid, htaken.nodup⟩, htaken⟩

theorem addEntry_eq_error_iff (h : Taken targets taken) :
    addEntry config m count targets e = .error err ↔ e.Fault config m count taken err := by
  rw [addEntry, except_bind_eq_error, Entry.layoutOn_eq_error_iff]
  constructor
  · rintro (⟨hon, cause, hcause, rfl⟩ | ⟨layout, hlayout, herr⟩)
    · exact .layout hon hcause
    have hadmitted := (Entry.layoutOn_eq_ok.1 hlayout).1
    rcases except_bind_eq_error.1 herr with hdevices | ⟨is, hdevices, hassign⟩
    · exact .selector hadmitted (Selector.resolve_eq_error_iff.1 hdevices)
    obtain ⟨hvalid, rfl⟩ := Selector.resolve_eq_ok_iff.1 hdevices
    obtain ⟨before, i, after, hlisted, hbefore, hagain, rfl⟩ := (assign_eq_error_iff h).1 hassign
    exact .duplicate hadmitted hvalid hlisted hbefore hagain
  · intro hfault
    cases hfault with
    | layout hon hcause => exact .inl ⟨hon, _, hcause, rfl⟩
    | selector hadmitted hfault =>
      refine .inr ⟨_, Entry.layoutOn_eq_ok.2 ⟨hadmitted, rfl⟩, except_bind_eq_error.2 (.inl ?_)⟩
      exact Selector.resolve_eq_error_iff.2 hfault
    | duplicate hadmitted hvalid hlisted hbefore hagain =>
      refine .inr ⟨_, Entry.layoutOn_eq_ok.2 ⟨hadmitted, rfl⟩, except_bind_eq_error.2 (.inr ?_)⟩
      refine ⟨_, Selector.resolve_eq_ok_iff.2 ⟨hvalid, rfl⟩, ?_⟩
      exact (assign_eq_error_iff h).2 ⟨_, _, _, hlisted, hbefore, hagain, rfl⟩

theorem Taken.exists_addEntry (h : Taken targets taken) (hclean : e.Clean m count taken) :
    ∃ targets', addEntry config m count targets e = .ok targets' := by
  cases hadd : addEntry config m count targets e with
  | ok targets' => exact ⟨targets', rfl⟩
  | error err => exact (hclean.no_fault ((addEntry_eq_error_iff h).1 hadd)).elim

/-! ## Adding all entries -/

/-- The devices that the entries name, in order. -/
def selected (count : Nat) (entries : List Entry) : List Nat :=
  entries.flatMap (·.devices.listed count)

theorem selected_cons (e : Entry) (entries : List Entry) :
    selected count (e :: entries) = e.devices.listed count ++ selected count entries :=
  List.flatMap_cons

/-- Nothing is wrong with any of the entries, which find some devices taken. -/
structure Resolvable (m : Model) (count : Nat) (taken : List Nat) (entries : List Entry) :
    Prop where
  admitted : ∀ e ∈ entries, e.Admitted m
  valid : ∀ e ∈ entries, e.devices.Valid count
  distinct : (taken ++ selected count entries).Nodup

theorem resolvable_cons : Resolvable m count taken (e :: entries) ↔
    e.Clean m count taken ∧ Resolvable m count (taken ++ e.devices.listed count) entries := by
  constructor
  · rintro ⟨hadmitted, hvalid, hdistinct⟩
    rw [List.forall_mem_cons] at hadmitted hvalid
    rw [selected_cons, ← List.append_assoc] at hdistinct
    exact ⟨⟨hadmitted.1, hvalid.1, hdistinct.of_append_left⟩, hadmitted.2, hvalid.2, hdistinct⟩
  · rintro ⟨hclean, hrest⟩
    refine ⟨List.forall_mem_cons.2 ⟨hclean.admitted, hrest.admitted⟩,
      List.forall_mem_cons.2 ⟨hclean.valid, hrest.valid⟩, ?_⟩
    rw [selected_cons, ← List.append_assoc]
    exact hrest.distinct

theorem Resolvable.perm {entries' : List Entry} (h : Resolvable m count taken entries)
    (hperm : entries.Perm entries') : Resolvable m count taken entries' where
  admitted e he := h.admitted e (hperm.mem_iff.2 he)
  valid e he := h.valid e (hperm.mem_iff.2 he)
  distinct := ((hperm.flatMap_right _).append_left taken).nodup_iff.1 h.distinct

theorem Taken.resolvable_nil (h : Taken targets taken) : Resolvable m count taken [] where
  admitted := by simp
  valid := by simp
  distinct := by simpa [selected] using h.nodup

theorem Taken.resolvable (h : Taken targets taken)
    (hadd : addEntries config m count targets entries = .ok targets') :
    Resolvable m count taken entries := by
  induction entries generalizing targets taken with
  | nil => exact h.resolvable_nil
  | cons e entries ih =>
    rw [addEntries_cons] at hadd
    obtain ⟨targets₁, he, hadd⟩ := except_bind_eq_ok.1 hadd
    obtain ⟨hclean, hnext⟩ := h.of_addEntry he
    exact resolvable_cons.2 ⟨hclean, ih hnext hadd⟩

/-- The error is that of the first entry with a fault. -/
theorem addEntries_eq_error_iff (h : Taken targets taken) :
    addEntries config m count targets entries = .error err ↔ ∃ before e after,
      entries = before ++ e :: after ∧ (Resolvable m count taken before ∧
        e.Fault config m count (taken ++ selected count before) err) := by
  induction entries generalizing targets taken with
  | nil => simp [addEntries]
  | cons e entries ih =>
    rw [exists_split_cons, addEntries_cons, except_bind_eq_error, addEntry_eq_error_iff h]
    refine or_congr (by simp [h.resolvable_nil, selected]) ?_
    -- The entries after the first find its devices taken too.
    simp only [resolvable_cons, selected_cons, ← List.append_assoc]
    constructor
    · rintro ⟨targets', he, herr⟩
      obtain ⟨hclean, hnext⟩ := h.of_addEntry he
      obtain ⟨before, x, after, hsplit, hbefore, hfault⟩ := (ih hnext).1 herr
      exact ⟨before, x, after, hsplit, ⟨hclean, hbefore⟩, hfault⟩
    · rintro ⟨before, x, after, hsplit, ⟨hclean, hbefore⟩, hfault⟩
      obtain ⟨targets', he⟩ := h.exists_addEntry hclean
      exact ⟨targets', he, (ih (h.of_addEntry he).2).2 ⟨before, x, after, hsplit, hbefore, hfault⟩⟩

theorem Taken.exists_addEntries (h : Taken targets taken)
    (hresolvable : Resolvable m count taken entries) :
    ∃ targets', addEntries config m count targets entries = .ok targets' := by
  induction entries generalizing targets taken with
  | nil => exact ⟨targets, rfl⟩
  | cons e entries ih =>
    obtain ⟨hclean, hrest⟩ := resolvable_cons.1 hresolvable
    obtain ⟨targets₁, he⟩ := h.exists_addEntry hclean
    obtain ⟨targets', hadd⟩ := ih (h.of_addEntry he).2 hrest
    exact ⟨targets', by rw [addEntries_cons, he]; exact hadd⟩

/-! ## What a config resolves to -/

variable {ts ts' : List Target} {entries' : List Entry}

theorem mem_selected (h : Resolvable m count taken entries) (i : Nat) :
    i ∈ selected count entries ↔ i < count ∧ anySelects entries i = true := by
  simp only [selected, List.mem_flatMap, anySelects, List.any_eq_true]
  constructor
  · rintro ⟨e, he, hmem⟩
    obtain ⟨hlt, hselects⟩ := (Selector.mem_listed (h.valid e he) i).1 hmem
    exact ⟨hlt, e, he, hselects⟩
  · rintro ⟨hlt, e, he, hselects⟩
    exact ⟨e, he, (Selector.mem_listed (h.valid e he) i).2 ⟨hlt, hselects⟩⟩

namespace Resolved

theorem perm (h : Resolved m count entries ts) (hperm : entries.Perm entries') :
    Resolved m count entries' ts where
  increasing := h.increasing
  mem_iff t := by rw [h.mem_iff t]; simp only [hperm.mem_iff]
  admitted e he := h.admitted e (hperm.mem_iff.2 he)

theorem unique (h : Resolved m count entries ts) (h' : Resolved m count entries ts') :
    ts = ts' := by
  have hperm : ts.Perm ts' := (List.perm_ext_iff_of_nodup h.distinct.of_map h'.distinct.of_map).2
    fun t => (h.mem_iff t).trans (h'.mem_iff t).symm
  refine List.Perm.eq_of_pairwise ?_ (List.pairwise_map.1 h.increasing)
    (List.pairwise_map.1 h'.increasing) hperm
  intro a b _ _ hab hba
  exact absurd hab (Nat.lt_asymm hba)

end Resolved

/-- The targets are in order of device indices, one for each device named, and each is what the
only entry that names its device asks for. -/
structure Assigned (count : Nat) (entries : List Entry) (ts : List Target) : Prop where
  increasing : (ts.map Target.index).Pairwise (· < ·)
  perm_selected : (ts.map Target.index).Perm (selected count entries)
  asked : ∀ t ∈ ts, ∃ before e after, entries = before ++ e :: after ∧
    t.index ∈ e.devices.listed count ∧
    (∀ e' ∈ before ++ after, t.index ∉ e'.devices.listed count) ∧ t = e.target t.index

/-- In a config that resolves, a device that an entry names is named by no other. -/
theorem Resolvable.only {before after : List Entry}
    (h : Resolvable m count taken (before ++ e :: after)) {i : Nat}
    (hi : i ∈ e.devices.listed count) :
    ∀ e' ∈ before ++ after, i ∉ e'.devices.listed count := by
  intro e' he' hi'
  have hdistinct := (h.perm List.perm_middle).distinct.of_append_right
  rw [selected_cons] at hdistinct
  exact (List.nodup_append.1 hdistinct).2.2 i hi i (List.mem_flatMap.2 ⟨e', he', hi'⟩) rfl

theorem Assigned.resolved (hassigned : Assigned count entries ts)
    (h : Resolvable m count taken entries) : Resolved m count entries ts where
  increasing := hassigned.increasing
  admitted := h.admitted
  mem_iff t := by
    constructor
    · intro ht
      obtain ⟨before, e, after, hsplit, hlisted, -, htarget⟩ := hassigned.asked t ht
      have he : e ∈ entries := by simp [hsplit]
      obtain ⟨hlt, hselects⟩ := (Selector.mem_listed (h.valid e he) _).1 hlisted
      exact ⟨hlt, e, he, hselects, htarget⟩
    · rintro ⟨hlt, e, he, hselects, htarget⟩
      have hlisted := (Selector.mem_listed (h.valid e he) _).2 ⟨hlt, hselects⟩
      have hindex : t.index ∈ ts.map Target.index :=
        hassigned.perm_selected.mem_iff.2 (List.mem_flatMap.2 ⟨e, he, hlisted⟩)
      obtain ⟨t', ht', hsame⟩ := List.mem_map.1 hindex
      obtain ⟨before, e', after, rfl, -, honly, htarget'⟩ := hassigned.asked t' ht'
      -- The entry of `t'` is the only one that names the device, so it is `e`.
      have heq : e = e' := by
        by_contra hne
        have hother : e ∈ before ++ after := by simpa [hne] using he
        exact honly e hother (hsame ▸ hlisted)
      rwa [htarget, heq, ← hsame, ← htarget']

theorem Resolved.assigned (hresolved : Resolved m count entries ts)
    (h : Resolvable m count taken entries) : Assigned count entries ts where
  increasing := hresolved.increasing
  perm_selected := by
    refine (List.perm_ext_iff_of_nodup hresolved.distinct h.distinct.of_append_right).2 fun i => ?_
    rw [mem_selected h, hresolved.indices_eq, List.mem_filter, List.mem_range]
  asked t ht := by
    obtain ⟨hlt, e, he, hselects, htarget⟩ := (hresolved.mem_iff t).1 ht
    have hlisted := (Selector.mem_listed (h.valid e he) _).2 ⟨hlt, hselects⟩
    obtain ⟨before, after, rfl⟩ := List.append_of_mem he
    exact ⟨before, e, after, rfl, hlisted, h.only hlisted, htarget⟩

variable {c : Config}

theorem exists_resolve (hfound : c.configs.find? name = some entries)
    (h : Resolvable m count [] entries) : ∃ ts, c.resolve name m count = .ok ts := by
  obtain ⟨targets, hadd⟩ : ∃ targets, addEntries name m count .empty entries = .ok targets :=
    taken_empty.exists_addEntries h
  exact ⟨targets.values, by simp only [resolve, hfound, hadd, Except.map]⟩

theorem resolve_eq_ok_iff (hfound : c.configs.find? name = some entries) :
    c.resolve name m count = .ok ts ↔
      Resolvable m count [] entries ∧ Resolved m count entries ts := by
  have hresolved : ∀ ts, c.resolve name m count = .ok ts → Resolved m count entries ts := by
    intro ts hok
    obtain ⟨entries', hfound', h⟩ := resolve_eq_ok hok
    obtain rfl : entries = entries' := Option.some.inj (hfound.symm.trans hfound')
    exact h
  constructor
  · intro hok
    refine ⟨?_, hresolved ts hok⟩
    simp only [resolve, hfound] at hok
    cases hadd : addEntries name m count .empty entries with
    | ok targets => exact taken_empty.resolvable hadd
    | error err => simp [hadd, Except.map] at hok
  · rintro ⟨h, hts⟩
    obtain ⟨ts', hok⟩ := exists_resolve hfound h
    rw [hok, hts.unique (hresolved ts' hok)]

theorem resolve_eq_error_iff (hfound : c.configs.find? name = some entries) :
    c.resolve name m count = .error err ↔ ∃ before e after, entries = before ++ e :: after ∧
      (Resolvable m count [] before ∧ e.Fault name m count (selected count before) err) := by
  simp only [resolve, hfound]
  refine Iff.trans ?_ (addEntries_eq_error_iff taken_empty)
  cases addEntries name m count .empty entries <;> simp [Except.map]

/-- A config resolves exactly if there is one of the name and nothing is wrong with its entries. The
targets are then those assigned to the devices, and any config whose entries are the same in another
order has the same ones. Otherwise the error is that there is none of the name, or the fault of the
first entry that has one. -/
theorem resolve_exact (c : Config) (name : String) (m : Model) (count : Nat) :
    ((∃ ts, c.resolve name m count = .ok ts) ↔
      ∃ entries, c.configs.find? name = some entries ∧ Resolvable m count [] entries) ∧
    (∀ ts, c.resolve name m count = .ok ts ↔ ∃ entries, c.configs.find? name = some entries ∧
      Resolvable m count [] entries ∧ Assigned count entries ts) ∧
    (∀ (c' : Config) (entries entries' : List Entry), c.configs.find? name = some entries →
      c'.configs.find? name = some entries' → entries.Perm entries' →
      ∀ ts, c.resolve name m count = .ok ts ↔ c'.resolve name m count = .ok ts) ∧
    ∀ err, c.resolve name m count = .error err ↔
      c.configs.find? name = none ∧ err = .unknownConfig name c.names ∨
      ∃ entries, c.configs.find? name = some entries ∧ ∃ before e after,
        entries = before ++ e :: after ∧ Resolvable m count [] before ∧
        e.Fault name m count (selected count before) err := by
  have hassigned : ∀ entries, c.configs.find? name = some entries → ∀ ts,
      c.resolve name m count = .ok ts ↔
        Resolvable m count [] entries ∧ Assigned count entries ts := fun entries hfound ts => by
    rw [resolve_eq_ok_iff hfound]
    exact and_congr_right fun h => ⟨(·.assigned h), (·.resolved h)⟩
  have hok : ∀ ts, c.resolve name m count = .ok ts ↔ ∃ entries,
      c.configs.find? name = some entries ∧
        Resolvable m count [] entries ∧ Assigned count entries ts := fun ts => by
    constructor
    · intro h
      obtain ⟨entries, hfound, -⟩ := resolve_eq_ok h
      exact ⟨entries, hfound, (hassigned entries hfound ts).1 h⟩
    · rintro ⟨entries, hfound, h⟩
      exact (hassigned entries hfound ts).2 h
  refine ⟨?resolves, hok, ?order, ?errors⟩
  case resolves =>
    constructor
    · rintro ⟨ts, h⟩
      obtain ⟨entries, hfound, hresolvable, -⟩ := (hok ts).1 h
      exact ⟨entries, hfound, hresolvable⟩
    · rintro ⟨entries, hfound, hresolvable⟩
      exact exists_resolve hfound hresolvable
  case order =>
    intro c' entries entries' hfound hfound' hperm ts
    rw [resolve_eq_ok_iff hfound, resolve_eq_ok_iff hfound']
    exact ⟨fun h => ⟨h.1.perm hperm, h.2.perm hperm⟩,
      fun h => ⟨h.1.perm hperm.symm, h.2.perm hperm.symm⟩⟩
  case errors =>
    intro err
    cases hfound : c.configs.find? name with
    | none => simp [resolve, hfound, eq_comm]
    | some entries => simp [resolve_eq_error_iff hfound]

/-- Two entries in either order; the layout of the one with its mode off is not one of the model. -/
theorem resolve_exact_swapped :
    let off : Entry := ⟨.indices [2], false, .ofProfiles [⟨1, 6⟩]⟩
    let on : Entry := ⟨.indices [1, 0], true, .ofProfiles [⟨3, 20⟩]⟩
    let ts : List Target :=
      [⟨0, true, .ofProfiles [⟨3, 20⟩]⟩, ⟨1, true, .ofProfiles [⟨3, 20⟩]⟩, ⟨2, false, .empty⟩]
    let first : Config := ⟨"v1", .ofList [("mixed", [off, on])]⟩
    let second : Config := ⟨"v1", .ofList [("mixed", [on, off])]⟩
    first.resolve "mixed" .a100With40 4 = .ok ts ∧
      second.resolve "mixed" .a100With40 4 = .ok ts := by
  intro off on ts first second
  have hfirst : first.resolve "mixed" .a100With40 4 = .ok ts := by rfl
  exact ⟨hfirst, ((resolve_exact first "mixed" .a100With40 4).2.2.1 second [off, on] [on, off]
    (by rfl) (by rfl) (.swap _ _ _) ts).1 hfirst⟩

end Config

end GpuPartition
