/-
Config files read back, whatever lawful reader and writer of TOML there is. The tree of a config is
a plain table of TOML if its profiles are proper and its numbers are integers of TOML, so its text
is read as that tree with the members of each table in some order. A config is read from its tree in
whichever order (`Config.ofTree_of_alike`). A config with a number that is no integer of TOML is not
written (`Config.toml_round_trip`).
-/
import Mathlib.Data.List.Permutation
import GpuPartition.Config.File
import GpuPartition.Proofs.Layout.Tree
import GpuPartition.Proofs.Toml.Lawful

namespace GpuPartition

open Toml (Plain Member IsFlat integerLimit)

/-- The indices that a selector names. -/
def Selector.numbers : Selector → List Nat
  | .named _ => []
  | .indices is => is

/-- The indices and counts of an entry. -/
def Entry.numbers (e : Entry) : List Nat := e.devices.numbers ++ e.layout.multiplicities

/-- The indices and counts of a config. -/
def Config.numbers (c : Config) : List Nat :=
  c.configs.values.flatMap fun entries => entries.flatMap Entry.numbers

/-- The entry can be written and read back: its profiles are proper, and its numbers are integers
of TOML. -/
structure Entry.Writable (e : Entry) : Prop where
  proper : ∀ p, e.layout.contains p = true → p.Proper
  numbers : ∀ n ∈ e.numbers, n < integerLimit

theorem le_wordMax_of_lt {n : Nat} (h : n < integerLimit) : n ≤ wordMax :=
  h.le.trans (by decide)

/-! ## Layouts -/

namespace Layout

/-- The members of the tree of a layout. -/
def members (l : Layout) : List (String × Tree) :=
  l.toList.map fun e => (e.1.text, .natural e.2)

theorem toTree_eq (l : Layout) : l.toTree = .table l.members := rfl

theorem mem_multiplicities {l : Layout} {p : Profile} {n : Nat} (h : (p, n) ∈ l.toList) :
    n ∈ l.multiplicities :=
  List.mem_map.2 ⟨(p, n), h, rfl⟩

end Layout

/-! ## Entries -/

namespace Entry

variable {e : Entry}

/-- The members of the tree of an entry. -/
def members (e : Entry) : List (String × Tree) :=
  [("devices", e.devices.toTree), ("mig-enabled", .bool e.enabled),
    ("mig-devices", e.layout.toTree)]

theorem toTree_eq (e : Entry) : e.toTree = .table e.members := rfl

theorem Writable.count_lt (h : e.Writable) (p : Profile) : e.layout.count p < integerLimit := by
  by_cases hpos : 0 < e.layout.count p
  · exact h.numbers _ (List.mem_append_right _
      (Layout.mem_multiplicities (Layout.mem_toList_iff.2 ⟨hpos, rfl⟩)))
  · exact (Nat.le_of_not_lt hpos).trans_lt (by decide)

theorem Writable.legible (h : e.Writable) : e.layout.Legible where
  proper := h.proper
  fits := fun p => le_wordMax_of_lt (h.count_lt p)

theorem Writable.index_lt (h : e.Writable) {is : List Nat} (hdevices : e.devices = .indices is) :
    ∀ i ∈ is, i < integerLimit := by
  intro i hi
  refine h.numbers i (List.mem_append_left _ ?_)
  rw [hdevices]
  exact hi

theorem Writable.isFlat_devices (h : e.Writable) : IsFlat e.devices.toTree := by
  cases hdevices : e.devices with
  | named word => trivial
  | indices is =>
    intro t ht
    obtain ⟨i, hi, rfl⟩ := List.mem_map.1 ht
    exact h.index_lt hdevices i hi

theorem Writable.plain_layout (h : e.Writable) (depth : Nat) :
    Plain (depth + 1) e.layout.members := by
  constructor
  · rw [Layout.members, List.map_map]
    exact e.layout.texts_nodup
  · intro m hm
    obtain ⟨⟨p, n⟩, hentry, rfl⟩ := List.mem_map.1 hm
    exact .value (h.numbers n (List.mem_append_right _ (Layout.mem_multiplicities hentry)))

theorem Writable.plain (h : e.Writable) (depth : Nat) : Plain (depth + 2) e.members := by
  refine ⟨show ["devices", "mig-enabled", "mig-devices"].Nodup by decide, fun m hm => ?_⟩
  simp only [members, List.mem_cons, List.not_mem_nil, or_false] at hm
  rcases hm with rfl | rfl | rfl
  · exact .value h.isFlat_devices
  · exact .value (show IsFlat (.bool e.enabled) from trivial)
  · exact .table (h.plain_layout depth)

theorem Writable.ofTree_devices (h : e.Writable) {t : Tree} (ht : e.devices.toTree.Alike t) :
    Selector.ofTree t = .ok e.devices := by
  cases hdevices : e.devices with
  | named word =>
    rw [hdevices] at ht
    obtain rfl : .text word = t := ht
    rfl
  | indices is =>
    rw [hdevices] at ht
    obtain ⟨items, rfl, halike⟩ := ht
    have hitems := List.forall₂_map_left_iff.1 (Tree.itemsAlike_iff.1 halike)
    have hread : items.mapM (Tree.readNatural wordMax) = .ok is :=
      mapM_of_forall₂ hitems fun i hi t ht =>
        Tree.readNatural_eq_ok.2 ⟨ht.symm, le_wordMax_of_lt (h.index_lt hdevices i hi)⟩
    rw [Selector.ofTree, hread]
    rfl

theorem occurs_of_mem_numbers {n : Nat} (h : n ∈ e.numbers) : Toml.Occurs n e.toTree := by
  rcases List.mem_append.1 h with h | h
  · refine .member (List.mem_cons_self : ("devices", _) ∈ e.members) ?_
    cases hdevices : e.devices with
    | named word => rw [hdevices] at h; cases h
    | indices is =>
      rw [hdevices] at h
      exact .item (List.mem_map_of_mem h) .here
  · obtain ⟨entry, hentry, rfl⟩ := List.mem_map.1 h
    have hlast : ("mig-devices", e.layout.toTree) ∈ e.members :=
      List.mem_cons_of_mem _ (List.mem_cons_of_mem _ (List.mem_singleton_self _))
    exact .member hlast (.member (List.mem_map_of_mem hentry) .here)

/-- An entry is read from its tree, with the members of the tables in any order. -/
theorem Writable.ofTree_of_alike (h : e.Writable) (f : Format) {t : Tree}
    (ht : e.toTree.Alike t) : Entry.ofTree f t = .ok e := by
  obtain ⟨ms, shuffled, rfl, halike, hperm⟩ := ht
  simp only [Tree.membersAlike_iff, List.forall₂_cons_left_iff, List.forall₂_nil_left_iff] at halike
  obtain ⟨⟨_, devices⟩, _, ⟨rfl, hdevices⟩, ⟨⟨_, _⟩, _, ⟨rfl, rfl⟩,
    ⟨⟨_, layout⟩, _, ⟨rfl, hlayout⟩, rfl, rfl⟩, rfl⟩, rfl⟩ := halike
  have hdevices := h.ofTree_devices hdevices
  have hlayout := Layout.ofTree_of_alike h.legible hlayout
  -- The three members come in one of six orders, and each of them fills a slot of its own.
  have horder := List.mem_permutations'.2 hperm
  simp only [List.permutations', List.permutations'Aux, List.flatMap_cons, List.flatMap_nil,
    List.map_cons, List.map_nil, List.append_nil, List.cons_append, List.nil_append,
    List.mem_cons, List.not_mem_nil, or_false] at horder
  rcases horder with rfl | rfl | rfl | rfl | rfl | rfl
  all_goals
    simp only [Entry.ofTree, List.foldlM_cons, List.foldlM_nil, Draft.step, Tree.fill,
      hdevices, hlayout]
    rfl

end Entry

/-! ## Configs -/

namespace Config

variable {c : Config}

/-- The entries can be written and read back. -/
def Writable (c : Config) : Prop := ∀ es ∈ c.configs.values, ∀ e ∈ es, e.Writable

/-- Named entries as a member of the table of the named configs. -/
def member (named : String × List Entry) : String × Tree :=
  (named.1, .list (named.2.map Entry.toTree))

/-- The members of the tree of a config. -/
def members (c : Config) : List (String × Tree) :=
  [("version", .text c.version), ("mig-configs", .table (c.configs.toList.map member))]

theorem toTree_eq (c : Config) : c.toTree = .table c.members := rfl

theorem Writable.entries (h : c.Writable) {named : String × List Entry}
    (hnamed : named ∈ c.configs.toList) : ∀ e ∈ named.2, e.Writable :=
  h named.2 (List.mem_map_of_mem hnamed)

theorem Writable.plain (h : c.Writable) (depth : Nat) : Plain (depth + 4) c.members := by
  have hconfigs : Plain (depth + 3) (c.configs.toList.map member) := by
    constructor
    · rw [List.map_map]
      exact c.configs.keys_nodup
    · intro m hm
      obtain ⟨⟨name, entries⟩, hnamed, rfl⟩ := List.mem_map.1 hm
      have hentries := h.entries hnamed
      cases entries with
      | nil => exact .value fun t ht => nomatch ht
      | cons e es =>
        obtain ⟨he, hes⟩ := List.forall_mem_cons.1 hentries
        have htables : es.map Entry.toTree = (es.map Entry.members).map .table := by
          rw [List.map_map]
          rfl
        rw [member, List.map_cons, htables]
        refine .tables (he.plain depth) fun m hm => ?_
        obtain ⟨e', he', rfl⟩ := List.mem_map.1 hm
        exact (hes e' he').plain depth
  refine ⟨show ["version", "mig-configs"].Nodup by decide, fun m hm => ?_⟩
  simp only [members, List.mem_cons, List.not_mem_nil, or_false] at hm
  rcases hm with rfl | rfl
  · exact .value (show IsFlat (.text c.version) from trivial)
  · exact .table hconfigs

theorem readList_of_alike {entries : List Entry} (h : ∀ e ∈ entries, e.Writable) (f : Format)
    {t : Tree} (ht : (Tree.list (entries.map Entry.toTree)).Alike t) :
    t.readList (Entry.ofTree f) = .ok entries := by
  obtain ⟨items, rfl, halike⟩ := ht
  have hitems := List.forall₂_map_left_iff.1 (Tree.itemsAlike_iff.1 halike)
  exact mapM_of_forall₂ hitems fun e he t ht => (h e he).ofTree_of_alike f ht

/-- Named configs are read in any order. -/
theorem readConfigs_of_alike (h : c.Writable) (f : Format) {t : Tree}
    (ht : (Tree.table (c.configs.toList.map member)).Alike t) :
    readConfigs f t = .ok c.configs := by
  obtain ⟨ms, shuffled, rfl, halike, hperm⟩ := ht
  have hmembers := List.forall₂_map_left_iff.1 (Tree.membersAlike_iff.1 halike)
  have hread : ms.mapM (fun m => do return (m.1, ← m.2.readList (Entry.ofTree f))) =
      .ok c.configs.toList := by
    refine mapM_of_forall₂ hmembers fun named hnamed m ⟨hname, ht⟩ => except_bind_eq_ok.2 ?_
    exact ⟨named.2, readList_of_alike (h.entries hnamed) f ht, by rw [← hname]; rfl⟩
  obtain ⟨configs, hconfigs, hsame⟩ := mapM_perm hread hperm
  rw [readConfigs, hconfigs]
  exact congrArg Except.ok (SortedMap.ofList_perm hsame)

/-- A config is read from its tree, with the members of the tables in any order. -/
theorem ofTree_of_alike (h : c.Writable) (f : Format) {t : Tree} (ht : c.toTree.Alike t) :
    Config.ofTree f t = .ok c := by
  obtain ⟨ms, shuffled, rfl, halike, hperm⟩ := ht
  simp only [Tree.membersAlike_iff, List.forall₂_cons_left_iff, List.forall₂_nil_left_iff] at halike
  obtain ⟨⟨_, _⟩, _, ⟨rfl, rfl⟩, ⟨⟨_, configs⟩, _, ⟨rfl, ht⟩, rfl, rfl⟩, rfl⟩ := halike
  have hread := readConfigs_of_alike h f ht
  rcases List.perm_pair.1 hperm with rfl | rfl
  all_goals
    simp only [Config.ofTree, List.foldlM_cons, List.foldlM_nil, Draft.step, Tree.fill, hread]
    rfl

theorem occurs_of_mem_numbers {n : Nat} (h : n ∈ c.numbers) : Toml.Occurs n c.toTree := by
  obtain ⟨entries, hentries, h⟩ := List.mem_flatMap.1 h
  obtain ⟨e, he, hn⟩ := List.mem_flatMap.1 h
  obtain ⟨named, hnamed, rfl⟩ := List.mem_map.1 hentries
  have hlast : ("mig-configs", Tree.table (c.configs.toList.map member)) ∈ c.members :=
    List.mem_cons_of_mem _ (List.mem_singleton_self _)
  exact .member hlast (.member (List.mem_map_of_mem hnamed)
    (.item (List.mem_map_of_mem he) (Entry.occurs_of_mem_numbers hn)))

section Lawful

variable {print? : Tree → Option String} {parse : String → Option Tree}
  (h : Toml.Lawful print? parse)

include h

/-- A config that can be written is, and its text is read back, up to a look at the version. -/
theorem Writable.read_back (hc : c.Writable) :
    ∃ text, c.writeBy print? = .ok text ∧ Config.readBy parse text = c.checkVersion := by
  obtain ⟨text, t, hprint, hparse, halike⟩ := h.read_back _ (hc.plain (Toml.depthLimit - 4))
  rw [← toTree_eq] at hprint halike
  refine ⟨text, by rw [writeBy, hprint], ?_⟩
  rw [readBy, hparse]
  simp only [ofTree_of_alike hc .toml halike]

/-- **The TOML round trip.** A config whose layouts have proper profiles is written if all its
indices and counts are below `2 ^ 63`. Its text is read back as the config, or refused for its
version if that is not the one understood. With one larger number it is not written. -/
theorem toml_round_trip (c : Config)
    (hproper : ∀ es ∈ c.configs.values, ∀ e ∈ es, ∀ p, e.layout.contains p = true → p.Proper) :
    ((∀ n ∈ c.numbers, n ≤ 2 ^ 63 - 1) → ∃ text, c.writeBy print? = .ok text ∧
      Config.readBy parse text = if c.version = "v1" then .ok c
        else .error (.config (.unsupportedVersion c.version))) ∧
    ((∃ n ∈ c.numbers, 2 ^ 63 - 1 < n) → c.writeBy print? = .error .serialize) := by
  have hlimit : integerLimit = 2 ^ 63 := by decide
  constructor
  · intro hnumbers
    refine Writable.read_back h fun es hes e he => {
      proper := hproper es hes e he
      numbers := fun n hn => ?_ }
    have := hnumbers n (List.mem_flatMap.2 ⟨es, hes, List.mem_flatMap.2 ⟨e, he, hn⟩⟩)
    omega
  · rintro ⟨n, hn, hlt⟩
    rw [writeBy, h.limited c.toTree n (occurs_of_mem_numbers hn) (by omega)]

end Lawful

theorem ofToml_toToml (h : c.Writable) :
    ∃ text, c.toToml = .ok text ∧ ofToml text = c.checkVersion :=
  h.read_back Toml.lawful

/-- A config with a list of no indices, a word that selects nothing, layouts with the mode on and
off and a name without entries: it is read back, under another version it is refused, and with one
index too large it is not written. -/
theorem toml_round_trip_unusual :
    let entries : List Entry := [⟨.indices [], true, .empty⟩,
      ⟨.named "no \"such\"\nword", false, .ofProfiles [⟨3, 20⟩, ⟨1, 5⟩]⟩]
    let c : Config := ⟨"v1", .ofList [("mixed", entries), ("", [])]⟩
    let newer : Config := { c with version := "v2" }
    let far : Config := ⟨"v1", .ofList [("far", [⟨.indices [2 ^ 63], true, .empty⟩])]⟩
    (∃ text, c.toToml = .ok text ∧ ofToml text = .ok c) ∧
      (∃ text, newer.toToml = .ok text ∧
        ofToml text = .error (.config (.unsupportedVersion "v2"))) ∧
      far.toToml = .error .serialize := by
  intro entries c newer far
  have hproper : ∀ {c : Config},
      (∀ es ∈ c.configs.values, ∀ e ∈ es, ∀ p ∈ e.layout.counts.keys, p.Proper) →
      ∀ es ∈ c.configs.values, ∀ e ∈ es, ∀ p, e.layout.contains p = true → p.Proper :=
    fun h es hes e he p hp => h es hes e he p (Layout.mem_keys.2 ((Layout.contains_iff _ _).1 hp))
  exact ⟨(toml_round_trip Toml.lawful c (hproper (by decide +kernel))).1 (by decide +kernel),
    (toml_round_trip Toml.lawful newer (hproper (by decide +kernel))).1 (by decide +kernel),
    (toml_round_trip Toml.lawful far (hproper (by decide +kernel))).2 (by decide +kernel)⟩

end Config

end GpuPartition
