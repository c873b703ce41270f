/-
Which texts are read or refused, and which outgrow a machine word on the way (`answered_iff`).

Each count of a layout is checked as it is read. But names of one profile add up, and that sum is
not checked: a layout outgrows a word if all its members are read and the counts of one profile do
so together (`Layout.Outgrows`). This takes two names of one profile (`Layout.Outgrows.not_nodup`).
An entry or a config outgrows a word if the first thing in it that is not read is such a layout.
Every other text gives a value or is refused. How a text is read as a tree does not matter to this.
-/
import GpuPartition.Config.File
import GpuPartition.Proofs.Layout.Json

namespace GpuPartition

/-! ## What is checked -/

namespace Tree

variable {α : Type} {t : Tree}

theorem readNatural_ne_overflow {most : Nat} : t.readNatural most ≠ .error .overflow := by
  cases t with
  | natural n =>
    rw [readNatural]
    split <;> simp
  | _ => simp [readNatural]

theorem readText_ne_overflow : t.readText ≠ .error .overflow := by
  cases t <;> simp [readText]

theorem readBool_ne_overflow : t.readBool ≠ .error .overflow := by
  cases t <;> simp [readBool]

theorem skip_ne_overflow : t.skip ≠ .error .overflow := by
  unfold skip
  split
  · simp
  · split <;> simp

theorem required_ne_overflow {slot : Option α} : required slot ≠ .error .overflow := by
  cases slot <;> simp [required]

/-- Only an empty slot is filled. -/
theorem fill_eq_overflow_iff {slot : Option α} {read : Tree → Reading α} :
    fill slot read t = .error .overflow ↔ slot = none ∧ read t = .error .overflow := by
  cases slot with
  | some a => simp [fill]
  | none =>
    rw [fill]
    cases read t <;> simp [Except.map]

end Tree

theorem Format.surplus_ne_overflow {f : Format} {items : List Tree} :
    f.surplus items ≠ .error .overflow := by
  cases f <;> cases items <;> simp [surplus]

theorem Selector.ofTree_ne_overflow {t : Tree} : Selector.ofTree t ≠ .error .overflow := by
  cases t with
  | list items =>
    rw [Selector.ofTree]
    intro h
    rcases except_bind_eq_error.1 h with h | ⟨is, -, h⟩
    · obtain ⟨item, -, hitem⟩ := exists_of_mapM_eq_error h
      exact Tree.readNatural_ne_overflow hitem
    · cases h
  | _ => simp [Selector.ofTree]

/-! ## Layouts -/

namespace Layout

/-- The members of a table are read as profiles with their counts, of which each fits a word. The
counts of one of the profiles do not fit together. -/
inductive Outgrows : Tree → Prop where
  | table {members : List (String × Tree)} {pairs : List (Profile × Nat)} {p : Profile}
    (hread : List.Forall₂ (fun m q => Profile.parse m.1 = .ok q.1 ∧ m.2 = .natural q.2 ∧
      q.2 ≤ wordMax) members pairs)
    (h : wordMax < (pairs.map fun q => if q.1 = p then q.2 else 0).sum) :
    Outgrows (.table members)

theorem ofCounts?_eq_none_iff {pairs : List (Profile × Nat)} : ofCounts? pairs = none ↔
    ∃ p, wordMax < (pairs.map fun q => if q.1 = p then q.2 else 0).sum := by
  have hfits := fits_iff (l := ofCounts pairs)
  simp only [count_ofCounts] at hfits
  rw [ofCounts?]
  split
  next h => simpa using hfits.1 h
  next h => simpa using mt hfits.2 h

theorem ofTree_eq_overflow_iff {t : Tree} : Layout.ofTree t = .error .overflow ↔ Outgrows t := by
  cases t with
  | table members =>
    have hsum : ∀ pairs, orOverflow (ofCounts? pairs) = .error .overflow ↔
        ofCounts? pairs = none := fun pairs => by
      cases ofCounts? pairs <;> simp [orOverflow]
    simp only [ofTree_table, except_bind_eq_error, hsum, ofCounts?_eq_none_iff, mapM_eq_ok_iff,
      readEntry_eq_ok]
    constructor
    · rintro (h | ⟨pairs, hread, p, h⟩)
      · obtain ⟨m, -, hm⟩ := exists_of_mapM_eq_error h
        cases malformed_of_readEntry hm
      · exact .table hread h
    · rintro ⟨hread, h⟩
      exact .inr ⟨_, hread, _, h⟩
  | _ => constructor <;> intro h <;> cases h

theorem sum_le_of_nodup {pairs : List (Profile × Nat)} {most : Nat}
    (hnodup : (pairs.map (·.1)).Nodup) (hmost : ∀ q ∈ pairs, q.2 ≤ most) (p : Profile) :
    (pairs.map fun q => if q.1 = p then q.2 else 0).sum ≤ most := by
  induction pairs with
  | nil => exact Nat.zero_le _
  | cons q pairs ih =>
    rw [List.map_cons, List.nodup_cons] at hnodup
    rw [List.forall_mem_cons] at hmost
    rw [List.map_cons, List.sum_cons]
    by_cases hq : q.1 = p
    · rw [if_pos hq, sum_eq_zero_of_not_mem (hq ▸ hnodup.1)]
      exact hmost.1
    · rw [if_neg hq, Nat.zero_add]
      exact ih hnodup.2 hmost.2

/-- A layout can only outgrow a word if two of its names are of one profile. -/
theorem Outgrows.not_nodup {members : List (String × Tree)} (h : Outgrows (.table members)) :
    ¬ (members.map fun m => Profile.parse m.1).Nodup := by
  cases h with
  | @table _ pairs p hread h =>
    intro hnodup
    have hparsed : members.map (fun m => Profile.parse m.1) = (pairs.map (·.1)).map .ok := by
      rw [List.map_map, ← List.forall₂_eq_eq_eq, List.forall₂_map_left_iff,
        List.forall₂_map_right_iff]
      exact hread.imp fun _ _ hq => hq.1
    have hnames : (pairs.map (·.1)).Nodup := List.Nodup.of_map _ (hparsed ▸ hnodup)
    have hmost : ∀ q ∈ pairs, q.2 ≤ wordMax := fun q hq => by
      obtain ⟨m, -, -, -, hm⟩ := exists_of_forall₂ hread.flip q hq
      exact hm
    exact absurd h (Nat.not_lt.2 (sum_le_of_nodup hnames hmost p))

end Layout

/-! ## Entries -/

namespace Entry

/-- The members of a table are read up to its layout, which outgrows a word; or the fields of a list
are. -/
inductive Outgrows : Tree → Prop where
  | table {before after : List (String × Tree)} {layout : Tree} {d : Draft}
    (hbefore : before.foldlM Draft.step ⟨none, none, none⟩ = .ok d) (hfree : d.layout = none)
    (h : Layout.Outgrows layout) : Outgrows (.table (before ++ ("mig-devices", layout) :: after))
  | list {devices enabled layout : Tree} {rest : List Tree} {selector : Selector} {on : Bool}
    (hdevices : Selector.ofTree devices = .ok selector) (henabled : enabled.readBool = .ok on)
    (h : Layout.Outgrows layout) : Outgrows (.list (devices :: enabled :: layout :: rest))

theorem Draft.step_eq_overflow_iff {d : Draft} {m : String × Tree} :
    d.step m = .error .overflow ↔
      m.1 = "mig-devices" ∧ d.layout = none ∧ Layout.Outgrows m.2 := by
  unfold step
  split
  next hname =>
    rw [except_bind_pure_eq_error, Tree.fill_eq_overflow_iff]
    simp [hname, Selector.ofTree_ne_overflow]
  next hname =>
    rw [except_bind_pure_eq_error, Tree.fill_eq_overflow_iff]
    simp [hname, Tree.readBool_ne_overflow]
  next hname =>
    rw [except_bind_pure_eq_error, Tree.fill_eq_overflow_iff]
    simp [hname, Layout.ofTree_eq_overflow_iff]
  next hname =>
    rw [except_bind_pure_eq_error]
    exact ⟨fun h => absurd h Tree.skip_ne_overflow, fun h => absurd h.1 hname⟩

theorem Draft.finish_ne_overflow {d : Draft} : d.finish ≠ .error .overflow := by
  rw [finish, Ne, except_bind_pure_eq_error]
  exact Tree.required_ne_overflow

theorem ofItems_eq_overflow_iff {f : Format} {items : List Tree} :
    ofItems f items = .error .overflow ↔ Outgrows (.list items) := by
  constructor
  · intro h
    unfold ofItems at h
    split at h
    · cases h
    next devices => exact absurd (except_bind_pure_eq_error.1 h) Selector.ofTree_ne_overflow
    next devices enabled =>
      rcases except_bind_eq_error.1 h with h | ⟨selector, -, h⟩
      · exact absurd h Selector.ofTree_ne_overflow
      · exact absurd (except_bind_pure_eq_error.1 h) Tree.readBool_ne_overflow
    next devices enabled layout rest =>
      rcases except_bind_eq_error.1 h with h | ⟨selector, hdevices, h⟩
      · exact absurd h Selector.ofTree_ne_overflow
      rcases except_bind_eq_error.1 h with h | ⟨on, henabled, h⟩
      · exact absurd h Tree.readBool_ne_overflow
      rcases except_bind_eq_error.1 h with h | ⟨l, -, h⟩
      · exact .list hdevices henabled (Layout.ofTree_eq_overflow_iff.1 h)
      rcases except_bind_eq_error.1 h with h | ⟨_, -, h⟩
      · exact absurd h Format.surplus_ne_overflow
      · cases h
  · intro h
    cases h with
    | list hdevices henabled h =>
      simp only [ofItems, hdevices, henabled, Layout.ofTree_eq_overflow_iff.2 h]
      rfl

theorem ofTree_eq_overflow_iff {f : Format} {t : Tree} :
    Entry.ofTree f t = .error .overflow ↔ Outgrows t := by
  cases t with
  | table members =>
    rw [Entry.ofTree, except_bind_eq_error, foldlM_eq_error_iff]
    constructor
    · rintro (⟨before, ⟨name, layout⟩, after, rfl, d, hbefore, hstep⟩ | ⟨d, -, h⟩)
      · obtain ⟨rfl, hfree, h⟩ := Draft.step_eq_overflow_iff.1 hstep
        exact .table hbefore hfree h
      · exact absurd h Draft.finish_ne_overflow
    · intro h
      cases h with
      | table hbefore hfree h =>
        exact .inl ⟨_, _, _, rfl, _, hbefore, Draft.step_eq_overflow_iff.2 ⟨rfl, hfree, h⟩⟩
  | list items => exact ofItems_eq_overflow_iff
  | _ => constructor <;> intro h <;> cases h

end Entry

/-! ## Configs -/

namespace Config

variable {f : Format}

/-- The named configs of a table are read up to one whose entries are read up to an entry that
outgrows a word. -/
inductive SectionOutgrows (f : Format) : Tree → Prop where
  | table {before after : List (String × Tree)} {name : String} {entries rest : List Tree}
    {entry : Tree} (hbefore : ∀ m ∈ before, ∃ es, m.2.readList (Entry.ofTree f) = .ok es)
    (hentries : ∀ t ∈ entries, ∃ e, Entry.ofTree f t = .ok e) (h : Entry.Outgrows entry) :
    SectionOutgrows f (.table (before ++ (name, .list (entries ++ entry :: rest)) :: after))

/-- The members of a table are read up to its named configs, of which one outgrows a word; or the
fields of a list are. -/
inductive Outgrows (f : Format) : Tree → Prop where
  | table {before after : List (String × Tree)} {configs : Tree} {d : Draft}
    (hbefore : before.foldlM (Draft.step f) ⟨none, none⟩ = .ok d) (hfree : d.configs = none)
    (h : SectionOutgrows f configs) :
    Outgrows f (.table (before ++ ("mig-configs", configs) :: after))
  | list {version configs : Tree} {rest : List Tree} {s : String}
    (hversion : version.readText = .ok s) (h : SectionOutgrows f configs) :
    Outgrows f (.list (version :: configs :: rest))

theorem readList_eq_overflow_iff {t : Tree} :
    t.readList (Entry.ofTree f) = .error .overflow ↔ ∃ entries entry rest,
      t = .list (entries ++ entry :: rest) ∧
      (∀ t ∈ entries, ∃ e, Entry.ofTree f t = .ok e) ∧ Entry.Outgrows entry := by
  cases t with
  | list items => simp [Tree.readList, mapM_eq_error_iff, Entry.ofTree_eq_overflow_iff]
  | _ => simp [Tree.readList]

theorem readConfigs_eq_overflow_iff {t : Tree} :
    readConfigs f t = .error .overflow ↔ SectionOutgrows f t := by
  cases t with
  | table members =>
    rw [readConfigs, except_bind_pure_eq_error, mapM_eq_error_iff]
    constructor
    · rintro ⟨before, ⟨name, t⟩, after, rfl, hbefore, h⟩
      rw [except_bind_pure_eq_error, readList_eq_overflow_iff] at h
      obtain ⟨entries, entry, rest, rfl, hentries, h⟩ := h
      refine .table (fun m hm => ?_) hentries h
      obtain ⟨z, hz⟩ := hbefore m hm
      obtain ⟨es, hes, -⟩ := except_bind_eq_ok.1 hz
      exact ⟨es, hes⟩
    · intro h
      cases h with
      | table hbefore hentries h =>
        refine ⟨_, _, _, rfl, fun m hm => ?_, ?_⟩
        · obtain ⟨es, hes⟩ := hbefore m hm
          exact ⟨(m.1, es), except_bind_eq_ok.2 ⟨es, hes, rfl⟩⟩
        · exact except_bind_pure_eq_error.2 (readList_eq_overflow_iff.2 ⟨_, _, _, rfl, hentries, h⟩)
  | _ => constructor <;> intro h <;> cases h

theorem Draft.step_eq_overflow_iff {d : Draft} {m : String × Tree} :
    d.step f m = .error .overflow ↔
      m.1 = "mig-configs" ∧ d.configs = none ∧ SectionOutgrows f m.2 := by
  unfold step
  split
  next hname =>
    rw [except_bind_pure_eq_error, Tree.fill_eq_overflow_iff]
    simp [hname, Tree.readText_ne_overflow]
  next hname =>
    rw [except_bind_pure_eq_error, Tree.fill_eq_overflow_iff]
    simp [hname, readConfigs_eq_overflow_iff]
  next hname =>
    rw [except_bind_pure_eq_error]
    exact ⟨fun h => absurd h Tree.skip_ne_overflow, fun h => absurd h.1 hname⟩

theorem ofItems_eq_overflow_iff {items : List Tree} :
    Config.ofTree f (.list items) = .error .overflow ↔ Outgrows f (.list items) := by
  constructor
  · intro h
    unfold Config.ofTree at h
    split at h
    next heq => cases heq
    next version configs rest heq =>
      obtain rfl := Tree.list.inj heq
      rcases except_bind_eq_error.1 h with h | ⟨s, hversion, h⟩
      · exact absurd h Tree.readText_ne_overflow
      rcases except_bind_eq_error.1 h with h | ⟨c, -, h⟩
      · exact .list hversion (readConfigs_eq_overflow_iff.1 h)
      rcases except_bind_eq_error.1 h with h | ⟨_, -, h⟩
      · exact absurd h Format.surplus_ne_overflow
      · cases h
    · cases h
  · intro h
    cases h with
    | list hversion h =>
      simp only [Config.ofTree, hversion, readConfigs_eq_overflow_iff.2 h]
      rfl

theorem ofTree_eq_overflow_iff {t : Tree} :
    Config.ofTree f t = .error .overflow ↔ Outgrows f t := by
  cases t with
  | table members =>
    rw [Config.ofTree, except_bind_eq_error, foldlM_eq_error_iff]
    constructor
    · rintro (⟨before, ⟨name, configs⟩, after, rfl, d, hbefore, hstep⟩ | ⟨d, -, h⟩)
      · obtain ⟨rfl, hfree, h⟩ := Draft.step_eq_overflow_iff.1 hstep
        exact .table hbefore hfree h
      · rcases except_bind_eq_error.1 h with h | ⟨version, -, h⟩
        · exact absurd h Tree.required_ne_overflow
        · exact absurd (except_bind_pure_eq_error.1 h) Tree.required_ne_overflow
    · intro h
      cases h with
      | table hbefore hfree h =>
        exact .inl ⟨_, _, _, rfl, _, hbefore, Draft.step_eq_overflow_iff.2 ⟨rfl, hfree, h⟩⟩
  | list items => exact ofItems_eq_overflow_iff
  | _ => constructor <;> intro h <;> cases h

theorem readBy_eq_overflow_iff {parse : String → Option Tree} {text : String} :
    readBy parse text = .error .overflow ↔ ∃ t, parse text = some t ∧ Outgrows .toml t := by
  have hversion : ∀ c : Config, c.checkVersion ≠ .error .overflow := fun c => by
    rw [checkVersion]
    split <;> simp
  rw [readBy]
  cases parse text with
  | none => simp
  | some t =>
    simp only [Option.some.injEq, exists_eq_left', ← ofTree_eq_overflow_iff]
    cases Config.ofTree .toml t with
    | ok c => simp [hversion]
    | error e => cases e <;> simp

end Config

/-- What is read is a value or refused, unless it overflows. -/
theorem read_or_refused_iff {α : Type} {r : Reading α} :
    (∃ a, r = .ok a) ∨ r = .error .malformed ↔ r ≠ .error .overflow := by
  cases r with
  | ok a => simp
  | error e => cases e <;> simp

theorem loaded_or_refused_iff {α : Type} {r : Except LoadError α} :
    (∃ a, r = .ok a) ∨ (∃ cause, r = .error (.config cause)) ↔ r ≠ .error .overflow := by
  cases r with
  | ok a => simp
  | error e => cases e <;> simp

/-- **When a text is read or refused.** Whatever the readers of trees, as a layout, an entry or a
config in JSON, or as a config in TOML, a text gives a value or is refused exactly if it does not
outgrow a word: the first thing in it that is not read is no layout with counts of one profile that
outgrow a word together. -/
theorem answered_iff (document : String → Tree × Bool) (parse : String → Option Tree)
    (text : String) :
    ((∃ l, Layout.readBy document text = .ok l) ∨ Layout.readBy document text = .error .malformed ↔
      ¬ Layout.Outgrows (document text).1) ∧
    ((∃ e, Json.readBy document (Entry.ofTree .json) text = .ok e) ∨
        Json.readBy document (Entry.ofTree .json) text = .error .malformed ↔
      ¬ Entry.Outgrows (document text).1) ∧
    ((∃ c, Json.readBy document (Config.ofTree .json) text = .ok c) ∨
        Json.readBy document (Config.ofTree .json) text = .error .malformed ↔
      ¬ Config.Outgrows .json (document text).1) ∧
    ((∃ c, Config.readBy parse text = .ok c) ∨
        (∃ cause, Config.readBy parse text = .error (.config cause)) ↔
      ¬ ∃ t, parse text = some t ∧ Config.Outgrows .toml t) := by
  refine ⟨?layout, ?entry, ?config, ?toml⟩
  case layout =>
    rw [read_or_refused_iff, Ne, Layout.readBy, Json.readBy_eq_overflow_iff,
      Layout.ofTree_eq_overflow_iff]
  case entry =>
    rw [read_or_refused_iff, Ne, Json.readBy_eq_overflow_iff, Entry.ofTree_eq_overflow_iff]
  case config =>
    rw [read_or_refused_iff, Ne, Json.readBy_eq_overflow_iff, Config.ofTree_eq_overflow_iff]
  case toml => rw [loaded_or_refused_iff, Ne, Config.readBy_eq_overflow_iff]

/-- Whether a count outgrew a word. -/
def outgrown {α : Type} : Except LoadError α → Bool
  | .error .overflow => true
  | _ => false

theorem outgrown_iff {α : Type} {r : Except LoadError α} :
    outgrown r = true ↔ r = .error .overflow := by
  cases r with
  | ok a => simp [outgrown]
  | error e => cases e <;> simp [outgrown]

/-- Two spellings of one profile in JSON, the first with the greatest word for its count. In TOML,
where no number is as great, it takes three. -/
theorem unanswered_spellings :
    Layout.ofJson "\x7b\"1g.5gb\":18446744073709551615,\"1G.5GB\":1\x7d" =
      .error .overflow ∧
    Config.ofToml ("version=\"v1\"\n[mig-configs]\nx=[\x7bdevices=\"all\",mig-devices=\x7b" ++
      "\"1g.5gb\"=9223372036854775807,\"1G.5GB\"=9223372036854775807,\" 1g.5gb\"=2\x7d\x7d]") =
      .error .overflow := by
  constructor
  · let tree : Tree := .table [("1g.5gb", .natural wordMax), ("1G.5GB", .natural 1)]
    have htext : "\x7b\"1g.5gb\":18446744073709551615,\"1G.5GB\":1\x7d" = Json.compact tree := by
      decide
    rw [htext, Layout.ofJson, Json.read_compact _ rfl]
    decide +kernel
  · exact outgrown_iff.1 (by decide +kernel)

end GpuPartition
