/-
Layouts: how many instances of each profile. A layout is a multiset of profiles in
canonical form, a sorted map without zero counts, so layouts are equal exactly when
they count every profile alike (`Layout.ext_count`). `count_set` and `count_add` say
what the two basic operations do to counts.

Counts are natural numbers here. Where a count enters from outside or is added to, it
has to fit a machine word of 64 bits; the functions whose names end in `?` give `none`
when it does not.
-/
import GpuPartition.Profile
import GpuPartition.SortedMap

namespace GpuPartition

/-- How many instances of each profile; no profile is listed with count zero. -/
structure Layout where
  counts : SortedMap Profile Nat
  positive : ∀ e ∈ counts.toList, 0 < e.2

/-- The greatest number that a machine word holds. -/
def wordMax : Nat := UInt64.size - 1

namespace Layout

theorem counts_injective {a b : Layout} (h : a.counts = b.counts) : a = b := by
  cases a; cases b; cases h; rfl

instance : DecidableEq Layout := fun a b =>
  if h : a.counts = b.counts then isTrue (counts_injective h)
  else isFalse (fun e => h (e ▸ rfl))

/-! ## Reading a layout -/

def empty : Layout := ⟨.empty, by simp [SortedMap.empty]⟩

instance : EmptyCollection Layout := ⟨empty⟩

instance : Inhabited Layout := ⟨empty⟩

/-- Profiles and their counts, in profile order. -/
def toList (l : Layout) : List (Profile × Nat) := l.counts.toList

/-- The number of instances of `p`, zero when it is not listed. -/
def count (l : Layout) (p : Profile) : Nat := (l.counts.find? p).getD 0

def contains (l : Layout) (p : Profile) : Bool := (l.counts.find? p).isSome

def isEmpty (l : Layout) : Bool := l.counts.isEmpty

/-- The counts alone, in profile order. -/
def multiplicities (l : Layout) : List Nat := l.counts.values

/-- The number of instances of all profiles. -/
def total (l : Layout) : Nat := l.multiplicities.foldr (· + ·) 0

/-- One entry for each instance, in profile order. -/
def flatten (l : Layout) : List Profile :=
  l.toList.flatMap fun e => List.replicate e.2 e.1

/-- Whether every count fits a machine word. -/
def fits (l : Layout) : Bool := l.multiplicities.all (· ≤ wordMax)

/-! ## Building a layout -/

/-- Makes `n` the count of `p`; zero takes `p` off the list. -/
def set (l : Layout) (p : Profile) (n : Nat) : Layout :=
  if h : n = 0 then
    ⟨l.counts.erase p, fun e he => l.positive e (SortedMap.mem_erase.1 he).1⟩
  else
    ⟨l.counts.insert p n, fun e he => (SortedMap.mem_insert he).elim
      (fun h' => h' ▸ Nat.pos_of_ne_zero h) (l.positive e)⟩

/-- Adds `n` instances of `p`. -/
def add (l : Layout) (p : Profile) (n : Nat) : Layout :=
  if n = 0 then l else l.set p (l.count p + n)

def increment (l : Layout) (p : Profile) : Layout := l.add p 1

/-- Collects pairs of profile and count; repeated profiles accumulate. -/
def ofCounts (pairs : List (Profile × Nat)) : Layout :=
  pairs.foldl (fun l e => l.add e.1 e.2) empty

/-- Counts how often each profile occurs. -/
def ofProfiles (ps : List Profile) : Layout :=
  ps.foldl increment empty

/-- Reads pairs of profile text and count; the first text that is no profile is the error,
whatever its count. -/
def readRecords (records : List (String × Nat)) : Except ProfileError (List (Profile × Nat)) :=
  records.mapM fun e => do return (← Profile.parse e.1, e.2)

/-! ## Machine words -/

/-- `ofCounts`, unless a count outgrows a machine word. -/
def ofCounts? (pairs : List (Profile × Nat)) : Option Layout :=
  let l := ofCounts pairs
  if l.fits then some l else none

/-- Reads a layout from pairs of profile text and count. -/
def parseRecords (records : List (String × Nat)) : Except ProfileError (Option Layout) :=
  return ofCounts? (← readRecords records)

/-- `increment`, unless the count outgrows a machine word. -/
def increment? (l : Layout) (p : Profile) : Option Layout :=
  if l.count p < wordMax then some (l.increment p) else none

/-- `ofProfiles`, unless a count outgrows a machine word on the way. -/
def ofProfiles? (ps : List Profile) : Option Layout :=
  ps.foldlM increment? empty

/-- `total`, unless it outgrows a machine word. -/
def total? (l : Layout) : Option Nat :=
  if l.total ≤ wordMax then some l.total else none

/-! ## Counts -/

theorem count_pos_of_find? {l : Layout} {p : Profile} {n : Nat} (h : l.counts.find? p = some n) :
    0 < n := by
  have mem : ∀ {es : List (Profile × Nat)}, SortedMap.lookupEntry p es = some n → (p, n) ∈ es := by
    intro es h
    induction es with
    | nil => simp [SortedMap.lookupEntry] at h
    | cons e es ih =>
      obtain ⟨q, m⟩ := e
      rw [SortedMap.lookupEntry] at h
      split at h
      · next hq => simp_all
      · exact List.mem_cons_of_mem _ (ih h)
  exact l.positive _ (mem h)

@[simp] theorem count_empty (p : Profile) : (empty : Layout).count p = 0 := rfl

theorem count_set (l : Layout) (p q : Profile) (n : Nat) :
    (l.set p n).count q = if p = q then n else l.count q := by
  unfold set count
  split
  · next h => rw [SortedMap.find?_erase]; split <;> simp_all
  · rw [SortedMap.find?_insert]; split <;> simp_all

theorem count_add (l : Layout) (p q : Profile) (n : Nat) :
    (l.add p n).count q = l.count q + if p = q then n else 0 := by
  unfold add
  split
  · next h => simp [h]
  · rw [count_set]; split <;> simp_all

/-- A profile is listed exactly when its count is positive. -/
theorem contains_iff (l : Layout) (p : Profile) : l.contains p = true ↔ 0 < l.count p := by
  unfold contains count
  cases h : l.counts.find? p with
  | none => simp
  | some n => simpa using count_pos_of_find? h

/-- Layouts that count every profile alike are equal. -/
theorem ext_count {a b : Layout} (h : ∀ p, a.count p = b.count p) : a = b := by
  refine counts_injective (SortedMap.ext_find? fun p => ?_)
  have := h p
  unfold count at this
  cases ha : a.counts.find? p with
  | none =>
    cases hb : b.counts.find? p with
    | none => rfl
    | some n => have := count_pos_of_find? hb; simp_all
  | some n =>
    cases hb : b.counts.find? p with
    | none => have := count_pos_of_find? ha; simp_all
    | some m => simp_all

/-! ## Text -/

/-- The written form, `{profile: count, …}`. -/
def text (l : Layout) : String :=
  "\x7b" ++ ", ".intercalate (l.toList.map fun e => s!"{e.1.text}: {e.2}") ++ "\x7d"

end Layout

end GpuPartition
