/-
Profiles: the partition templates of a GPU. A profile says how many GPU slices an
instance takes and how much memory it carries, and is written `<slices>g.<memory>gb`.

Profiles are ordered by slices first and memory second; `Profile.rank` is that order
as one number, and gives the order its laws.
-/
import GpuPartition.Text.Blank
import GpuPartition.Text.Natural

namespace GpuPartition

/-- A partition template: GPU slices and memory in GB of one instance. -/
structure Profile where
  slices : UInt32
  memory : UInt32
  deriving DecidableEq, Repr, Inhabited

/-- Why a text is not a profile; the first of these that applies is reported. -/
inductive ProfileFault where
  | noDot
  | slicesUnit
  | slicesNumber
  | memoryUnit
  | memoryNumber
  | zero
  deriving DecidableEq, Repr

/-- A text that was read as a profile, and what is wrong with it. -/
structure ProfileError where
  input : String
  fault : ProfileFault
  deriving DecidableEq, Repr

namespace Profile

/-! ## Order -/

/-- The place of a profile in the order by slices, then memory. -/
def rank (p : Profile) : Nat := p.slices.toNat * UInt32.size + p.memory.toNat

theorem rank_injective {p q : Profile} (h : p.rank = q.rank) : p = q := by
  obtain ⟨s, m⟩ := p
  obtain ⟨s', m'⟩ := q
  have := m.toNat_lt
  have := m'.toNat_lt
  simp only [rank, UInt32.size] at h
  have hs : s = s' := UInt32.toNat_inj.1 (by omega)
  have hm : m = m' := UInt32.toNat_inj.1 (by omega)
  rw [hs, hm]

instance : LT Profile := ⟨fun p q => p.rank < q.rank⟩

instance : LE Profile := ⟨fun p q => p.rank ≤ q.rank⟩

instance : DecidableLT Profile := fun p q => inferInstanceAs (Decidable (p.rank < q.rank))

instance : DecidableLE Profile := fun p q => inferInstanceAs (Decidable (p.rank ≤ q.rank))

instance : Std.IsLinearOrder Profile where
  le_refl p := Nat.le_refl p.rank
  le_trans _ _ _ := Nat.le_trans
  le_antisymm _ _ h h' := rank_injective (Nat.le_antisymm h h')
  le_total p q := Nat.le_total p.rank q.rank

instance : Std.LawfulOrderLT Profile where
  lt_iff _ _ := Nat.lt_iff_le_and_not_ge

/-- The order compares slices first, and memory where they are equal. -/
theorem lt_iff {p q : Profile} :
    p < q ↔ p.slices < q.slices ∨ p.slices = q.slices ∧ p.memory < q.memory := by
  obtain ⟨s, m⟩ := p
  obtain ⟨s', m'⟩ := q
  have := m.toNat_lt
  have := m'.toNat_lt
  change s.toNat * UInt32.size + m.toNat < s'.toNat * UInt32.size + m'.toNat ↔ _
  simp only [UInt32.size, UInt32.lt_iff_toNat_lt, ← UInt32.toNat_inj]
  omega

theorem le_iff {p q : Profile} :
    p ≤ q ↔ p.slices < q.slices ∨ p.slices = q.slices ∧ p.memory ≤ q.memory := by
  obtain ⟨s, m⟩ := p
  obtain ⟨s', m'⟩ := q
  have := m.toNat_lt
  have := m'.toNat_lt
  change s.toNat * UInt32.size + m.toNat ≤ s'.toNat * UInt32.size + m'.toNat ↔ _
  simp only [UInt32.size, UInt32.lt_iff_toNat_lt, UInt32.le_iff_toNat_le, ← UInt32.toNat_inj]
  omega

/-! ## Text -/

/-- The written form, `<slices>g.<memory>gb`. -/
def text (p : Profile) : String :=
  s!"{p.slices.toNat}g.{p.memory.toNat}gb"

instance : ToString Profile := ⟨text⟩

/-- The part of `cs` before a last part `tail`, if `cs` ends so. -/
def dropTail? (tail cs : List Char) : Option (List Char) :=
  if tail.isSuffixOf cs then some (cs.take (cs.length - tail.length)) else none

/-- Reads the number in front of a unit. -/
def readMeasure (unit cs : List Char) (badUnit badNumber : ProfileFault) :
    Except ProfileFault UInt32 :=
  match dropTail? unit cs with
  | none => .error badUnit
  | some digits =>
    match Text.readBelow UInt32.size digits with
    | none => .error badNumber
    | some n => .ok (UInt32.ofNat n)

/-- Reads a profile from text already trimmed and in lower case. The parts are checked from
left to right, and that both are non-zero is checked last. -/
def readParts (cs : List Char) : Except ProfileFault Profile :=
  match cs.dropWhile (· ≠ '.') with
  | [] => .error .noDot
  | _ :: rest => do
    let slices ← readMeasure ['g'] (cs.takeWhile (· ≠ '.')) .slicesUnit .slicesNumber
    let memory ← readMeasure ['g', 'b'] rest .memoryUnit .memoryNumber
    if slices = 0 ∨ memory = 0 then .error .zero else .ok ⟨slices, memory⟩

/-- Reads a profile. Blanks around it and the case of its letters do not matter; of the
letters only ASCII ones can occur in a profile, so only they are put in lower case. -/
def parse (s : String) : Except ProfileError Profile :=
  (readParts ((Text.trim s.toList).map Char.toLower)).mapError (⟨s, ·⟩)

end Profile

/-- The wording of a fault. -/
def ProfileFault.reason : ProfileFault → String
  | .noDot => "expected '<g>g.<mem>gb'"
  | .slicesUnit => "slice count must end in 'g'"
  | .slicesNumber => "slice count is not a number"
  | .memoryUnit => "memory size must end in 'gb'"
  | .memoryNumber => "memory size is not a number"
  | .zero => "slice count and memory size must be non-zero"

/-- The message names the text as it was given, blanks included. -/
def ProfileError.message (e : ProfileError) : String :=
  s!"invalid MIG profile '{e.input}': {e.fault.reason}"

end GpuPartition
