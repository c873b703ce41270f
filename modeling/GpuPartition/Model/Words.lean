/-
Admission in machine words. Counts of instances have 64 bits. What they need in slices is added up
in 32 bits, and a count is narrowed to as many before that. A count that the narrowing would cut
short ends the check without an answer, and so does a product or a sum that outgrows its word.
-/
import GpuPartition.Model

namespace GpuPartition

/-- The number, unless it has more than 32 bits. -/
def narrow? (n : Nat) : Option Nat := if n < UInt32.size then some n else none

/-- Adds what so many instances need to the slices in use. -/
def addSlices? (used need count : Nat) : Option Nat := do
  let needed ← narrow? (need * count)
  narrow? (used + needed)

/-- Adds what so many instances need to a usage. -/
def Offer.charge? (o : Offer) (used : Usage) (count : Nat) : Option Usage := do
  let count ← narrow? count
  let compute ← addSlices? used.compute o.compute count
  let memory ← addSlices? used.memory o.memory count
  return ⟨compute, memory⟩

namespace Model

/-- `take`, in machine words. -/
def take? (m : Model) (used : Usage) (p : Profile) (count : Nat) :
    ExceptT AdmissionError Option Usage :=
  match m.offer? p with
  | none => throw (.unsupported m p)
  | some o =>
    if o.limit < count then throw (.overLimit m p count o.limit)
    else o.charge? used count

/-- `usage`, in machine words. -/
def usage? (m : Model) (counts : List (Profile × Nat)) : ExceptT AdmissionError Option Usage :=
  counts.foldlM (fun used e => m.take? used e.1 e.2) ⟨0, 0⟩

/-- `check`, in machine words. -/
def check? (m : Model) (l : Layout) : ExceptT AdmissionError Option Usage := do
  let used ← m.usage? l.toList
  if m.computeSlices < used.compute then
    throw (.overCapacity m .compute used.compute m.computeSlices)
  else if m.memorySlices < used.memory then
    throw (.overCapacity m .memory used.memory m.memorySlices)
  else
    return used

end Model

end GpuPartition
