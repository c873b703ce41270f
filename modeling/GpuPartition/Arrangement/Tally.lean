/-
The number of distinct arrangements by a running product in two machine words. The items are
put in one by one, kind after kind; the `n`-th item of all, when it is the `i`-th of its
kind, multiplies the arrangements by `n` and divides them by `i`. A product that outgrows two
words ends the count.
-/
import GpuPartition.Arrangement.Count

namespace GpuPartition.Arrangement

/-- The greatest number that two machine words hold. -/
def doubleWordMax : Nat := UInt64.size * UInt64.size - 1

/-- Items put in so far: how many there are, and how many arrangements they have. -/
structure Tally where
  items : Nat
  total : Nat
  deriving DecidableEq, Repr

/-- What has outgrown two machine words: the number of items, or a product on the way to that
of their arrangements. -/
inductive Excess where
  | items
  | total
  deriving DecidableEq, Repr

namespace Tally

/-- Puts in one more item, the `i`-th of its kind. -/
def put (t : Tally) (i : Nat) : Except Excess Tally :=
  let items := t.items + 1
  if doubleWordMax < items then .error .items
  else if doubleWordMax < t.total * items then .error .total
  else .ok ⟨items, t.total * items / i⟩

/-- Puts in so many items of one more kind. -/
def putKind (t : Tally) (c : Nat) : Except Excess Tally :=
  (List.range' 1 c).foldlM put t

/-- Puts in items of the given multiplicities. -/
def ofMultiplicities (cs : List Nat) : Except Excess Tally :=
  cs.foldlM putKind ⟨0, 1⟩

end Tally

/-- The number of distinct arrangements, as far as a machine word tells. It is none if the items
themselves cannot be counted. -/
def tallied? (cs : List Nat) : Option Nat :=
  match Tally.ofMultiplicities cs with
  | .ok t => some (if t.total ≤ wordMax then t.total else wordMax)
  | .error .total => some wordMax
  | .error .items => none

end GpuPartition.Arrangement
