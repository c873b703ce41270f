/-
The step to the next arrangement in place, on a row of items with numbered places. One scan goes
left from the end of the row to where its longest non-increasing end starts; another goes left from
the end of the row to the first item that is above the one in front of that end. These two items
change places, and the end is turned round.

Where a scan stops is up to the items alone. To look at a place that the row does not have, or to
go left of the first place, ends the step without a result.
-/
import GpuPartition.Arrangement.Successor

namespace GpuPartition.Arrangement

/-- What leads off the row: a place that it does not have, or a move left of the first place. -/
inductive OffRow where
  | noPlace (i : Nat)
  | leftOfFirst
  deriving DecidableEq, Repr

namespace Row

variable {α : Type}

/-- The item at a place. -/
def item (row : List α) (i : Nat) : Except OffRow α :=
  match row[i]? with
  | some a => .ok a
  | none => .error (.noPlace i)

/-- Exchanges the items at two places. -/
def exchange (row : List α) (i j : Nat) : Except OffRow (List α) := do
  let a ← item row i
  let b ← item row j
  return (row.set i b).set j a

/-- Turns round what stands from a place on; the place may be the one behind the last. -/
def turn (row : List α) (i : Nat) : Except OffRow (List α) :=
  if row.length < i then .error (.noPlace i) else .ok (row.take i ++ (row.drop i).reverse)

variable [LT α] [DecidableLT α]

/-- Goes left from a place, up to where the items up to that place start to be non-increasing. -/
def pivot (row : List α) : (start : Nat) → Except OffRow Nat
  | 0 => .ok 0
  | i + 1 => do
    if (← item row i) < (← item row (i + 1)) then return i + 1 else pivot row i

/-- Goes left from a place, up to an item that is above the one at `front`. -/
def successor (row : List α) (front start : Nat) : Except OffRow Nat := do
  if (← item row front) < (← item row start) then return start
  else
    match start with
    | 0 => .error .leftOfFirst
    | i + 1 => successor row front i

/-- Makes the row its next arrangement in lexicographic order. Gives whether there is one, and the
row that is left. -/
def advance (row : List α) : Except OffRow (Bool × List α) := do
  if row.length < 2 then return (false, row)
  else
    match ← pivot row (row.length - 1) with
    | 0 => return (false, row)
    | front + 1 =>
      let place ← successor row front (row.length - 1)
      let row ← exchange row front place
      let row ← turn row (front + 1)
      return (true, row)

end Row

end GpuPartition.Arrangement
