/-
Searching for a creation order. The same layout may be created in one order and fail in
another, so the distinct orders of its instances are tried one by one, in lexicographic
order, until an attempt accepts one or forbids to go on. The search knows nothing of
devices; undoing what a failed attempt did is the attempt's job.
-/
import GpuPartition.Arrangement.Count
import GpuPartition.Arrangement.Cursor

namespace GpuPartition

variable {σ ε : Type}

/-- What an attempt says of one creation order. -/
inductive Verdict (ε : Type) where
  | accepted
  | retry (error : ε)
  | fatal (error : ε)

/-- An attempt at one creation order; it may change a state, whatever it says. -/
abbrev Attempt (σ ε : Type) := List Profile → StateM σ (Verdict ε)

/-- A search that ended well: how many orders were tried, and the one that was accepted. -/
structure Found where
  attempts : Nat
  order : List Profile
  deriving DecidableEq, Repr

/-- A search that ended without an accepted order. -/
inductive SearchError (ε : Type) where
  | exhausted (layout : Layout) (attempts distinct : Nat) (last : Option ε)
  | aborted (layout : Layout) (attempts : Nat) (error : ε)

/-- Tries the orders ahead of the cursor, `fuel` of them at most. -/
def searchFrom (attempt : Attempt σ ε) (layout : Layout) (distinct : Nat) :
    (fuel attempts : Nat) → Option ε → Arrangement.Cursor Profile →
    StateM σ (Except (SearchError ε) Found)
  | 0, attempts, last, _ => pure (.error (.exhausted layout attempts distinct last))
  | fuel + 1, attempts, last, cursor =>
    match cursor.next with
    | (none, _) => pure (.error (.exhausted layout attempts distinct last))
    | (some order, cursor) => do
      match ← attempt order with
      | .accepted => pure (.ok ⟨attempts + 1, order⟩)
      | .retry e => searchFrom attempt layout distinct fuel (attempts + 1) (some e) cursor
      | .fatal e => pure (.error (.aborted layout (attempts + 1) e))

/-- Tries the distinct creation orders of a layout until an attempt accepts one. An empty layout
needs no attempt. There are no more orders than `distinct`, so that many steps are enough. -/
def searchOrders (layout : Layout) (attempt : Attempt σ ε) :
    StateM σ (Except (SearchError ε) Found) :=
  let items := layout.flatten
  if items.isEmpty then
    pure (.ok ⟨0, []⟩)
  else
    let distinct := Arrangement.count layout.multiplicities
    searchFrom attempt layout distinct distinct 0 none (.start items)

/-- Appends the last error, if there is one, in brackets. -/
def lastErrorNote (last : Option String) : String :=
  match last with
  | none => ""
  | some e => s!" (last error: {e})"

/-- The message, given the words for the attempt's own errors. -/
def SearchError.message (describe : ε → String) : SearchError ε → String
  | .exhausted layout attempts distinct last =>
    s!"no viable ordering for layout {layout.text}: all {attempts} of {distinct} distinct " ++
    s!"orderings failed{lastErrorNote (last.map describe)}; the device topology cannot " ++
    "currently host this layout"
  | .aborted layout attempts error =>
    s!"search over layout {layout.text} aborted on attempt {attempts}: {describe error}"

end GpuPartition
