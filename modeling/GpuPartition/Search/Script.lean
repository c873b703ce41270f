/-
Scripted attempts, for exercising the search without a device. A script says at which call
to accept, at which to abort, and which orders to accept wherever they come up; everything
else is to be retried. The attempts made are kept as a record.
-/
import GpuPartition.Search

namespace GpuPartition

/-- A property of creation orders: given profiles at given places, and for a pair of profiles
that no first one comes after a second one. -/
structure OrderRule where
  places : List (Nat × Profile)
  before : Option (Profile × Profile)
  deriving Repr

namespace OrderRule

/-- Whether nothing is asked. -/
def isTrivial (r : OrderRule) : Bool := r.places.isEmpty && r.before.isNone

/-- The place of the last `p`. -/
def lastPlace? (p : Profile) (order : List Profile) : Option Nat :=
  (order.reverse.findIdx? (· = p)).map (order.length - 1 - ·)

/-- Whether some `p` comes after some `q`. -/
def inverted (p q : Profile) (order : List Profile) : Bool :=
  match lastPlace? p order, order.findIdx? (· = q) with
  | some i, some j => j < i
  | _, _ => false

/-- Whether the order has the property. -/
def holds (r : OrderRule) (order : List Profile) : Bool :=
  r.places.all (fun (i, p) => order[i]? = some p) &&
    match r.before with
    | none => true
    | some (p, q) => !inverted p q order

end OrderRule

/-- What to answer to which call; calls are numbered from one. -/
structure Script where
  acceptAt : Option Nat
  acceptOrder : OrderRule
  fatalAt : Option Nat
  deriving Repr

/-- The calls a scripted attempt has seen, and the orders of the first of them, latest first. -/
structure Script.Record where
  calls : Nat
  tried : List (List Profile)
  deriving Repr

/-- The errors of a scripted attempt, with the number of the call. -/
inductive Script.Error where
  | failed (call : Nat)
  | fatal (call : Nat)
  deriving DecidableEq, Repr

/-- The words for an error of a scripted attempt. -/
def Script.Error.message : Script.Error → String
  | .failed n => s!"failed iteration: {n}"
  | .fatal n => s!"fatal iteration: {n}"

namespace Script

/-- The answer to call `n`. An abort goes before an acceptance. -/
def verdict (s : Script) (n : Nat) (order : List Profile) : Verdict Script.Error :=
  if s.fatalAt = some n then .fatal (.fatal n)
  else if s.acceptAt = some n || (!s.acceptOrder.isTrivial && s.acceptOrder.holds order) then
    .accepted
  else .retry (.failed n)

/-- The attempt that follows the script and records the orders of the first `keep` calls, of all
calls when there is no such number. -/
def attempt (s : Script) (keep : Option Nat) : Attempt Record Script.Error := fun order => do
  let r ← get
  let n := r.calls + 1
  let kept := match keep with
    | none => true
    | some k => n ≤ k
  set (Record.mk n (if kept then order :: r.tried else r.tried))
  return s.verdict n order

end Script

end GpuPartition
