/-
Placements and instances: which memory slices a live instance covers.
-/
import GpuPartition.Profile

namespace GpuPartition

/-- A run of memory slices, `start` up to but not including `start + size`. -/
structure Placement where
  start : Nat
  size : Nat
  deriving DecidableEq, Repr

namespace Placement

/-- One past the last slice covered. -/
def stop (p : Placement) : Nat := p.start + p.size

/-- `stop`, unless it outgrows 32 bits. -/
def stop? (p : Placement) : Option Nat :=
  if p.stop < UInt32.size then some p.stop else none

def Covers (p : Placement) (slice : Nat) : Prop := p.start ≤ slice ∧ slice < p.stop

/-- Compares the ends of two runs: each starts before the other stops. -/
def overlaps (a b : Placement) : Bool := a.start < b.stop && b.start < a.stop

/-- `overlaps`, unless a stop that is compared outgrows 32 bits. The stop of `a` is compared only
where `a` starts before `b` stops. -/
def overlaps? (a b : Placement) : Option Bool := do
  if a.start < (← b.stop?) then return b.start < (← a.stop?) else return false

theorem overlaps_comm (a b : Placement) : a.overlaps b = b.overlaps a := by
  simp [overlaps, Bool.and_comm]

end Placement

/-- A live instance: its number on the device, its profile, and where it lies. -/
structure Instance where
  id : Nat
  profile : Profile
  placement : Placement
  deriving DecidableEq, Repr

end GpuPartition
