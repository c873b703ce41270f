/-
Create rules: reasons for a simulated GPU to refuse a creation.
-/
import GpuPartition.Simulator

namespace GpuPartition.CreateRule

/-- Refuses `profile` while an instance of `blocker` lives, so `profile` has to come first. -/
def after (profile blocker : Profile) : CreateRule := fun live p =>
  if p = profile ∧ live.any (·.profile = blocker) then
    some s!"{profile} must be created before {blocker}"
  else none

/-- Always refuses `profile`. -/
def always (profile : Profile) (reason : String) : CreateRule := fun _ p =>
  if p = profile then some reason else none

/-- Refuses while exactly `n` instances live. -/
def atCount (n : Nat) (reason : String) : CreateRule := fun live _ =>
  if live.length = n then some reason else none

/-- Refuses while an instance lies at `start`. -/
def atStart (start : Nat) (reason : String) : CreateRule := fun live _ =>
  if live.any (·.placement.start = start) then some reason else none

end GpuPartition.CreateRule
