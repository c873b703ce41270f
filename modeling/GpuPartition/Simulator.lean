/-
A GPU in memory. As far as a manager can observe, it behaves like the hardware: a new
instance goes to the first free start that its profile may have, so the order of
creation matters. A `1g.5gb` created before a `4g.20gb` takes slice 0 and leaves the
larger profile nowhere to go; the other way round both fit.

Two things can be set up on top. Create rules see the live instances and may refuse a
creation; a fault plan makes calls fail.
-/
import GpuPartition.Device

namespace GpuPartition

/-- Which calls are to fail: every listing, every destruction once so many have gone well,
every change of mode. -/
structure FaultPlan where
  list : Bool
  destroyAfter : Option Nat
  modeChange : Bool
  deriving DecidableEq, Repr

def FaultPlan.none : FaultPlan := ⟨false, .none, false⟩

/-- How often each call was made, whether or not it went well. -/
structure CallCounts where
  list : Nat
  create : Nat
  destroy : Nat
  setMode : Nat
  deriving DecidableEq, Repr

def CallCounts.zero : CallCounts := ⟨0, 0, 0, 0⟩

/-- The calls that can change the device. -/
def CallCounts.changing (c : CallCounts) : Nat := c.create + c.destroy + c.setMode

/-- Given the live instances and the profile asked for, a reason to refuse it, if any. -/
abbrev CreateRule := List Instance → Profile → Option String

/-- A simulated GPU. `live` is in order of creation; `nextId` numbers the next instance, and
`destroyed` counts destructions that went well. -/
structure Simulator where
  index : Nat
  model : Model
  enabled : Bool
  live : List Instance
  nextId : Nat
  destroyed : Nat
  rules : List CreateRule
  faults : FaultPlan
  calls : CallCounts

namespace Simulator

/-- A device without instances, its mode off. -/
def new (index : Nat) (model : Model) : Simulator :=
  ⟨index, model, false, [], 0, 0, [], .none, .zero⟩

def identifier (s : Simulator) : String := s!"gpu{s.index}"

/-- The device with its calls counted anew. -/
def resetCalls (s : Simulator) : Simulator := { s with calls := .zero }

/-- The error of a call to this device. -/
def fails (s : Simulator) (fault : DeviceFault) : DeviceError := ⟨s.identifier, fault⟩

/-- A call that the fault plan makes fail. -/
def injected (call : DeviceCall) : DeviceFault := .callFailed call "injected fault"

/-! ## Creation -/

/-- The compute slices that live instances take. -/
def computeUsed (s : Simulator) : Nat := 
  (s.live.map (·.profile.slices.toNat)).foldr (· + ·) 0

/-- Whether no live instance shares a slice with the placement. -/
def isFree (s : Simulator) (p : Placement) : Bool := s.live.all fun i => !i.placement.overlaps p

/-- The first free placement of an offer. -/
def firstFit (s : Simulator) (o : Offer) : Option Placement :=
  (o.starts.map (Placement.mk · o.memory)).find? s.isFree

/-- The reason of the first create rule that refuses. -/
def refusal (s : Simulator) (p : Profile) : Option String :=
  s.rules.findSome? (· s.live p)

/-- Where a new instance of `p` would go. The mode, the offer, its limit, the compute slices, the
rules and the placements are looked at in this order. -/
def place (s : Simulator) (p : Profile) : Except DeviceFault Placement :=
  if !s.enabled then .error .modeOff else
  match s.model.offer? p with
  | none => .error (.unsupported p)
  | some o =>
    if o.limit ≤ s.live.countP (·.profile = p) then .error (.insufficient p (.limit o.limit))
    else if s.model.computeSlices < s.computeUsed + o.compute then
      .error (.insufficient p .compute)
    else
      match s.refusal p with
      | some reason => .error (.rejected p reason)
      | none =>
        match s.firstFit o with
        | none => .error (.insufficient p .placement)
        | some placement => .ok placement

/-- Creates an instance of `p` under the next number. -/
def create (p : Profile) : DeviceM Simulator Nat := fun s =>
  let s := { s with calls.create := s.calls.create + 1 }
  match s.place p with
  | .error fault => .error (s.fails fault) s
  | .ok placement =>
    .ok s.nextId { s with
      live := s.live ++ [⟨s.nextId, p, placement⟩]
      nextId := s.nextId + 1 }

/-! ## Destruction -/

/-- Whether the fault plan lets no more instances be destroyed. -/
def destroyBlocked (s : Simulator) : Bool :=
  match s.faults.destroyAfter with
  | none => false
  | some n => n ≤ s.destroyed

def destroy (id : Nat) : DeviceM Simulator Unit := fun s =>
  let s := { s with calls.destroy := s.calls.destroy + 1 }
  if !s.enabled then .error (s.fails .modeOff) s
  else if s.destroyBlocked then .error (s.fails (injected .destroy)) s
  else if s.live.any (·.id = id) then
    .ok () { s with live := s.live.eraseP (·.id = id), destroyed := s.destroyed + 1 }
  else .error (s.fails (.notFound id)) s

/-! ## Mode and listing -/

/-- Turns the mode on or off; it stays on while instances live. -/
def setMode (on : Bool) : DeviceM Simulator Unit := fun s =>
  let s := { s with calls.setMode := s.calls.setMode + 1 }
  if s.faults.modeChange then .error (s.fails (injected .setMode)) s
  else if !on && !s.live.isEmpty then .error (s.fails (.busy s.live.length)) s
  else .ok () { s with enabled := on }

def instances : DeviceM Simulator (List Instance) := fun s =>
  let s := { s with calls.list := s.calls.list + 1 }
  if s.faults.list then .error (s.fails (injected .list)) s else .ok s.live s

/-- Tells the mode; this call never fails and is not counted. -/
def isEnabled : DeviceM Simulator Bool := fun s => .ok s.enabled s

instance : Device Simulator where
  identifier := identifier
  model := Simulator.model
  isEnabled := isEnabled
  setMode := setMode
  instances := instances
  create := create
  destroy := destroy

end Simulator

/-! ## A server of devices -/

/-- The devices of a server, numbered from zero, their modes off. -/
def Simulator.server (model : Model) (count : Nat) : List Simulator :=
  (List.range count).map (Simulator.new · model)

/-- A DGX A100: eight A100 with 40 GB each. -/
def Simulator.dgxA100 : List Simulator := server .a100With40 8

end GpuPartition
