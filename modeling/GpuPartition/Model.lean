/-
The GPU models of the catalog: what each offers, and which layouts it admits.

A model divides its GPU into compute slices and memory slices. An offer says what one
instance of a profile takes of them, how many instances there may be, and at which
memory slices one may start. `Model.check` checks a layout against profile list,
limits and both slice totals; it knows nothing about where instances would lie.

```text
memory slice:   0   1   2   3   4   5   6   7
7g.40gb         [=============================]
4g.20gb         [=============]
3g.20gb         [=============] [=============]
2g.10gb         [=====] [=====] [=====]
1g.5gb          [=] [=] [=] [=] [=] [=] [=]
```
-/
import GpuPartition.Layout

namespace GpuPartition

/-- What a model offers for one profile. -/
structure Offer where
  profile : Profile
  compute : Nat
  memory : Nat
  limit : Nat
  starts : List Nat
  deriving DecidableEq, Repr

/-- An offer that takes as many compute slices as its profile has slices. -/
def Offer.ofProfile (p : Profile) (memory limit : Nat) (starts : List Nat) : Offer :=
  ⟨p, p.slices.toNat, memory, limit, starts⟩

/-- A GPU model that can be partitioned. -/
inductive Model where
  | a100With40
  | a100With80
  | h100With80
  | a30With24
  deriving DecidableEq, Repr, Inhabited

/-- Slices that a layout takes in all. -/
structure Usage where
  compute : Nat
  memory : Nat
  deriving DecidableEq, Repr

inductive Resource where
  | compute
  | memory
  deriving DecidableEq, Repr

/-- Why a model does not admit a layout. -/
inductive AdmissionError where
  | unsupported (model : Model) (profile : Profile)
  | overLimit (model : Model) (profile : Profile) (requested limit : Nat)
  | overCapacity (model : Model) (resource : Resource) (required available : Nat)
  deriving DecidableEq, Repr

/-- A text that names no model, without the blanks around it. -/
structure UnknownModel where
  name : String
  deriving DecidableEq, Repr

namespace Model

/-- Every model, in catalog order. -/
def all : List Model := [a100With40, a100With80, h100With80, a30With24]

def name : Model → String
  | a100With40 => "A100-SXM4-40GB"
  | a100With80 => "A100-SXM4-80GB"
  | h100With80 => "H100-SXM5-80GB"
  | a30With24 => "A30-24GB"

instance : ToString Model := ⟨name⟩

def computeSlices : Model → Nat
  | a30With24 => 4
  | _ => 7

def memorySlices : Model → Nat
  | a30With24 => 4
  | _ => 8

/-- What the model offers, smallest profile first. -/
def offers : Model → List Offer
  | a100With40 => [
      .ofProfile ⟨1, 5⟩ 1 7 [0, 1, 2, 3, 4, 5, 6],
      .ofProfile ⟨2, 10⟩ 2 3 [0, 2, 4],
      .ofProfile ⟨3, 20⟩ 4 2 [0, 4],
      .ofProfile ⟨4, 20⟩ 4 1 [0],
      .ofProfile ⟨7, 40⟩ 8 1 [0]]
  | a100With80 | h100With80 => [
      .ofProfile ⟨1, 10⟩ 1 7 [0, 1, 2, 3, 4, 5, 6],
      .ofProfile ⟨2, 20⟩ 2 3 [0, 2, 4],
      .ofProfile ⟨3, 40⟩ 4 2 [0, 4],
      .ofProfile ⟨4, 40⟩ 4 1 [0],
      .ofProfile ⟨7, 80⟩ 8 1 [0]]
  | a30With24 => [
      .ofProfile ⟨1, 6⟩ 1 4 [0, 1, 2, 3],
      .ofProfile ⟨2, 12⟩ 2 2 [0, 2],
      .ofProfile ⟨4, 24⟩ 4 1 [0]]

def offer? (m : Model) (p : Profile) : Option Offer :=
  m.offers.find? (·.profile = p)

/-- Reads a model name. Blanks around it and the case of ASCII letters do not matter. -/
def parse (s : String) : Except UnknownModel Model :=
  let wanted := Text.trim s.toList
  match all.find? fun m => m.name.toList.map Char.toLower == wanted.map Char.toLower with
  | some m => .ok m
  | none => .error ⟨String.ofList wanted⟩

/-! ## Admission -/

/-- Adds `count` instances of `p` to a usage, if the model offers so many. -/
def take (m : Model) (used : Usage) (p : Profile) (count : Nat) : Except AdmissionError Usage :=
  match m.offer? p with
  | none => .error (.unsupported m p)
  | some o =>
    if o.limit < count then .error (.overLimit m p count o.limit)
    else .ok ⟨used.compute + o.compute * count, used.memory + o.memory * count⟩

/-- The slices that listed instances take; the first profile not offered, or not so often, is
the error. -/
def usage (m : Model) (counts : List (Profile × Nat)) : Except AdmissionError Usage :=
  counts.foldlM (fun used e => m.take used e.1 e.2) ⟨0, 0⟩

/-- Checks that the model can hold the layout, and says what it takes. Profiles are looked at in
order, then the compute total, then the memory total. -/
def check (m : Model) (l : Layout) : Except AdmissionError Usage := do
  let used ← m.usage l.toList
  if m.computeSlices < used.compute then
    .error (.overCapacity m .compute used.compute m.computeSlices)
  else if m.memorySlices < used.memory then
    .error (.overCapacity m .memory used.memory m.memorySlices)
  else
    .ok used

end Model

/-! ## Messages -/

def Resource.name : Resource → String
  | .compute => "compute"
  | .memory => "memory"

/-- The message names the model and what it lacks. -/
def AdmissionError.message : AdmissionError → String
  | .unsupported m p => s!"profile {p} is not supported on {m}"
  | .overLimit m p requested limit =>
    s!"{requested} instances of {p} requested but {m} allows at most {limit}"
  | .overCapacity m resource required available =>
    s!"layout needs {required} {resource.name} slices but {m} only has {available}"

/-- The message names what was asked for. -/
def UnknownModel.message (e : UnknownModel) : String :=
  s!"unknown device model '{e.name}'"

end GpuPartition
