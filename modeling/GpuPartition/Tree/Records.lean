/-
The types of the library as document trees. `ofTree` reads a value from a tree, `toTree`
writes it into one.

A record is read from a table by the names of its members, of which each may come once
and unknown ones are passed over, or from a list of its fields in order. Layouts and named
configs are read from tables only; in a layout, names of one profile add up.
-/
import GpuPartition.Config
import GpuPartition.Placement
import GpuPartition.Tree

namespace GpuPartition

/-- The formats that trees are read from. They differ in one rule: a list of the fields of a
record may be longer than the record in TOML, but not in JSON. -/
inductive Format where
  | json
  | toml
  deriving DecidableEq, Repr

/-- What is left of a list of fields after the last one. -/
def Format.surplus (f : Format) (items : List Tree) : Reading Unit :=
  match f, items with
  | .json, _ :: _ => .error .malformed
  | _, _ => .ok ()

/-- The greatest number of 32 bits. -/
def halfWordMax : Nat := UInt32.size - 1

/-! ## Profiles, models, layouts -/

def Profile.ofText (s : String) : Reading Profile :=
  match Profile.parse s with
  | .ok p => .ok p
  | .error _ => .error .malformed

def Profile.ofTree (t : Tree) : Reading Profile := do Profile.ofText (← t.readText)

def Profile.toTree (p : Profile) : Tree := .text p.text

def Model.ofTree (t : Tree) : Reading Model := do
  match Model.parse (← t.readText) with
  | .ok m => .ok m
  | .error _ => .error .malformed

def Model.toTree (m : Model) : Tree := .text m.name

def Layout.readEntry (e : String × Tree) : Reading (Profile × Nat) := do
  let p ← Profile.ofText e.1
  let n ← e.2.readNatural wordMax
  return (p, n)

/-- Reads a layout. The counts are added up once all entries are read. -/
def Layout.ofTree : Tree → Reading Layout
  | .table members => do
    match Layout.ofCounts? (← members.mapM Layout.readEntry) with
    | some l => .ok l
    | none => .error .overflow
  | _ => .error .malformed

/-- Profile texts and counts, in profile order. -/
def Layout.toTree (l : Layout) : Tree :=
  .table (l.toList.map fun e => (e.1.text, .natural e.2))

/-! ## Placements and instances -/

/-- The fields of a placement read so far. -/
structure Placement.Draft where
  start : Option Nat
  size : Option Nat

def Placement.Draft.step (d : Draft) (m : String × Tree) : Reading Draft := do
  match m.1 with
  | "start" => return { d with start := ← Tree.fill d.start (Tree.readNatural halfWordMax) m.2 }
  | "size" => return { d with size := ← Tree.fill d.size (Tree.readNatural halfWordMax) m.2 }
  | _ => do m.2.skip; return d

def Placement.ofTree : Tree → Reading Placement
  | .table members => do
    let d ← members.foldlM Placement.Draft.step ⟨none, none⟩
    return ⟨← Tree.required d.start, ← Tree.required d.size⟩
  | .list [start, size] =>
    return ⟨← start.readNatural halfWordMax, ← size.readNatural halfWordMax⟩
  | _ => .error .malformed

def Placement.toTree (p : Placement) : Tree :=
  .table [("start", .natural p.start), ("size", .natural p.size)]

def Instance.readId : Tree → Reading Nat := Tree.readNatural halfWordMax

structure Instance.Draft where
  id : Option Nat
  profile : Option Profile
  placement : Option Placement

def Instance.Draft.step (d : Draft) (m : String × Tree) : Reading Draft := do
  match m.1 with
  | "id" => return { d with id := ← Tree.fill d.id readId m.2 }
  | "profile" => return { d with profile := ← Tree.fill d.profile Profile.ofTree m.2 }
  | "placement" => return { d with placement := ← Tree.fill d.placement Placement.ofTree m.2 }
  | _ => do m.2.skip; return d

def Instance.ofTree : Tree → Reading Instance
  | .table members => do
    let d ← members.foldlM Instance.Draft.step ⟨none, none, none⟩
    return ⟨← Tree.required d.id, ← Tree.required d.profile, ← Tree.required d.placement⟩
  | .list [id, profile, placement] =>
    return ⟨← readId id, ← Profile.ofTree profile, ← Placement.ofTree placement⟩
  | _ => .error .malformed

def Instance.toTree (i : Instance) : Tree :=
  .table [("id", .natural i.id), ("profile", i.profile.toTree), ("placement", i.placement.toTree)]

/-! ## Configs -/

/-- Reads a selector: any text, or a list of indices. -/
def Selector.ofTree : Tree → Reading Selector
  | .text s => .ok (.named s)
  | .list items => return .indices (← items.mapM (Tree.readNatural wordMax))
  | _ => .error .malformed

/-- The word or the list of indices. -/
def Selector.toTree : Selector → Tree
  | .named word => .text word
  | .indices is => .list (is.map .natural)

structure Entry.Draft where
  devices : Option Selector
  enabled : Option Bool
  layout : Option Layout

def Entry.Draft.step (d : Draft) (m : String × Tree) : Reading Draft := do
  match m.1 with
  | "devices" => return { d with devices := ← Tree.fill d.devices Selector.ofTree m.2 }
  | "mig-enabled" => return { d with enabled := ← Tree.fill d.enabled Tree.readBool m.2 }
  | "mig-devices" => return { d with layout := ← Tree.fill d.layout Layout.ofTree m.2 }
  | _ => do m.2.skip; return d

/-- The entry of its fields; the mode is on and the layout empty unless said otherwise. -/
def Entry.Draft.finish (d : Draft) : Reading Entry :=
  return ⟨← Tree.required d.devices, d.enabled.getD true, d.layout.getD .empty⟩

/-- Reads an entry from its fields in order, of which the last two may be missing. -/
def Entry.ofItems (f : Format) : List Tree → Reading Entry
  | [] => .error .malformed
  | [devices] => return ⟨← Selector.ofTree devices, true, .empty⟩
  | [devices, enabled] => return ⟨← Selector.ofTree devices, ← enabled.readBool, .empty⟩
  | devices :: enabled :: layout :: rest => do
    let e := ⟨← Selector.ofTree devices, ← enabled.readBool, ← Layout.ofTree layout⟩
    f.surplus rest
    return e

def Entry.ofTree (f : Format) : Tree → Reading Entry
  | .table members => do (← members.foldlM Entry.Draft.step ⟨none, none, none⟩).finish
  | .list items => Entry.ofItems f items
  | _ => .error .malformed

/-- The fields of an entry, all of them written out. -/
def Entry.toTree (e : Entry) : Tree :=
  .table [("devices", e.devices.toTree), ("mig-enabled", .bool e.enabled),
    ("mig-devices", e.layout.toTree)]

/-- Reads named configs; of several under one name the last stays. -/
def Config.readConfigs (f : Format) : Tree → Reading (SortedMap String (List Entry))
  | .table members => do
    let named ← members.mapM fun m => return (m.1, ← m.2.readList (Entry.ofTree f))
    return .ofList named
  | _ => .error .malformed

structure Config.Draft where
  version : Option String
  configs : Option (SortedMap String (List Entry))

def Config.Draft.step (f : Format) (d : Draft) (m : String × Tree) : Reading Draft := do
  match m.1 with
  | "version" => return { d with version := ← Tree.fill d.version Tree.readText m.2 }
  | "mig-configs" => return { d with configs := ← Tree.fill d.configs (readConfigs f) m.2 }
  | _ => do m.2.skip; return d

/-- Reads a config. The version is not looked at. -/
def Config.ofTree (f : Format) : Tree → Reading Config
  | .table members => do
    let d ← members.foldlM (Config.Draft.step f) ⟨none, none⟩
    return ⟨← Tree.required d.version, ← Tree.required d.configs⟩
  | .list (version :: configs :: rest) => do
    let c := ⟨← version.readText, ← readConfigs f configs⟩
    f.surplus rest
    return c
  | _ => .error .malformed

/-- The fields of a config, the named configs in order. -/
def Config.toTree (c : Config) : Tree :=
  .table [("version", .text c.version),
    ("mig-configs", .table (c.configs.toList.map fun named =>
      (named.1, .list (named.2.map Entry.toTree))))]

def Target.toTree (t : Target) : Tree :=
  .table [("device_index", .natural t.index), ("mig_enabled", .bool t.enabled),
    ("layout", t.layout.toTree)]

end GpuPartition
