/-
Partition configs. A config file holds named configs; each is a list of entries, and an
entry selects devices and gives them a mode and a layout. `Config.resolve` turns one
named config into targets, one for each selected device, for a server of so many devices
of one model.
-/
import GpuPartition.Model

namespace GpuPartition

/-- The devices an entry applies to: by a word, or by their indices. -/
inductive Selector where
  | named (word : String)
  | indices (indices : List Nat)
  deriving DecidableEq, Repr

/-- One entry of a named config. The layout means nothing when the mode is off. -/
structure Entry where
  devices : Selector
  enabled : Bool
  layout : Layout
  deriving DecidableEq

structure Config where
  version : String
  configs : SortedMap String (List Entry)
  deriving DecidableEq

/-- The state one device is to be brought to. -/
structure Target where
  index : Nat
  enabled : Bool
  layout : Layout
  deriving DecidableEq

/-- Why the bytes of a file could not be had as text. -/
inductive ReadFailure where
  | missing
  | directory
  | blocked
  | notText
  deriving DecidableEq, Repr

/-- Why a config could not be read, written or resolved. -/
inductive ConfigError where
  | read (path : String) (cause : ReadFailure)
  | parse
  | serialize
  | unsupportedVersion (version : String)
  | unknownConfig (name : String) (available : List String)
  | invalidSelector (word : String)
  | outOfRange (config : String) (index count : Nat)
  | duplicate (config : String) (index : Nat)
  | invalidLayout (config : String) (cause : AdmissionError)

/-- The only version of config files that is understood. -/
def configVersion : String := "v1"

/-- The devices selected out of `count`, in the order in which they are named. The word is
`all` in any case of its ASCII letters. -/
def Selector.resolve (config : String) (count : Nat) : Selector → Except ConfigError (List Nat)
  | .named word =>
    if word.toList.map Char.toLower = ['a', 'l', 'l'] then .ok (List.range count)
    else .error (.invalidSelector word)
  | .indices is =>
    match is.find? (count ≤ ·) with
    | some i => .error (.outOfRange config i count)
    | none => .ok is

/-- The layout an entry asks of its devices: none when the mode is off, and otherwise one that
the model has to have room for. -/
def Entry.layoutOn (config : String) (m : Model) (e : Entry) : Except ConfigError Layout :=
  if e.enabled then
    match m.check e.layout with
    | .ok _ => .ok e.layout
    | .error cause => .error (.invalidLayout config cause)
  else .ok .empty

namespace Config

def names (c : Config) : List String := c.configs.keys

/-- Gives each of the devices one more target, unless it has one. -/
def assign (config : String) (enabled : Bool) (layout : Layout) :
    SortedMap Nat Target → List Nat → Except ConfigError (SortedMap Nat Target)
  | targets, [] => .ok targets
  | targets, i :: is =>
    match targets.find? i with
    | some _ => .error (.duplicate config i)
    | none => assign config enabled layout (targets.insert i ⟨i, enabled, layout⟩) is

/-- Adds the targets of the entries. Within an entry the layout is checked before the selector,
and that before devices selected twice. -/
def addEntries (config : String) (m : Model) (count : Nat) :
    SortedMap Nat Target → List Entry → Except ConfigError (SortedMap Nat Target)
  | targets, [] => .ok targets
  | targets, e :: es => do
    let layout ← e.layoutOn config m
    let devices ← e.devices.resolve config count
    let targets ← assign config e.enabled layout targets devices
    addEntries config m count targets es

/-- The targets of a named config on a server, by device index. A device that the config does
not mention has none. -/
def resolve (c : Config) (name : String) (m : Model) (count : Nat) :
    Except ConfigError (List Target) :=
  match c.configs.find? name with
  | none => .error (.unknownConfig name c.names)
  | some entries => (addEntries name m count .empty entries).map SortedMap.values

/-- Checks every entry with its mode on against the model, in order of names. -/
def validate (c : Config) (m : Model) : Except ConfigError Unit :=
  c.configs.toList.forM fun named => named.2.forM fun e => do
    let _ ← e.layoutOn named.1 m

end Config

/-! ## Messages -/

/-- The text of the system for a failure to read a file. -/
def ReadFailure.message : ReadFailure → String
  | .missing => "No such file or directory (os error 2)"
  | .directory => "Is a directory (os error 21)"
  | .blocked => "Not a directory (os error 20)"
  | .notText => "stream did not contain valid UTF-8"

/-- The message. For a file that is not TOML of the expected shape it does not go into detail. -/
def ConfigError.message : ConfigError → String
  | .read path cause => s!"cannot read config '{path}': {cause.message}"
  | .parse => "TOML parse error"
  | .serialize => "TOML serialise error"
  | .unsupportedVersion version =>
    s!"unsupported config version '{version}'; expected '{configVersion}'"
  | .unknownConfig name available =>
    s!"unknown config '{name}'; available: " ++ ", ".intercalate available
  | .invalidSelector word =>
    s!"invalid device selector '{word}'; expected \"all\" or a list of indices"
  | .outOfRange config index count =>
    s!"config '{config}' selects device {index}, but only {count} devices exist"
  | .duplicate config index => s!"config '{config}' selects device {index} more than once"
  | .invalidLayout config cause => s!"config '{config}' has an invalid layout: {cause.message}"

/-- The message, followed by that of the cause if there is one. -/
def ConfigError.messages (e : ConfigError) : List String :=
  match e with
  | .read _ cause => [e.message, cause.message]
  | .invalidLayout _ cause => [e.message, cause.message]
  | _ => [e.message]

end GpuPartition
