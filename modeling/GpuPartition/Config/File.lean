/-
Config files: the TOML text of a config, and the config of a TOML text or of a file. The
version of a config is looked at once the whole text has been read. `Config.readBy` and
`Config.writeBy` do this with any reader and writer of TOML, `Config.ofToml` and `Config.toToml`
with those of this library.
-/
import GpuPartition.Toml.Document
import GpuPartition.Toml.Printer
import GpuPartition.Tree.Records

namespace GpuPartition

/-- What is found under the path of a file: nothing, a directory, a file on the way where there
should be a directory, or a file. -/
inductive Source where
  | missing
  | directory
  | blocked
  | bytes (content : ByteArray)

/-- Why a text or file gives no config: an error, or a count that outgrows a machine word. -/
inductive LoadError where
  | config (cause : ConfigError)
  | overflow

namespace Config

/-- Takes a config of the version that is understood. -/
def checkVersion (c : Config) : Except LoadError Config :=
  if c.version = configVersion then .ok c
  else .error (.config (.unsupportedVersion c.version))

/-- The config of a TOML text, given a reader of trees. -/
def readBy (parse : String → Option Tree) (text : String) : Except LoadError Config :=
  match parse text with
  | none => .error (.config .parse)
  | some tree =>
    match Config.ofTree .toml tree with
    | .ok c => c.checkVersion
    | .error .malformed => .error (.config .parse)
    | .error .overflow => .error .overflow

/-- The TOML text of a config, given a writer of trees. -/
def writeBy (print? : Tree → Option String) (c : Config) : Except ConfigError String :=
  match print? c.toTree with
  | some text => .ok text
  | none => .error .serialize

def ofToml (text : String) : Except LoadError Config := readBy Toml.parse text

def toToml (c : Config) : Except ConfigError String := c.writeBy Toml.print?

def ofFile (path : String) : Source → Except LoadError Config
  | .missing => .error (.config (.read path .missing))
  | .directory => .error (.config (.read path .directory))
  | .blocked => .error (.config (.read path .blocked))
  | .bytes content =>
    match String.fromUTF8? content with
    | some text => ofToml text
    | none => .error (.config (.read path .notText))

end Config

end GpuPartition
