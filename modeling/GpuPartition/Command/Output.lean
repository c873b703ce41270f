/-
What a command gives back: an exit code and the texts of both output streams, with the
banner that opens a screen and the report that closes a failure.
-/
import GpuPartition.Text.Column

namespace GpuPartition.Command

structure Output where
  code : Nat
  out : String
  err : String
  deriving DecidableEq, Repr

/-- Lines of text, each with its end. -/
def unlines (lines : List String) : String := String.join (lines.map (· ++ "\n"))

/-- The width of a banner inside its frame. -/
def bannerWidth : Nat := 54

/-- A title in a frame, and a blank line. -/
def banner (title : String) : List String :=
  let bar := Text.run bannerWidth '═'
  ["╔" ++ bar ++ "╗",
    "║" ++ Text.centred bannerWidth s!"mig-parted · {title}" ++ "║",
    "╚" ++ bar ++ "╝",
    ""]

/-- A message set in under a label; lines after the first are set in as deep. -/
def hanging (label message : String) : String :=
  label ++ ("\n" ++ Text.run label.length ' ').intercalate (message.splitOn "\n")

/-- The causes of a failure, numbered if there are several. -/
def causeLines : List String → List String
  | [cause] => [hanging "    " cause]
  | causes => causes.mapIdx fun i cause => hanging s!"{Text.atRight 5 (toString i)}: " cause

/-- The report on a failure: its message, and under it what caused it. -/
def report : List String → String
  | [] => ""
  | [message] => s!"Error: {message}\n"
  | message :: causes => unlines (s!"Error: {message}" :: "" :: "Caused by:" :: causeLines causes)

def Output.success (lines : List String) : Output := ⟨0, unlines lines, ""⟩

/-- The code of a command that was broken off because a count outgrew a machine word. -/
def overflowCode : Nat := 101

/-- A command that was broken off after some lines. -/
def Output.overflow (lines : List String) : Output :=
  ⟨overflowCode, unlines lines, "a count outgrows a machine word\n"⟩

def Output.failure (lines messages : List String) : Output := ⟨1, unlines lines, report messages⟩

end GpuPartition.Command
