/-
Help pages: what a command does, how it is called, and tables of its subcommands and
options, each with its two columns lined up.
-/
import GpuPartition.Command.Grammar
import GpuPartition.Text.Column

namespace GpuPartition.Command

/-- A titled table of names and what they stand for. -/
structure HelpTable where
  title : String
  rows : List (String × String)

structure HelpPage where
  about : String
  usage : String
  tables : List HelpTable

/-- The lines of a table, its second column set two characters from the widest name. -/
def HelpTable.lines (t : HelpTable) : List String :=
  let width := (t.rows.map (·.1.length)).foldl max 0
  s!"{t.title}:" :: t.rows.map fun (name, about) => s!"  {Text.atLeft width name}  {about}"

def HelpPage.text (p : HelpPage) : String :=
  let blocks := [p.about] :: [s!"Usage: {p.usage}"] :: p.tables.map HelpTable.lines
  "\n\n".intercalate (blocks.map fun lines => "\n".intercalate lines) ++ "\n"

namespace Flag

/-- How an option is written; the long names are lined up whether or not there are short ones. -/
def form (f : Flag) : String :=
  let short := match f.short with
    | some c => s!"-{c}, "
    | none => "    "
  let rest := match f.kind with
    | .counter => "..."
    | .value name _ _ => s!" <{name}>"
    | _ => ""
  s!"{short}--{f.long}{rest}"

/-- What an option stands for, with its default. -/
def note (f : Flag) : String :=
  match f.kind with
  | .value _ (some default) _ => s!"{f.about} [default: {default}]"
  | _ => f.about

def isRequired (f : Flag) : Bool :=
  match f.kind with
  | .value _ none _ => true
  | _ => false

/-- How an option that has to be given stands in the usage line. -/
def usage (f : Flag) : String :=
  match f.kind with
  | .value name _ _ => s!"--{f.long} <{name}>"
  | _ => s!"--{f.long}"

end Flag

def flagTable (flags : List Flag) : HelpTable :=
  ⟨"Options", flags.map fun f => (f.form, f.note)⟩

/-- The usage line of a command that takes options only. -/
def usageLine (name : String) (flags : List Flag) : String :=
  " ".intercalate (name :: "[OPTIONS]" :: (flags.filter Flag.isRequired).map Flag.usage)

end GpuPartition.Command
