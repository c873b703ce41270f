/-
The grammar of a command line: options, by a hyphen and a letter or by two hyphens and a
word, and the words that name a subcommand.

Letters may share a hyphen. The value of an option follows as the next argument, after an
equals sign, or right after the letter; as an argument of its own it must not look like an
option. Two hyphens alone end the options, and since nothing but options is taken, nothing
may come after them.

A scan stops at the first fault, at a request for help or the version, and at the name of a
subcommand. What was given up to there is judged all the same: asking for help does not
excuse a bad value before it.
-/

namespace GpuPartition.Command

/-- What an option is for. A switch is given at most once, a counter any number of times, and a
value at most once, with a text that is accepted. A value without a default has to be given. -/
inductive Kind where
  | switch
  | counter
  | value (name : String) (default : Option String) (accepts : String → Bool)
  | help
  | version

structure Flag where
  short : Option Char
  long : String
  kind : Kind
  about : String

/-- What may stand at one level of a command line. -/
structure Grammar where
  flags : List Flag
  words : List String

/-- An option as it was given: its long name and its value. -/
abbrev Setting := String × String

/-- How a scan ends. -/
inductive Ending where
  | complete
  | help
  | version
  | subcommand (name : String) (rest : List String)
  | fault

/-- What a scan finds. -/
structure Scan where
  settings : List Setting
  ending : Ending

/-- What an argument leaves to be read: nothing, the value of an option, or nothing ever. -/
inductive Pending where
  | nothing
  | value (long : String)
  | ending (e : Ending)

namespace Grammar

/-- Reads a word that came after two hyphens. -/
def readLong (g : Grammar) (cs : List Char) : List Setting × Pending :=
  let name := String.ofList (cs.takeWhile (· ≠ '='))
  match g.flags.find? (·.long = name), cs.dropWhile (· ≠ '=') with
  | none, _ => ([], .ending .fault)
  | some f, [] =>
    match f.kind with
    | .switch | .counter => ([(f.long, "")], .nothing)
    | .value .. => ([], .value f.long)
    | .help => ([], .ending .help)
    | .version => ([], .ending .version)
  | some f, _ :: v =>
    match f.kind with
    | .value .. => ([(f.long, String.ofList v)], .nothing)
    | _ => ([], .ending .fault)

/-- Reads the letters that came after a hyphen. -/
def readShort (g : Grammar) : List Char → List Setting × Pending
  | [] => ([], .nothing)
  | c :: cs =>
    match g.flags.find? (·.short = some c) with
    | none => ([], .ending .fault)
    | some f =>
      match f.kind with
      | .switch | .counter =>
        let (settings, pending) := g.readShort cs
        ((f.long, "") :: settings, pending)
      | .value .. =>
        match cs with
        | [] => ([], .value f.long)
        | '=' :: v => ([(f.long, String.ofList v)], .nothing)
        | v => ([(f.long, String.ofList v)], .nothing)
      | .help => ([], .ending .help)
      | .version => ([], .ending .version)

def readArgument (g : Grammar) (arg : String) : List Setting × Pending :=
  match arg.toList with
  | '-' :: '-' :: cs => g.readLong cs
  | '-' :: c :: cs => g.readShort (c :: cs)
  | _ => ([], .ending .fault)

/-- Whether an argument looks like an option; a hyphen alone does not. -/
def looksLikeFlag (arg : String) : Bool :=
  match arg.toList with
  | '-' :: _ :: _ => true
  | _ => false

def scan (g : Grammar) : List String → Scan
  | [] => ⟨[], .complete⟩
  | arg :: rest =>
    if arg ∈ g.words then ⟨[], .subcommand arg rest⟩
    else if arg = "--" then ⟨[], if rest.isEmpty then .complete else .fault⟩
    else
      match g.readArgument arg with
      | (settings, .ending e) => ⟨settings, e⟩
      | (settings, .nothing) =>
        let s := g.scan rest
        ⟨settings ++ s.settings, s.ending⟩
      | (settings, .value long) =>
        match rest with
        | [] => ⟨settings, .fault⟩
        | v :: rest =>
          if looksLikeFlag v then ⟨settings, .fault⟩
          else
            let s := g.scan rest
            ⟨settings ++ (long, v) :: s.settings, s.ending⟩

/-- Whether an option was given as often as it may be, with values that it accepts. -/
def permits (settings : List Setting) (f : Flag) : Bool :=
  let given := settings.filter (·.1 = f.long)
  match f.kind with
  | .counter => true
  | .value _ _ accepts => given.length ≤ 1 && given.all fun s => accepts s.2
  | _ => given.length ≤ 1

/-- Whether every option was given as it may be. -/
def permitsAll (g : Grammar) (settings : List Setting) : Bool := g.flags.all (permits settings)

/-- The value of an option: as given, or else its default. -/
def value? (g : Grammar) (settings : List Setting) (long : String) : Option String :=
  match settings.find? (·.1 = long), g.flags.find? (·.long = long) with
  | some s, _ => some s.2
  | none, some ⟨_, _, .value _ default _, _⟩ => default
  | none, _ => none

def isOn (settings : List Setting) (long : String) : Bool := settings.any (·.1 = long)

end Grammar

end GpuPartition.Command
