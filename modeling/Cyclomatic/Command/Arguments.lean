import Cyclomatic.Text.Words

/-!
# Arguments

The program has two commands, `scan` and `languages`.  Each has a form, which lists the switches
and options it knows.  A switch stands alone.  An option has a value, which follows it or is
attached to it.  After two hyphens every argument stands for itself.

A value is looked at when the next switch, option or path has been recognised, not before.  So
an unknown argument is reported rather than a bad value directly in front of it.  Everything may
be given once.
-/

namespace Cyclomatic

/-! ## Invocations -/

/-- What a scan is asked to do. -/
structure ScanRequest where
  /-- The file or folder to scan. -/
  path : String
  /-- The path of the configuration. -/
  config : Option String := none
  /-- The format of the report. -/
  format : String := "pretty"
  /-- The highest score that passes the gate. -/
  threshold : Option UInt32 := none
  /-- The number of files that are analysed at a time.  It has no influence on the report. -/
  jobs : Option Nat := none
  /-- The language of every file. -/
  language : Option String := none
  /-- The pattern of the functions that are shown. -/
  filter : Option String := none
  /-- Decisions are shown. -/
  decisions : Bool := false
deriving DecidableEq, Repr

/-- A command with its arguments. -/
inductive Command where
  | scan (request : ScanRequest)
  | languages (config : Option String)
deriving DecidableEq, Repr

/-- A call of the program. -/
structure Invocation where
  /-- More is said about the run. -/
  verbose : Bool
  /-- The command. -/
  command : Command
deriving DecidableEq, Repr

/-- Why arguments are not an invocation. -/
inductive Usage where
  /-- Help is asked for. -/
  | help
  /-- The version is asked for. -/
  | version
  /-- There are no arguments. -/
  | nothingGiven
  | missingCommand
  | unknownCommand
  | unknownArgument
  | missingPath
  /-- A value is missing, or empty where it must not be. -/
  | missingValue
  /-- A value is not a number in range. -/
  | badNumber
  /-- Something is given twice. -/
  | repeated
  /-- A switch has a value. -/
  | unwantedValue
deriving DecidableEq, Repr

/-- The status with which a call ends that is no invocation. -/
def Usage.status : Usage → Nat
  | .help => 0
  | .version => 0
  | _ => 2

/-- How the program is called. -/
def usageLines : List String := [
  "Usage: branchcount [-v] scan [-c FILE] [-f FORMAT] [-t SCORE] [-j FILES] [-l LANGUAGE]",
  "                             [--filter PATTERN] [--decisions] PATH",
  "       branchcount [-v] languages [-c FILE]"]

/-- The lines that are written for a call that is no invocation. -/
def Usage.lines : Usage → List String
  | .help => usageLines
  | .version => ["branchcount 0.1.0"]
  | .nothingGiven => usageLines
  | .missingCommand => "error: a command is missing" :: usageLines
  | .unknownCommand => "error: unknown command" :: usageLines
  | .unknownArgument => "error: unknown argument" :: usageLines
  | .missingPath => "error: the path is missing" :: usageLines
  | .missingValue => "error: a value is missing" :: usageLines
  | .badNumber => "error: a value is not a number in range" :: usageLines
  | .repeated => "error: an argument is given twice" :: usageLines
  | .unwantedValue => "error: a switch has no value" :: usageLines

/-! ## Forms -/

/-- What stands alone. -/
inductive Switch where
  | verbose
  | decisions
  | help
  | version
deriving DecidableEq, Repr

/-- What has a value. -/
inductive Slot where
  | path
  | config
  | format
  | threshold
  | jobs
  | language
  | filter
deriving DecidableEq, Repr

/-- A name of a switch or an option. -/
structure ArgumentName (α : Type) where
  /-- The letter after one hyphen. -/
  letter : Option Char
  /-- The word after two hyphens. -/
  word : String
  /-- What it names. -/
  meaning : α

/-- The arguments that a command knows. -/
structure CommandForm where
  /-- The switches. -/
  switches : List (ArgumentName Switch)
  /-- The options. -/
  options : List (ArgumentName Slot) := []
  /-- The command has a path. -/
  hasPath : Bool := false
  /-- The commands that may follow. -/
  commands : List String := []

/-- What is named by a letter. -/
def ofLetter? {α : Type} (names : List (ArgumentName α)) (c : Char) : Option α :=
  (names.find? (·.letter == some c)).map (·.meaning)

/-- What is named by a word. -/
def ofWord? {α : Type} (names : List (ArgumentName α)) (word : String) : Option α :=
  (names.find? (·.word == word)).map (·.meaning)

/-- The switches of every command. -/
def commonSwitches : List (ArgumentName Switch) :=
  [⟨some 'v', "verbose", .verbose⟩, ⟨some 'h', "help", .help⟩]

/-- What comes before a command. -/
def outerForm : CommandForm where
  switches := commonSwitches ++ [⟨some 'V', "version", .version⟩]
  commands := ["scan", "check", "languages", "help"]

/-- The arguments of a scan. -/
def scanForm : CommandForm where
  switches := commonSwitches ++ [⟨none, "decisions", .decisions⟩]
  options :=
    [⟨some 'c', "config", .config⟩, ⟨some 'f', "format", .format⟩,
      ⟨some 't', "threshold", .threshold⟩, ⟨some 'j', "jobs", .jobs⟩,
      ⟨some 'l', "language", .language⟩, ⟨none, "filter", .filter⟩]
  hasPath := true

/-- The arguments of a listing of languages. -/
def languagesForm : CommandForm where
  switches := commonSwitches
  options := [⟨some 'c', "config", .config⟩]

/-! ## Values -/

/-- What has been given. -/
structure Given where
  verbose : Bool := false
  decisions : Bool := false
  path : Option String := none
  config : Option String := none
  format : Option String := none
  threshold : Option UInt32 := none
  jobs : Option Nat := none
  language : Option String := none
  filter : Option String := none
deriving DecidableEq, Repr

/-- The number of a text of decimal digits. -/
def digitsValue? (cs : List Char) : Option Nat :=
  if cs.isEmpty || !cs.all Char.isDigit then none
  else some (cs.foldl (fun n c => n * 10 + (c.toNat - 48)) 0)

/-- A threshold.  It may have a sign, so that minus zero is one. -/
def thresholdOf? (s : String) : Option UInt32 :=
  match s.toList with
  | '-' :: cs => if digitsValue? cs == some 0 then some 0 else none
  | '+' :: cs => ((digitsValue? cs).filter (· < UInt32.size)).map UInt32.ofNat
  | cs => ((digitsValue? cs).filter (· < UInt32.size)).map UInt32.ofNat

/-- A number of files.  It may have a plus sign. -/
def jobsOf? (s : String) : Option Nat :=
  match s.toList with
  | '+' :: cs => (digitsValue? cs).filter (· < UInt64.size)
  | cs => (digitsValue? cs).filter (· < UInt64.size)

/-- The path that a value is. -/
def pathValue (s : String) : Except Usage String :=
  if s.isEmpty then .error .missingValue else .ok s

/-- Something that must not be given twice. -/
def once {α : Type} (old : Option α) (new : Except Usage α) : Except Usage (Option α) :=
  if old.isSome then .error .repeated else new.map some

/-- Give a value. -/
def Given.put (g : Given) (slot : Slot) (v : String) : Except Usage Given :=
  match slot with
  | .path => return { g with path := ← once g.path (pathValue v) }
  | .config => return { g with config := ← once g.config (pathValue v) }
  | .format => return { g with format := ← once g.format (.ok v) }
  | .threshold =>
    return { g with
      threshold := ← once g.threshold ((thresholdOf? v).elim (.error .badNumber) .ok) }
  | .jobs =>
    return { g with jobs := ← once g.jobs ((jobsOf? v).elim (.error .badNumber) .ok) }
  | .language => return { g with language := ← once g.language (.ok v) }
  | .filter => return { g with filter := ← once g.filter (.ok v) }

/-- Give a switch. -/
def Given.turnOn (g : Given) : Switch → Except Usage Given
  | .verbose => if g.verbose then .error .repeated else .ok { g with verbose := true }
  | .decisions => if g.decisions then .error .repeated else .ok { g with decisions := true }
  | .help => .error .help
  | .version => .error .version

/-! ## Reading -/

/-- How far the arguments have been read. -/
structure Progress where
  /-- What has been given. -/
  given : Given := {}
  /-- The option or path recognised last, with its value if there is one already. -/
  pending : Option (Slot × Option String) := none

namespace Progress

/-- Look at the value recognised last. -/
def settle (p : Progress) : Except Usage Given :=
  match p.pending with
  | none => .ok p.given
  | some (_, none) => .error .missingValue
  | some (slot, some v) => p.given.put slot v

/-- A switch has been recognised. -/
def turnOn (p : Progress) (s : Switch) : Except Usage Progress := do
  return { given := ← (← p.settle).turnOn s }

/-- An option has been recognised, whose value follows. -/
def expect (p : Progress) (slot : Slot) : Except Usage Progress := do
  return { given := ← p.settle, pending := some (slot, none) }

/-- An option has been recognised with its value. -/
def assign (p : Progress) (slot : Slot) (v : String) : Except Usage Progress := do
  return { given := ← (← p.settle).put slot v }

/-- A path has been recognised. -/
def path (p : Progress) (v : String) : Except Usage Progress := do
  return { given := ← p.settle, pending := some (.path, some v) }

/-- The path has been given. -/
def hasPath (p : Progress) : Bool :=
  p.given.path.isSome || p.pending.any (·.1 == .path)

/-- The option whose value comes next. -/
def expected? (p : Progress) : Option Slot :=
  match p.pending with
  | some (slot, none) => some slot
  | _ => none

end Progress

namespace CommandForm

/-- Read the letters after a hyphen.  What follows the letter of an option is its value, with or
without an equals sign. -/
def letters (form : CommandForm) : Progress → List Char → Except Usage Progress
  | p, [] => .ok p
  | p, c :: cs =>
    match ofLetter? form.switches c, ofLetter? form.options c with
    | some s, _ => do form.letters (← p.turnOn s) cs
    | none, some slot =>
      match cs with
      | [] => p.expect slot
      | '=' :: v => p.assign slot (String.ofList v)
      | v => p.assign slot (String.ofList v)
    | none, none => .error .unknownArgument

/-- Read the word after two hyphens.  A value may be attached with an equals sign. -/
def word (form : CommandForm) (p : Progress) (cs : List Char) : Except Usage Progress :=
  let name := String.ofList (cs.takeWhile (· != '='))
  let attached := (cs.dropWhile (· != '=')).tail?.map String.ofList
  match ofWord? form.switches name, ofWord? form.options name, attached with
  | some s, _, none => p.turnOn s
  | some _, _, some _ => .error .unwantedValue
  | none, some slot, none => p.expect slot
  | none, some slot, some v => p.assign slot v
  | none, none, _ => .error .unknownArgument

/-- An argument that stands for itself is the path.  `plain` says that it follows two
hyphens. -/
def positional (form : CommandForm) (plain : Bool) (p : Progress) (arg : String) :
    Except Usage Progress :=
  if form.hasPath && !p.hasPath then p.path arg
  else if form.commands.isEmpty || (plain && form.commands.contains arg) then
    .error .unknownArgument
  else .error .unknownCommand

/-- Read one argument. -/
def argument (form : CommandForm) (p : Progress) (arg : String) : Except Usage Progress :=
  match arg.toList with
  | '-' :: '-' :: cs => form.word p cs
  | '-' :: c :: cs => form.letters p (c :: cs)
  | _ =>
    match p.expected? with
    | some slot => .ok { p with pending := some (slot, some arg) }
    | none => form.positional false p arg

/-- Read arguments up to a command.  The answer holds the command and what follows it. -/
def read (form : CommandForm) : (plain : Bool) → Progress → List String →
    Except Usage (Given × Option (String × List String))
  | _, p, [] => do return (← p.settle, none)
  | true, p, arg :: rest => do form.read true (← form.positional true p arg) rest
  | false, p, arg :: rest =>
    if p.expected?.isNone && form.commands.contains arg then do
      return (← p.settle, some (arg, rest))
    else if arg == "--" then form.read true p rest
    else do form.read false (← form.argument p arg) rest

end CommandForm

/-- The scan that has been asked for. -/
def Given.scan (g : Given) : Except Usage Command :=
  match g.path with
  | none => .error .missingPath
  | some path =>
    let request : ScanRequest :=
      { path, config := g.config, format := g.format.getD "pretty", threshold := g.threshold
        jobs := g.jobs, language := g.language, filter := g.filter, decisions := g.decisions }
    .ok (.scan request)

/-- Help is asked for on at most one command. -/
def helpOn (topics : List String) : Usage :=
  match topics with
  | [] => .help
  | [topic] => if outerForm.commands.contains topic then .help else .unknownCommand
  | _ => .unknownCommand

/-- The invocation that arguments make. -/
def Invocation.ofArguments (args : List String) : Except Usage Invocation := do
  let (outer, command) ← outerForm.read false {} args
  match command with
  | none => .error (if outer.verbose then .missingCommand else .nothingGiven)
  | some (name, rest) =>
    if name == "help" then .error (helpOn rest)
    else
      let isScan := name != "languages"
      let (inner, _) ← (if isScan then scanForm else languagesForm).read false {} rest
      let command ← if isScan then inner.scan else .ok (.languages inner.config)
      return { verbose := outer.verbose || inner.verbose, command }

end Cyclomatic
