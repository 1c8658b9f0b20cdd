import Cyclomatic.Command.Arguments
import Cyclomatic.Command.Trouble
import Cyclomatic.Files.Discovery
import Cyclomatic.Pattern.Reader
import Cyclomatic.Report.CodeMap
import Cyclomatic.Report.Terminal

/-!
# Commands

A command is run at a place of a file tree.  It writes an output and errors, and ends with a
status: 0 for a passed gate, 1 for a failed one, and 2 for an error.

A scan checks its request step by step: the format, the filter, the path, the configuration, the
language.  It stops at the first step that fails.
-/

namespace Cyclomatic

/-- What a finished command leaves behind. -/
structure Outcome where
  /-- What is written as the result. -/
  output : String := ""
  /-- What is written beside it. -/
  errors : String := ""
  /-- The status. -/
  status : Nat
deriving DecidableEq, Repr

namespace Outcome

/-- The gate passed, or there was none. -/
def passed : Nat := 0

/-- The gate failed. -/
def failed : Nat := 1

/-- The request could not be met. -/
def error : Nat := 2

/-- A request that cannot be met, with the lines that say why. -/
def refused (lines : List String) : Outcome :=
  { errors := String.join (lines.map (· ++ "\n")), status := error }

end Outcome

/-! ## Configurations -/

/-- Read the configuration at a path. -/
def Place.readConfig (here : Place) (path : String) : Except Trouble Config :=
  match (here.read? path).bind Text.ofBytes? with
  | none => .error (.unreadable path)
  | some text => (Config.ofText? text).elim (.error (.malformed path)) .ok

/-- The configuration at a given path, or the one found in a folder, or none.  It must be
valid. -/
def Place.config (here : Place) (given : Option String) (folder : String) :
    Except Trouble Config := do
  let config ←
    match given <|> here.discover? folder with
    | some path => here.readConfig path
    | none => .ok {}
  match config.fault? with
  | some fault => .error (.invalid fault)
  | none => return config

/-- The languages that a configuration knows. -/
def Config.knownLanguages (config : Config) : Except Trouble Registry :=
  config.registry.mapError .refused

/-- The paths of the files that a scan of a path takes, as texts that start with that path. -/
def Place.sources (here : Place) (registry : Registry) (config : Config) (path : String) :
    Except Trouble (List String) :=
  match here.find path with
  | .error fault => .error (.unlistable path fault)
  | .ok place =>
    .ok ((place.node.sources registry config).map fun p => Path.joined path p.text)

/-! ## Scanning -/

/-- The formats of a report. -/
inductive Format where
  | pretty
  | json
  | codeMap
deriving DecidableEq, Repr

/-- The names of the formats. -/
def Format.names : List (String × Format) :=
  [("pretty", .pretty), ("json", .json), ("codecharta", .codeMap)]

/-- The format of a name. -/
def Format.ofName? (name : String) : Option Format := Format.names.lookup name

/-- The file at a path below a folder. -/
def Tree.fileAt? : Tree → Path → Option Tree
  | .file name bytes, [] => some (.file name bytes)
  | .folder _ _, [] => none
  | .file _ _, _ :: _ => none
  | .folder _ entries, name :: rest =>
    (entries.find? (·.name == name)).bind fun t => t.fileAt? rest

/-- The name of a file in a report.  A file that is scanned alone goes by its own name. -/
def shownName (p : Path) (name : String) : String :=
  if p.isEmpty then name
  else String.ofList (p.text.toList.map fun c => if c == '\\' then '/' else c)

/-- The source file at a path of a tree.  Its language is given, or follows from its name. -/
def Tree.sourceAt? (registry : Registry) (language : Option String) (t : Tree) (p : Path) :
    Option SourceFile :=
  match t.fileAt? p with
  | some (.file name bytes) =>
    (language <|> registry.ownerOf? (extensionOf name)).map fun language =>
      ⟨shownName p name, language, Text.ofBytes bytes⟩
  | _ => none

/-- The report on a batch, and the verdict of the gate on it. -/
def writeReport (terminal : Terminal) (format : Format) (path project : String) (view : View)
    (threshold : Option UInt32) (report : BatchReport) : String × Verdict :=
  let verdict := evaluate threshold (selected view report)
  let text :=
    match format with
    | .pretty => terminal.write path view report verdict
    | .json => writeJson path view report verdict
    | .codeMap => writeCodeMap project report
  (text, verdict)

/-- The functions that a filter shows, if it can be read. -/
def filterOf? (pattern : Option String) : Option (String → Bool) :=
  match pattern with
  | none => some fun _ => true
  | some text => (Pattern.read? text).map Pattern.matchesIn

/-- Scan what stands at a place. -/
def ScanRequest.scanAt (r : ScanRequest) (terminal : Terminal) (here place : Place)
    (format : Format) (view : View) : Except Trouble Outcome := do
  let folder := if place.node.isFolder then place else place.parent
  let config ← here.config r.config folder.path.absolute
  let registry ← config.knownLanguages
  match r.language.filter (!registry.supports ·) with
  | some language =>
    return .refused [
      "Error: unsupported language " ++ Text.quote language,
      "Run 'branchcount languages' to see supported languages"]
  | none =>
    let paths :=
      if place.node.isFolder then place.node.sources registry config else [[]]
    if paths.isEmpty then
      return { errors := "Warning: no files to scan\n", status := Outcome.passed }
    else
      let files := paths.filterMap (place.node.sourceAt? registry r.language)
      let report := Engine.analyzeAll ⟨registry, config.scoring⟩ false files
      if let some f := report.failures.find? (·.fault.isFatal) then .error (.lost f.fault)
      let project := folder.path.getLastD r.path
      let (text, verdict) :=
        writeReport terminal format r.path project view (r.threshold <|> config.threshold) report
      let status :=
        if !report.failures.isEmpty then Outcome.error
        else if verdict.passed then Outcome.passed
        else Outcome.failed
      return { output := text, status }

/-- Run a scan. -/
def ScanRequest.run (r : ScanRequest) (terminal : Terminal) (here : Place) :
    Except Trouble Outcome :=
  match Format.ofName? r.format, filterOf? r.filter, here.find r.path with
  | none, _, _ =>
    .ok (.refused ["Error: invalid format " ++ Text.quote r.format ++ ", must be one of: " ++
      String.intercalate ", " (Format.names.map (·.1))])
  | some _, none, _ =>
    .ok (.refused ["Error: invalid filter " ++ Text.quote (r.filter.getD "") ++
      ": regex parse error:"])
  | some _, some _, .error fault =>
    .ok (.refused ["Error: cannot access path " ++ Text.quote r.path ++ ": " ++ fault.message])
  | some format, some selects, .ok place =>
    r.scanAt terminal here place format { selects, decisions := r.decisions }

/-! ## Listing languages -/

/-- The line of a language. -/
def Language.line (l : Language) : String :=
  "  " ++ Text.padRight 14 l.id ++ " " ++
    String.intercalate " " (l.extensions.map ("." ++ ·)) ++ "\n"

/-- List the languages. -/
def listLanguages (config : Option String) (here : Place) : Except Trouble Outcome := do
  let config ← here.config config here.path.absolute
  let registry ← config.knownLanguages
  return {
    output := "Supported languages:\n\n" ++ String.join (registry.languages.map Language.line)
    status := Outcome.passed }

/-- Run a command at a place. -/
def Command.run (c : Command) (terminal : Terminal) (here : Place) : Except Trouble Outcome :=
  match c with
  | .scan request => request.run terminal here
  | .languages config => listLanguages config here

end Cyclomatic
