import Cyclomatic.Glob.Reader
import Cyclomatic.Language.Data
import Cyclomatic.Registry
import Cyclomatic.Score.Body
import Cyclomatic.Text.Words
import Cyclomatic.Yaml.Document

/-!
# Configuration

A configuration sets the threshold of the gate, the paths that are left out, whether tests are
scanned, how lambdas are scored, and further languages.  It is read from a document, where every
part may be missing.  A text without anything but blanks is a configuration too.

Reading settles the types of the parts.  `Config.fault?` finds the first thing wrong with their
values: the patterns are looked at first, then the threshold, then the languages.
-/

namespace Cyclomatic

/-- A configuration. -/
structure Config where
  /-- The highest score that passes the gate. -/
  threshold : Option UInt32 := none
  /-- Patterns of the paths that are left out. -/
  excludedPaths : List String := []
  /-- Whether tests are scanned. -/
  includeTests : Option Bool := none
  /-- How functions are scored. -/
  scoring : ScoringOptions := {}
  /-- Languages besides the built-in ones. -/
  languages : List Language := []
deriving Inhabited

/-- Something is wrong with a configuration. -/
inductive ConfigFault where
  /-- A pattern cannot be read. -/
  | pattern (text : String)
  /-- No function could pass the gate. -/
  | zeroThreshold
  /-- A language has a bad table. -/
  | language (refusal : Refusal)
deriving DecidableEq, Repr

/-! ## Reading -/

/-- Read how functions are scored. -/
def ScoringOptions.ofValue? (v : Value) : Option ScoringOptions := do
  let fields ← v.fields? ["count_lambda_interior"]
  let interior ← Value.optional? fields "count_lambda_interior" true Value.bool?
  return ⟨interior⟩

namespace Config

open Value

/-- Read a configuration from a value. -/
def ofValue? (v : Value) : Option Config := do
  let fields ← v.fields?
    ["threshold", "excluded_paths", "include_tests", "scoring", "languages"]
  let threshold ← optional? fields "threshold" none (option? word?)
  let excludedPaths ← optional? fields "excluded_paths" [] texts?
  let includeTests ← optional? fields "include_tests" none (option? bool?)
  let scoring ← optional? fields "scoring" {} ScoringOptions.ofValue?
  let languages ← optional? fields "languages" [] (list? Language.ofValue?)
  return { threshold, excludedPaths, includeTests, scoring, languages }

/-- Read a configuration from a text. -/
def ofText? (s : String) : Option Config :=
  if Text.isBlankText s then some {} else (Yaml.document? s).bind ofValue?

/-! ## Checking -/

/-- The first pattern that cannot be read. -/
def badPattern? (c : Config) : Option String :=
  c.excludedPaths.find? fun p => (Glob.read? p).isNone

/-- The first language with a bad table. -/
def badLanguage? (c : Config) : Option Refusal :=
  c.languages.findSome? fun l =>
    match l.validate with
    | .ok _ => none
    | .error fault => some ⟨l.id, fault⟩

/-- The first fault of a configuration. -/
def fault? (c : Config) : Option ConfigFault :=
  match c.badPattern? with
  | some p => some (.pattern p)
  | none =>
    if c.threshold == some 0 then some .zeroThreshold
    else c.badLanguage?.map .language

/-! ## Using -/

/-- The built-in languages and those of the configuration. -/
def registry (c : Config) : Except Refusal Registry := Registry.builtin.registerAll c.languages

/-- Tests are scanned. -/
def scansTests (c : Config) : Bool := c.includeTests.getD false

/-- A path is left out.  No path is, while there is a pattern that cannot be read. -/
def excludes (c : Config) (path : String) : Bool :=
  match c.excludedPaths.mapM Glob.read? with
  | some globs => globs.any (·.matchesPath (Text.bytes path))
  | none => false

end Config

end Cyclomatic
