import Cyclomatic.Config
import Cyclomatic.Files.Tree

/-!
# Troubles

A run that cannot go on says why.  Its reasons form a chain: each one is caused by the next.
Some reasons come from reading a document, a pattern or a file.  Their wording is not fixed, and
only their kind is kept.  A run is also lost with the analysis of one of its files.
-/

namespace Cyclomatic

/-- A link in a chain of reasons. -/
inductive Cause where
  /-- A reason in words. -/
  | said (text : String)
  /-- A document cannot be read as what it should be. -/
  | document
  /-- A pattern cannot be read. -/
  | pattern
  /-- A file cannot be read. -/
  | access
deriving DecidableEq, Repr

/-- A cause in words. -/
def Cause.text : Cause → String
  | .said text => text
  | .document => "not a valid document"
  | .pattern => "not a valid pattern"
  | .access => "not a readable file"

/-- The causes of a fault in a configuration. -/
def ConfigFault.causes : ConfigFault → List Cause
  | .pattern text => [.said ("invalid excluded_paths pattern " ++ Text.quote text), .pattern]
  | .zeroThreshold =>
    [.said "threshold must be at least 1, every function scores 1 or more"]
  | .language refusal =>
    [.said ("invalid language entry " ++ Text.quote refusal.language), .said refusal.message]

/-- Why a run cannot go on. -/
inductive Trouble where
  /-- A configuration cannot be read as text. -/
  | unreadable (path : String)
  /-- A text is not a configuration. -/
  | malformed (path : String)
  /-- A configuration is not valid. -/
  | invalid (fault : ConfigFault)
  /-- A language of a configuration is refused. -/
  | refused (refusal : Refusal)
  /-- The files below a path cannot be listed. -/
  | unlistable (path : String) (fault : AccessFault)
  /-- The analysis of a file has no end or is aborted, and the run with it. -/
  | lost (fault : Fault)
deriving DecidableEq, Repr

/-- The chain of reasons of a trouble, outermost first. -/
def Trouble.causes : Trouble → List Cause
  | .unreadable path => [.said ("failed to read config " ++ path), .access]
  | .malformed path => [.said ("failed to parse config " ++ path), .document]
  | .invalid fault => .said "invalid config" :: fault.causes
  | .refused refusal =>
    [.said ("failed to register language " ++ Text.quote refusal.language),
      .said refusal.message]
  | .unlistable path fault =>
    [.said ("failed to walk " ++ path),
      .said ("IO error for operation on " ++ path ++ ": " ++ fault.message), .access]
  | .lost fault => [.said fault.message]

/-- A trouble in one line. -/
def Trouble.message (t : Trouble) : String :=
  String.intercalate ": " (t.causes.map Cause.text)

end Cyclomatic
