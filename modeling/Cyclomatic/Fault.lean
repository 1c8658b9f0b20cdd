import Cyclomatic.Registry

/-!
# Faults of an analysis

An unknown language and a function whose recorded place disagrees with the tokens are faults.
Two more come from tables that are accepted all the same.  A table that allows an empty marker
after an introducer makes the search for its end go on forever past the last token.  And numbers
are machine words: the depth of a generic list cannot go below zero, nor a score beyond 32 bits.
-/

namespace Cyclomatic

/-- What can disagree between the recorded place of a function and the tokens. -/
inductive SpanFault where
  /-- The body starts at a token that is no brace. -/
  | noBrace (found : String)
  /-- The signature starts after the body. -/
  | startAfterBody
  /-- The recorded start is not that of the first token. -/
  | startOffset (recorded actual : Nat)
  /-- The body ends at a token that is no closing brace. -/
  | notClosed (found : String)
  /-- The recorded end is not that of the last token. -/
  | endOffset (recorded actual : Nat)
  /-- A nested function lies outside the body. -/
  | childOutside (name : String)
deriving DecidableEq, Repr

/-- The wording of a disagreement. -/
def SpanFault.message : SpanFault → String
  | .noBrace found => "body does not start at '\x7b' (found " ++ Text.quote found ++ ")"
  | .startAfterBody => "signature starts after the body"
  | .startOffset recorded actual =>
    "start offset " ++ recorded.repr ++ " does not match token offset " ++ actual.repr
  | .notClosed found => "body closes at " ++ Text.quote found ++ ", not '\x7d'"
  | .endOffset recorded actual =>
    "end offset " ++ recorded.repr ++ " does not match token offset " ++ actual.repr
  | .childOutside name => "child " ++ name ++ " is not contained in the body"

/-- Why an analysis has no result. -/
inductive Fault where
  /-- No language of this name is registered. -/
  | unsupportedLanguage (name : String)
  /-- The place of a function disagrees with the tokens. -/
  | malformedSpan (name : String) (fault : SpanFault)
  /-- Markers after an introducer never end. -/
  | endlessMarkers
  /-- The depth of a generic list or the score of a function leaves its machine word. -/
  | overflow
deriving DecidableEq, Repr

/-- No program survives the fault.  It goes on forever, or it is aborted. -/
def Fault.isFatal : Fault → Bool
  | .unsupportedLanguage _ => false
  | .malformedSpan _ _ => false
  | .endlessMarkers => true
  | .overflow => true

/-- The wording of a fault. -/
def Fault.message : Fault → String
  | .unsupportedLanguage name => "unsupported language: " ++ name
  | .malformedSpan name fault => "malformed span for " ++ name ++ ": " ++ fault.message
  | .endlessMarkers => "introducer markers never end"
  | .overflow => "arithmetic overflow"

end Cyclomatic
