import Cyclomatic.Language.Basic
import Cyclomatic.Text.Lower
import Cyclomatic.Text.Numeral
import Cyclomatic.Text.Quoted
import Cyclomatic.Text.Words

/-!
# Canonical languages

A table is checked and then brought into canonical form.  In that form the operators and the
literal delimiters stand longest first, so that the first match is the longest.
-/

namespace Cyclomatic

/-! ## Checking -/

/-- What can be wrong with the table of a language. -/
inductive TableFault where
  | emptyId
  | emptyLineMarker
  | emptyBlockDelimiter
  | emptyStringDelimiter
  | interpolationWithoutBrace
  | emptyDecisionToken
  | zeroIncrement (token : String)
deriving DecidableEq, Repr

/-- The wording of a fault. -/
def TableFault.message : TableFault → String
  | .emptyId => "language id is empty"
  | .emptyLineMarker => "empty line comment marker"
  | .emptyBlockDelimiter => "empty block comment delimiter"
  | .emptyStringDelimiter => "empty string delimiter"
  | .interpolationWithoutBrace => "interpolation opener must end with '\x7b'"
  | .emptyDecisionToken => "decision rule with empty token"
  | .zeroIncrement token => "decision rule " ++ Text.quote token ++ " has increment 0"

/-- The fault of a literal delimiter, if it has one. -/
def Delimiter.fault? (d : Delimiter) : Option TableFault :=
  if d.opening.isEmpty || d.closing.isEmpty then some .emptyStringDelimiter
  else if d.interpolation.any (!Text.endsIn · "\x7b") then some .interpolationWithoutBrace
  else none

/-- The fault of a decision rule, if it has one. -/
def DecisionRule.fault? (r : DecisionRule) : Option TableFault :=
  if r.token.isEmpty then some .emptyDecisionToken
  else if r.increment == 0 then some (.zeroIncrement r.token)
  else none

/-- The first fault of a table: its name, its comments, its literals, its decisions. -/
def Language.fault? (l : Language) : Option TableFault :=
  if Text.isBlankText l.id then some .emptyId
  else if l.comments.line.any (·.isEmpty) then some .emptyLineMarker
  else if l.comments.block.any (fun b => b.opening.isEmpty || b.closing.isEmpty) then
    some .emptyBlockDelimiter
  else
    match l.strings.delimiters.findSome? Delimiter.fault? with
    | some fault => some fault
    | none => l.decisions.findSome? DecisionRule.fault?

/-! ## Canonical form -/

/-- Longer operators first, then in increasing order. -/
def operatorLe (a b : String) : Bool :=
  b.utf8ByteSize < a.utf8ByteSize || (a.utf8ByteSize == b.utf8ByteSize && a ≤ b)

/-- The operators that are not empty, longest first and each once. -/
def canonicalOperators (ops : List String) : List String :=
  ((ops.filter (!·.isEmpty)).mergeSort operatorLe).eraseReps

/-- The delimiters with the longest opening first; equal lengths keep their order. -/
def canonicalDelimiters (ds : List Delimiter) : List Delimiter :=
  ds.mergeSort fun a b => b.opening.utf8ByteSize ≤ a.opening.utf8ByteSize

/-- An extension without leading dots, in lower case. -/
def canonicalExtension (e : String) : String := Text.lower (Text.dropLeading '.' e)

/-- The canonical form of a table. -/
def Language.canonical (l : Language) : Language :=
  { l with
    id := Text.lower (Text.trim l.id)
    operators := canonicalOperators l.operators
    strings := { l.strings with delimiters := canonicalDelimiters l.strings.delimiters }
    extensions := l.extensions.map canonicalExtension }

/-- The canonical form of a table without fault. -/
def Language.validate (l : Language) : Except TableFault Language :=
  match l.fault? with
  | some fault => .error fault
  | none => .ok l.canonical

/-! ## Words and identifiers -/

/-- A word is reserved. -/
def Language.isKeyword (l : Language) (word : String) : Bool := l.keywords.contains word

/-- A character may stand inside an identifier. -/
def Language.isIdentifierChar (l : Language) (c : Char) : Bool :=
  Text.isAlphanumeric c || c == '_' || l.identifierChars.contains c

/-- A character may start an identifier. -/
def Language.isIdentifierStart (l : Language) (c : Char) : Bool :=
  Text.isLetter c || c == '_' || l.identifierChars.contains c

end Cyclomatic
