import Cyclomatic.Language.Basic

/-!
# Go

Functions may have a receiver in parentheses, type parameters in square brackets and free
return types.
-/

namespace Cyclomatic.Language.Go

/-- The reserved words. -/
def keywords : List String := wordSet [
  "break", "case", "chan", "const", "continue", "default", "defer", "else",
  "fallthrough", "for", "func", "go", "goto", "if", "import", "interface", "map",
  "package", "range", "return", "select", "struct", "switch", "type", "var", "true",
  "false", "nil"]

/-- The operators of more than one character. -/
def operators : List String := [
  "&&", "||", ":=", "<-", "...", "==", "!=", "<=", ">=", "++", "--", "+=", "-=", "*=",
  "/=", "%=", "&=", "|=", "^=", "<<", ">>", "&^"]

/-- Raw strings, strings and runes. -/
def delimiters : List Delimiter := [
  .quoted "\x60" none true none,
  .quoted "\"" (some '\\') false none,
  .quoted "'" (some '\\') false none]

/-- What raises complexity. -/
def decisions : List DecisionRule := [
  { token := "if", category := .conditional },
  { token := "for", category := .loop },
  { token := "case", category := .case },
  { token := "&&", category := .logical },
  { token := "||", category := .logical },
  { token := "func", category := .lambda,
    guard := { precededBy := ["=", ":=", "(", ",", "return", "go", "defer", ":"] } }]

/-- Functions are introduced by `func`. -/
def signatures : SignatureRules where
  introducers := ["func"]
  receiverGroup := true
  squareTypeParams := true
  freeReturn := true
  typeBraces := ["struct", "interface"]
  terminators := [";"]
  newlineTerminates := true

/-- The table of Go. -/
def table : Language where
  id := "go"
  extensions := ["go"]
  comments := { line := ["//"], block := some ⟨"/*", "*/"⟩ }
  strings := { delimiters := delimiters }
  keywords := keywords
  operators := operators
  decisions := decisions
  signatures := signatures

end Cyclomatic.Language.Go
