import Cyclomatic.Language.Basic

/-!
# Kotlin

An arrow labels a branch inside a `when` block and makes a lambda elsewhere.  The scope
functions count as decisions of their own.  Soft keywords and modifiers stay identifiers.
-/

namespace Cyclomatic.Language.Kotlin

/-- The hard keywords. -/
def keywords : List String := wordSet [
  "as", "break", "class", "continue", "do", "else", "false", "for", "fun", "if", "in",
  "interface", "is", "null", "object", "package", "return", "super", "this", "throw",
  "true", "try", "typealias", "typeof", "val", "var", "when", "while", "catch",
  "finally", "import"]

/-- The operators of more than one character. -/
def operators : List String := [
  "&&", "||", "->", "?.", "?:", "!!", "::", "..", "..<", "==", "===", "!=", "!==", "<=",
  ">=", "++", "--", "+=", "-=", "*=", "/=", "%="]

/-- Raw strings, strings and characters.  Raw strings have no escapes. -/
def delimiters : List Delimiter := [
  .quoted "\"\"\"" none true (some "$\x7b"),
  .quoted "\"" (some '\\') false (some "$\x7b"),
  .quoted "'" (some '\\') false none]

/-- The functions whose block is no lambda of its own. -/
def scopeFunctions : List String := ["let", "also", "run", "apply"]

/-- What raises complexity. -/
def decisions : List DecisionRule := [
  { token := "if", category := .conditional },
  { token := "for", category := .loop },
  { token := "while", category := .loop, guard := { notAfterBodyOf := ["do"] } },
  { token := "do", category := .loop },
  { token := "catch", category := .catch },
  { token := "&&", category := .logical },
  { token := "||", category := .logical },
  { token := "->", category := .case,
    guard := { inBlockOf := ["when"], notPrecededBy := ["else"] } },
  { token := "->", category := .lambda,
    guard := { notInBlockOf := "when" :: scopeFunctions, notInTypePosition := true } },
  { token := "object", category := .anonymousType, guard := { followedBy := [":"] } }] ++
  scopeFunctions.map fun name =>
    { token := name, category := .scopeFunction,
      guard := { precededBy := [".", "?."], followedBy := ["\x7b"] } }

/-- Functions are introduced by `fun` and may extend a receiver. -/
def signatures : SignatureRules where
  introducers := ["fun"]
  modifiers := [
    "public", "private", "protected", "internal", "override", "open", "abstract", "final",
    "suspend", "inline", "operator", "infix", "tailrec", "external", "actual", "expect"]
  generics := true
  extensionReceivers := true
  returnSeparator := some ":"
  clauseKeywords := ["where"]
  terminators := [";"]
  newlineTerminates := true
  containerKeywords := ["class", "interface", "object"]

/-- The table of Kotlin. -/
def table : Language where
  id := "kotlin"
  extensions := ["kt", "kts"]
  comments := { line := ["//"], block := some ⟨"/*", "*/"⟩, nested := true }
  strings := { delimiters := delimiters, quotedIdentifier := some '\x60' }
  keywords := keywords
  operators := operators
  decisions := decisions
  signatures := signatures

end Cyclomatic.Language.Kotlin
