import Cyclomatic.Language.Basic

/-!
# Java

Right shifts are no operators of the table, so the closers of nested generic lists stay
separate tokens.
-/

namespace Cyclomatic.Language.Java

/-- The reserved words. -/
def words : List String := [
  "abstract", "assert", "boolean", "break", "byte", "case", "catch", "char", "class",
  "const", "continue", "default", "do", "double", "else", "enum", "extends", "final",
  "finally", "float", "for", "goto", "if", "implements", "import", "instanceof", "int",
  "interface", "long", "native", "new", "package", "private", "protected", "public",
  "return", "short", "static", "strictfp", "super", "switch", "synchronized", "this",
  "throw", "throws", "transient", "try", "void", "volatile", "while", "true", "false",
  "null"]

/-- The reserved words in order. -/
def keywords : List String := wordSet words

/-- The operators of more than one character. -/
def operators : List String := [
  "&&", "||", "->", "::", "==", "!=", "<=", ">=", "++", "--", "+=", "-=", "*=", "/=",
  "%=", "&=", "|=", "^=", "<<", "<<=", "..."]

/-- Text blocks, strings and characters. -/
def delimiters : List Delimiter := [
  .quoted "\"\"\"" (some '\\') true none,
  .quoted "\"" (some '\\') false none,
  .quoted "'" (some '\\') false none]

/-- What raises complexity.  A question mark also stands in wildcards, and the arrow of a
`case` or `default` labels a branch where any other arrow is a lambda. -/
def decisions : List DecisionRule := [
  { token := "if", category := .conditional },
  { token := "for", category := .loop },
  { token := "while", category := .loop, guard := { notAfterBodyOf := ["do"] } },
  { token := "do", category := .loop },
  { token := "case", category := .case },
  { token := "catch", category := .catch },
  { token := "&&", category := .logical },
  { token := "||", category := .logical },
  { token := "?", category := .ternary,
    guard := {
      notPrecededBy := ["<", ","]
      notFollowedBy := ["extends", "super", ">", ",", ")", ":"] } },
  { token := "->", category := .lambda,
    guard := { notInStatementOf := ["case", "default"] } },
  { token := "new", category := .anonymousType, guard := { anonymousBody := true } }]

/-- Methods and constructors have no introducer. -/
def signatures : SignatureRules where
  typed := true
  modifiers := [
    "public", "private", "protected", "static", "final", "abstract", "synchronized",
    "native", "default", "strictfp", "transient"]
  generics := true
  reserved := ["record", "yield", "var", "sealed", "permits"]
  allowedPredecessors := [";", "\x7b", "\x7d", ">", "]"]
  excludedPredecessors := [
    "new", "return", "throw", "class", "interface", "enum", "record", "extends",
    "implements", "else", "case", "yield", "assert", "package", "import", "instanceof"]
  clauseKeywords := ["throws"]
  terminators := [";"]
  containerKeywords := ["class", "interface", "enum", "record"]
  compactConstructors := ["record"]

/-- The table of Java. -/
def table : Language where
  id := "java"
  extensions := ["java"]
  comments := { line := ["//"], block := some ⟨"/*", "*/"⟩ }
  strings := { delimiters := delimiters }
  keywords := keywords
  operators := operators
  identifierChars := ['$']
  decisions := decisions
  signatures := signatures

end Cyclomatic.Language.Java
