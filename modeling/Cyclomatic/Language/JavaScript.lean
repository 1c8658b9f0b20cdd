import Cyclomatic.Language.Basic

/-!
# JavaScript and TypeScript

Both languages share their comments, literals, operators and decisions.  TypeScript adds words
and the type annotations of signatures.  Shift operators are no operators of the table, so the
closers of nested generic lists stay separate tokens.
-/

namespace Cyclomatic.Language.JavaScript

/-- The reserved words of both languages. -/
def keywords : List String := [
  "async", "await", "break", "case", "catch", "class", "const", "continue", "debugger",
  "default", "delete", "do", "else", "export", "extends", "finally", "for", "function",
  "if", "import", "in", "instanceof", "let", "new", "return", "static", "super",
  "switch", "this", "throw", "try", "typeof", "var", "void", "while", "with", "yield",
  "true", "false", "null"]

/-- The operators of more than one character. -/
def operators : List String := [
  "===", "!==", "==", "!=", "<=", ">=", "&&", "||", "??", "?.", "=>", "...", "++", "--",
  "**", "+=", "-=", "*=", "/=", "%=", "&&=", "||=", "??=", "**="]

/-- Templates and strings. -/
def delimiters : List Delimiter := [
  .quoted "\x60" (some '\\') true (some "$\x7b"),
  .quoted "\"" (some '\\') false none,
  .quoted "'" (some '\\') false none]

/-- What raises complexity.  The marks of optional members and parameters are no ternaries. -/
def decisions : List DecisionRule := [
  { token := "if", category := .conditional },
  { token := "for", category := .loop },
  { token := "while", category := .loop, guard := { notAfterBodyOf := ["do"] } },
  { token := "do", category := .loop },
  { token := "case", category := .case },
  { token := "catch", category := .catch },
  { token := "&&", category := .logical },
  { token := "||", category := .logical },
  { token := "??", category := .logical },
  { token := "?", category := .ternary,
    guard := { notFollowedBy := [":", ")", ",", "=", ";", "]"] } },
  { token := "=>", category := .lambda,
    guard := { notFollowedBy := ["void", "never"], notInTypePosition := true } },
  { token := "?.", category := .optionalChain, guard := { firstInChain := true } },
  { token := "function", category := .lambda,
    guard := { precededBy := ["=", "(", ",", ":", "return", "=>", "async"] } }]

/-- Functions have an introducer, methods have none, and arrow functions are bound to names. -/
def signatures : SignatureRules where
  introducers := ["function"]
  introducerMarkers := ["*"]
  typed := true
  arrowBinders := ["const", "let", "var"]
  arrow := some "=>"
  modifiers := ["async", "static", "get", "set", "export", "default"]
  reserved := ["if", "for", "while", "switch", "catch", "with"]
  allowedPredecessors := [";", "\x7b", "\x7d", ">", "]"]
  excludedPredecessors := [
    "new", "return", "throw", "typeof", "await", "yield", "else", "case", "in", "of",
    "instanceof", "void", "delete", "extends", "class", "function", "interface",
    "implements"]
  terminators := [";"]
  containerKeywords := ["class"]

/-- The table of JavaScript. -/
def table : Language where
  id := "javascript"
  extensions := ["js", "jsx", "mjs", "cjs"]
  comments := { line := ["//"], block := some ⟨"/*", "*/"⟩ }
  strings := { delimiters := delimiters }
  keywords := wordSet keywords
  operators := operators
  identifierChars := ['$']
  decisions := decisions
  signatures := signatures

/-- The table of TypeScript. -/
def typedTable : Language :=
  { table with
    id := "typescript"
    extensions := ["ts", "tsx", "mts", "cts"]
    keywords := wordSet (keywords ++ [
      "interface", "implements", "private", "protected", "public", "readonly", "abstract",
      "declare", "namespace", "enum", "keyof", "never", "unknown"])
    signatures :=
      { signatures with
        modifiers := signatures.modifiers ++ [
          "private", "protected", "public", "readonly", "abstract", "override", "declare"]
        generics := true
        returnSeparator := some ":"
        clauseKeywords := ["is"]
        containerKeywords := ["class", "interface", "enum", "namespace"] } }

end Cyclomatic.Language.JavaScript
