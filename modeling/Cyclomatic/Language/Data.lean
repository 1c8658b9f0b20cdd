import Cyclomatic.Data.Value
import Cyclomatic.Json
import Cyclomatic.Language.Basic

/-!
# Languages as data

The table of a language is read from a document and written as JSON, with the same names.
Fields that a document does not know are ignored, and fields that it leaves out are empty.
-/

namespace Cyclomatic

open Value

/-! ## Reading -/

/-- Read the delimiters of block comments. -/
def BlockComment.ofValue? (v : Value) : Option BlockComment := do
  let fields ← v.fields? ["open", "close"]
  let opening ← required? fields "open" text?
  let closing ← required? fields "close" text?
  return ⟨opening, closing⟩

/-- Read how comments are written. -/
def CommentSyntax.ofValue? (v : Value) : Option CommentSyntax := do
  let fields ← v.fields? ["line", "block", "nested"]
  let line ← optional? fields "line" [] texts?
  let block ← optional? fields "block" none (option? BlockComment.ofValue?)
  let nested ← optional? fields "nested" false bool?
  return { line, block, nested }

/-- Read one kind of literal. -/
def Delimiter.ofValue? (v : Value) : Option Delimiter := do
  let fields ← v.fields? ["open", "close", "escape", "multiline", "interpolation"]
  let opening ← required? fields "open" text?
  let closing ← required? fields "close" text?
  let escape ← optional? fields "escape" none (option? char?)
  let multiline ← optional? fields "multiline" false bool?
  let interpolation ← optional? fields "interpolation" none (option? text?)
  return { opening, closing, escape, multiline, interpolation }

/-- Read how literals are written. -/
def LiteralSyntax.ofValue? (v : Value) : Option LiteralSyntax := do
  let fields ← v.fields? ["delimiters", "quoted_identifier"]
  let delimiters ← optional? fields "delimiters" [] (list? Delimiter.ofValue?)
  let quotedIdentifier ← optional? fields "quoted_identifier" none (option? char?)
  return { delimiters, quotedIdentifier }

/-- Read a kind of decision. -/
def Category.ofValue? (v : Value) : Option Category := v.text?.bind Category.ofName?

/-- Read when a token counts. -/
def Guard.ofValue? (v : Value) : Option Guard := do
  let fields ← v.fields? [
    "preceded_by", "not_preceded_by", "followed_by", "not_followed_by", "in_block_of",
    "not_in_block_of", "not_after_body_of", "not_in_statement_of", "not_in_type_position",
    "anonymous_body", "first_in_chain"]
  let precededBy ← optional? fields "preceded_by" [] texts?
  let notPrecededBy ← optional? fields "not_preceded_by" [] texts?
  let followedBy ← optional? fields "followed_by" [] texts?
  let notFollowedBy ← optional? fields "not_followed_by" [] texts?
  let inBlockOf ← optional? fields "in_block_of" [] texts?
  let notInBlockOf ← optional? fields "not_in_block_of" [] texts?
  let notAfterBodyOf ← optional? fields "not_after_body_of" [] texts?
  let notInStatementOf ← optional? fields "not_in_statement_of" [] texts?
  let notInTypePosition ← optional? fields "not_in_type_position" false bool?
  let anonymousBody ← optional? fields "anonymous_body" false bool?
  let firstInChain ← optional? fields "first_in_chain" false bool?
  return {
    precededBy, notPrecededBy, followedBy, notFollowedBy, inBlockOf, notInBlockOf,
    notAfterBodyOf, notInStatementOf, notInTypePosition, anonymousBody, firstInChain }

/-- Read a decision rule. -/
def DecisionRule.ofValue? (v : Value) : Option DecisionRule := do
  let fields ← v.fields? ["token", "category", "increment", "guard"]
  let token ← required? fields "token" text?
  let category ← required? fields "category" Category.ofValue?
  let increment ← optional? fields "increment" 1 word?
  let guard ← optional? fields "guard" {} Guard.ofValue?
  return { token, category, increment, guard }

/-- Read what signatures look like. -/
def SignatureRules.ofValue? (v : Value) : Option SignatureRules := do
  let fields ← v.fields? [
    "introducers", "introducer_markers", "c_style", "arrow_binders", "arrow", "modifiers",
    "generics", "square_type_params", "receiver_group", "extension_receivers", "reserved",
    "allowed_predecessors", "excluded_predecessors", "return_separator", "clause_keywords",
    "free_return", "type_braces", "terminators", "newline_terminates", "container_keywords",
    "compact_constructors"]
  let introducers ← optional? fields "introducers" [] texts?
  let introducerMarkers ← optional? fields "introducer_markers" [] texts?
  let typed ← optional? fields "c_style" false bool?
  let arrowBinders ← optional? fields "arrow_binders" [] texts?
  let arrow ← optional? fields "arrow" none (option? text?)
  let modifiers ← optional? fields "modifiers" [] texts?
  let generics ← optional? fields "generics" false bool?
  let squareTypeParams ← optional? fields "square_type_params" false bool?
  let receiverGroup ← optional? fields "receiver_group" false bool?
  let extensionReceivers ← optional? fields "extension_receivers" false bool?
  let reserved ← optional? fields "reserved" [] texts?
  let allowedPredecessors ← optional? fields "allowed_predecessors" [] texts?
  let excludedPredecessors ← optional? fields "excluded_predecessors" [] texts?
  let returnSeparator ← optional? fields "return_separator" none (option? text?)
  let clauseKeywords ← optional? fields "clause_keywords" [] texts?
  let freeReturn ← optional? fields "free_return" false bool?
  let typeBraces ← optional? fields "type_braces" [] texts?
  let terminators ← optional? fields "terminators" [] texts?
  let newlineTerminates ← optional? fields "newline_terminates" false bool?
  let containerKeywords ← optional? fields "container_keywords" [] texts?
  let compactConstructors ← optional? fields "compact_constructors" [] texts?
  return {
    introducers, introducerMarkers, typed, arrowBinders, arrow, modifiers, generics,
    squareTypeParams, receiverGroup, extensionReceivers, reserved, allowedPredecessors,
    excludedPredecessors, returnSeparator, clauseKeywords, freeReturn, typeBraces,
    terminators, newlineTerminates, containerKeywords, compactConstructors }

/-- Read the table of a language. -/
def Language.ofValue? (v : Value) : Option Language := do
  let fields ← v.fields? [
    "id", "extensions", "comments", "strings", "keywords", "operators", "identifier_chars",
    "decisions", "signatures"]
  let id ← required? fields "id" text?
  let extensions ← optional? fields "extensions" [] texts?
  let comments ← required? fields "comments" CommentSyntax.ofValue?
  let strings ← required? fields "strings" LiteralSyntax.ofValue?
  let keywords ← optional? fields "keywords" [] texts?
  let operators ← optional? fields "operators" [] texts?
  let identifierChars ← optional? fields "identifier_chars" [] (list? char?)
  let decisions ← optional? fields "decisions" [] (list? DecisionRule.ofValue?)
  let signatures ← optional? fields "signatures" {} SignatureRules.ofValue?
  return {
    id, extensions, comments, strings, operators, identifierChars, decisions, signatures,
    keywords := wordSet keywords }

/-! ## Writing -/

/-- A text of one character, or null. -/
def charJson (c : Option Char) : Json := .ofOption (fun c => .str (String.ofList [c])) c

/-- Write how comments are written. -/
def CommentSyntax.json (c : CommentSyntax) : Json := .obj [
  ("line", .strs c.line),
  ("block", .ofOption
    (fun b => .obj [("open", .str b.opening), ("close", .str b.closing)]) c.block),
  ("nested", .bool c.nested)]

/-- Write one kind of literal. -/
def Delimiter.json (d : Delimiter) : Json := .obj [
  ("open", .str d.opening), ("close", .str d.closing), ("escape", charJson d.escape),
  ("multiline", .bool d.multiline), ("interpolation", .ofOption .str d.interpolation)]

/-- Write when a token counts. -/
def Guard.json (g : Guard) : Json := .obj [
  ("preceded_by", .strs g.precededBy), ("not_preceded_by", .strs g.notPrecededBy),
  ("followed_by", .strs g.followedBy), ("not_followed_by", .strs g.notFollowedBy),
  ("in_block_of", .strs g.inBlockOf), ("not_in_block_of", .strs g.notInBlockOf),
  ("not_after_body_of", .strs g.notAfterBodyOf),
  ("not_in_statement_of", .strs g.notInStatementOf),
  ("not_in_type_position", .bool g.notInTypePosition),
  ("anonymous_body", .bool g.anonymousBody), ("first_in_chain", .bool g.firstInChain)]

/-- Write a decision rule. -/
def DecisionRule.json (r : DecisionRule) : Json := .obj [
  ("token", .str r.token), ("category", .str r.category.name),
  ("increment", .nat r.increment.toNat), ("guard", r.guard.json)]

/-- Write what signatures look like. -/
def SignatureRules.json (s : SignatureRules) : Json := .obj [
  ("introducers", .strs s.introducers), ("introducer_markers", .strs s.introducerMarkers),
  ("c_style", .bool s.typed), ("arrow_binders", .strs s.arrowBinders),
  ("arrow", .ofOption .str s.arrow), ("modifiers", .strs s.modifiers),
  ("generics", .bool s.generics), ("square_type_params", .bool s.squareTypeParams),
  ("receiver_group", .bool s.receiverGroup),
  ("extension_receivers", .bool s.extensionReceivers), ("reserved", .strs s.reserved),
  ("allowed_predecessors", .strs s.allowedPredecessors),
  ("excluded_predecessors", .strs s.excludedPredecessors),
  ("return_separator", .ofOption .str s.returnSeparator),
  ("clause_keywords", .strs s.clauseKeywords), ("free_return", .bool s.freeReturn),
  ("type_braces", .strs s.typeBraces), ("terminators", .strs s.terminators),
  ("newline_terminates", .bool s.newlineTerminates),
  ("container_keywords", .strs s.containerKeywords),
  ("compact_constructors", .strs s.compactConstructors)]

/-- Write the table of a language. -/
def Language.json (l : Language) : Json := .obj [
  ("id", .str l.id), ("extensions", .strs l.extensions), ("comments", l.comments.json),
  ("strings", .obj [
    ("delimiters", .arr (l.strings.delimiters.map Delimiter.json)),
    ("quoted_identifier", charJson l.strings.quotedIdentifier)]),
  ("keywords", .strs l.keywords), ("operators", .strs l.operators),
  ("identifier_chars", .strs (l.identifierChars.map fun c => String.ofList [c])),
  ("decisions", .arr (l.decisions.map DecisionRule.json)),
  ("signatures", l.signatures.json)]

end Cyclomatic
