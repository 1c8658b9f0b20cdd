/-!
# Languages

A language is a table: how its comments and literals are written, which words and operators it
has, which tokens raise complexity and what a function signature looks like.  The scanner, the
detector and the scorer read these tables and know no language by name.
-/

namespace Cyclomatic

/-! ## Comments and literals -/

/-- The opening and closing text of a block comment. -/
structure BlockComment where
  /-- The opening text. -/
  opening : String
  /-- The closing text. -/
  closing : String
deriving DecidableEq, Repr, Inhabited

/-- How comments are written. -/
structure CommentSyntax where
  /-- Markers that start a comment up to the end of the line. -/
  line : List String := []
  /-- Delimiters of block comments. -/
  block : Option BlockComment := none
  /-- Whether block comments nest. -/
  nested : Bool := false
deriving DecidableEq, Repr, Inhabited

/-- One kind of string literal. -/
structure Delimiter where
  /-- The opening text. -/
  opening : String
  /-- The closing text. -/
  closing : String
  /-- A character that takes the next one along, whatever it is. -/
  escape : Option Char := none
  /-- Whether the literal may span lines.  Otherwise an open one ends at the line break. -/
  multiline : Bool := false
  /-- Text inside the literal that switches back to code, up to the matching brace. -/
  interpolation : Option String := none
deriving DecidableEq, Repr, Inhabited

/-- A literal whose opening and closing texts are the same. -/
def Delimiter.quoted (quote : String) (escape : Option Char) (multiline : Bool)
    (interpolation : Option String) : Delimiter :=
  ⟨quote, quote, escape, multiline, interpolation⟩

/-- How string and character literals are written. -/
structure LiteralSyntax where
  /-- The kinds of literal. -/
  delimiters : List Delimiter := []
  /-- A quote that wraps identifiers. -/
  quotedIdentifier : Option Char := none
deriving DecidableEq, Repr, Inhabited

/-! ## Decisions -/

/-- What kind of decision a token makes. -/
inductive Category where
  | conditional
  | loop
  | case
  | catch
  | logical
  | ternary
  | lambda
  | anonymousType
  | scopeFunction
  | optionalChain
deriving DecidableEq, Repr, Inhabited

/-- The kinds of decision, in the order of the type. -/
def Category.all : List Category :=
  [.conditional, .loop, .case, .catch, .logical, .ternary, .lambda, .anonymousType,
    .scopeFunction, .optionalChain]

/-- The written name of a kind of decision. -/
def Category.name : Category → String
  | .conditional => "conditional"
  | .loop => "loop"
  | .case => "case"
  | .catch => "catch"
  | .logical => "logical"
  | .ternary => "ternary"
  | .lambda => "lambda"
  | .anonymousType => "anonymous_type"
  | .scopeFunction => "scope_function"
  | .optionalChain => "optional_chain"

/-- The kind of decision with a written name. -/
def Category.ofName? (name : String) : Option Category :=
  Category.all.find? (·.name == name)

/-- What must hold around a token for it to count.  An empty list asks for nothing.
Neighbours are significant tokens: comments and blanks are skipped. -/
structure Guard where
  /-- The token before is one of these. -/
  precededBy : List String := []
  /-- The token before is none of these. -/
  notPrecededBy : List String := []
  /-- The token after is one of these. -/
  followedBy : List String := []
  /-- The token after is none of these. -/
  notFollowedBy : List String := []
  /-- The innermost open bracket is a brace opened by one of these words. -/
  inBlockOf : List String := []
  /-- The innermost open bracket is no brace opened by one of these words. -/
  notInBlockOf : List String := []
  /-- The token does not directly follow the body of a statement opened by one of these. -/
  notAfterBodyOf : List String := []
  /-- The statement that holds the token does not start with one of these. -/
  notInStatementOf : List String := []
  /-- The token is not the arrow of a function type. -/
  notInTypePosition : Bool := false
  /-- The token is followed by a type, arguments and a brace. -/
  anonymousBody : Bool := false
  /-- The token does not occur earlier in the same chain of member accesses. -/
  firstInChain : Bool := false
deriving DecidableEq, Repr, Inhabited

/-- A token that raises complexity, and when it does. -/
structure DecisionRule where
  /-- The exact text of the token. -/
  token : String
  /-- The kind of decision. -/
  category : Category
  /-- How much it adds. -/
  increment : UInt32 := 1
  /-- When it counts. -/
  guard : Guard := {}
deriving DecidableEq, Repr, Inhabited

/-! ## Signatures -/

/-- What function signatures look like.  There are three shapes: an introducing keyword with a
name, a type with a name, and an arrow function bound to a name. -/
structure SignatureRules where
  /-- Keywords that introduce a function. -/
  introducers : List String := []
  /-- Tokens allowed right after an introducer. -/
  introducerMarkers : List String := []
  /-- Whether a name with parameters is a signature without an introducer. -/
  typed : Bool := false
  /-- Keywords that bind arrow functions. -/
  arrowBinders : List String := []
  /-- The arrow of such functions. -/
  arrow : Option String := none
  /-- Words that may stand before a signature and belong to it. -/
  modifiers : List String := []
  /-- Whether lists in angle brackets may stand before or after the name. -/
  generics : Bool := false
  /-- Whether type parameters in square brackets may follow the name. -/
  squareTypeParams : Bool := false
  /-- Whether a receiver in parentheses may follow the introducer. -/
  receiverGroup : Bool := false
  /-- Whether the name may carry a chain of receivers. -/
  extensionReceivers : Bool := false
  /-- Words that never name a function. -/
  reserved : List String := []
  /-- Punctuation allowed right before a name without introducer. -/
  allowedPredecessors : List String := []
  /-- Words that rule out a name right after them. -/
  excludedPredecessors : List String := []
  /-- What stands before a return type. -/
  returnSeparator : Option String := none
  /-- Keywords of clauses between parameters and body. -/
  clauseKeywords : List String := []
  /-- Whether return types follow the parameters without a separator. -/
  freeReturn : Bool := false
  /-- Type keywords whose own braces may stand in a return type. -/
  typeBraces : List String := []
  /-- Tokens that end a declaration without body. -/
  terminators : List String := []
  /-- Whether a line break ends a declaration too. -/
  newlineTerminates : Bool := false
  /-- Keywords of the types that enclose functions. -/
  containerKeywords : List String := []
  /-- Containers whose body may hold a constructor without parameters. -/
  compactConstructors : List String := []
deriving DecidableEq, Repr, Inhabited

/-! ## The table -/

/-- The table of one language. -/
structure Language where
  /-- The name of the language. -/
  id : String
  /-- The extensions of its files, without the dot. -/
  extensions : List String := []
  /-- How its comments are written. -/
  comments : CommentSyntax
  /-- How its literals are written. -/
  strings : LiteralSyntax
  /-- Its reserved words, in increasing order and each once. -/
  keywords : List String := []
  /-- Its operators of more than one character. -/
  operators : List String := []
  /-- Characters of identifiers besides letters, numerals and `_`. -/
  identifierChars : List Char := []
  /-- What raises complexity.  The first rule that applies wins. -/
  decisions : List DecisionRule := []
  /-- What signatures look like. -/
  signatures : SignatureRules := {}
deriving DecidableEq, Repr, Inhabited

/-- Words in increasing order, each once. -/
def wordSet (words : List String) : List String :=
  (words.mergeSort (fun a b => a ≤ b)).eraseReps

end Cyclomatic
