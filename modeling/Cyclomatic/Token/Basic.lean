/-!
# Tokens

A token is a classified piece of the source with its byte offsets.  The pieces follow one
another without gap, so the offsets come from the texts.
-/

namespace Cyclomatic

/-- What a token is. -/
inductive Kind where
  | whitespace
  | newline
  | lineComment
  | blockComment
  | stringLiteral
  /-- The opener or the closing brace of code inside a literal. -/
  | interpolation
  | identifier
  | keyword
  | number
  | operator
  | punctuation
deriving DecidableEq, Repr, Inhabited

/-- The written name of a kind. -/
def Kind.name : Kind → String
  | .whitespace => "whitespace"
  | .newline => "newline"
  | .lineComment => "line-comment"
  | .blockComment => "block-comment"
  | .stringLiteral => "string-literal"
  | .interpolation => "interpolation"
  | .identifier => "identifier"
  | .keyword => "keyword"
  | .number => "number"
  | .operator => "operator"
  | .punctuation => "punctuation"

/-- Blanks, line breaks and comments. -/
def Kind.isTrivia : Kind → Bool
  | .whitespace | .newline | .lineComment | .blockComment => true
  | _ => false

/-- A piece of the source. -/
structure Token where
  /-- What it is. -/
  kind : Kind
  /-- Its text. -/
  text : String
  /-- The offset of its first byte. -/
  start : Nat
  /-- The offset after its last byte. -/
  stop : Nat
deriving DecidableEq, Repr, Inhabited

/-- The token is the punctuation `p`. -/
def Token.isPunct (t : Token) (p : String) : Bool := t.kind == .punctuation && t.text == p

/-- The token is an identifier or a keyword. -/
def Token.isWord (t : Token) : Bool := t.kind == .identifier || t.kind == .keyword

end Cyclomatic
