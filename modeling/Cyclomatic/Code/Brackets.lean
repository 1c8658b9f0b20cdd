import Cyclomatic.Token.Basic

/-!
# Bracket pairs

Round, square and curly brackets are paired in one pass with a stack of open brackets.  A
closer pairs with the nearest open bracket of its shape.  Brackets opened above that one are
cut off and stay alone, and so does a closer without an open bracket of its shape.
-/

namespace Cyclomatic

/-- The shape of a bracket. -/
inductive Bracket where
  | round
  | square
  | curly
deriving DecidableEq, Repr

/-- The shape of a token that opens a bracket. -/
def Token.opens? (t : Token) : Option Bracket :=
  if t.kind != .punctuation then none
  else if t.text == "(" then some .round
  else if t.text == "[" then some .square
  else if t.text == "\x7b" then some .curly
  else none

/-- The shape of a token that closes a bracket. -/
def Token.closes? (t : Token) : Option Bracket :=
  if t.kind != .punctuation then none
  else if t.text == ")" then some .round
  else if t.text == "]" then some .square
  else if t.text == "\x7d" then some .curly
  else none

/-- The pairs of a list of tokens whose first has index `i`, with the brackets open before it,
innermost first.  A pair is the index of the opener and the index of the closer. -/
def pairsFrom (i : Nat) (stack : List (Nat × Bracket)) : List Token → List (Nat × Nat)
  | [] => []
  | t :: ts =>
    match t.opens? with
    | some b => pairsFrom (i + 1) ((i, b) :: stack) ts
    | none =>
      match t.closes? with
      | none => pairsFrom (i + 1) stack ts
      | some b =>
        match stack.dropWhile (·.2 != b) with
        | [] => pairsFrom (i + 1) stack ts
        | (o, _) :: below => (o, i) :: pairsFrom (i + 1) below ts

/-- The bracket pairs of a list of tokens, in the order of their closers. -/
def bracketPairs (tokens : List Token) : List (Nat × Nat) := pairsFrom 0 [] tokens

/-- The index paired with each index below `n`. -/
def partnerTable (n : Nat) (pairs : List (Nat × Nat)) : Array (Option Nat) :=
  pairs.foldl (fun table p => (table.setIfInBounds p.1 (some p.2)).setIfInBounds p.2 (some p.1))
    (Array.replicate n none)

end Cyclomatic
