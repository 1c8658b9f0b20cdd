import Cyclomatic.Text.Blank
import Cyclomatic.Text.Fold
import Cyclomatic.Text.Numeral

/-!
# Name patterns

A pattern selects functions by their qualified names.  It is a regular expression with classes,
anchors and word boundaries, and matches anywhere in a name.

Matching goes by positions in the text: from a set of positions at which a part may start, it
computes the positions at which it may end.  A repetition adds end positions until there are no
new ones.  There are only as many positions as characters, so that ends.
-/

namespace Cyclomatic

/-! ## Classes of characters -/

/-- The classes that have a letter of their own. -/
inductive Shorthand where
  | digit
  | space
  | word
deriving DecidableEq, Repr

/-- A character belongs to the class. -/
def Shorthand.holds : Shorthand → Char → Bool
  | .digit, c => Text.isDigit c
  | .space, c => Text.isBlank c
  | .word, c => Text.isWordChar c

/-- How two sets of characters are joined. -/
inductive SetOp where
  | intersection
  | difference
  | symmetricDifference
deriving DecidableEq, Repr

/-- A set of characters. -/
inductive CharSet where
  /-- No character. -/
  | none
  /-- The characters from `first` to `last`. -/
  | range (first last : Char)
  | shorthand (negated : Bool) (kind : Shorthand)
  | union (a b : CharSet)
  | join (op : SetOp) (a b : CharSet)
  /-- A set in brackets, which case folding closes before it is negated. -/
  | bracket (negated folded : Bool) (inner : CharSet)
deriving Repr

/-- The set holds a character. -/
def CharSet.holds : CharSet → Char → Bool
  | .none, _ => false
  | .range first last, c => first ≤ c && c ≤ last
  | .shorthand negated kind, c => negated != kind.holds c
  | .union a b, c => a.holds c || b.holds c
  | .join .intersection a b, c => a.holds c && b.holds c
  | .join .difference a b, c => a.holds c && !b.holds c
  | .join .symmetricDifference a b, c => a.holds c != b.holds c
  | .bracket negated folded inner, c =>
    negated != (inner.holds c || (folded && (Text.caseVariants c).any inner.holds))

/-! ## Patterns -/

/-- A condition on a position. -/
inductive Anchor where
  | textStart
  | textEnd
  | lineStart
  | lineEnd
  | wordBoundary
  | noWordBoundary
  | wordStart
  | wordEnd
deriving DecidableEq, Repr

/-- A pattern. -/
inductive Pattern where
  /-- The empty text. -/
  | empty
  /-- One character of a set. -/
  | one (set : CharSet)
  | anchor (a : Anchor)
  | seq (a b : Pattern)
  | alt (a b : Pattern)
  /-- At least `least` times, and at most `most` times if that is given. -/
  | times (p : Pattern) (least : Nat) (most : Option Nat)
deriving Repr

/-! ## Matching -/

/-- The character before a position is a word character. -/
def wordBefore (text : Array Char) (i : Nat) : Bool :=
  match i with
  | 0 => false
  | p + 1 => text[p]?.any Text.isWordChar

/-- The character after a position is a word character. -/
def wordAfter (text : Array Char) (i : Nat) : Bool := text[i]?.any Text.isWordChar

/-- The condition holds at a position. -/
def Anchor.holds (text : Array Char) (i : Nat) : Anchor → Bool
  | .textStart => i == 0
  | .textEnd => i == text.size
  | .lineStart => i == 0 || text[i - 1]? == some '\n'
  | .lineEnd => i == text.size || text[i]? == some '\n'
  | .wordBoundary => wordBefore text i != wordAfter text i
  | .noWordBoundary => wordBefore text i == wordAfter text i
  | .wordStart => !wordBefore text i && wordAfter text i
  | .wordEnd => wordBefore text i && !wordAfter text i

/-- Apply a step a number of times. -/
def iterate (step : List Nat → List Nat) : Nat → List Nat → List Nat
  | 0, ends => ends
  | n + 1, ends => iterate step n (step ends)

/-- Add the positions that a step reaches, at most a number of times. -/
def saturate (step : List Nat → List Nat) : Nat → List Nat → List Nat
  | 0, seen => seen
  | n + 1, seen =>
    let new := (step seen).filter (!seen.contains ·)
    if new.isEmpty then seen else saturate step n (seen ++ new)

/-- The positions at which a match ends that starts at one of the given positions. -/
def Pattern.ends (text : Array Char) : Pattern → List Nat → List Nat
  | .empty, starts => starts
  | .one set, starts => starts.filterMap fun i => (text[i]?.filter set.holds).map fun _ => i + 1
  | .anchor a, starts => starts.filter fun i => a.holds text i
  | .seq a b, starts => b.ends text (a.ends text starts)
  | .alt a b, starts => (a.ends text starts ++ b.ends text starts).eraseDups
  | .times p least most, starts =>
    let step := p.ends text
    let reached := iterate step least starts
    match most with
    | some m => saturate step (min (m - least) (text.size + 1)) reached
    | none => saturate step (text.size + 1) reached

/-- The pattern matches somewhere in a text. -/
def Pattern.matchesIn (p : Pattern) (s : String) : Bool :=
  let text := s.toList.toArray
  !(p.ends text (List.range (text.size + 1))).isEmpty

end Cyclomatic
