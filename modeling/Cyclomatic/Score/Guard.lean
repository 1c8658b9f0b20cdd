import Cyclomatic.Code.View

/-!
# Guards

A decision token counts only if its guard holds.  Most guards look at the neighbours or at the
innermost open bracket.  The others walk back over the code, and skip bracket groups whole.

* after a body: the token ends a statement such as `do … while`
* in a statement: how the statement or clause of the token starts
* in a type position: the arrow of a function type, not of a lambda
* anonymous body: a type, arguments and a brace follow
* first in a chain: the first mark of its kind in a chain of member accesses
-/

namespace Cyclomatic

/-- An open bracket inside a body. -/
inductive Frame where
  /-- A brace, with the word that introduces its block. -/
  | block (word : String)
  /-- A parenthesis or a square bracket. -/
  | group
deriving DecidableEq, Repr

/-- The word of the block that the innermost bracket opens, if it is a brace. -/
def blockWord? : List Frame → Option String
  | .block word :: _ => some word
  | _ => none

namespace Code

variable (code : Code)

/-! ## Bodies and statements -/

/-- One of the words opens the statement that ends before `j`.  The walk stops at the start of
that statement and at a token with the text `own`. -/
def statementOpensWith (words : List String) (own : String) (j : Nat) : Bool :=
  match j with
  | 0 => false
  | p + 1 =>
    if code.isWordIn p words then true
    else if code.closesGroup p then
      match h : code.opener? p with
      | some o =>
        have := code.opener?_lt h
        statementOpensWith words own o
      | none => false
    else if code.isPunct p ";" || code.isPunct p "\x7b" || code.isPunct p "\x7d" ||
        code.text p == own then false
    else statementOpensWith words own p
termination_by j

/-- The token directly follows the body of a statement opened by one of the words.  The body is
a block or a single statement. -/
def endsBodyOf (words : List String) (k : Nat) : Bool :=
  match k with
  | 0 => false
  | p + 1 =>
    if code.isPunct p "\x7d" then
      (code.partner? p).any fun o => words.contains (code.openerWord o)
    else
      code.statementOpensWith words (code.text (p + 1))
        (if code.isPunct p ";" then p else p + 1)

/-- The first token of the statement or clause that ends before `j`. -/
def statementStart (j : Nat) : Nat :=
  match j with
  | 0 => 0
  | p + 1 =>
    if code.closesGroup p then
      match h : code.opener? p with
      | some o =>
        have := code.opener?_lt h
        statementStart o
      | none => p + 1
    else if [";", "\x7b", "\x7d", "(", "[", ":"].contains (code.text p) then p + 1
    else statementStart p
termination_by j

/-! ## Types -/

/-- The separator before `j` stands in a parenthesised list. -/
def inParameterList (j : Nat) : Bool :=
  match j with
  | 0 => false
  | p + 1 =>
    if code.closesBracket p then
      match h : code.opener? p with
      | some o =>
        have := code.opener?_lt h
        inParameterList o
      | none => false
    else if code.text p == "(" then true
    else if ["[", "\x7b", ";"].contains (code.text p) then false
    else inParameterList p
termination_by j

/-- The separator before `j` stands in a list in angle brackets, with `depth` lists closed on
the way. -/
def insideAngles (depth : Nat) (j : Nat) : Bool :=
  match j with
  | 0 => false
  | p + 1 =>
    if code.closesGroup p then
      match h : code.opener? p with
      | some o =>
        have := code.opener?_lt h
        insideAngles depth o
      | none => false
    else if code.text p == ">" then insideAngles (depth + 1) p
    else if code.text p == "<" then if depth == 0 then true else insideAngles (depth - 1) p
    else if ["(", "[", "\x7b", "\x7d", ";", "="].contains (code.text p) then false
    else insideAngles depth p
termination_by j

/-- The outermost of the parentheses that open side by side up to a token. -/
def outermostParen (j : Nat) : Nat :=
  match j with
  | 0 => 0
  | p + 1 => if code.isPunct p "(" then outermostParen p else p + 1

theorem outermostParen_le (j : Nat) : code.outermostParen j ≤ j := by
  fun_induction code.outermostParen j <;> omega

variable (l : Language)

/-- The separator annotates a declared name.  It does not end a ternary, a case label or the
entry of an object. -/
def annotatesBinding (colon : Nat) : Bool :=
  match colon with
  | before + 2 =>
    code.isKind (before + 1) .identifier &&
      if code.isWord before then !l.decisions.any (·.token == code.text before)
      else
        code.isPunct before "(" || (code.isPunct before "," && code.inParameterList before)
  | _ => false

/-- The arrow belongs to a function type.  Its parameters follow an annotation, a list in angle
brackets or another arrow of a type. -/
def inTypePosition (k : Nat) : Bool :=
  match k with
  | 0 => false
  | p + 1 =>
    if code.isPunct p ")" then
      match h : code.opener? p with
      | none => false
      | some o =>
        match hb : code.outermostParen o with
        | 0 => false
        | before + 1 =>
          if code.text before == "<" then true
          else if code.text before == "," then code.insideAngles 0 before
          else if code.text before == code.text (p + 1) then
            have : before < p + 1 := by
              have := code.opener?_lt h
              have := code.outermostParen_le o
              omega
            inTypePosition before
          else
            l.signatures.returnSeparator == some (code.text before) &&
              code.annotatesBinding l before
    else false
termination_by k
decreasing_by exact this

/-! ## What follows -/

/-- The end of a chain of names after points. -/
def skipQualifiers (j : Nat) : Nat :=
  if h : code.isPunct j "." && code.isKind (j + 1) .identifier then
    have : j + 1 < code.size := by
      simp only [Bool.and_eq_true] at h
      exact code.lt_size_of_isKind h.2
    skipQualifiers (j + 2)
  else j
termination_by code.size - j

/-- Looking for a type behind the token takes the depth of its generic list out of range. -/
def anonymousBodyUnderflows (k : Nat) : Bool :=
  code.isKind (k + 1) .identifier && code.underflows (code.skipQualifiers (k + 2))

/-- A type, arguments and a brace follow the token. -/
def anonymousBodyFollows (k : Nat) : Bool :=
  code.isKind (k + 1) .identifier &&
    let j := code.skipQualifiers (k + 2)
    let j := (code.skipAngles? j).getD j
    code.isPunct j "(" && (code.partner? j).any fun c => code.isPunct (c + 1) "\x7b"

/-! ## Chains -/

/-- A token with the given text links two members of a chain. -/
def linksChain (t : String) : Bool :=
  l.decisions.any fun r => r.token == t && r.category == .optionalChain

/-- No token with the text `own` stands earlier in the chain that ends before `j`, where
`atom` says whether a name or literal of it came last. -/
def firstInChain (own : String) (atom : Bool) (j : Nat) : Bool :=
  match j with
  | 0 => true
  | p + 1 =>
    let t := code.text p
    if t == own then false
    else if code.isWord p || code.isKind p .number || code.isKind p .stringLiteral then
      if atom then true else firstInChain own true p
    else if code.closesGroup p then
      match h : code.opener? p with
      | some o =>
        have := code.opener?_lt h
        firstInChain own false o
      | none => true
    else if code.isPunct p "." then firstInChain own false p
    else if code.isOp p "!" || code.isOp p "!!" then firstInChain own atom p
    else if code.isKind p .operator && linksChain l t then firstInChain own false p
    else true
termination_by j

/-! ## Guards -/

/-- A condition on the text of a neighbour: it is one of `allowed`, if any are listed, and none
of `refused`. -/
def neighbourFits (allowed refused : List String) (t : Option String) : Bool :=
  (allowed.isEmpty || t.any allowed.contains) && !t.any refused.contains

/-- The text of the token before. -/
def textBefore? (k : Nat) : Option String :=
  match k with
  | 0 => none
  | p + 1 => some (code.text p)

/-- The text of the token after. -/
def textAfter? (k : Nat) : Option String :=
  if k + 1 < code.size then some (code.text (k + 1)) else none

/-- The conditions of a guard on what stands before a token and around it, and on its
neighbours. -/
def guardFits (g : Guard) (stack : List Frame) (k : Nat) : Bool :=
  neighbourFits g.precededBy g.notPrecededBy (code.textBefore? k) &&
  neighbourFits g.followedBy g.notFollowedBy (code.textAfter? k) &&
  neighbourFits g.inBlockOf g.notInBlockOf (blockWord? stack) &&
  !(!g.notAfterBodyOf.isEmpty && code.endsBodyOf g.notAfterBodyOf k) &&
  !(!g.notInStatementOf.isEmpty &&
    g.notInStatementOf.contains (code.text (code.statementStart k))) &&
  !(g.notInTypePosition && code.inTypePosition l k)

/-- The guard of a rule holds at a token, inside the given brackets. -/
def guardHolds (g : Guard) (stack : List Frame) (k : Nat) : Bool :=
  code.guardFits l g stack k &&
  !(g.anonymousBody && !code.anonymousBodyFollows k) &&
  !(g.firstInChain && !code.firstInChain l (code.text k) false k)

/-- Checking the guard takes the depth of a generic list out of range.  An anonymous body is looked
for once the conditions before it are met. -/
def guardUnderflows (g : Guard) (stack : List Frame) (k : Nat) : Bool :=
  code.guardFits l g stack k && g.anonymousBody && code.anonymousBodyUnderflows k

end Code

end Cyclomatic
