import Cyclomatic.Fault
import Cyclomatic.Function.Forest
import Cyclomatic.Score.Guard

/-!
# Scoring a function

A function scores one and the increments of its decisions.  Only its own body is walked.  The
functions inside it are skipped from their first to their last token, but the arrow or keyword
that binds such a function to a name counts for the function around it.

A lambda counts like any decision.  Its body may be left out.

Before the walk, the recorded place of the function is checked against the tokens.  The walk has no
result if a number leaves its machine word: the depth of a generic list behind a token that it
judges, or the score, which has 32 bits.
-/

namespace Cyclomatic

/-- What scoring counts. -/
structure ScoringOptions where
  /-- Decisions inside the bodies of lambdas count. -/
  countLambdaInterior : Bool := true
deriving DecidableEq, Repr, Inhabited

/-- A token that raised a score. -/
structure Decision where
  /-- The kind of decision. -/
  category : Category
  /-- The text of the token. -/
  token : String
  /-- The line of the token. -/
  line : Nat
  /-- The byte offset of the token. -/
  offset : Nat
  /-- How much it added. -/
  increment : UInt32
deriving DecidableEq, Repr, Inhabited

/-- The score of a function with the given decisions, a word of 32 bits.  It is only taken where no
addition leaves the word (`scoreFits`). -/
def scoreOf (decisions : List Decision) : UInt32 :=
  decisions.foldl (fun score d => score + d.increment) 1

/-- The increments can be added to a score one after the other, and no sum leaves the word. -/
def scoreFits (score : UInt32) : List Decision → Bool
  | [] => true
  | d :: ds =>
    score.toNat + d.increment.toNat < UInt32.size && scoreFits (score + d.increment) ds

/-- A function inside the body that is walked. -/
structure Child where
  /-- Its first token. -/
  start : Nat
  /-- Its last token. -/
  last : Nat
  /-- The token that binds it to a name. -/
  binding : Option Nat
deriving DecidableEq, Repr

/-- The function that holds token `k` and those after it, among functions in the order of the
code.  Functions that end before the token are passed over. -/
def childAt? (k : Nat) : List Child → Option (Child × List Child)
  | [] => none
  | c :: rest =>
    if c.last < k then childAt? k rest
    else if c.start ≤ k then some (c, rest)
    else none

/-- A token that is judged. -/
structure Visit where
  /-- The token. -/
  token : Nat
  /-- The brackets open there, innermost first. -/
  stack : List Frame
  /-- It binds a nested function to a name. -/
  binds : Bool
deriving DecidableEq, Repr

theorem childAt?_last {k : Nat} {children rest : List Child} {c : Child}
    (h : childAt? k children = some (c, rest)) : k ≤ c.last := by
  fun_induction childAt? k children <;> grind

namespace Code

variable (code : Code)

/-! ## Lambdas -/

/-- The token after the bracket that closes the one at `j`, or the end of the code. -/
def afterGroup (j : Nat) : Nat :=
  match code.closer? j with
  | some close => close + 1
  | none => code.size

theorem lt_afterGroup {j : Nat} (h : j < code.size) : j < code.afterGroup j := by
  unfold afterGroup
  split
  · rename_i close hc
    have := code.lt_closer? hc
    omega
  · exact h

/-- The token brackets or separates at the depth of an expression. -/
def endsExpression (j : Nat) : Bool :=
  code.closesBracket j || code.isPunct j "," || code.isPunct j ";"

/-- The end of the expression that goes on at a token. -/
def expressionEnd (j : Nat) : Nat :=
  if h : j < code.size then
    if code.opensBracket j then
      have := code.lt_afterGroup h
      expressionEnd (code.afterGroup j)
    else if code.endsExpression j then j
    else expressionEnd (j + 1)
  else j
termination_by code.size - j

theorem le_expressionEnd (j : Nat) : j ≤ code.expressionEnd j := by
  fun_induction code.expressionEnd j <;> omega

/-- The end of the first block at the depth of a token, if it comes before a separator. -/
def blockEnd? (j : Nat) : Option Nat :=
  if h : j < code.size then
    if code.isPunct j "\x7b" then some (code.afterGroup j)
    else if code.opensBracket j then
      have := code.lt_afterGroup h
      blockEnd? (code.afterGroup j)
    else if code.endsExpression j then none
    else blockEnd? (j + 1)
  else none
termination_by code.size - j

theorem le_blockEnd? {j r : Nat} (h : code.blockEnd? j = some r) : j ≤ r := by
  fun_induction code.blockEnd? j with
  | case1 j hj _ =>
    have := code.lt_afterGroup hj
    simp at h
    omega
  | case2 j hj _ _ hlt ih =>
    have := ih h
    omega
  | case3 => simp at h
  | case4 j _ _ _ _ ih =>
    have := ih h
    omega
  | case5 => simp at h

/-- The end of the lambda that a token introduces.  An arrow has a block or an expression, a
keyword has a block after its parameters. -/
def lambdaEnd? (k : Nat) : Option Nat :=
  if code.isKind k .operator then
    if code.isPunct (k + 1) "\x7b" then some (code.afterGroup (k + 1))
    else some (code.expressionEnd (k + 1))
  else code.blockEnd? (k + 1)

/-- The body of a lambda ends behind its arrow. -/
theorem lt_lambdaEnd? {k r : Nat} (h : code.lambdaEnd? k = some r) : k < r := by
  unfold lambdaEnd? at h
  split at h
  · split at h
    · rename_i hp
      have := code.lt_afterGroup (code.lt_size_of_isPunct hp)
      simp at h
      omega
    · have := code.le_expressionEnd (k + 1)
      simp at h
      omega
  · have := code.le_blockEnd? h
    omega

/-! ## Decisions -/

variable (l : Language)

/-- Tokens of this kind can be decisions. -/
def decides (k : Nat) : Bool :=
  code.isWord k || code.isKind k .operator || code.isKind k .punctuation

/-- The first rule that applies to a token inside the given brackets. -/
def ruleAt? (stack : List Frame) (k : Nat) : Option DecisionRule :=
  if code.decides k then
    l.decisions.find? fun r => r.token == code.text k && code.guardHolds l r.guard stack k
  else none

/-- The decision that a rule makes of a token. -/
def decision (k : Nat) (r : DecisionRule) : Decision :=
  { category := r.category
    token := code.text k
    line := code.lineOf k
    offset := code.offset k
    increment := r.increment }

/-- The brackets open after a token.  The one around the whole body stays. -/
def openAfter (stack : List Frame) (k : Nat) : List Frame :=
  if code.isPunct k "\x7b" then .block (code.openerWord k) :: stack
  else if code.opensBracket k then .group :: stack
  else if code.closesBracket k then
    match stack with
    | _ :: f :: below => f :: below
    | single => single
  else stack

/-- The decision that binds a function to a name, if a rule applies to it. -/
def bindingDecision? (stack : List Frame) (c : Child) : Option Decision :=
  c.binding.bind fun b => (code.ruleAt? l stack b).map (code.decision b)

/-- The token to go on at after a decision. -/
def afterDecision (options : ScoringOptions) (k : Nat) (r : DecisionRule) : Nat :=
  if r.category == .lambda && !options.countLambdaInterior then
    (code.lambdaEnd? k).getD (k + 1)
  else k + 1

/-- A decision takes the walk forward. -/
theorem lt_afterDecision (options : ScoringOptions) (k : Nat) (r : DecisionRule) :
    k < code.afterDecision options k r := by
  unfold afterDecision
  split
  · cases h : code.lambdaEnd? k with
    | none => simp
    | some r => simpa using code.lt_lambdaEnd? h
  · omega

/-- The decisions from token `k` up to token `stop`, outside the functions of the list, with
the brackets that are open. -/
def decisionsFrom (options : ScoringOptions) (stop k : Nat) (children : List Child)
    (stack : List Frame) : List Decision :=
  if _ : k < stop then
    match h : childAt? k children with
    | some (c, rest) =>
      have := childAt?_last h
      (code.bindingDecision? l stack c).toList ++
        decisionsFrom options stop (c.last + 1) rest stack
    | none =>
      let stack := code.openAfter stack k
      match code.ruleAt? l stack k with
      | some r =>
        have := code.lt_afterDecision options k r
        code.decision k r ::
          decisionsFrom options stop (code.afterDecision options k r) children stack
      | none => decisionsFrom options stop (k + 1) children stack
  else []
termination_by stop - k

/-! ## Judged tokens -/

/-- A rule of the list is reached whose guard takes the depth of a generic list out of range at the
token.  The rules before it do not apply. -/
def rulesUnderflow (stack : List Frame) (k : Nat) : List DecisionRule → Bool
  | [] => false
  | r :: rs =>
    if r.token == code.text k then
      code.guardUnderflows l r.guard stack k ||
        (!code.guardHolds l r.guard stack k && rulesUnderflow stack k rs)
    else rulesUnderflow stack k rs

/-- Looking for a rule for a token takes the depth of a generic list out of range. -/
def judgeUnderflows (stack : List Frame) (k : Nat) : Bool :=
  code.decides k && code.rulesUnderflow l stack k l.decisions

/-- The token to go on at after one that is judged. -/
def afterVisit (options : ScoringOptions) (stack : List Frame) (k : Nat) : Nat :=
  match code.ruleAt? l stack k with
  | some r => code.afterDecision options k r
  | none => k + 1

theorem lt_afterVisit (options : ScoringOptions) (stack : List Frame) (k : Nat) :
    k < code.afterVisit l options stack k := by
  unfold afterVisit
  split
  · exact code.lt_afterDecision options k _
  · exact Nat.lt_succ_self k

/-- The tokens to judge from token `k` up to token `stop`: those outside the functions of the list,
and those that bind one of them. -/
def visitsFrom (options : ScoringOptions) (stop k : Nat) (children : List Child)
    (stack : List Frame) : List Visit :=
  if _ : k < stop then
    match h : childAt? k children with
    | some (c, rest) =>
      have := childAt?_last h
      (c.binding.map fun b => ⟨b, stack, true⟩).toList ++
        visitsFrom options stop (c.last + 1) rest stack
    | none =>
      have := code.lt_afterVisit l options (code.openAfter stack k) k
      ⟨k, code.openAfter stack k, false⟩ ::
        visitsFrom options stop (code.afterVisit l options (code.openAfter stack k) k) children
          (code.openAfter stack k)
  else []
termination_by stop - k

/-! ## Functions of a forest -/

/-- Each of the nested functions starts after the one before it, and none ends after `last`.
The answer is the first that does not. -/
def strayChild? (last previous : Nat) : List Entity → Option Entity
  | [] => none
  | e :: es =>
    if e.start ≤ previous || last < e.last code.size then some e
    else strayChild? last (e.last code.size) es

/-- A nested function as the walk over the body around it sees it. -/
def childOf (size : Nat) (c : Entity) : Child :=
  { start := c.start, last := c.last size, binding := c.binding }

/-- The functions directly inside another. -/
def nested (forest : Forest) (e : Entity) : List Entity :=
  e.children.filterMap (forest.entities[·]?)

/-- What is wrong with the recorded place of a function. -/
def spanFault? (forest : Forest) (e : Entity) : Option SpanFault :=
  if !code.isPunct e.opening "\x7b" then some (.noBrace (code.text e.opening))
  else if e.opening < e.start then some .startAfterBody
  else if e.span.startByte != code.offset e.start then
    some (.startOffset e.span.startByte (code.offset e.start))
  else
    match e.close.filter (!code.isPunct · "\x7d") with
    | some c => some (.notClosed (code.text c))
    | none =>
      let endByte := ((e.close.bind code.token?).map (·.stop)).getD code.bytes
      if e.span.endByte != endByte then some (.endOffset e.span.endByte endByte)
      else
        (code.strayChild? (e.last code.size) e.opening (nested forest e)).map fun c =>
          .childOutside c.qualifiedName

/-- The decisions of a function of the forest. -/
def decisions (options : ScoringOptions) (forest : Forest) (e : Entity) : List Decision :=
  code.decisionsFrom l options (e.close.getD code.size) (e.opening + 1)
    ((nested forest e).map (childOf code.size)) [.block (code.openerWord e.opening)]

/-- The tokens to judge in a function of the forest. -/
def visits (options : ScoringOptions) (forest : Forest) (e : Entity) : List Visit :=
  code.visitsFrom l options (e.close.getD code.size) (e.opening + 1)
    ((nested forest e).map (childOf code.size)) [.block (code.openerWord e.opening)]

/-- A number leaves its range in the walk over a function. -/
def overflows (options : ScoringOptions) (forest : Forest) (e : Entity) : Bool :=
  (code.visits l options forest e).any (fun v => code.judgeUnderflows l v.stack v.token) ||
    !scoreFits 1 (code.decisions l options forest e)

/-- The decisions of a function whose recorded place agrees with the tokens. -/
def score (options : ScoringOptions) (forest : Forest) (e : Entity) :
    Except Fault (List Decision) :=
  match code.spanFault? forest e with
  | some fault => .error (.malformedSpan e.qualifiedName fault)
  | none =>
    if code.overflows l options forest e then .error .overflow
    else .ok (code.decisions l options forest e)

end Code

end Cyclomatic
