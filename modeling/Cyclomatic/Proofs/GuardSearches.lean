import Cyclomatic.Proofs.Halting
import Cyclomatic.Score.Body
import Mathlib.Data.Bool.Basic

/-!
# Where the searches of scoring end

A guard searches the code before a token or after it, and the body of a lambda is searched for its
end.  Each search is given by one round of its loop, with jumps to bracket partners as they stand
in the table of partners.  All of them leave with the answers of their functions, backward searches
after at most as many rounds as there are tokens before, forward searches after at most as many as
there are tokens left (`Code.guardSearchesEnd`).
-/

namespace Cyclomatic

namespace Code

variable (code : Code) (l : Language)

/-! ## One round of each search -/

/-- A word that opens the statement, backward: a token or group before `j`. -/
def opensRound (words : List String) (own : String) (j : Nat) : Round Nat Bool :=
  if j = 0 then .leave false
  else if code.isWordIn (j - 1) words then .leave true
  else if code.closesGroup (j - 1) then
    match code.partner? (j - 1) with
    | some o => .again o
    | none => .leave false
  else if code.isPunct (j - 1) ";" || code.isPunct (j - 1) "\x7b" || code.isPunct (j - 1) "\x7d" ||
      code.text (j - 1) == own then .leave false
  else .again (j - 1)

/-- The start of the statement, backward. -/
def statementRound (j : Nat) : Round Nat Nat :=
  if j = 0 then .leave 0
  else if code.closesGroup (j - 1) then
    match code.partner? (j - 1) with
    | some o => .again o
    | none => .leave j
  else if [";", "\x7b", "\x7d", "(", "[", ":"].contains (code.text (j - 1)) then .leave j
  else .again (j - 1)

/-- A list in parentheses, backward. -/
def parameterRound (j : Nat) : Round Nat Bool :=
  if j = 0 then .leave false
  else if code.closesBracket (j - 1) then
    match code.partner? (j - 1) with
    | some o => .again o
    | none => .leave false
  else if code.text (j - 1) == "(" then .leave true
  else if ["[", "\x7b", ";"].contains (code.text (j - 1)) then .leave false
  else .again (j - 1)

/-- A list in angle brackets, backward: the lists closed on the way and the token. -/
def insideAnglesRound : Nat × Nat → Round (Nat × Nat) Bool
  | (depth, j) =>
    if j = 0 then .leave false
    else if code.closesGroup (j - 1) then
      match code.partner? (j - 1) with
      | some o => .again (depth, o)
      | none => .leave false
    else if code.text (j - 1) == ">" then .again (depth + 1, j - 1)
    else if code.text (j - 1) == "<" then
      if depth = 0 then .leave true else .again (depth - 1, j - 1)
    else if ["(", "[", "\x7b", "\x7d", ";", "="].contains (code.text (j - 1)) then .leave false
    else .again (depth, j - 1)

/-- Parentheses that open side by side, backward. -/
def parenRound (j : Nat) : Round Nat Nat :=
  if j ≠ 0 ∧ code.isPunct (j - 1) "(" then .again (j - 1) else .leave j

/-- The arrow of a type, backward: from one arrow to the one before its parameters. -/
def typePositionRound (k : Nat) : Round Nat Bool :=
  if k ≠ 0 ∧ code.isPunct (k - 1) ")" then
    match code.partner? (k - 1) with
    | none => .leave false
    | some o =>
      let first := code.outermostParen o
      if first = 0 then .leave false
      else if code.text (first - 1) == "<" then .leave true
      else if code.text (first - 1) == "," then .leave (code.insideAngles 0 (first - 1))
      else if code.text (first - 1) == code.text k then .again (first - 1)
      else
        .leave (l.signatures.returnSeparator == some (code.text (first - 1)) &&
          code.annotatesBinding l (first - 1))
  else .leave false

/-- Names after points. -/
def qualifiersRound (j : Nat) : Round Nat Nat :=
  if code.isPunct j "." && code.isKind (j + 1) .identifier then .again (j + 2) else .leave j

/-- A chain of member accesses, backward: whether a name came last, and the token. -/
def chainRound (own : String) : Bool × Nat → Round (Bool × Nat) Bool
  | (atom, j) =>
    if j = 0 then .leave true
    else if code.text (j - 1) == own then .leave false
    else if code.isWord (j - 1) || code.isKind (j - 1) .number ||
        code.isKind (j - 1) .stringLiteral then
      if atom then .leave true else .again (true, j - 1)
    else if code.closesGroup (j - 1) then
      match code.partner? (j - 1) with
      | some o => .again (false, o)
      | none => .leave true
    else if code.isPunct (j - 1) "." then .again (false, j - 1)
    else if code.isOp (j - 1) "!" || code.isOp (j - 1) "!!" then .again (atom, j - 1)
    else if code.isKind (j - 1) .operator && linksChain l (code.text (j - 1)) then
      .again (false, j - 1)
    else .leave true

/-- The expression of a lambda: a token or group. -/
def expressionRound (j : Nat) : Round Nat Nat :=
  if j < code.size then
    if code.opensBracket j then .again ((code.partner? j).elim code.size (· + 1))
    else if code.endsExpression j then .leave j
    else .again (j + 1)
  else .leave j

/-- The block of a lambda: a token or group before it. -/
def blockRound (j : Nat) : Round Nat (Option Nat) :=
  if j < code.size then
    if code.isPunct j "\x7b" then .leave (some ((code.partner? j).elim code.size (· + 1)))
    else if code.opensBracket j then .again ((code.partner? j).elim code.size (· + 1))
    else if code.endsExpression j then .leave none
    else .again (j + 1)
  else .leave none

/-! ## Searches that leave -/

variable {code l}

/-- The partner of a closer is the opener before it. -/
theorem Paired.partner?_eq_opener? (hp : code.Paired) {i : Nat} {b : Bracket}
    (hb : code.isPunct i b.closing = true) : code.partner? i = code.opener? i := by
  cases h : code.partner? i with
  | none => rw [opener?, h]; rfl
  | some j =>
    rcases hp.partner?_iff.mp h with hpair | hpair
    · -- The index would open a bracket too.
      obtain ⟨b', ho, -⟩ := (bracketPairs_mem hpair).shape
      have htext := isPunct_text (opens_at_iff.mp ho)
      rw [isPunct_text hb] at htext
      exact absurd htext (by cases b <;> cases b' <;> decide)
    · exact (hp.opener?_iff.mpr hpair).symm

/-- At a closing parenthesis or bracket, the partner is the opener. -/
theorem Paired.partner?_of_closesGroup (hp : code.Paired) {i : Nat}
    (h : code.closesGroup i = true) : code.partner? i = code.opener? i := by
  rcases Bool.or_eq_true_iff.mp h with h | h
  · exact hp.partner?_eq_opener? (b := .round) h
  · exact hp.partner?_eq_opener? (b := .square) h

theorem Paired.partner?_of_closesBracket (hp : code.Paired) {i : Nat}
    (h : code.closesBracket i = true) : code.partner? i = code.opener? i := by
  obtain ⟨t, ht, hcloses⟩ := (Option.any_eq_true ..).mp h
  obtain ⟨b, hb⟩ := Option.isSome_iff_exists.mp hcloses
  refine hp.partner?_eq_opener? (b := b) ((Option.any_eq_true ..).mpr ⟨t, ht, ?_⟩)
  exact Token.closes?_iff.mp hb

/-- The end of a group in terms of the table of partners. -/
theorem Paired.afterGroup_eq (hp : code.Paired) {j : Nat} (h : code.opensBracket j = true) :
    (code.partner? j).elim code.size (· + 1) = code.afterGroup j := by
  rw [hp.partner?_of_opensBracket h, afterGroup]
  cases code.closer? j <;> rfl

/-- The walk back to the words that open a statement leaves with its answer. -/
theorem opensRound_leaves (hp : code.Paired) (words : List String) (own : String) (j : Nat) :
    LeavesWithin (code.opensRound words own) j j (code.statementOpensWith words own j) := by
  fun_induction code.statementOpensWith words own j with
  | case1 => exact .now (if_pos rfl)
  | case2 p hword => exact .now (by simp [opensRound, hword])
  | case3 p hword hcloses o ho hlt ih =>
    have hpartner := (hp.partner?_of_closesGroup hcloses).trans ho
    exact .later (by simp [opensRound, hword, hcloses, hpartner]) (Nat.lt_succ_of_lt hlt) ih
  | case4 p hword hcloses ho =>
    have hpartner := (hp.partner?_of_closesGroup hcloses).trans ho
    exact .now (by simp [opensRound, hword, hcloses, hpartner])
  | case5 p hword hcloses hstop => exact .now (by grind [opensRound])
  | case6 p hword hcloses hstop ih => exact .later (by grind [opensRound]) p.lt_succ_self ih

/-- The walk back to the start of a statement leaves with its answer. -/
theorem statementRound_leaves (hp : code.Paired) (j : Nat) :
    LeavesWithin code.statementRound j j (code.statementStart j) := by
  fun_induction code.statementStart j with
  | case1 => exact .now (if_pos rfl)
  | case2 p hcloses o ho hlt ih =>
    have hpartner := (hp.partner?_of_closesGroup hcloses).trans ho
    exact .later (by simp [statementRound, hcloses, hpartner]) (Nat.lt_succ_of_lt hlt) ih
  | case3 p hcloses ho =>
    have hpartner := (hp.partner?_of_closesGroup hcloses).trans ho
    exact .now (by simp [statementRound, hcloses, hpartner])
  | case4 p hcloses hstop => exact .now (by grind [statementRound])
  | case5 p hcloses hstop ih => exact .later (by grind [statementRound]) p.lt_succ_self ih

/-- The walk back to the parenthesis of a parameter list leaves with its answer. -/
theorem parameterRound_leaves (hp : code.Paired) (j : Nat) :
    LeavesWithin code.parameterRound j j (code.inParameterList j) := by
  fun_induction code.inParameterList j with
  | case1 => exact .now (if_pos rfl)
  | case2 p hcloses o ho hlt ih =>
    have hpartner := (hp.partner?_of_closesBracket hcloses).trans ho
    exact .later (by simp [parameterRound, hcloses, hpartner]) (Nat.lt_succ_of_lt hlt) ih
  | case3 p hcloses ho =>
    have hpartner := (hp.partner?_of_closesBracket hcloses).trans ho
    exact .now (by simp [parameterRound, hcloses, hpartner])
  | case4 p hcloses hopen => exact .now (by grind [parameterRound])
  | case5 p hcloses hopen hstop => exact .now (by grind [parameterRound])
  | case6 p hcloses hopen hstop ih => exact .later (by grind [parameterRound]) p.lt_succ_self ih

/-- The walk back to an open angle leaves with its answer, at any depth. -/
theorem insideAnglesRound_leaves (hp : code.Paired) (depth j : Nat) :
    LeavesWithin code.insideAnglesRound j (depth, j) (code.insideAngles depth j) := by
  fun_induction code.insideAngles depth j with
  | case1 => exact .now (by simp [insideAnglesRound])
  | case2 depth p hcloses o ho hlt ih =>
    have hpartner := (hp.partner?_of_closesGroup hcloses).trans ho
    exact .later (by simp [insideAnglesRound, hcloses, hpartner]) (Nat.lt_succ_of_lt hlt) ih
  | case3 depth p hcloses ho =>
    have hpartner := (hp.partner?_of_closesGroup hcloses).trans ho
    exact .now (by simp [insideAnglesRound, hcloses, hpartner])
  | case4 depth p hcloses hclose ih =>
    exact .later (by grind [insideAnglesRound]) p.lt_succ_self ih
  | case5 depth p hcloses hclose hopen hzero => exact .now (by grind [insideAnglesRound])
  | case6 depth p hcloses hclose hopen hzero ih =>
    exact .later (by grind [insideAnglesRound]) p.lt_succ_self ih
  | case7 depth p hcloses hclose hopen hstop => exact .now (by grind [insideAnglesRound])
  | case8 depth p hcloses hclose hopen hstop ih =>
    exact .later (by grind [insideAnglesRound]) p.lt_succ_self ih

/-- The walk out of parentheses leaves with its answer. -/
theorem parenRound_leaves (j : Nat) :
    LeavesWithin code.parenRound j j (code.outermostParen j) := by
  fun_induction code.outermostParen j with
  | case1 => exact .now (if_neg fun h => h.1 rfl)
  | case2 p hopen ih => exact .later (if_pos ⟨p.succ_ne_zero, hopen⟩) p.lt_succ_self ih
  | case3 p hopen => exact .now (if_neg fun h => hopen h.2)

/-- The walk back to what makes an arrow part of a type leaves with its answer. -/
theorem typePositionRound_leaves (hp : code.Paired) (k : Nat) :
    LeavesWithin (code.typePositionRound l) k k (code.inTypePosition l k) := by
  fun_induction code.inTypePosition l k with
  | case1 => exact .now (if_neg fun h => h.1 rfl)
  | case2 p hclose ho =>
    have hpartner := (hp.partner?_eq_opener? (b := .round) hclose).trans ho
    exact .now (by simp [typePositionRound, hclose, hpartner])
  | case3 p hclose o ho hfirst =>
    have hpartner := (hp.partner?_eq_opener? (b := .round) hclose).trans ho
    exact .now (by simp [typePositionRound, hclose, hpartner, hfirst])
  | case4 p hclose o ho before hfirst htext =>
    have hpartner := (hp.partner?_eq_opener? (b := .round) hclose).trans ho
    exact .now (by grind [typePositionRound])
  | case5 p hclose o ho before hfirst htext hcomma =>
    have hpartner := (hp.partner?_eq_opener? (b := .round) hclose).trans ho
    exact .now (by grind [typePositionRound])
  | case6 p hclose o ho before hfirst htext hcomma harrow hlt ih =>
    have hpartner := (hp.partner?_eq_opener? (b := .round) hclose).trans ho
    exact .later (by grind [typePositionRound]) hlt ih
  | case7 p hclose o ho before hfirst htext hcomma harrow =>
    have hpartner := (hp.partner?_eq_opener? (b := .round) hclose).trans ho
    exact .now (by grind [typePositionRound])
  | case8 p hclose => exact .now (if_neg fun h => hclose h.2)

/-- The walk over qualified names leaves with its answer. -/
theorem qualifiersRound_leaves (j : Nat) :
    LeavesWithin code.qualifiersRound (code.size - j) j (code.skipQualifiers j) := by
  fun_induction code.skipQualifiers j with
  | case1 j h hlt ih => exact .later (if_pos h) (by omega) ih
  | case2 j h => exact .now (if_neg h)

/-- The walk back along a chain leaves with its answer. -/
theorem chainRound_leaves (hp : code.Paired) (own : String) (atom : Bool) (j : Nat) :
    LeavesWithin (code.chainRound l own) j (atom, j) (code.firstInChain l own atom j) := by
  fun_induction code.firstInChain l own atom j with
  | case1 => exact .now (by simp [chainRound])
  | case2 atom p t hown => exact .now (by grind [chainRound])
  | case3 p t hown hatom => exact .now (by grind [chainRound])
  | case4 atom p t hown hatom hfirst ih => exact .later (by grind [chainRound]) p.lt_succ_self ih
  | case5 atom p t hown hatom hcloses o ho hlt ih =>
    have hpartner := (hp.partner?_of_closesGroup hcloses).trans ho
    exact .later (by grind [chainRound]) (Nat.lt_succ_of_lt hlt) ih
  | case6 atom p t hown hatom hcloses ho =>
    have hpartner := (hp.partner?_of_closesGroup hcloses).trans ho
    exact .now (by grind [chainRound])
  | case7 atom p t hown hatom hcloses hpoint ih =>
    exact .later (by grind [chainRound]) p.lt_succ_self ih
  | case8 atom p t hown hatom hcloses hpoint hmark ih =>
    exact .later (by grind [chainRound]) p.lt_succ_self ih
  | case9 atom p t hown hatom hcloses hpoint hmark hlink ih =>
    exact .later (by grind [chainRound]) p.lt_succ_self ih
  | case10 atom p t hown hatom hcloses hpoint hmark hlink => exact .now (by grind [chainRound])

/-- The walk to the end of an expression leaves with its answer. -/
theorem expressionRound_leaves (hp : code.Paired) (j : Nat) :
    LeavesWithin code.expressionRound (code.size - j) j (code.expressionEnd j) := by
  fun_induction code.expressionEnd j with
  | case1 j hj hopens hlt ih =>
    have hafter := hp.afterGroup_eq hopens
    exact .later (by simp [expressionRound, hj, hopens, hafter]) (by omega) ih
  | case2 j hj hopens hends => exact .now (by simp [expressionRound, hj, hopens, hends])
  | case3 j hj hopens hends ih =>
    exact .later (by simp [expressionRound, hj, hopens, hends]) (by omega) ih
  | case4 j hj => exact .now (if_neg hj)

/-- The walk to the end of a block leaves with its answer. -/
theorem blockRound_leaves (hp : code.Paired) (j : Nat) :
    LeavesWithin code.blockRound (code.size - j) j (code.blockEnd? j) := by
  fun_induction code.blockEnd? j with
  | case1 j hj hbrace =>
    have hafter := hp.afterGroup_eq (opensBracket_of_isPunct (b := .curly) hbrace)
    exact .now (by simp [blockRound, hj, hbrace, hafter])
  | case2 j hj hbrace hopens hlt ih =>
    have hafter := hp.afterGroup_eq hopens
    exact .later (by simp [blockRound, hj, hbrace, hopens, hafter]) (by omega) ih
  | case3 j hj hbrace hopens hends => exact .now (by simp [blockRound, hj, hbrace, hopens, hends])
  | case4 j hj hbrace hopens hends ih =>
    exact .later (by simp [blockRound, hj, hbrace, hopens, hends]) (by omega) ih
  | case5 j hj => exact .now (if_neg hj)

end Code

/-- The searches of guards and of lambdas end, each with the answer of its function. -/
structure Code.GuardSearchesEnd (code : Code) (l : Language) : Prop where
  /-- Words that open a statement. -/
  opens : ∀ words own j,
    LeavesWithin (code.opensRound words own) j j (code.statementOpensWith words own j)
  /-- Starts of statements. -/
  statement : ∀ j, LeavesWithin code.statementRound j j (code.statementStart j)
  /-- Lists in parentheses. -/
  parameter : ∀ j, LeavesWithin code.parameterRound j j (code.inParameterList j)
  /-- Lists in angle brackets. -/
  insideAngles : ∀ depth j,
    LeavesWithin code.insideAnglesRound j (depth, j) (code.insideAngles depth j)
  /-- Parentheses side by side. -/
  paren : ∀ j, LeavesWithin code.parenRound j j (code.outermostParen j)
  /-- Arrows of types. -/
  typePosition : ∀ k, LeavesWithin (code.typePositionRound l) k k (code.inTypePosition l k)
  /-- Names after points. -/
  qualifiers : ∀ j, LeavesWithin code.qualifiersRound (code.size - j) j (code.skipQualifiers j)
  /-- Generic lists. -/
  angles : ∀ first depth k, LeavesWithin (code.anglesRound first) (code.size - k) (depth, k)
    (code.anglesFrom first depth k)
  /-- Chains of member accesses. -/
  chain : ∀ own atom j,
    LeavesWithin (code.chainRound l own) j (atom, j) (code.firstInChain l own atom j)
  /-- Expressions of lambdas. -/
  expression : ∀ j, LeavesWithin code.expressionRound (code.size - j) j (code.expressionEnd j)
  /-- Blocks of lambdas. -/
  block : ∀ j, LeavesWithin code.blockRound (code.size - j) j (code.blockEnd? j)

/-- Every search of a guard or a lambda leaves with the answer of its function. -/
theorem Code.guardSearchesEnd {code : Code} (hp : code.Paired) (l : Language) :
    code.GuardSearchesEnd l where
  opens := opensRound_leaves hp
  statement := statementRound_leaves hp
  parameter := parameterRound_leaves hp
  insideAngles := insideAnglesRound_leaves hp
  paren := parenRound_leaves
  typePosition := typePositionRound_leaves hp
  qualifiers := qualifiersRound_leaves
  angles := anglesRound_leaves hp
  chain := chainRound_leaves hp
  expression := expressionRound_leaves hp
  block := blockRound_leaves hp

end Cyclomatic
