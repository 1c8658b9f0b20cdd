import Cyclomatic.Function.Signature

/-!
# Generic lists in signatures

The search for a signature looks for generic lists at many tokens, and each of them may take its
depth below zero (`Code.underflows`).  The search is over then, and detection with it.

The tokens are listed here in the order of the search, next to the functions that go over them.  A
list that is found takes the search behind its end, and a token without list is left as it is.
-/

namespace Cyclomatic

namespace Code

variable (code : Code)

/-! ## Types -/

/-- The tokens at which a type expression looks for a generic list. -/
def typeAngles (atom : Bool) (j : Nat) : List Nat :=
  if _ : j < code.size then
    if atom then
      if code.isWord j || code.isKind j .stringLiteral || code.isKind j .number then
        typeAngles false (j + 1)
      else if code.isPunct j "(" || code.isPunct j "[" then
        match h : code.closer? j with
        | some close =>
          have := code.lt_closer? h
          if code.text (close + 1) == "->" || code.text (close + 1) == "=>" then
            typeAngles true (close + 2)
          else typeAngles false (close + 1)
        | none => []
      else if code.isOp j "|" || code.isOp j "&" then typeAngles true (j + 1)
      else []
    else
      let t := code.text j
      if t == "." || t == "|" || t == "&" then typeAngles true (j + 1)
      else if t == "<" then
        match h : code.skipAngles? j with
        | some after =>
          have := code.lt_skipAngles? h
          j :: typeAngles false after
        | none => [j]
      else if t == "?" || t == "!" then typeAngles false (j + 1)
      else if code.isPunct j "[" then
        match h : code.closer? j with
        | some close =>
          have := code.lt_closer? h
          typeAngles false (close + 1)
        | none => []
      else []
  else []
termination_by code.size - j

/-! ## What follows the parameters -/

variable (rules : SignatureRules)

/-- The tokens at which the names and bounds of a clause do. -/
def clauseAngles (j : Nat) : List Nat :=
  let k := code.skipType true j
  if h : code.text k = "," ∨ code.text k = ":" then
    have := code.le_skipType true j
    have : k < code.size := code.lt_size_of_text_ne (by rcases h with h | h <;> simp [h])
    code.typeAngles true j ++ clauseAngles (k + 1)
  else code.typeAngles true j
termination_by code.size - j

/-- The tokens at which the clauses between the parameters and the body do. -/
def clausesAngles (j : Nat) : List Nat :=
  if h : code.isWordIn j rules.clauseKeywords then
    have := code.le_skipClause (j + 1)
    have : j < code.size := by
      simp only [isWordIn, Bool.and_eq_true] at h
      exact code.lt_size_of_isWord h.1
    code.clauseAngles (j + 1) ++ clausesAngles (code.skipClause (j + 1))
  else []
termination_by code.size - j

/-- The tokens at which a return type after its separator does. -/
def returnAngles (j : Nat) : List Nat :=
  if rules.returnSeparator == some (code.text j) then code.typeAngles true (j + 1) else []

/-- The tokens at which the search does behind parameters that end before `j`. -/
def tailAngles (j : Nat) : List Nat :=
  code.returnAngles rules j ++ code.clausesAngles rules (code.skipReturnType rules j)

/-! ## Names and parameters -/

/-- The token at which a generic list may stand, where the language has them. -/
def genericAngles (j : Nat) : List Nat := if rules.generics then [j] else []

/-- The tokens behind the receivers before a name and behind the name. -/
def chainAngles (name : Nat) : List Nat :=
  let n := code.afterReceiver rules name
  if h : code.isPunct n "." && code.isKind (n + 1) .identifier then
    have := code.lt_afterReceiver rules name
    have : n + 1 < code.size := by
      simp only [Bool.and_eq_true] at h
      exact code.lt_size_of_isKind h.2
    genericAngles rules (name + 1) ++ chainAngles (n + 1)
  else genericAngles rules (name + 1)
termination_by code.size - name

/-- The tokens behind the names from a token on. -/
def nameAngles (j : Nat) : List Nat :=
  if code.isKind j .identifier && rules.extensionReceivers then code.chainAngles rules j else []

/-- The tokens for type parameters at `j` and behind the parameters that follow. -/
def parameterAngles (j : Nat) : List Nat :=
  genericAngles rules j ++
    match code.params? (code.skipTypeParams rules j) with
    | some close => code.tailAngles rules (close + 1)
    | none => []

/-! ## Shapes -/

/-- The tokens for an introducer whose markers end before `j`. -/
def introducedAngles (j : Nat) : List Nat :=
  genericAngles rules j ++
    match code.receiverAt? rules (code.skipGenerics rules j) with
    | none => []
    | some (_, j) =>
      code.nameAngles rules j ++
        match code.nameAt? rules j with
        | some (_, name) => code.parameterAngles rules (name + 1)
        | none => []

/-- The tokens for a name and parameters, where the token before allows a name. -/
def typedAngles (i : Nat) : List Nat :=
  if !rules.reserved.contains (code.text i) &&
      (i == 0 || code.afterBreak i ||
        if code.isWord (i - 1) then !rules.excludedPredecessors.contains (code.text (i - 1))
        else rules.allowedPredecessors.contains (code.text (i - 1))) then
    code.parameterAngles rules (i + 1)
  else []

/-- The tokens for an introduced function without name, whose markers end before `k`. -/
def introducedBodyAngles (k : Nat) : List Nat :=
  code.parameterAngles rules (if code.isKind k .identifier then k + 1 else k)

/-- The tokens for an arrow function that starts at a token. -/
def arrowAtAngles (j : Nat) : List Nat :=
  if rules.arrow.isSome then
    let k := code.skipGenerics rules j
    genericAngles rules j ++
      if code.isPunct k "(" then
        match code.partner? k with
        | some c => code.returnAngles rules (c + 1)
        | none => []
      else []
  else []

/-- The tokens for a binding keyword, a name, an equals sign and a function.  Behind markers that
never end there are none. -/
def arrowAngles (i : Nat) : List Nat :=
  if code.isKind (i + 1) .identifier then
    let equals := code.skipReturnType rules (i + 2)
    code.returnAngles rules (i + 2) ++
      if code.text equals == "=" then
        let j := code.skipModifiers rules (equals + 1)
        if code.isWordIn j rules.introducers then
          match code.skipMarkers rules (j + 1) with
          | .ok k => code.introducedBodyAngles rules k
          | .error _ => []
        else code.arrowAtAngles rules j
      else []
  else []

/-- The tokens at which the search for a signature looks for a generic list. -/
def signatureAngles (scopes : List Scope) (i : Nat) : List Nat :=
  if (code.compactForm? rules scopes i).isSome then []
  else if code.isWordIn i rules.introducers then
    match code.skipMarkers rules (i + 1) with
    | .ok j => code.introducedAngles rules j
    | .error _ => []
  else if code.isWordIn i rules.arrowBinders then code.arrowAngles rules i
  else if rules.typed && code.isKind i .identifier then code.typedAngles rules i
  else []

/-- The signature that starts at a token, inside the given scopes, innermost first.  There is none
if the depth of a generic list leaves its range. -/
def signatureAt (scopes : List Scope) (i : Nat) : Except Fault (Option Signature) :=
  if (code.signatureAngles rules scopes i).any code.underflows then .error .overflow
  else code.shapeAt rules scopes i

/-- No search for a signature takes the depth of a generic list out of its range. -/
def AnglesFit : Prop :=
  ∀ scopes i, (code.signatureAngles rules scopes i).any code.underflows = false

variable {code rules} {scopes : List Scope} {i : Nat} {found : Option Signature}

/-- A search that has an answer stays in range. -/
theorem shapeAt_of_signatureAt (h : code.signatureAt rules scopes i = .ok found) :
    code.shapeAt rules scopes i = .ok found := by
  unfold signatureAt at h
  split at h
  · cases h
  · exact h

/-- A search whose generic lists stay in range is that for the shapes. -/
theorem AnglesFit.signatureAt (h : code.AnglesFit rules) (scopes : List Scope) (i : Nat) :
    code.signatureAt rules scopes i = code.shapeAt rules scopes i := by
  rw [Code.signatureAt, h scopes i]
  rfl

end Code

end Cyclomatic
