import Cyclomatic.Code.View
import Cyclomatic.Fault

/-!
# Signatures

A signature is recognised at a token by one of four shapes.

* compact: a name before a brace, directly inside a container of that name
* introduced: an introducing keyword, a name, parameters
* arrow: a binding keyword, a name, an equals sign, an arrow function or an introduced one
* typed: a name with parameters, where the token before it allows one

The first shape whose keyword fits decides.  After the parameters come a return type and
clauses.  Then a brace makes a function and a terminator makes a declaration.

Generic lists are taken here as if they were always found or not.  `Function/Angles.lean` says at
which tokens they are looked for, and stops where the depth of one leaves its range.
-/

namespace Cyclomatic

/-! ## Scopes -/

/-- What a scope is. -/
inductive ScopeKind where
  /-- A type, with the keyword that declared it. -/
  | container (keyword : String)
  /-- A function, by its position in the forest. -/
  | function (id : Nat)
deriving DecidableEq, Repr

/-- A type or function whose body is open. -/
structure Scope where
  /-- The brace that closes it, if there is one. -/
  close : Option Nat
  /-- Its name. -/
  name : String
  /-- What it is. -/
  kind : ScopeKind
deriving DecidableEq, Repr

/-- The position and the closing brace of the scope of a function. -/
def Scope.function? (s : Scope) : Option (Nat × Option Nat) :=
  match s.kind with
  | .function id => some (id, s.close)
  | .container _ => none

/-! ## Signatures -/

/-- The shape of a signature. -/
inductive Form where
  | introduced
  | typed
  | arrow
deriving DecidableEq, Repr

/-- What follows a signature. -/
inductive Tail where
  /-- A body, with its brace. -/
  | body (brace : Nat)
  /-- The end of a declaration, with the token to go on at. -/
  | terminated (resume : Nat)
deriving DecidableEq, Repr

/-- A recognised signature. -/
structure Signature where
  /-- Its shape. -/
  form : Form
  /-- The token at which the shape starts. -/
  anchor : Nat
  /-- The token of the name. -/
  name : Nat
  /-- The type that the function extends or belongs to. -/
  receiver : Option String := none
  /-- The arrow or keyword of a function bound to a name. -/
  binding : Option Nat := none
  /-- What follows. -/
  tail : Tail
deriving DecidableEq, Repr

namespace Code

variable (code : Code)

/-! ## Types -/

/-- The end of a type expression, where `atom` says whether a name or group must come next. -/
def skipType (atom : Bool) (j : Nat) : Nat :=
  if _ : j < code.size then
    if atom then
      if code.isWord j || code.isKind j .stringLiteral || code.isKind j .number then
        skipType false (j + 1)
      else if code.isPunct j "(" || code.isPunct j "[" then
        match h : code.closer? j with
        | some close =>
          have := code.lt_closer? h
          if code.text (close + 1) == "->" || code.text (close + 1) == "=>" then
            skipType true (close + 2)
          else skipType false (close + 1)
        | none => j
      else if code.isOp j "|" || code.isOp j "&" then skipType true (j + 1)
      else j
    else
      let t := code.text j
      if t == "." || t == "|" || t == "&" then skipType true (j + 1)
      else if t == "<" then
        match h : code.skipAngles? j with
        | some after =>
          have := code.lt_skipAngles? h
          skipType false after
        | none => j
      else if t == "?" || t == "!" then skipType false (j + 1)
      else if code.isPunct j "[" then
        match h : code.closer? j with
        | some close =>
          have := code.lt_closer? h
          skipType false (close + 1)
        | none => j
      else j
  else j
termination_by code.size - j

theorem le_skipType (atom : Bool) (j : Nat) : j ≤ code.skipType atom j := by
  fun_induction code.skipType atom j <;> grind

/-! ## What follows the parameters -/

variable (rules : SignatureRules)

/-- The end of the names and bounds of a clause. -/
def skipClause (j : Nat) : Nat :=
  let k := code.skipType true j
  if h : code.text k = "," ∨ code.text k = ":" then
    have := code.le_skipType true j
    have : k < code.size := code.lt_size_of_text_ne (by rcases h with h | h <;> simp [h])
    skipClause (k + 1)
  else k
termination_by code.size - j

theorem le_skipClause (j : Nat) : j ≤ code.skipClause j := by
  fun_induction code.skipClause j with
  | case1 j k h _ _ ih => omega
  | case2 j k h => exact code.le_skipType true j

/-- The end of the clauses between the parameters and the body. -/
def skipClauses (j : Nat) : Nat :=
  if h : code.isWordIn j rules.clauseKeywords then
    have := code.le_skipClause (j + 1)
    have : j < code.size := by
      simp only [isWordIn, Bool.and_eq_true] at h
      exact code.lt_size_of_isWord h.1
    skipClauses (code.skipClause (j + 1))
  else j
termination_by code.size - j

/-- The end of a return type after its separator, if there is one. -/
def skipReturnType (j : Nat) : Nat :=
  if rules.returnSeparator == some (code.text j) then code.skipType true (j + 1) else j

/-- The end of return types without separator, on one line. -/
def skipFreeReturn (j : Nat) : Nat :=
  if _ : j < code.size then
    if code.afterBreak j then j
    else if rules.typeBraces.contains (code.text j) && code.isPunct (j + 1) "\x7b" then
      match h : code.closer? (j + 1) with
      | some close =>
        have := code.lt_closer? h
        skipFreeReturn (close + 1)
      | none => code.size
    else if code.isPunct j "(" || code.isPunct j "[" then
      match h : code.closer? j with
      | some close =>
        have := code.lt_closer? h
        skipFreeReturn (close + 1)
      | none => code.size
    else if code.isPunct j "\x7b" || code.closesBracket j || code.isPunct j ";" ||
        code.isPunct j "," then j
    else if code.isOp j "=" || code.isOp j ":=" then j
    else skipFreeReturn (j + 1)
  else j
termination_by code.size - j

/-- What follows a signature whose parameters end before `j`. -/
def tailAt? (j : Nat) : Option Tail :=
  let j := code.skipClauses rules (code.skipReturnType rules j)
  let j := if rules.freeReturn then code.skipFreeReturn rules j else j
  if code.isPunct j "\x7b" then some (.body j)
  else if j < code.size && rules.terminators.contains (code.text j) then
    some (.terminated (j + 1))
  else if rules.newlineTerminates && code.afterBreak j then some (.terminated j)
  else none

/-! ## Names and parameters -/

/-- The end of a generic list, where the language has them. -/
def skipGenerics (j : Nat) : Nat := if rules.generics then (code.skipAngles? j).getD j else j

theorem le_skipGenerics (j : Nat) : j ≤ code.skipGenerics rules j := by
  unfold skipGenerics
  split
  · cases h : code.skipAngles? j with
    | none => simp
    | some r => simpa using Nat.le_of_lt (code.lt_skipAngles? h)
  · exact Nat.le_refl j

/-- The token after a name, the generic list behind it and a question mark. -/
def afterReceiver (name : Nat) : Nat :=
  let n := code.skipGenerics rules (name + 1)
  if code.text n == "?" then n + 1 else n

theorem lt_afterReceiver (name : Nat) : name < code.afterReceiver rules name := by
  have := code.le_skipGenerics rules (name + 1)
  unfold afterReceiver
  dsimp only
  split <;> omega

/-- The receivers before a name and the name, from the first of them. -/
def receiverChain (name : Nat) : List String × Nat :=
  let n := code.afterReceiver rules name
  if h : code.isPunct n "." && code.isKind (n + 1) .identifier then
    have := code.lt_afterReceiver rules name
    have : n + 1 < code.size := by
      simp only [Bool.and_eq_true] at h
      exact code.lt_size_of_isKind h.2
    let (receivers, last) := receiverChain (n + 1)
    (code.text name :: receivers, last)
  else ([], name)
termination_by code.size - name

/-- The receivers and the name that start at a token. -/
def nameAt? (j : Nat) : Option (List String × Nat) :=
  if !code.isKind j .identifier then none
  else if rules.extensionReceivers then some (code.receiverChain rules j)
  else some ([], j)

/-- The end of type parameters after a name. -/
def skipTypeParams (j : Nat) : Nat :=
  match if rules.generics then code.skipAngles? j else none with
  | some after => after
  | none =>
    if rules.squareTypeParams && code.isPunct j "[" then
      match code.partner? j with
      | some close => close + 1
      | none => j
    else j

/-- The closing parenthesis of the parameters that start at a token. -/
def params? (j : Nat) : Option Nat :=
  if code.isPunct j "(" then code.partner? j else none

/-- The last identifier before `close` and outside square brackets, from token `k`. -/
def lastIdentifier? (close k : Nat) (last : Option String) : Option String :=
  if _ : k < close then
    if code.isPunct k "[" then
      match h : code.closer? k with
      | some c =>
        have := code.lt_closer? h
        lastIdentifier? close (c + 1) last
      | none => last
    else
      lastIdentifier? close (k + 1)
        (if code.isKind k .identifier then some (code.text k) else last)
  else last
termination_by close - k

/-- The end of the markers after an introducer.  There is no end where the text past the last
token is a marker too. -/
def skipMarkers (j : Nat) : Except Fault Nat :=
  if _ : j < code.size then
    if rules.introducerMarkers.contains (code.text j) then skipMarkers (j + 1) else .ok j
  else if rules.introducerMarkers.contains "" then .error .endlessMarkers
  else .ok j
termination_by code.size - j

/-- The end of the modifiers from a token on. -/
def skipModifiers (j : Nat) : Nat :=
  if h : code.isWordIn j rules.modifiers then
    have : j < code.size := by
      simp only [isWordIn, Bool.and_eq_true] at h
      exact code.lt_size_of_isWord h.1
    skipModifiers (j + 1)
  else j
termination_by code.size - j

/-! ## Shapes -/

/-- A name directly before the brace of its body, inside a container of the same name. -/
def compactForm? (scopes : List Scope) (i : Nat) : Option Signature := do
  guard (code.isKind i .identifier && code.isPunct (i + 1) "\x7b")
  let scope ← scopes.head?
  let .container keyword := scope.kind | none
  guard (rules.compactConstructors.contains keyword && scope.name == code.text i)
  guard (i == 0 || code.afterBreak i ||
    if code.isWord (i - 1) then rules.modifiers.contains (code.text (i - 1))
    else rules.allowedPredecessors.contains (code.text (i - 1)))
  return { form := .typed, anchor := i, name := i, tail := .body (i + 1) }

/-- The type of a receiver in parentheses, where the language has them, and the token after it. -/
def receiverAt? (j : Nat) : Option (Option String × Nat) :=
  if rules.receiverGroup && code.isPunct j "(" then
    (code.partner? j).map fun close => (code.lastIdentifier? close (j + 1) none, close + 1)
  else some (none, j)

/-- The signature of an introducer at `i` whose markers end before `j`. -/
def introducedFrom? (i j : Nat) : Option Signature := do
  let (receiver, j) ← code.receiverAt? rules (code.skipGenerics rules j)
  let (chain, name) ← code.nameAt? rules j
  let receiver :=
    if receiver.isNone && !chain.isEmpty then some (String.intercalate "." chain) else receiver
  let close ← code.params? (code.skipTypeParams rules (name + 1))
  let tail ← code.tailAt? rules (close + 1)
  return { form := .introduced, anchor := i, name, receiver, tail }

/-- An introducing keyword, a name and parameters. -/
def introducedForm (i : Nat) : Except Fault (Option Signature) :=
  (code.skipMarkers rules (i + 1)).map (code.introducedFrom? rules i)

/-- A name and parameters, where the token before allows a name. -/
def typedForm? (i : Nat) : Option Signature := do
  guard (!rules.reserved.contains (code.text i))
  guard (i == 0 || code.afterBreak i ||
    if code.isWord (i - 1) then !rules.excludedPredecessors.contains (code.text (i - 1))
    else rules.allowedPredecessors.contains (code.text (i - 1)))
  let close ← code.params? (code.skipTypeParams rules (i + 1))
  let tail ← code.tailAt? rules (close + 1)
  return { form := .typed, anchor := i, name := i, tail }

/-- The brace of an introduced function without name, whose markers end before `k`. -/
def introducedBody? (k : Nat) : Option Nat := do
  let k := if code.isKind k .identifier then k + 1 else k
  let close ← code.params? (code.skipTypeParams rules k)
  let .body brace ← code.tailAt? rules (close + 1) | none
  return brace

/-- The token after the parameters of an arrow function and their return type. -/
def afterArrowParams? (j : Nat) : Option Nat :=
  if code.isPunct j "(" then (code.partner? j).map fun c => code.skipReturnType rules (c + 1)
  else if code.isKind j .identifier then some (j + 1)
  else none

/-- The arrow before the brace of an arrow function that starts at a token. -/
def arrowAt? (j : Nat) : Option Nat := do
  let arrow ← rules.arrow
  let j ← code.afterArrowParams? rules (code.skipGenerics rules j)
  guard (code.text j == arrow && code.isPunct (j + 1) "\x7b")
  return j

/-- A binding keyword, a name, an equals sign and a function. -/
def arrowForm (i : Nat) : Except Fault (Option Signature) :=
  let equals := code.skipReturnType rules (i + 2)
  if !code.isKind (i + 1) .identifier || code.text equals != "=" then .ok none
  else
    let bound (binding brace : Nat) : Signature :=
      { form := .arrow, anchor := i, name := i + 1, binding := some binding, tail := .body brace }
    let j := code.skipModifiers rules (equals + 1)
    if code.isWordIn j rules.introducers then
      (code.skipMarkers rules (j + 1)).map fun k =>
        (code.introducedBody? rules k).map (bound j)
    else .ok ((code.arrowAt? rules j).map fun arrow => bound arrow (arrow + 1))

/-- The signature of the first shape that fits at a token, inside the given scopes, innermost
first. -/
def shapeAt (scopes : List Scope) (i : Nat) : Except Fault (Option Signature) :=
  match code.compactForm? rules scopes i with
  | some s => .ok (some s)
  | none =>
    if code.isWordIn i rules.introducers then code.introducedForm rules i
    else if code.isWordIn i rules.arrowBinders then code.arrowForm rules i
    else if rules.typed && code.isKind i .identifier then .ok (code.typedForm? rules i)
    else .ok none

end Code

end Cyclomatic
