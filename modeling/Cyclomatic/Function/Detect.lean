import Cyclomatic.Function.Angles
import Cyclomatic.Function.Forest

/-!
# Detecting functions

One walk over the significant tokens finds the functions of a file.  It keeps the scopes that
are open: the types and functions whose closing brace lies ahead.

* A container keyword with a name opens the scope of a type at once, before its brace.
* A signature with a body becomes a function.  The innermost function scope is its parent.  A
  body without closing brace ends where the body of the parent ends.  The walk goes on after the
  opening brace.
* A signature without body becomes a declaration, directly inside a type or, with an
  introducer, outside of everything.

The text of a signature starts earlier than its shape: modifiers, annotations and return types
on the same line belong to it.
-/

namespace Cyclomatic

namespace Code

variable (code : Code) (rules : SignatureRules)

/-! ## The start of a signature -/

/-- The opening angle that matches the closing one at the start of the walk, on its line. -/
def angleOpen? (depth : Nat) : Nat → Option Nat
  | 0 => if code.text 0 == "<" && depth ≤ 1 then some 0 else none
  | p + 1 =>
    let t := code.text (p + 1)
    if t == "<" && depth ≤ 1 then some (p + 1)
    else if ["\x7b", "\x7d", ";", "(", ")"].contains t || code.afterBreak (p + 1) then none
    else
      angleOpen? (if t == ">" then depth + 1 else if t == "<" then depth - 1 else depth) p

theorem angleOpen?_le {depth j r : Nat} (h : code.angleOpen? depth j = some r) : r ≤ j := by
  fun_induction code.angleOpen? depth j with
  | case1 depth _ => exact Nat.le_of_eq (Option.some.inj h).symm
  | case2 => simp at h
  | case3 => exact Nat.le_of_eq (Option.some.inj h).symm
  | case4 => simp at h
  | case5 _ _ _ _ _ ih => exact Nat.le_succ_of_le (ih h)

/-- A token belongs to the signature that follows it on the line. -/
def leadsSignature (p : Nat) : Bool :=
  let t := code.text p
  if code.isWord p then
    !rules.excludedPredecessors.contains t && !rules.reserved.contains t
  else
    (code.isKind p .operator || code.isKind p .punctuation) &&
      ["<", ">", "[", "]", ",", ".", "?", "@", "*"].contains t

/-- The first token of the signature whose shape starts at a token. -/
def signatureStart (s : Nat) : Nat :=
  match s with
  | 0 => 0
  | p + 1 =>
    if code.afterBreak (p + 1) then p + 1
    else
      match h : if code.text p == ">" then code.angleOpen? 0 p else none with
      | some o =>
        have : o ≤ p := by
          split at h
          · exact code.angleOpen?_le h
          · simp at h
        signatureStart o
      | none => if code.leadsSignature rules p then signatureStart p else p + 1
termination_by s

/-! ## Containers -/

/-- The brace of a container, from a token of its head on. -/
def containerBrace? (j : Nat) : Option Nat :=
  if _ : j < code.size then
    if code.isPunct j "\x7b" then some j
    else if code.isPunct j "(" || code.isPunct j "[" then
      match h : code.closer? j with
      | some close =>
        have := code.lt_closer? h
        containerBrace? (close + 1)
      | none => none
    else if code.closesBracket j || code.isPunct j ";" || code.isOp j "=" then none
    else if code.isWordIn j rules.introducers || code.isWordIn j rules.containerKeywords then
      none
    else containerBrace? (j + 1)
  else none
termination_by code.size - j

/-- The scope of a type whose keyword stands at a token. -/
def containerAt? (i : Nat) : Option Scope :=
  if code.isWordIn i rules.containerKeywords && code.isKind (i + 1) .identifier then
    (code.containerBrace? rules (i + 2)).map fun brace =>
      { close := code.partner? brace
        name := code.text (i + 1)
        kind := .container (code.text i) }
  else none

end Code

/-! ## The walk -/

/-- What the walk has found, and the scopes that are open, innermost first. -/
structure Walk where
  /-- The functions and declarations so far. -/
  forest : Forest := {}
  /-- The open scopes. -/
  scopes : List Scope := []
deriving Inhabited

namespace Walk

/-- The innermost function scope: its position in the forest and its closing brace. -/
def innermost? (w : Walk) : Option (Nat × Option Nat) := w.scopes.findSome? Scope.function?

/-- Leave the scopes that were closed before a token. -/
def leave (w : Walk) (i : Nat) : Walk :=
  { w with scopes := w.scopes.dropWhile fun s => s.close.any (· < i) }

/-- Open the scope of a type if its keyword stands at a token. -/
def enterContainer (w : Walk) (code : Code) (rules : SignatureRules) (i : Nat) : Walk :=
  match code.containerAt? rules i with
  | some scope => { w with scopes := scope :: w.scopes }
  | none => w

/-- A declaration of this shape counts in the innermost scope. -/
def declares (w : Walk) (form : Form) : Bool :=
  match w.scopes with
  | [] => form == .introduced
  | s :: _ =>
    match s.kind with
    | .function _ => false
    | .container _ => true

/-- The name of a function after those of the scopes around it and of its receiver. -/
def qualify (w : Walk) (receiver : Option String) (name : String) : String :=
  String.intercalate "." ((w.scopes.map (·.name)).reverse ++ receiver.toList ++ [name])

/-- The function of a signature whose body opens at a brace. -/
def entity (w : Walk) (code : Code) (rules : SignatureRules) (s : Signature) (brace : Nat) :
    Entity :=
  let parent := w.innermost?
  let close := (code.partner? brace).or (parent.bind (·.2))
  let start := code.signatureStart rules s.anchor
  let startByte := code.offset start
  let stop := close.bind code.token?
  { name := code.text s.name
    qualifiedName := w.qualify s.receiver (code.text s.name)
    signature := Text.collapse (code.slice startByte (code.offset brace))
    parent := parent.map (·.1)
    children := []
    start := start
    opening := brace
    close := close
    binding := s.binding
    span :=
      { startByte := startByte
        endByte := (stop.map (·.stop)).getD code.bytes
        startLine := code.lineOf start
        endLine := (close.map code.lineOf).getD code.lastLine } }

/-- Add the function of a signature, and open its scope. -/
def enterFunction (w : Walk) (code : Code) (rules : SignatureRules) (s : Signature)
    (brace : Nat) : Walk :=
  let e := w.entity code rules s brace
  { forest := w.forest.add e
    scopes :=
      { close := e.close, name := e.name, kind := .function w.forest.entities.size } :: w.scopes }

/-- Record the declaration of a signature. -/
def declare (w : Walk) (code : Code) (s : Signature) : Walk :=
  let d : Declaration :=
    { name := code.text s.name, line := code.lineOf s.name, offset := code.offset s.name }
  { w with forest := { w.forest with declarations := w.forest.declarations ++ [d] } }

/-- Take what a token starts, and say where to go on. -/
def step (w : Walk) (code : Code) (rules : SignatureRules) (i : Nat) :
    Except Fault (Walk × Nat) :=
  let w := (w.leave i).enterContainer code rules i
  (code.signatureAt rules w.scopes i).map fun
    | none => (w, i + 1)
    | some s =>
      match s.tail with
      | .body brace => (w.enterFunction code rules s brace, brace + 1)
      | .terminated resume =>
        if w.declares s.form then (w.declare code s, resume) else (w, i + 1)

/-- Walk on from a token to the last. -/
def go (code : Code) (rules : SignatureRules) (i : Nat) (w : Walk) : Except Fault Forest :=
  if _ : i < code.size then
    match w.step code rules i with
    | .ok (w, next) => go code rules (max next (i + 1)) w
    | .error fault => .error fault
  else .ok w.forest
termination_by code.size - i

end Walk

/-- The functions and declarations of a file. -/
def detect (l : Language) (code : Code) : Except Fault Forest :=
  Walk.go code l.signatures 0 {}

end Cyclomatic
