import Cyclomatic.Code.Brackets
import Cyclomatic.Code.Lines
import Cyclomatic.Fault
import Cyclomatic.Token.Scan

/-!
# The code of a file

Detection and scoring work on the significant tokens of a source, by index.  Comments and blanks
are dropped, but each token knows whether a line break stands before it.  A block comment that
spans lines counts as a line break.  Bracket partners are computed once.

Every accessor has an answer past the last token: no text, no kind, a line break before it, no
partner, and the line of the end of the source.
-/

namespace Cyclomatic

/-- A significant token, and whether a line break separates it from the one before. -/
structure Lexeme extends Token where
  /-- A line break stands before the token. -/
  afterBreak : Bool
deriving DecidableEq, Repr, Inhabited

/-- A token counts as a line break. -/
def Token.breaksLine (t : Token) : Bool :=
  t.kind == .newline || (t.kind == .blockComment && t.text.toList.contains '\n')

/-- The significant tokens of a list, where `pending` says whether a line break stands before
the first. -/
def lexemesFrom (pending : Bool) : List Token → List Lexeme
  | [] => []
  | t :: ts =>
    if t.breaksLine then lexemesFrom true ts
    else if t.kind.isTrivia then lexemesFrom pending ts
    else ⟨t, pending⟩ :: lexemesFrom false ts

/-- The significant tokens of a list of tokens. -/
def lexemes (tokens : List Token) : List Lexeme := lexemesFrom false tokens

/-- The characters left after a number of bytes. -/
def dropBytes (n : Nat) : List Char → List Char
  | [] => []
  | c :: cs => if n == 0 then c :: cs else dropBytes (n - c.utf8Size) cs

/-- The characters within a number of bytes. -/
def takeBytes (n : Nat) : List Char → List Char
  | [] => []
  | c :: cs => if n == 0 then [] else c :: takeBytes (n - c.utf8Size) cs

/-- The significant tokens of a source with their brackets and lines. -/
structure Code where
  /-- The number of bytes of the source. -/
  bytes : Nat
  /-- The source. -/
  source : String
  /-- The significant tokens. -/
  lexemes : Array Lexeme
  /-- The bracket partner of each token. -/
  partners : Array (Option Nat)
  /-- Where the lines start. -/
  starts : List Nat
deriving Repr, Inhabited

namespace Code

/-- The code of a source. -/
def ofSource (l : Language) (source : String) : Code :=
  let found := (Cyclomatic.lexemes (scan l source)).toArray
  { bytes := source.utf8ByteSize
    source := source
    lexemes := found
    partners := partnerTable found.size (bracketPairs (found.toList.map (·.toToken)))
    starts := lineStarts source }

variable (code : Code)

/-- The number of significant tokens. -/
def size : Nat := code.lexemes.size

/-- The token with an index. -/
def token? (i : Nat) : Option Token := code.lexemes[i]?.map (·.toToken)

/-- The text of a token. -/
def text (i : Nat) : String := (code.lexemes[i]?.map (·.text)).getD ""

/-- The kind of a token. -/
def kind? (i : Nat) : Option Kind := code.lexemes[i]?.map (·.kind)

/-- The token has the given kind. -/
def isKind (i : Nat) (k : Kind) : Bool := code.kind? i == some k

/-- The token is the punctuation `p`. -/
def isPunct (i : Nat) (p : String) : Bool := code.lexemes[i]?.any (·.isPunct p)

/-- The token is the operator `o`. -/
def isOp (i : Nat) (o : String) : Bool :=
  code.lexemes[i]?.any fun t => t.kind == .operator && t.text == o

/-- The token opens a bracket. -/
def opensBracket (i : Nat) : Bool := code.lexemes[i]?.any (·.opens?.isSome)

/-- The token closes a bracket. -/
def closesBracket (i : Nat) : Bool := code.lexemes[i]?.any (·.closes?.isSome)

/-- The token is an identifier or a keyword. -/
def isWord (i : Nat) : Bool := code.lexemes[i]?.any (·.isWord)

/-- The token is an identifier or a keyword of a list. -/
def isWordIn (i : Nat) (words : List String) : Bool :=
  code.isWord i && words.contains (code.text i)

/-- A line break stands before the token. -/
def afterBreak (i : Nat) : Bool := (code.lexemes[i]?.map (·.afterBreak)).getD true

/-- The index of the bracket paired with this one. -/
def partner? (i : Nat) : Option Nat := code.partners[i]?.join

/-- The opener paired with the closer at `i`.  It stands before it. -/
def opener? (i : Nat) : Option Nat := (code.partner? i).filter (· < i)

/-- The closer paired with the opener at `i`.  It stands after it. -/
def closer? (i : Nat) : Option Nat := (code.partner? i).filter (i < ·)

/-- An opener stands before its closer. -/
theorem opener?_lt {i j : Nat} (h : code.opener? i = some j) : j < i := by
  simpa using (Option.filter_eq_some_iff.mp h).2

theorem lt_closer? {i j : Nat} (h : code.closer? i = some j) : i < j := by
  simpa using (Option.filter_eq_some_iff.mp h).2

theorem lt_size_of_isKind {i : Nat} {k : Kind} (h : code.isKind i k = true) :
    i < code.size := by
  unfold isKind kind? at h
  by_cases hi : i < code.lexemes.size
  · exact hi
  · simp [Array.getElem?_eq_none (Nat.le_of_not_lt hi)] at h

theorem lt_size_of_isWord {i : Nat} (h : code.isWord i = true) : i < code.size := by
  unfold isWord at h
  by_cases hi : i < code.lexemes.size
  · exact hi
  · simp [Array.getElem?_eq_none (Nat.le_of_not_lt hi)] at h

theorem lt_size_of_isPunct {i : Nat} {p : String} (h : code.isPunct i p = true) :
    i < code.size := by
  unfold isPunct at h
  by_cases hi : i < code.lexemes.size
  · exact hi
  · simp [Array.getElem?_eq_none (Nat.le_of_not_lt hi)] at h

theorem lt_size_of_text_ne {i : Nat} (h : code.text i ≠ "") : i < code.size := by
  unfold text at h
  by_cases hi : i < code.lexemes.size
  · exact hi
  · simp [Array.getElem?_eq_none (Nat.le_of_not_lt hi)] at h

/-- The byte offset of a token. -/
def offset (i : Nat) : Nat := (code.lexemes[i]?.map (·.start)).getD code.bytes

/-- The text between two byte offsets. -/
def slice (start stop : Nat) : String :=
  String.ofList (takeBytes (stop - start) (dropBytes start code.source.toList))

/-- The line of a token. -/
def lineOf (i : Nat) : Nat := lineAt code.starts (code.offset i)

/-- The line of the end of the source. -/
def lastLine : Nat := lineAt code.starts code.bytes

/-- The token is one of the brackets that close a group. -/
def closesGroup (i : Nat) : Bool := code.isPunct i ")" || code.isPunct i "]"

/-- The word that introduces the block opened by a brace.  It is the token before the brace, or
before the parentheses that stand there. -/
def openerWord (brace : Nat) : String :=
  match brace with
  | 0 => ""
  | before + 1 =>
    if code.isPunct before ")" then
      match code.partner? before with
      | some 0 => ""
      | some (o + 1) => code.text o
      | none => code.text before
    else code.text before

/-! ## Generic lists -/

/-- The longest run of tokens taken for one generic list. -/
def longestAngles : Nat := 256

/-- The end of the generic list that starts at `first`, from token `k` with `depth` angle
brackets open.  Groups in other brackets are skipped whole.  A statement end or a logical
operator shows that the angles were comparisons.

The depth is a machine word.  A closing angle takes it below zero where none is open, which is only
possible if the list does not start at an operator. -/
def anglesFrom (first depth k : Nat) : Except Fault (Option Nat) :=
  if _ : k < code.size then
    if k - first ≥ longestAngles then .ok none
    else if code.isOp k "<" then anglesFrom first (depth + 1) (k + 1)
    else if code.isOp k ">" then
      if depth = 0 then .error .overflow
      else if depth = 1 then .ok (some (k + 1))
      else anglesFrom first (depth - 1) (k + 1)
    else if code.opensBracket k then
      match h : code.closer? k with
      | some close =>
        have := code.lt_closer? h
        anglesFrom first depth (close + 1)
      | none => .ok none
    else if code.closesBracket k || code.isPunct k ";" then .ok none
    else if code.isOp k "&&" || code.isOp k "||" then .ok none
    else anglesFrom first depth (k + 1)
  else .ok none
termination_by code.size - k

/-- Look for the balanced generic list that starts at a token. -/
def skipAngles (i : Nat) : Except Fault (Option Nat) :=
  if code.text i == "<" then code.anglesFrom i 0 i else .ok none

/-- The index just past the balanced generic list that starts at a token. -/
def skipAngles? (i : Nat) : Option Nat := (code.skipAngles i).toOption.join

/-- Looking for a generic list at a token takes its depth below zero. -/
def underflows (i : Nat) : Bool := (code.skipAngles i).toOption.isNone

/-- A generic list ends behind the token at which the walk over it starts. -/
theorem lt_anglesFrom {first depth k r : Nat}
    (h : code.anglesFrom first depth k = .ok (some r)) : k < r := by
  fun_induction code.anglesFrom first depth k with
  | case2 _ _ _ _ _ ih => exact Nat.lt_of_succ_lt (ih h)
  | case4 => simp at h; omega
  | case5 _ _ _ _ _ _ _ _ ih => exact Nat.lt_of_succ_lt (ih h)
  | case6 _ _ _ _ _ _ _ close hc _ ih =>
    have := code.lt_closer? hc
    have := ih h
    omega
  | case10 _ _ _ _ _ _ _ _ _ ih => exact Nat.lt_of_succ_lt (ih h)
  | case1 | case3 | case7 | case8 | case9 | case11 => simp at h

variable {code} in
/-- A list is skipped if it starts with an angle and the walk over it ends. -/
theorem skipAngles?_eq_some {i r : Nat} :
    code.skipAngles? i = some r ↔ code.text i = "<" ∧ code.anglesFrom i 0 i = .ok (some r) := by
  unfold skipAngles? skipAngles
  split
  · rename_i htext
    cases code.anglesFrom i 0 i <;> simp_all [Except.toOption]
  · rename_i htext
    simp_all [Except.toOption]

/-- Other texts start no list. -/
theorem skipAngles?_of_text {i : Nat} (h : code.text i ≠ "<") : code.skipAngles? i = none := by
  rw [skipAngles?, skipAngles, if_neg (by simpa using h)]
  rfl

theorem lt_skipAngles? {i r : Nat} (h : code.skipAngles? i = some r) : i < r :=
  code.lt_anglesFrom (skipAngles?_eq_some.mp h).2

end Code

end Cyclomatic
