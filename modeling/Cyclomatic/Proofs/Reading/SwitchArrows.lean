import Cyclomatic.Proofs.Reading.Loops
import Cyclomatic.Proofs.Reading.Ternaries

/-!
# Arrows in a switch

Bodies of switches with rules in Java, where a value is a name, a call or a lambda.  The arrow of a
rule labels a branch, and any other arrow is a lambda.

The scorer walks back from an arrow to the first token of its statement (`Code.labelled`).  In
arguments and in blocks the walk ends at the bracket, so the arrows there are lambdas wherever the
bracket stands.  A lambda right behind the arrow of a rule is in one statement with the label, and
the scorer takes its arrow for another label.  `Expr.marked` has a flag for that: a reader marks
these lambdas, too.
-/

namespace Cyclomatic

open JavaCore

namespace Branching

/-! ## Constants -/

/-- The scanner reads a number or a literal as one token. -/
def isLiteral (f : Face) : Bool :=
  (f.1 == .number || f.1 == .stringLiteral) && (scan java f.2).map Token.face == [f]

/-- A number, a string or a character. -/
structure Literal where
  /-- Its token. -/
  face : Face
  /-- The token is a number or a literal. -/
  valid : isLiteral face = true

/-- A constant of a label. -/
inductive Constant where
  | name (x : Name java) (path : List (Name java))
  | literal (s : Literal)
  | negative (s : Literal)
  | null

/-- The tokens of a name with others behind points. -/
def dotted (x : Name java) : List (Name java) → List Face
  | [] => [x.face]
  | y :: path => x.face :: punct "." :: dotted y path

/-- The tokens of a constant. -/
def Constant.faces : Constant → List Face
  | .name x path => dotted x path
  | .literal s => [s.face]
  | .negative s => [op "-", s.face]
  | .null => [word "null"]

/-- The tokens of constants with commas between them. -/
def constants (c : Constant) : List Constant → List Face
  | [] => c.faces
  | d :: more => c.faces ++ punct "," :: constants d more

/-! ## Statements -/

/-- The parameters of a lambda. -/
inductive Params where
  | name (x : Name java)
  | empty

/-- The tokens of parameters. -/
def Params.faces : Params → List Face
  | .name x => [x.face]
  | .empty => parens []

mutual

/-- An expression. -/
inductive Expr where
  | name (x : Name java)
  | call (m : Name java) (args : Args)
  | lambda (ps : Params) (body : Body)

/-- The arguments of a call. -/
inductive Args where
  | nil
  | cons (first : Expr) (more : More)

/-- Arguments behind commas. -/
inductive More where
  | nil
  | cons (e : Expr) (rest : More)

/-- What stands behind an arrow. -/
inductive Body where
  | value (e : Expr)
  | block (ss : Stmts)

/-- A statement. -/
inductive Stmt where
  | call (m : Name java) (args : Args)
  | block (ss : Stmts)
  | switch (x : Name java) (rules : Rules)

/-- Statements one after another. -/
inductive Stmts where
  | nil
  | cons (s : Stmt) (rest : Stmts)

/-- The rules of a switch. -/
inductive Rules where
  | nil
  | default (body : Body)
  | case (c : Constant) (more : List Constant) (body : Body) (rest : Rules)

end

/-- A value of a rule ends with a semicolon. -/
def Body.close : Body → List Face
  | .value _ => [punct ";"]
  | .block _ => []

mutual

/-- The tokens of an expression. -/
def Expr.faces : Expr → List Face
  | .name x => [x.face]
  | .call m args => m.face :: parens args.faces
  | .lambda ps body => ps.faces ++ op "->" :: body.faces

def Args.faces : Args → List Face
  | .nil => []
  | .cons first more => first.faces ++ more.faces

def More.faces : More → List Face
  | .nil => []
  | .cons e rest => punct "," :: (e.faces ++ rest.faces)

def Body.faces : Body → List Face
  | .value e => e.faces
  | .block ss => braces ss.faces

/-- The tokens of a statement. -/
def Stmt.faces : Stmt → List Face
  | .call m args => (m.face :: parens args.faces) ++ [punct ";"]
  | .block ss => braces ss.faces
  | .switch x rules => word "switch" :: (parens [x.face] ++ braces rules.faces)

def Stmts.faces : Stmts → List Face
  | .nil => []
  | .cons s rest => s.faces ++ rest.faces

def Rules.faces : Rules → List Face
  | .nil => []
  | .default body => word "default" :: op "->" :: (body.faces ++ body.close)
  | .case c more body rest =>
    word "case" :: (constants c more ++ op "->" :: ((body.faces ++ body.close) ++ rest.faces))

end

/-! ## Marks -/

/-- The arrow of a lambda is a decision.  If `sees` is false, one right behind the arrow of a rule,
or behind that of another such lambda, is none. -/
def arrowMark (sees direct : Bool) : Option Category :=
  if sees || !direct then some .lambda else none

variable (sees : Bool)

mutual

/-- The tokens of an expression, with marks on its decisions, where `direct` says whether it stands
right behind the arrow of a rule. -/
def Expr.marked (direct : Bool) : Expr → List Marked
  | .name x => [(x.face, none)]
  | .call m args => (m.face, none) :: (punct "(", none) :: (args.marked ++ [(punct ")", none)])
  | .lambda ps body =>
    unmarked ps.faces ++ (op "->", arrowMark sees direct) :: body.marked direct

def Args.marked : Args → List Marked
  | .nil => []
  | .cons first more => first.marked false ++ more.marked

def More.marked : More → List Marked
  | .nil => []
  | .cons e rest => (punct ",", none) :: (e.marked false ++ rest.marked)

def Body.marked (direct : Bool) : Body → List Marked
  | .value e => e.marked direct
  | .block ss => (punct "\x7b", none) :: (ss.marked ++ [(punct "\x7d", none)])

/-- The tokens of a statement, with marks on its decisions. -/
def Stmt.marked : Stmt → List Marked
  | .call m args =>
    ((m.face, none) :: (punct "(", none) :: (args.marked ++ [(punct ")", none)])) ++
      [(punct ";", none)]
  | .block ss => (punct "\x7b", none) :: (ss.marked ++ [(punct "\x7d", none)])
  | .switch x rules =>
    (word "switch", none) :: (unmarked (parens [x.face]) ++
      (punct "\x7b", none) :: (rules.marked ++ [(punct "\x7d", none)]))

def Stmts.marked : Stmts → List Marked
  | .nil => []
  | .cons s rest => s.marked ++ rest.marked

def Rules.marked : Rules → List Marked
  | .nil => []
  | .default body =>
    (word "default", none) :: (op "->", none) :: (body.marked true ++ unmarked body.close)
  | .case c more body rest =>
    (word "case", some .case) :: (unmarked (constants c more) ++
      (op "->", none) :: ((body.marked true ++ unmarked body.close) ++ rest.marked))

end

/-! ## Counts -/

mutual

/-- The number of cases in an expression. -/
def Expr.cases : Expr → Nat
  | .name _ => 0
  | .call _ args => args.cases
  | .lambda _ body => body.cases

def Args.cases : Args → Nat
  | .nil => 0
  | .cons first more => first.cases + more.cases

def More.cases : More → Nat
  | .nil => 0
  | .cons e rest => e.cases + rest.cases

def Body.cases : Body → Nat
  | .value e => e.cases
  | .block ss => ss.cases

def Stmt.cases : Stmt → Nat
  | .call _ args => args.cases
  | .block ss => ss.cases
  | .switch _ rules => rules.cases

def Stmts.cases : Stmts → Nat
  | .nil => 0
  | .cons s rest => s.cases + rest.cases

def Rules.cases : Rules → Nat
  | .nil => 0
  | .default body => body.cases
  | .case _ _ body rest => 1 + body.cases + rest.cases

end

mutual

/-- The number of lambdas in an expression. -/
def Expr.lambdas : Expr → Nat
  | .name _ => 0
  | .call _ args => args.lambdas
  | .lambda _ body => 1 + body.lambdas

def Args.lambdas : Args → Nat
  | .nil => 0
  | .cons first more => first.lambdas + more.lambdas

def More.lambdas : More → Nat
  | .nil => 0
  | .cons e rest => e.lambdas + rest.lambdas

def Body.lambdas : Body → Nat
  | .value e => e.lambdas
  | .block ss => ss.lambdas

def Stmt.lambdas : Stmt → Nat
  | .call _ args => args.lambdas
  | .block ss => ss.lambdas
  | .switch _ rules => rules.lambdas

def Stmts.lambdas : Stmts → Nat
  | .nil => 0
  | .cons s rest => s.lambdas + rest.lambdas

def Rules.lambdas : Rules → Nat
  | .nil => 0
  | .default body => body.lambdas
  | .case _ _ body rest => body.lambdas + rest.lambdas

end

mutual

/-- The number of lambdas in an expression that stand right behind the arrow of a rule, or behind
that of another such lambda. -/
def Expr.hidden (direct : Bool) : Expr → Nat
  | .name _ => 0
  | .call _ args => args.hidden
  | .lambda _ body => direct.toNat + body.hidden direct

def Args.hidden : Args → Nat
  | .nil => 0
  | .cons first more => first.hidden false + more.hidden

def More.hidden : More → Nat
  | .nil => 0
  | .cons e rest => e.hidden false + rest.hidden

def Body.hidden (direct : Bool) : Body → Nat
  | .value e => e.hidden direct
  | .block ss => ss.hidden

def Stmt.hidden : Stmt → Nat
  | .call _ args => args.hidden
  | .block ss => ss.hidden
  | .switch _ rules => rules.hidden

def Stmts.hidden : Stmts → Nat
  | .nil => 0
  | .cons s rest => s.hidden + rest.hidden

def Rules.hidden : Rules → Nat
  | .nil => 0
  | .default body => body.hidden true
  | .case _ _ body rest => body.hidden true + rest.hidden

end

/-! ## Lemmas on the tokens -/

mutual

/-- Marks leave the tokens of an expression as they are. -/
@[simp] theorem Expr.facesOf_marked : (e : Expr) → (direct : Bool) →
    facesOf (e.marked sees direct) = e.faces
  | .name _, _ => rfl
  | .call m args, _ => by simp [Expr.marked, Expr.faces, parens, args.facesOf_marked]
  | .lambda ps body, direct => by simp [Expr.marked, Expr.faces, body.facesOf_marked direct]

@[simp] theorem Args.facesOf_marked : (args : Args) → facesOf (args.marked sees) = args.faces
  | .nil => rfl
  | .cons first more => by
    simp [Args.marked, Args.faces, first.facesOf_marked false, more.facesOf_marked]

@[simp] theorem More.facesOf_marked : (more : More) → facesOf (more.marked sees) = more.faces
  | .nil => rfl
  | .cons e rest => by
    simp [More.marked, More.faces, e.facesOf_marked false, rest.facesOf_marked]

@[simp] theorem Body.facesOf_marked : (b : Body) → (direct : Bool) →
    facesOf (b.marked sees direct) = b.faces
  | .value e, direct => e.facesOf_marked direct
  | .block ss, _ => by simp [Body.marked, Body.faces, braces, ss.facesOf_marked]

@[simp] theorem Stmt.facesOf_marked : (s : Stmt) → facesOf (s.marked sees) = s.faces
  | .call m args => by simp [Stmt.marked, Stmt.faces, parens, args.facesOf_marked]
  | .block ss => by simp [Stmt.marked, Stmt.faces, braces, ss.facesOf_marked]
  | .switch x rules => by simp [Stmt.marked, Stmt.faces, braces, rules.facesOf_marked]

@[simp] theorem Stmts.facesOf_marked : (ss : Stmts) → facesOf (ss.marked sees) = ss.faces
  | .nil => rfl
  | .cons s rest => by simp [Stmts.marked, Stmts.faces, s.facesOf_marked, rest.facesOf_marked]

@[simp] theorem Rules.facesOf_marked : (rs : Rules) → facesOf (rs.marked sees) = rs.faces
  | .nil => rfl
  | .default body => by simp [Rules.marked, Rules.faces, body.facesOf_marked true]
  | .case c more body rest => by
    simp [Rules.marked, Rules.faces, body.facesOf_marked true, rest.facesOf_marked]

end

theorem Expr.length_marked (e : Expr) (direct : Bool) :
    (e.marked sees direct).length = e.faces.length := by
  rw [← length_facesOf, e.facesOf_marked]

theorem Args.length_marked (args : Args) : (args.marked sees).length = args.faces.length := by
  rw [← length_facesOf, args.facesOf_marked]

theorem Body.length_marked (b : Body) (direct : Bool) :
    (b.marked sees direct).length = b.faces.length := by
  rw [← length_facesOf, b.facesOf_marked]

theorem Stmt.length_marked (s : Stmt) : (s.marked sees).length = s.faces.length := by
  rw [← length_facesOf, s.facesOf_marked]

theorem Stmts.length_marked (ss : Stmts) : (ss.marked sees).length = ss.faces.length := by
  rw [← length_facesOf, ss.facesOf_marked]

theorem Rules.length_marked (rs : Rules) : (rs.marked sees).length = rs.faces.length := by
  rw [← length_facesOf, rs.facesOf_marked]

mutual

/-- Each case has one mark. -/
theorem Expr.countMarks_case : (e : Expr) → (direct : Bool) →
    countMarks .case (e.marked sees direct) = e.cases
  | .name _, _ => rfl
  | .call _ args, _ => by simp [Expr.marked, Expr.cases, args.countMarks_case]
  | .lambda _ body, direct => by
    simp [Expr.marked, Expr.cases, arrowMark, body.countMarks_case direct]

theorem Args.countMarks_case : (args : Args) → countMarks .case (args.marked sees) = args.cases
  | .nil => rfl
  | .cons first more => by
    simp [Args.marked, Args.cases, first.countMarks_case false, more.countMarks_case]

theorem More.countMarks_case : (more : More) → countMarks .case (more.marked sees) = more.cases
  | .nil => rfl
  | .cons e rest => by
    simp [More.marked, More.cases, e.countMarks_case false, rest.countMarks_case]

theorem Body.countMarks_case : (b : Body) → (direct : Bool) →
    countMarks .case (b.marked sees direct) = b.cases
  | .value e, direct => e.countMarks_case direct
  | .block ss, _ => by simp [Body.marked, Body.cases, ss.countMarks_case]

theorem Stmt.countMarks_case : (s : Stmt) → countMarks .case (s.marked sees) = s.cases
  | .call _ args => by simp [Stmt.marked, Stmt.cases, args.countMarks_case]
  | .block ss => by simp [Stmt.marked, Stmt.cases, ss.countMarks_case]
  | .switch _ rules => by simp [Stmt.marked, Stmt.cases, rules.countMarks_case]

theorem Stmts.countMarks_case : (ss : Stmts) → countMarks .case (ss.marked sees) = ss.cases
  | .nil => rfl
  | .cons s rest => by simp [Stmts.marked, Stmts.cases, s.countMarks_case, rest.countMarks_case]

theorem Rules.countMarks_case : (rs : Rules) → countMarks .case (rs.marked sees) = rs.cases
  | .nil => rfl
  | .default body => by simp [Rules.marked, Rules.cases, body.countMarks_case true]
  | .case _ _ body rest => by
    simp [Rules.marked, Rules.cases, body.countMarks_case true, rest.countMarks_case]
    omega

end

/-- What is not seen of a number of lambdas. -/
def unseen (n : Nat) : Nat := if sees then 0 else n

@[simp] theorem unseen_zero : unseen sees 0 = 0 := ite_self 0

/-- What is unseen of a sum is unseen of its parts. -/
theorem unseen_add (m n : Nat) : unseen sees (m + n) = unseen sees m + unseen sees n := by
  cases sees <;> rfl

theorem countMarks_arrow (direct : Bool) :
    (if arrowMark sees direct = some .lambda then 1 else 0) +
      unseen sees direct.toNat = 1 := by
  cases sees <;> cases direct <;> rfl

mutual

/-- Each lambda has one mark, apart from those that are hidden if they are not seen. -/
theorem Expr.countMarks_lambda : (e : Expr) → (direct : Bool) →
    countMarks .lambda (e.marked sees direct) + unseen sees (e.hidden direct) = e.lambdas
  | .name _, _ => by simp [Expr.marked, Expr.hidden, Expr.lambdas]
  | .call _ args, _ => by
    simpa [Expr.marked, Expr.hidden, Expr.lambdas] using args.countMarks_lambda
  | .lambda _ body, direct => by
    have hbody := body.countMarks_lambda direct
    have harrow := countMarks_arrow sees direct
    simp only [Expr.marked, Expr.hidden, Expr.lambdas, countMarks_append, countMarks_cons,
      countMarks_unmarked, unseen_add]
    omega

theorem Args.countMarks_lambda : (args : Args) →
    countMarks .lambda (args.marked sees) + unseen sees args.hidden = args.lambdas
  | .nil => by simp [Args.marked, Args.hidden, Args.lambdas]
  | .cons first more => by
    have hfirst := first.countMarks_lambda false
    have hmore := more.countMarks_lambda
    simp only [Args.marked, Args.hidden, Args.lambdas, countMarks_append, unseen_add]
    omega

theorem More.countMarks_lambda : (more : More) →
    countMarks .lambda (more.marked sees) + unseen sees more.hidden = more.lambdas
  | .nil => by simp [More.marked, More.hidden, More.lambdas]
  | .cons e rest => by
    have he := e.countMarks_lambda false
    have hrest := rest.countMarks_lambda
    simp only [More.marked, More.hidden, More.lambdas, countMarks_append, countMarks_cons,
      unseen_add, reduceCtorEq, if_false]
    omega

theorem Body.countMarks_lambda : (b : Body) → (direct : Bool) →
    countMarks .lambda (b.marked sees direct) + unseen sees (b.hidden direct) = b.lambdas
  | .value e, direct => e.countMarks_lambda direct
  | .block ss, _ => by
    simpa [Body.marked, Body.hidden, Body.lambdas] using ss.countMarks_lambda

theorem Stmt.countMarks_lambda : (s : Stmt) →
    countMarks .lambda (s.marked sees) + unseen sees s.hidden = s.lambdas
  | .call _ args => by simpa [Stmt.marked, Stmt.hidden, Stmt.lambdas] using args.countMarks_lambda
  | .block ss => by simpa [Stmt.marked, Stmt.hidden, Stmt.lambdas] using ss.countMarks_lambda
  | .switch _ rules => by
    simpa [Stmt.marked, Stmt.hidden, Stmt.lambdas] using rules.countMarks_lambda

theorem Stmts.countMarks_lambda : (ss : Stmts) →
    countMarks .lambda (ss.marked sees) + unseen sees ss.hidden = ss.lambdas
  | .nil => by simp [Stmts.marked, Stmts.hidden, Stmts.lambdas]
  | .cons s rest => by
    have hs := s.countMarks_lambda
    have hrest := rest.countMarks_lambda
    simp only [Stmts.marked, Stmts.hidden, Stmts.lambdas, countMarks_append, unseen_add]
    omega

theorem Rules.countMarks_lambda : (rs : Rules) →
    countMarks .lambda (rs.marked sees) + unseen sees rs.hidden = rs.lambdas
  | .nil => by simp [Rules.marked, Rules.hidden, Rules.lambdas]
  | .default body => by
    simpa [Rules.marked, Rules.hidden, Rules.lambdas] using body.countMarks_lambda true
  | .case _ _ body rest => by
    have hbody := body.countMarks_lambda true
    have hrest := rest.countMarks_lambda
    simp only [Rules.marked, Rules.hidden, Rules.lambdas, countMarks_append, countMarks_cons,
      countMarks_unmarked, unseen_add, reduceCtorEq, if_false, Option.some.injEq]
    omega

end

mutual

/-- Where no lambda is hidden, the marks are those of a reader. -/
theorem Expr.marked_of_hidden : (e : Expr) → (direct : Bool) → e.hidden direct = 0 →
    e.marked false direct = e.marked true direct
  | .name _, _, _ => rfl
  | .call _ args, _, h => by rw [Expr.marked, Expr.marked, args.marked_of_hidden h]
  | .lambda _ body, direct, h => by
    obtain ⟨hdirect, hbody⟩ := Nat.add_eq_zero_iff.mp h
    cases direct with
    | false => rw [Expr.marked, Expr.marked, body.marked_of_hidden false hbody]; rfl
    | true => cases hdirect

theorem Args.marked_of_hidden : (args : Args) → args.hidden = 0 →
    args.marked false = args.marked true
  | .nil, _ => rfl
  | .cons first more, h => by
    obtain ⟨hfirst, hmore⟩ := Nat.add_eq_zero_iff.mp h
    rw [Args.marked, Args.marked, first.marked_of_hidden false hfirst, more.marked_of_hidden hmore]

theorem More.marked_of_hidden : (more : More) → more.hidden = 0 →
    more.marked false = more.marked true
  | .nil, _ => rfl
  | .cons e rest, h => by
    obtain ⟨he, hrest⟩ := Nat.add_eq_zero_iff.mp h
    rw [More.marked, More.marked, e.marked_of_hidden false he, rest.marked_of_hidden hrest]

theorem Body.marked_of_hidden : (b : Body) → (direct : Bool) → b.hidden direct = 0 →
    b.marked false direct = b.marked true direct
  | .value e, direct, h => e.marked_of_hidden direct h
  | .block ss, _, h => by rw [Body.marked, Body.marked, ss.marked_of_hidden h]

theorem Stmt.marked_of_hidden : (s : Stmt) → s.hidden = 0 → s.marked false = s.marked true
  | .call _ args, h => by rw [Stmt.marked, Stmt.marked, args.marked_of_hidden h]
  | .block ss, h => by rw [Stmt.marked, Stmt.marked, ss.marked_of_hidden h]
  | .switch _ rules, h => by rw [Stmt.marked, Stmt.marked, rules.marked_of_hidden h]

theorem Stmts.marked_of_hidden : (ss : Stmts) → ss.hidden = 0 → ss.marked false = ss.marked true
  | .nil, _ => rfl
  | .cons s rest, h => by
    obtain ⟨hs, hrest⟩ := Nat.add_eq_zero_iff.mp h
    rw [Stmts.marked, Stmts.marked, s.marked_of_hidden hs, rest.marked_of_hidden hrest]

theorem Rules.marked_of_hidden : (rs : Rules) → rs.hidden = 0 → rs.marked false = rs.marked true
  | .nil, _ => rfl
  | .default body, h => by rw [Rules.marked, Rules.marked, body.marked_of_hidden true h]
  | .case _ _ body rest, h => by
    obtain ⟨hbody, hrest⟩ := Nat.add_eq_zero_iff.mp h
    rw [Rules.marked, Rules.marked, body.marked_of_hidden true hbody, rest.marked_of_hidden hrest]

end

theorem Literal.kind (s : Literal) : s.face.1 = .number ∨ s.face.1 = .stringLiteral := by
  have h := s.valid
  simp only [isLiteral, Bool.and_eq_true, Bool.or_eq_true, beq_iff_eq] at h
  exact h.1

theorem Literal.isBracket_face (s : Literal) : isBracket s.face = false := by
  unfold isBracket
  rcases s.kind with h | h <;> rw [h] <;> rfl

theorem balanced_dotted (x : Name java) (path : List (Name java)) : Balanced (dotted x path) := by
  induction path generalizing x with
  | nil => exact .cons x.isBracket_face .nil
  | cons y path ih => exact .cons x.isBracket_face (.cons rfl (ih y))

/-- A constant leaves no bracket open. -/
theorem Constant.balanced_faces (c : Constant) : Balanced c.faces := by
  cases c with
  | name x path => exact balanced_dotted x path
  | literal s => exact .cons s.isBracket_face .nil
  | negative s => exact .cons rfl (.cons s.isBracket_face .nil)
  | null => exact .cons rfl .nil

theorem balanced_constants (c : Constant) (more : List Constant) :
    Balanced (constants c more) := by
  induction more generalizing c with
  | nil => exact c.balanced_faces
  | cons d more ih => exact c.balanced_faces.append (.cons rfl (ih d))

theorem Params.balanced_faces (ps : Params) : Balanced ps.faces := by
  cases ps with
  | name x => exact .cons x.isBracket_face .nil
  | empty => exact .group .round .nil .nil

theorem Body.balanced_close (b : Body) : Balanced b.close := by
  cases b with
  | value => exact .cons rfl .nil
  | block => exact .nil

mutual

theorem Expr.balanced_faces : (e : Expr) → Balanced e.faces
  | .name x => .cons x.isBracket_face .nil
  | .call m args => .cons m.isBracket_face (.group .round args.balanced_faces .nil)
  | .lambda ps body => ps.balanced_faces.append (.cons rfl body.balanced_faces)

theorem Args.balanced_faces : (args : Args) → Balanced args.faces
  | .nil => .nil
  | .cons first more => first.balanced_faces.append more.balanced_faces

theorem More.balanced_faces : (more : More) → Balanced more.faces
  | .nil => .nil
  | .cons e rest => .cons rfl (e.balanced_faces.append rest.balanced_faces)

theorem Body.balanced_faces : (b : Body) → Balanced b.faces
  | .value e => e.balanced_faces
  | .block ss => .group .curly ss.balanced_faces .nil

theorem Stmt.balanced_faces : (s : Stmt) → Balanced s.faces
  | .call m args =>
    have hparens : Balanced (parens args.faces) := .group .round args.balanced_faces .nil
    .cons m.isBracket_face (hparens.append (.cons rfl .nil))
  | .block ss => .group .curly ss.balanced_faces .nil
  | .switch x rules =>
    have hselector : Balanced (parens [x.face]) := .group .round (.cons x.isBracket_face .nil) .nil
    .cons rfl (hselector.append (.group .curly rules.balanced_faces .nil))

theorem Stmts.balanced_faces : (ss : Stmts) → Balanced ss.faces
  | .nil => .nil
  | .cons s rest => s.balanced_faces.append rest.balanced_faces

theorem Rules.balanced_faces : (rs : Rules) → Balanced rs.faces
  | .nil => .nil
  | .default body => .cons rfl (.cons rfl (body.balanced_faces.append body.balanced_close))
  | .case c more body rest =>
    have hbody := body.balanced_faces.append body.balanced_close
    .cons rfl ((balanced_constants c more).append (.cons rfl (hbody.append rest.balanced_faces)))

end

end Branching

/-! ## The walk back from an arrow -/

namespace Code

variable {code : Code} {i k : Nat} {f : Face}

/-- The symbols that the walk back to the start of a statement does not step over. -/
def stops : List String := [")", "]", ";", "\x7b", "\x7d", "(", "[", ":"]

/-- The words that label a branch. -/
def labels : List String := ["case", "default"]

/-- The statement that holds a token starts with the label of a branch. -/
def labelled (code : Code) (k : Nat) : Bool := labels.contains (code.text (code.statementStart k))

/-- A token that is no stop leaves the walk back as it is. -/
theorem labelled_token (h : code.face? k = some f) (hf : f.2 ∉ stops) :
    code.labelled (k + 1) = code.labelled k := by
  rw [labelled, statementStart_token h hf, labelled]

theorem Passes.labelled {fs : List Face} (h : Passes code i fs) :
    code.labelled (i + fs.length) = code.labelled i := by
  rw [Code.labelled, h.start, Code.labelled]

theorem labelled_tokens {fs : List Face} (h : code.Spells i fs) (hfs : ∀ f ∈ fs, f.2 ∉ stops) :
    code.labelled (i + fs.length) = code.labelled i := by
  induction fs generalizing i with
  | nil => rfl
  | cons f fs ih =>
    obtain ⟨hf, hrest⟩ := spells_cons.mp h
    obtain ⟨hstop, hmore⟩ := List.forall_mem_cons.mp hfs
    have hlen : i + (f :: fs).length = i + 1 + fs.length := by
      rw [List.length_cons]
      omega
    rw [hlen, ih hrest hmore, labelled_token hf hstop]

/-- Behind a semicolon, a brace or an opening parenthesis, a statement starts. -/
theorem statementStart_stop (h : code.face? k = some f)
    (hf : f ∈ [punct ";", punct "\x7b", punct "\x7d", punct "("]) :
    code.statementStart (k + 1) = k + 1 := by
  have hall : ∀ f ∈ [punct ";", punct "\x7b", punct "\x7d", punct "("],
      (f == punct ")" || f == punct "]") = false ∧
        [";", "\x7b", "\x7d", "(", "[", ":"].contains f.2 = true := by decide
  obtain ⟨hclose, hstop⟩ := hall f hf
  rw [statementStart, closesGroup_of_face h, text_of_face h, hclose, hstop]
  simp

/-- Where a statement starts, its first token says whether it is the label of a branch. -/
theorem labelled_start (h : code.face? k = some f) (hstart : code.statementStart k = k) :
    code.labelled k = labels.contains f.2 := by
  rw [labelled, hstart, text_of_face h]

/-- An arrow is a lambda unless its statement starts with the label of a branch. -/
theorem categoryAt_arrow (h : code.face? k = some (op "->")) :
    code.categoryAt java k = if code.labelled k then none else some .lambda := by
  have hr : (⟨"->", .lambda, 1, { notInStatementOf := ["case", "default"] }⟩ : DecisionRule) ∈
      java.decisions := by decide
  have hguard : code.guardHolds java { notInStatementOf := ["case", "default"] } [] k =
      !code.labelled k := by
    simp [guardHolds, guardFits, labelled, labels]
  rw [categoryAt, ruleAt?_of_mem (by decide) hr h (Or.inr rfl), hguard]
  cases code.labelled k <;> rfl

end Code

/-! ## Reading expressions -/

namespace Branching

open Code

variable {code : Code} {i : Nat} {g : Face}

/-- The symbols and keywords that make no decision. -/
def inert : List Face :=
  [punct "(", punct ")", punct "\x7b", punct "\x7d", punct ",", punct ";", punct ".", op "-",
    word "null", word "switch", word "default"]

/-- An inert token is read without mark. -/
theorem reads_plain {f : Face} {ms : List Marked} (h : code.face? i = some f) (hf : f ∈ inert)
    (hms : Reads code java (i + 1) ms) : Reads code java i ((f, none) :: ms) := by
  have hall : ∀ f ∈ inert, java.isPlain f = true := by decide
  exact hms.plain h (hall f hf)

/-- The symbols and the labels are no names of Java. -/
theorem nameless : (stops ++ labels).all (!java.isName ·) = true := by
  rw [show java = _ from Language.Java.canonical_eq]
  decide +kernel

/-- The words and symbols with a meaning are no literals. -/
theorem literalless : (java.specials ++ javaRules.containerKeywords ++ stops).all (fun s =>
    !isLiteral (.number, s) && !isLiteral (.stringLiteral, s)) = true := by
  unfold isLiteral
  rw [show java = _ from Language.Java.canonical_eq]
  decide +kernel

/-- A name is no stop and no label. -/
theorem name_not_mem (x : Name java) : x.text ∉ stops ∧ x.text ∉ labels := by
  have h := x.not_mem nameless
  rw [List.mem_append, not_or] at h
  exact h

/-- A literal has none of the texts that have a meaning. -/
theorem Literal.not_mem (s : Literal) :
    s.face.2 ∉ java.specials ++ javaRules.containerKeywords ++ stops := by
  intro hmem
  have h := List.all_eq_true.mp literalless _ hmem
  rw [Bool.and_eq_true, Bool.not_eq_true', Bool.not_eq_true'] at h
  have hvalid := s.valid
  rcases s.kind with hkind | hkind
  · rw [show s.face = (.number, s.face.2) from Prod.ext hkind rfl, h.1] at hvalid
    cases hvalid
  · rw [show s.face = (.stringLiteral, s.face.2) from Prod.ext hkind rfl, h.2] at hvalid
    cases hvalid

/-- A number or a literal makes no decision. -/
theorem reads_literal {s : Literal} {ms : List Marked} (h : code.face? i = some s.face)
    (hms : Reads code java (i + 1) ms) : Reads code java i ((s.face, none) :: ms) := by
  have hne := s.not_mem
  simp only [Language.specials, List.mem_append, not_or] at hne
  obtain ⟨⟨⟨⟨hintro, hbind⟩, hdecision⟩, hcontainer⟩, -⟩ := hne
  have hkind : s.face.1 ≠ .identifier := by
    rcases s.kind with hkind | hkind <;> rw [hkind] <;> decide
  exact hms.cons (quiet_of_symbol h hkind hintro hbind hcontainer) (categoryAt_eq_none h hdecision)

/-- A name before one of these symbols makes no decision. -/
theorem reads_name {x : Name java} {ms : List Marked} (hx : code.face? i = some x.face)
    (hg : code.face? (i + 1) = some g)
    (hsymbol : g ∈ [punct ",", punct ";", punct ")", punct ".", op "->"])
    (hms : Reads code java (i + 1) ms) : Reads code java i ((x.face, none) :: ms) := by
  have hall : ∀ g ∈ [punct ",", punct ";", punct ")", punct ".", op "->"],
      g.1 ≠ .identifier ∧ g.2 ∉ ["(", "<", "[", "\x7b"] := by decide
  exact hms.lone (Question.name_special x) hx hg (hall g hsymbol).1 (hall g hsymbol).2

/-! ### Labels -/

theorem reads_dotted {x : Name java} {path : List (Name java)} (h : code.Spells i (dotted x path))
    (hg : code.face? (i + (dotted x path).length) = some g) (hsymbol : g ∈ [punct ",", op "->"]) :
    Reads code java i (unmarked (dotted x path)) := by
  induction path generalizing i x with
  | nil =>
    refine reads_name (spells_cons.mp h).1 hg ?_ .nil
    revert hsymbol
    apply List.Subset.trans ?_ (List.Subset.refl _)
    simp
  | cons y path ih =>
    obtain ⟨hx, h⟩ := spells_cons.mp h
    obtain ⟨hpoint, hrest⟩ := spells_cons.mp h
    have hlen : i + (dotted x (y :: path)).length = i + 1 + 1 + (dotted y path).length := by
      simp only [dotted, List.length_cons]
      omega
    rw [hlen] at hg
    exact reads_name hx hpoint (by decide) (reads_plain hpoint (by decide) (ih hrest hg))

/-- A constant makes no decision. -/
theorem Constant.reads (c : Constant) (h : code.Spells i c.faces)
    (hg : code.face? (i + c.faces.length) = some g) (hsymbol : g ∈ [punct ",", op "->"]) :
    Reads code java i (unmarked c.faces) := by
  cases c with
  | name x path => exact reads_dotted h hg hsymbol
  | literal s => exact reads_literal (spells_cons.mp h).1 .nil
  | negative s =>
    obtain ⟨hminus, h⟩ := spells_cons.mp h
    exact reads_plain hminus (by decide) (reads_literal (spells_cons.mp h).1 .nil)
  | null => exact reads_plain (spells_cons.mp h).1 (by decide) .nil

/-- The constants of a label, before its arrow. -/
theorem reads_constants {c : Constant} {more : List Constant}
    (h : code.Spells i (constants c more))
    (harrow : code.face? (i + (constants c more).length) = some (op "->")) :
    Reads code java i (unmarked (constants c more)) := by
  induction more generalizing i c with
  | nil => exact c.reads h harrow (by decide)
  | cons d more ih =>
    rw [constants] at h harrow ⊢
    obtain ⟨hc, h⟩ := spells_append.mp h
    obtain ⟨hcomma, hrest⟩ := spells_cons.mp h
    rw [List.length_append, List.length_cons, Nat.add_comm (constants d more).length,
      ← Nat.add_assoc, ← Nat.add_assoc] at harrow
    have htail := reads_plain hcomma (by decide) (ih hrest harrow)
    rw [← length_unmarked c.faces] at htail
    rw [unmarked_append]
    exact (c.reads hc hcomma (by decide)).append htail

theorem not_stop_dotted (x : Name java) (path : List (Name java)) :
    ∀ f ∈ dotted x path, f.2 ∉ stops := by
  induction path generalizing x with
  | nil =>
    rw [dotted, List.forall_mem_singleton]
    exact (name_not_mem x).1
  | cons y path ih =>
    rw [dotted, List.forall_mem_cons, List.forall_mem_cons]
    exact ⟨(name_not_mem x).1, by decide, ih y⟩

/-- The walk back stops in no constant. -/
theorem Constant.not_stop (c : Constant) : ∀ f ∈ c.faces, f.2 ∉ stops := by
  cases c with
  | name x path => exact not_stop_dotted x path
  | literal s =>
    rw [Constant.faces, List.forall_mem_singleton]
    exact fun h => s.not_mem (List.mem_append_right _ h)
  | negative s =>
    rw [Constant.faces, List.forall_mem_cons, List.forall_mem_singleton]
    exact ⟨by decide, fun h => s.not_mem (List.mem_append_right _ h)⟩
  | null =>
    rw [Constant.faces, List.forall_mem_singleton]
    decide

/-- The walk back from an arrow passes the constants of a label. -/
theorem not_stop_constants (c : Constant) (more : List Constant) :
    ∀ f ∈ constants c more, f.2 ∉ stops := by
  induction more generalizing c with
  | nil => exact c.not_stop
  | cons d more ih =>
    rw [constants, List.forall_mem_append, List.forall_mem_cons]
    exact ⟨c.not_stop, by decide, ih d⟩

/-! ### Values -/

/-- The tokens that may follow an expression. -/
def ends : List Face := [punct ";", punct ",", punct ")"]

theorem ends_subset : g ∈ ends → g ∈ [punct ",", punct ";", punct ")", punct ".", op "->"] ∧
    g ∈ afterExpr ∧ g.2 ∉ labels := by
  revert g
  decide

/-- The walk back from an arrow passes the parameters of a lambda. -/
theorem Params.labelled (hp : code.Paired) (ps : Params) (h : code.Spells i ps.faces) :
    code.labelled (i + ps.faces.length) = code.labelled i := by
  cases ps with
  | name x => exact labelled_token (spells_cons.mp h).1 (name_not_mem x).1
  | empty => exact (passes_parens hp h .nil).labelled

/-- Parameters of a lambda make no decision. -/
theorem Params.reads (ps : Params) {ms : List Marked} (h : code.Spells i ps.faces)
    (harrow : code.face? (i + ps.faces.length) = some (op "->"))
    (hms : Reads code java (i + ps.faces.length) ms) :
    Reads code java i (unmarked ps.faces ++ ms) := by
  cases ps with
  | name x => exact reads_name (spells_cons.mp h).1 harrow (by decide) hms
  | empty =>
    obtain ⟨hopen, -, hclose⟩ := spells_parens h
    exact reads_plain hopen (by decide) (reads_plain hclose (by decide) hms)

/-- The first token of an expression labels no branch. -/
theorem Expr.head (e : Expr) (h : code.Spells i e.faces) :
    ∃ f, code.face? i = some f ∧ f.2 ∉ labels := by
  cases e with
  | name x => exact ⟨x.face, (spells_cons.mp h).1, (name_not_mem x).2⟩
  | call m args => exact ⟨m.face, (spells_cons.mp h).1, (name_not_mem m).2⟩
  | lambda ps body =>
    have hps := (spells_append.mp h).1
    cases ps with
    | name x => exact ⟨x.face, (spells_cons.mp hps).1, (name_not_mem x).2⟩
    | empty => exact ⟨_, (spells_cons.mp hps).1, by decide⟩

mutual

/-- Behind an expression in a statement without label, no label is found either: the walk passes
the expression, or it ends at the block of a lambda. -/
theorem Expr.unlabelled (hp : code.Paired) : (e : Expr) → {i : Nat} → code.Spells i e.faces →
    code.labelled i = false → code.face? (i + e.faces.length) = some g → g ∈ ends →
      code.labelled (i + e.faces.length) = false
  | .name x, _, h, hi, _, _ => (labelled_token (spells_cons.mp h).1 (name_not_mem x).1).trans hi
  | .call m args, i, h, hi, _, _ => by
    obtain ⟨hm, hparens⟩ := spells_cons.mp h
    refine at_cons (P := fun j => code.labelled j = false) ?_
    have hpass := (passes_parens hp hparens args.balanced_faces).labelled
    exact hpass.trans ((labelled_token hm (name_not_mem m).1).trans hi)
  | .lambda ps body, i, h, hi, hg, hend => by
    obtain ⟨hps, h⟩ := spells_append.mp h
    obtain ⟨harrow, hbody⟩ := spells_cons.mp h
    have hnext := (labelled_token harrow (by decide)).trans ((ps.labelled hp hps).trans hi)
    have hlen : i + (Expr.lambda ps body).faces.length =
        i + ps.faces.length + 1 + body.faces.length := by
      simp only [Expr.faces, List.length_append, List.length_cons]
      omega
    rw [hlen] at hg ⊢
    exact body.unlabelled hp hbody hnext hg hend

/-- The body of a lambda brings no label, so none is found behind it if none was before it. -/
theorem Body.unlabelled (hp : code.Paired) : (b : Body) → {i : Nat} → code.Spells i b.faces →
    code.labelled i = false → code.face? (i + b.faces.length) = some g → g ∈ ends →
      code.labelled (i + b.faces.length) = false
  | .value e, _, h, hi, hg, hend => e.unlabelled hp h hi hg hend
  | .block ss, i, h, _, hg, hend => by
    obtain ⟨-, -, hclose⟩ := spells_braces h
    have hlen : i + (Body.block ss).faces.length = i + 1 + ss.faces.length + 1 := by
      rw [Body.faces, length_braces]
      omega
    rw [hlen] at hg ⊢
    rw [labelled_start hg (statementStart_stop hclose (by decide)), List.contains_eq_mem,
      decide_eq_false_iff_not]
    exact (ends_subset hend).2.2

end

/-- Behind an argument comes a comma or the parenthesis. -/
theorem next_more {more : More} (h : code.Spells i more.faces)
    (hclose : code.face? (i + more.faces.length) = some (punct ")")) :
    ∃ g, code.face? i = some g ∧ g ∈ ends := by
  cases more with
  | nil => exact ⟨_, hclose, by decide⟩
  | cons e rest => exact ⟨_, (spells_cons.mp h).1, by decide⟩

/-- Behind a value comes one of the tokens that may follow it.  A block ends at its brace. -/
def Ended (code : Code) (i : Nat) : Body → Prop
  | .value _ => ∃ g, code.face? i = some g ∧ g ∈ ends
  | .block _ => True

/-- The body of a rule ends at its own end. -/
theorem ended_close {b : Body} (h : code.Spells i b.close) : Ended code i b := by
  cases b with
  | value e => exact ⟨_, (spells_cons.mp h).1, by decide⟩
  | block ss => trivial

/-- Behind a rule, a statement starts. -/
theorem statementStart_rule {b : Body} (h : code.Spells i (b.faces ++ b.close)) :
    code.statementStart (i + (b.faces ++ b.close).length) = i + (b.faces ++ b.close).length := by
  cases b with
  | value e =>
    have hsemi := (spells_cons.mp (spells_append.mp h).2).1
    refine at_append (P := fun j => code.statementStart j = j) ?_
    exact statementStart_stop hsemi (by decide)
  | block ss =>
    obtain ⟨-, -, hclose⟩ := spells_braces (spells_append.mp h).1
    have hlen : i + ((Body.block ss).faces ++ (Body.block ss).close).length =
        i + 1 + ss.faces.length + 1 := by
      rw [Body.faces, Body.close, List.append_nil, length_braces]
      omega
    rw [hlen]
    exact statementStart_stop hclose (by decide)

/-- The end of a rule makes no decision. -/
theorem Body.reads_close (b : Body) (h : code.Spells i b.close) :
    Reads code java i (unmarked b.close) := by
  cases b with
  | value e => exact reads_plain (spells_cons.mp h).1 (by decide) .nil
  | block ss => exact .nil

mutual

/-- The scorer sees the marked decisions of an expression, where the walk back from its first token
says whether it stands right behind the arrow of a rule. -/
theorem Expr.reads (hp : code.Paired) : (e : Expr) → {i : Nat} → {direct : Bool} →
    code.Spells i e.faces → code.labelled i = direct →
      (∃ g, code.face? (i + e.faces.length) = some g ∧ g ∈ ends) →
        Reads code java i (e.marked false direct)
  | .name x, _, _, h, _, ⟨_, hg, hend⟩ =>
    reads_name (spells_cons.mp h).1 hg (ends_subset hend).1 .nil
  | .call m args, i, _, h, _, ⟨g, hg, hend⟩ => by
    obtain ⟨hopen, hargs, hclose⟩ := spells_parens (spells_cons.mp h).2
    exact Question.reads_call hp (args.facesOf_marked false) args.balanced_faces h hg
      (ends_subset hend).2.1
      (args.reads hp hargs (statementStart_stop hopen (by decide)) hclose)
  | .lambda ps body, i, direct, h, hi, hend => by
    obtain ⟨hps, h⟩ := spells_append.mp h
    obtain ⟨harrow, hbody⟩ := spells_cons.mp h
    have hlen : i + (Expr.lambda ps body).faces.length =
        i + ps.faces.length + 1 + body.faces.length := by
      simp only [Expr.faces, List.length_append, List.length_cons]
      omega
    rw [hlen] at hend
    have hlabel := (ps.labelled hp hps).trans hi
    have hended : Ended code (i + ps.faces.length + 1 + body.faces.length) body := by
      cases body with
      | value e => exact hend
      | block ss => trivial
    have hreads := body.reads hp hbody ((labelled_token harrow (by decide)).trans hlabel) hended
    have hmark : code.categoryAt java (i + ps.faces.length) = arrowMark false direct := by
      rw [categoryAt_arrow harrow, hlabel]
      cases direct <;> rfl
    exact ps.reads hps harrow (hreads.cons (quiet_of_isQuiet harrow (by decide)) hmark)

/-- The arguments of a call, where the parenthesis starts a statement. -/
theorem Args.reads (hp : code.Paired) : (args : Args) → {i : Nat} → code.Spells i args.faces →
    code.statementStart i = i → code.face? (i + args.faces.length) = some (punct ")") →
      Reads code java i (args.marked false)
  | .nil, _, _, _, _ => .nil
  | .cons first more, i, h, hstart, hclose => by
    obtain ⟨hfirst, hmore⟩ := spells_append.mp h
    rw [Args.faces, List.length_append, ← Nat.add_assoc] at hclose
    obtain ⟨f, hf, hne⟩ := first.head hfirst
    have hlabel : code.labelled i = false := by
      rw [labelled_start hf hstart, List.contains_eq_mem, decide_eq_false_iff_not]
      exact hne
    obtain ⟨g, hg, hend⟩ := next_more hmore hclose
    have hreads := more.reads hp hmore (first.unlabelled hp hfirst hlabel hg hend) hclose
    rw [← first.length_marked false false] at hreads
    exact (first.reads hp hfirst hlabel ⟨g, hg, hend⟩).append hreads

theorem More.reads (hp : code.Paired) : (more : More) → {i : Nat} → code.Spells i more.faces →
    code.labelled i = false → code.face? (i + more.faces.length) = some (punct ")") →
      Reads code java i (more.marked false)
  | .nil, _, _, _, _ => .nil
  | .cons e rest, i, h, hi, hclose => by
    obtain ⟨hcomma, h⟩ := spells_cons.mp h
    obtain ⟨he, hrest⟩ := spells_append.mp h
    have hlen : i + (More.cons e rest).faces.length =
        i + 1 + e.faces.length + rest.faces.length := by
      simp only [More.faces, List.length_append, List.length_cons]
      omega
    rw [hlen] at hclose
    have hlabel := (labelled_token hcomma (by decide)).trans hi
    obtain ⟨g, hg, hend⟩ := next_more hrest hclose
    have hreads := rest.reads hp hrest (e.unlabelled hp he hlabel hg hend) hclose
    rw [← e.length_marked false false] at hreads
    exact reads_plain hcomma (by decide) ((e.reads hp he hlabel ⟨g, hg, hend⟩).append hreads)

/-- The body of a lambda is read as it is marked. -/
theorem Body.reads (hp : code.Paired) : (b : Body) → {i : Nat} → {direct : Bool} →
    code.Spells i b.faces → code.labelled i = direct → Ended code (i + b.faces.length) b →
      Reads code java i (b.marked false direct)
  | .value e, _, _, h, hi, hend => e.reads hp h hi hend
  | .block ss, i, _, h, _, _ => by
    obtain ⟨hopen, hss, hclose⟩ := spells_braces h
    rw [← ss.length_marked false] at hclose
    exact (ss.reads hp hss).group hopen hclose (by decide) (by decide) .nil

/-- The scorer sees the marked decisions of a statement. -/
theorem Stmt.reads (hp : code.Paired) : (s : Stmt) → {i : Nat} → code.Spells i s.faces →
    Reads code java i (s.marked false)
  | .call m args, i, h => by
    obtain ⟨hcall, hlast⟩ := spells_append.mp h
    have hsemi := (spells_cons.mp hlast).1
    obtain ⟨hopen, hargs, hclose⟩ := spells_parens (spells_cons.mp hcall).2
    have hreads := Question.reads_call hp (args.facesOf_marked false) args.balanced_faces hcall
      hsemi (by decide) (args.reads hp hargs (statementStart_stop hopen (by decide)) hclose)
    have hend : Reads code java _ [(punct ";", none)] := reads_plain hsemi (by decide) .nil
    have hlen : (m.face :: parens args.faces).length =
        ((m.face, none) :: (punct "(", none) ::
          (args.marked false ++ [(punct ")", none)]) : List Marked).length := by
      simp [parens, args.length_marked]
    rw [hlen] at hend
    exact hreads.append hend
  | .block ss, i, h => by
    obtain ⟨hopen, hss, hclose⟩ := spells_braces h
    rw [← ss.length_marked false] at hclose
    exact (ss.reads hp hss).group hopen hclose (by decide) (by decide) .nil
  | .switch x rules, i, h => by
    obtain ⟨hword, h⟩ := spells_cons.mp h
    obtain ⟨hselector, hbraces⟩ := spells_append.mp h
    obtain ⟨hparen, hx, hend⟩ := spells_parens hselector
    obtain ⟨hopen, hrules, hclose⟩ := spells_braces hbraces
    have hreads := rules.reads hp hrules (statementStart_stop hopen (by decide))
    rw [← rules.length_marked false] at hclose
    have hblock := hreads.group hopen hclose (by decide) (by decide) .nil
    have hname := reads_name (spells_cons.mp hx).1 hend (by decide)
      (reads_plain hend (by decide) hblock)
    exact reads_plain hword (by decide) (reads_plain hparen (by decide) hname)

theorem Stmts.reads (hp : code.Paired) : (ss : Stmts) → {i : Nat} → code.Spells i ss.faces →
    Reads code java i (ss.marked false)
  | .nil, _, _ => .nil
  | .cons s rest, i, h => by
    obtain ⟨hs, hrest⟩ := spells_append.mp h
    have hreads := rest.reads hp hrest
    rw [← s.length_marked false] at hreads
    exact (s.reads hp hs).append hreads

/-- The rules of a switch, where a statement starts. -/
theorem Rules.reads (hp : code.Paired) : (rs : Rules) → {i : Nat} → code.Spells i rs.faces →
    code.statementStart i = i → Reads code java i (rs.marked false)
  | .nil, _, _, _ => .nil
  | .default body, i, h, hstart => by
    obtain ⟨hword, h⟩ := spells_cons.mp h
    obtain ⟨harrow, h⟩ := spells_cons.mp h
    obtain ⟨hbody, hclose⟩ := spells_append.mp h
    have hlabel : code.labelled (i + 1) = true :=
      (labelled_token hword (by decide)).trans (labelled_start hword hstart)
    have hvalue := body.reads hp hbody ((labelled_token harrow (by decide)).trans hlabel)
      (ended_close hclose)
    have hend := body.reads_close hclose
    rw [← body.length_marked false true] at hend
    have hmark : code.categoryAt java (i + 1) = none := by
      rw [categoryAt_arrow harrow, hlabel]
      rfl
    exact reads_plain hword (by decide)
      ((hvalue.append hend).cons (quiet_of_isQuiet harrow (by decide)) hmark)
  | .case c more body rest, i, h, hstart => by
    obtain ⟨hword, h⟩ := spells_cons.mp h
    obtain ⟨hlabels, h⟩ := spells_append.mp h
    obtain ⟨harrow, h⟩ := spells_cons.mp h
    obtain ⟨hrule, hrest⟩ := spells_append.mp h
    obtain ⟨hbody, hclose⟩ := spells_append.mp hrule
    have hlabel : code.labelled (i + 1 + (constants c more).length) = true :=
      (labelled_tokens hlabels (not_stop_constants c more)).trans
        ((labelled_token hword (by decide)).trans (labelled_start hword hstart))
    have hvalue := body.reads hp hbody ((labelled_token harrow (by decide)).trans hlabel)
      (ended_close hclose)
    have hend := body.reads_close hclose
    have hothers := rest.reads hp hrest (statementStart_rule hrule)
    rw [← body.length_marked false true] at hend
    rw [List.length_append, ← body.length_marked false true, ← length_unmarked body.close,
      ← List.length_append] at hothers
    have hmark : code.categoryAt java (i + 1 + (constants c more).length) = none := by
      rw [categoryAt_arrow harrow, hlabel]
      rfl
    have htail := ((hvalue.append hend).append hothers).cons (f := op "->")
      (quiet_of_isQuiet harrow (by decide)) hmark
    rw [← length_unmarked (constants c more)] at htail
    have hcase : code.categoryAt java i = some .case :=
      categoryAt_of_mem (by decide) hword (Or.inl rfl) (by decide)
    exact ((reads_constants hlabels harrow).append htail).cons
      (quiet_of_isQuiet hword (by decide)) hcase

end

/-- What the decisions of a function say of the statements of its body, which open at a brace. -/
structure Tells (code : Code) (opening : Nat) (ss : Stmts) (ds : List Decision) : Prop where
  /-- They are those that the scorer sees.  The arrow of a rule is none of them. -/
  marked : ds.map Decision.place = code.placed (opening + 1) (ss.marked false)
  /-- They are those of a reader exactly where no lambda stands right behind the arrow of a rule. -/
  read : ds.map Decision.place = code.placed (opening + 1) (ss.marked true) ↔ ss.hidden = 0
  /-- Each case counts once. -/
  cases : ds.countP (·.category == .case) = ss.cases
  /-- Each lambda counts once, apart from those right behind the arrow of a rule. -/
  lambdas : ds.countP (·.category == .lambda) + ss.hidden = ss.lambdas

theorem tells_of_marked {opening : Nat} {ss : Stmts} {ds : List Decision}
    (hds : ds.map Decision.place = code.placed (opening + 1) (ss.marked false)) :
    Tells code opening ss ds := by
  have hlambdas : countMarks .lambda (ss.marked false) + ss.hidden = ss.lambdas :=
    ss.countMarks_lambda false
  have hreader : countMarks .lambda (ss.marked true) + 0 = ss.lambdas := ss.countMarks_lambda true
  refine ⟨hds, ⟨fun h => ?_, fun h => ?_⟩, ?_, ?_⟩
  · -- A reader places as many lambdas as the scorer, so none is hidden.
    have hsame := (countP_of_placed hds .lambda).symm.trans (countP_of_placed h .lambda)
    omega
  · rw [hds, ss.marked_of_hidden h]
  · rw [countP_of_placed hds, ss.countMarks_case]
  · rw [countP_of_placed hds, hlambdas]

end Branching

/-! ## The arrows of a method -/

open Branching

/-- In Java, the decisions of a body of the grammar are those that the scorer sees: each case is
one, the arrow of a rule is none, and the arrow of a lambda is one unless it stands right behind the
arrow of a rule, or behind that of another such lambda.  They are those of a reader if and only if
there are no such lambdas.  A method of a class with such a body is found. -/
theorem analyze_switchArrows (file source : String) (ss : Branching.Stmts) :
    (∀ r, ({} : Engine).analyze file source "java" = .ok r →
      ∃ forest, detect java (Code.ofSource java source) = .ok forest ∧ ∀ f ∈ r.all, ∃ e,
        forest.at? f.id = some e ∧
          ((Code.ofSource java source).Spells e.opening (braces ss.faces) →
            Branching.Tells (Code.ofSource java source) e.opening ss f.decisions)) ∧
    ∀ (c m : Ident) (type : Primitive),
      (Code.ofSource java source).faces = methodUnit c type m ss.faces →
        ∃ ds, FindsOne (({} : Engine).analyze file source "java") m.text ds ∧
          Branching.Tells (Code.ofSource java source) 7 ss ds := by
  have hl : Registry.builtin.lookup? "java" = some java := rfl
  have hp := Code.paired_ofSource java source
  have hbalanced : Balanced (facesOf (ss.marked false)) := by
    rw [ss.facesOf_marked]
    exact ss.balanced_faces
  constructor
  · intro r hr
    obtain ⟨forest, hforest, hall⟩ := analyze_reads hl hr
    refine ⟨forest, hforest, fun f hf => ?_⟩
    obtain ⟨e, he, -, hplaces⟩ := hall f hf
    refine ⟨e, he, fun hspell => tells_of_marked ?_⟩
    have hreads := ss.reads hp (Code.spells_braces hspell).2.1
    rw [← ss.facesOf_marked false] at hspell
    refine hplaces (ss.marked false) hspell hbalanced hreads fun x _ _ _ => ?_
    exact Language.Java.blockless.not_mem_blockWords _
  · intro c m type hfaces
    have hbraces := (Code.spells_append.mp (Code.spells_methodUnit hfaces).2).1
    have hreads := ss.reads hp (Code.spells_braces hbraces).2.1
    rw [← ss.facesOf_marked false] at hfaces
    obtain ⟨ds, hfinds, hplaces⟩ :=
      analyze_methodUnit file source hfaces hbalanced hreads
    exact ⟨ds, hfinds, tells_of_marked hplaces⟩

namespace Branching

/-- The number one. -/
def one : Literal := ⟨(.number, "1"), by
  unfold isLiteral
  rw [show java = _ from Language.Java.canonical_eq]
  decide +kernel⟩

/-- A switch with two lambdas in arguments, and with another switch in the block of a third one,
which is the value of a rule. -/
def nested (a x y m : Name java) : Stmts :=
  .cons (.switch x
    (.case (.literal one) [.name a [x]]
      (.value (.call m (.cons (.lambda (.name x) (.value (.name y)))
        (.cons (.lambda .empty (.value (.name y))) .nil))))
    (.case (.negative one) []
      (.value (.lambda .empty (.block (.cons (.switch y
        (.case .null [] (.value (.call m .nil)) .nil)) .nil))))
    (.default (.value (.name x)))))) .nil

/-- A switch whose only rule has a lambda as value. -/
def direct (x y : Name java) : Stmts :=
  .cons (.switch x
    (.case (.literal one) [] (.value (.lambda (.name x) (.value (.name y)))) .nil)) .nil

/-- A method with the statements `nested`, over three lines. -/
def nestedMethod : String :=
  "class C \x7b void f() \x7b switch (x) \x7b case 1, A.x -> m(x -> y, () -> y);\n" ++
    "case -1 -> () -> \x7b switch (y) \x7b case null -> m(); \x7d \x7d;\n" ++
    "default -> x; \x7d \x7d \x7d"

/-- A method with the statements `direct`. -/
def directMethod : String :=
  "class C \x7b void f() \x7b switch (x) \x7b case 1 -> x -> y; \x7d \x7d \x7d"

end Branching

/-- A method with three cases and three lambdas, of which one is the value of a rule. -/
theorem analyze_switchArrows_nested :
    ∃ r, ({} : Engine).analyze "C.java" Branching.nestedMethod "java" = .ok r ∧
      ∀ f ∈ r.all, f.decisions.countP (·.category == .case) = 3 ∧
        f.decisions.countP (·.category == .lambda) + 1 = 3 := by
  let a : Name java := ⟨"A", Language.Java.letters _ (by decide)⟩
  let x : Name java := ⟨"x", Language.Java.letters _ (by decide)⟩
  let y : Name java := ⟨"y", Language.Java.letters _ (by decide)⟩
  let m : Name java := ⟨"m", Language.Java.letters _ (by decide)⟩
  obtain ⟨hany, hmethod⟩ :=
    analyze_switchArrows "C.java" Branching.nestedMethod (Branching.nested a x y m)
  have hchars : Branching.nestedMethod = String.ofList _ :=
    append_eq_ofList (append_eq_ofList rfl rfl) rfl
  have hfaces : (Code.ofSource java Branching.nestedMethod).faces =
      methodUnit ⟨"C", by decide +kernel⟩ ⟨"void", by decide⟩ ⟨"f", by decide +kernel⟩
        (Branching.nested a x y m).faces := by
    change _ = methodUnit _ _ _ [word "switch", punct "(", (.identifier, "x"), punct ")",
      punct "\x7b", word "case", (.number, "1"), punct ",", (.identifier, "A"), punct ".",
      (.identifier, "x"), op "->", (.identifier, "m"), punct "(", (.identifier, "x"), op "->",
      (.identifier, "y"), punct ",", punct "(", punct ")", op "->", (.identifier, "y"), punct ")",
      punct ";", word "case", op "-", (.number, "1"), op "->", punct "(", punct ")", op "->",
      punct "\x7b", word "switch", punct "(", (.identifier, "y"), punct ")", punct "\x7b",
      word "case", word "null", op "->", (.identifier, "m"), punct "(", punct ")", punct ";",
      punct "\x7d", punct "\x7d", punct ";", word "default", op "->", (.identifier, "x"),
      punct ";", punct "\x7d"]
    rw [Code.ofSource_eq_ofChars java _ hchars, show java = _ from Language.Java.canonical_eq]
    decide +kernel
  have hopening : ∃ forest, detect java (Code.ofSource java Branching.nestedMethod) = .ok forest ∧
      forest.entities.toList.map (·.opening) = [7] := by
    rw [Code.ofSource_eq_ofChars java _ hchars, show java = _ from Language.Java.canonical_eq]
    exact exists_ok_of_view (by decide +kernel)
  obtain ⟨ds, hfinds, hds⟩ := hmethod _ _ _ hfaces
  have hlength : ((Branching.nested a x y m).marked false).length = 52 := rfl
  obtain ⟨r, -, hr, -⟩ := hfinds.of_marked hds.marked (by rw [hlength]; decide)
  refine ⟨r, hr, fun f hf => ?_⟩
  obtain ⟨forest, hforest, hall⟩ := hany r hr
  obtain ⟨forest', hforest', hmap⟩ := hopening
  obtain rfl : forest = forest' := Except.ok.inj (hforest.symm.trans hforest')
  obtain ⟨e, he, htells⟩ := hall f hf
  have hspell := (Code.spells_append.mp (Code.spells_methodUnit hfaces).2).1
  rw [← opening_of_single hmap he] at hspell
  exact ⟨(htells hspell).cases, (htells hspell).lambdas⟩

/-- A lambda that is the value of a rule counts nothing. -/
theorem analyze_switchArrows_direct :
    ∃ (c m : Ident) (type : Primitive) (ss : Branching.Stmts),
      (Code.ofSource java Branching.directMethod).faces = methodUnit c type m ss.faces ∧
        ss.cases = 1 ∧ ss.lambdas = 1 ∧
        ∃ r, ({} : Engine).analyze "C.java" Branching.directMethod "java" = .ok r ∧
          r.readings = [("f", 2, [(.case, 34)])] := by
  let x : Name java := ⟨"x", Language.Java.letters _ (by decide)⟩
  let y : Name java := ⟨"y", Language.Java.letters _ (by decide)⟩
  have hl : Registry.builtin.lookup? "java" = some java := rfl
  refine ⟨⟨"C", by decide +kernel⟩, ⟨"f", by decide +kernel⟩, ⟨"void", by decide⟩,
    Branching.direct x y, ?_, rfl, rfl, ?_⟩
  · change _ = methodUnit _ _ _ [word "switch", punct "(", (.identifier, "x"), punct ")",
      punct "\x7b", word "case", (.number, "1"), op "->", (.identifier, "x"), op "->",
      (.identifier, "y"), punct ";", punct "\x7d"]
    rw [Code.ofSource_eq_ofChars java Branching.directMethod rfl,
      show java = _ from Language.Java.canonical_eq]
    decide +kernel
  · rw [Engine.analyze_of_lookup? hl, analyzeIn,
      Code.ofSource_eq_ofChars java Branching.directMethod rfl,
      show java = _ from Language.Java.canonical_eq]
    exact exists_ok_of_view (by decide +kernel)

end Cyclomatic
