import Cyclomatic.Proofs.Levels
import Cyclomatic.Proofs.Reading.Functions

/-!
# Ternaries

Bodies of declarations and returns in Java.  A question mark is a ternary in an expression and a
wildcard in a generic type.  The scorer tells them apart by the tokens on both sides.

`Expr.marked` marks the ternaries of an expression whose middle operand passes a test.  A reader
marks them all.  The scorer does not mark those whose middle operand starts with `super`, because
that keyword also stands behind the question mark of a wildcard with a lower bound.
-/

namespace Cyclomatic

open JavaCore

namespace Question

/-! ## Types -/

mutual

/-- A type. -/
inductive Ty where
  | name (n : Name java)
  | generic (n : Name java) (args : TyArgs)

/-- What stands between the angles of a generic type. -/
inductive TyArgs where
  | any
  | upper (n : Name java)
  | lower (n : Name java)
  | types (first : Ty) (more : Tys)
  | anyThen (t : Ty)

/-- Types behind commas. -/
inductive Tys where
  | nil
  | cons (t : Ty) (rest : Tys)

end

mutual

/-- The tokens of a type. -/
def Ty.faces : Ty → List Face
  | .name n => [n.face]
  | .generic n args => n.face :: op "<" :: (args.faces ++ [op ">"])

def TyArgs.faces : TyArgs → List Face
  | .any => [op "?"]
  | .upper n => [op "?", word "extends", n.face]
  | .lower n => [op "?", word "super", n.face]
  | .types first more => first.faces ++ more.faces
  | .anyThen t => op "?" :: punct "," :: t.faces

def Tys.faces : Tys → List Face
  | .nil => []
  | .cons t rest => punct "," :: (t.faces ++ rest.faces)

end

/-! ## Expressions -/

mutual

/-- An expression. -/
inductive Expr where
  | name (x : Name java)
  | this
  | super (m : Name java) (args : Args)
  | call (m : Name java) (args : Args)
  | paren (e : Expr)
  | and (a b : Expr)
  | or (a b : Expr)
  | choose (c a b : Expr)

/-- The arguments of a call. -/
inductive Args where
  | nil
  | cons (first : Expr) (more : More)

/-- Arguments behind commas. -/
inductive More where
  | nil
  | cons (e : Expr) (rest : More)

end

variable (sees : Expr → Bool)

mutual

/-- The tokens of an expression.  The question mark of a ternary is marked if its middle operand
passes the test. -/
def Expr.marked : Expr → List Marked
  | .name x => [(x.face, none)]
  | .this => [(word "this", none)]
  | .super m args =>
    (word "super", none) :: (punct ".", none) :: (m.face, none) :: (punct "(", none) ::
      (args.marked ++ [(punct ")", none)])
  | .call m args => (m.face, none) :: (punct "(", none) :: (args.marked ++ [(punct ")", none)])
  | .paren e => (punct "(", none) :: (e.marked ++ [(punct ")", none)])
  | .and a b => a.marked ++ (op "&&", some .logical) :: b.marked
  | .or a b => a.marked ++ (op "||", some .logical) :: b.marked
  | .choose c a b =>
    c.marked ++ (op "?", if sees a then some .ternary else none) ::
      (a.marked ++ (op ":", none) :: b.marked)

def Args.marked : Args → List Marked
  | .nil => []
  | .cons first more => first.marked ++ more.marked

def More.marked : More → List Marked
  | .nil => []
  | .cons e rest => (punct ",", none) :: (e.marked ++ rest.marked)

end

mutual

/-- The middle operands of all ternaries pass the test. -/
def Expr.all : Expr → Bool
  | .name _ | .this => true
  | .super _ args | .call _ args => args.all
  | .paren e => e.all
  | .and a b | .or a b => a.all && b.all
  | .choose c a b => c.all && sees a && a.all && b.all

def Args.all : Args → Bool
  | .nil => true
  | .cons first more => first.all && more.all

def More.all : More → Bool
  | .nil => true
  | .cons e rest => e.all && rest.all

end

mutual

/-- The number of ternaries in an expression. -/
def Expr.ternaries : Expr → Nat
  | .name _ | .this => 0
  | .super _ args | .call _ args => args.ternaries
  | .paren e => e.ternaries
  | .and a b | .or a b => a.ternaries + b.ternaries
  | .choose c a b => c.ternaries + a.ternaries + b.ternaries + 1

def Args.ternaries : Args → Nat
  | .nil => 0
  | .cons first more => first.ternaries + more.ternaries

def More.ternaries : More → Nat
  | .nil => 0
  | .cons e rest => e.ternaries + rest.ternaries

end

mutual

/-- The tokens of an expression. -/
def Expr.faces : Expr → List Face
  | .name x => [x.face]
  | .this => [word "this"]
  | .super m args => word "super" :: punct "." :: m.face :: parens args.faces
  | .call m args => m.face :: parens args.faces
  | .paren e => parens e.faces
  | .and a b => a.faces ++ op "&&" :: b.faces
  | .or a b => a.faces ++ op "||" :: b.faces
  | .choose c a b => c.faces ++ op "?" :: (a.faces ++ op ":" :: b.faces)

def Args.faces : Args → List Face
  | .nil => []
  | .cons first more => first.faces ++ more.faces

def More.faces : More → List Face
  | .nil => []
  | .cons e rest => punct "," :: (e.faces ++ rest.faces)

end

/-- The expression starts with the keyword `super`. -/
def Expr.startsSuper : Expr → Bool
  | .super .. => true
  | .name _ | .this | .call .. | .paren _ => false
  | .and a _ | .or a _ => a.startsSuper
  | .choose c _ _ => c.startsSuper

/-! ## Statements -/

/-- A statement. -/
inductive Stmt where
  | declare (t : Ty) (x : Name java) (e : Expr)
  | ret (e : Expr)

/-- The tokens of a statement, with marks on its decisions. -/
def Stmt.marked : Stmt → List Marked
  | .declare t x e =>
    unmarked t.faces ++ (x.face, none) :: (op "=", none) :: (e.marked sees ++ [(punct ";", none)])
  | .ret e => (word "return", none) :: (e.marked sees ++ [(punct ";", none)])

/-- The tokens of a statement. -/
def Stmt.faces : Stmt → List Face
  | .declare t x e => t.faces ++ x.face :: op "=" :: (e.faces ++ [punct ";"])
  | .ret e => word "return" :: (e.faces ++ [punct ";"])

/-- The expression of a statement. -/
def Stmt.expr : Stmt → Expr
  | .declare _ _ e => e
  | .ret e => e

/-- The tokens of statements, with marks on their decisions. -/
def body (ss : List Stmt) : List Marked := ss.flatMap (Stmt.marked sees)

/-- The tokens of statements. -/
def bodyFaces (ss : List Stmt) : List Face := ss.flatMap Stmt.faces

/-! ## Lemmas on the tokens -/

mutual

/-- Marks leave the tokens of an expression as they are. -/
@[simp] theorem Expr.facesOf_marked : (e : Expr) → facesOf (e.marked sees) = e.faces
  | .name _ => rfl
  | .this => rfl
  | .super m args => by simp [Expr.marked, Expr.faces, parens, args.facesOf_marked]
  | .call m args => by simp [Expr.marked, Expr.faces, parens, args.facesOf_marked]
  | .paren e => by simp [Expr.marked, Expr.faces, parens, e.facesOf_marked]
  | .and a b => by simp [Expr.marked, Expr.faces, a.facesOf_marked, b.facesOf_marked]
  | .or a b => by simp [Expr.marked, Expr.faces, a.facesOf_marked, b.facesOf_marked]
  | .choose c a b => by
    simp [Expr.marked, Expr.faces, c.facesOf_marked, a.facesOf_marked, b.facesOf_marked]

@[simp] theorem Args.facesOf_marked : (args : Args) → facesOf (args.marked sees) = args.faces
  | .nil => rfl
  | .cons first more => by
    simp [Args.marked, Args.faces, first.facesOf_marked, more.facesOf_marked]

@[simp] theorem More.facesOf_marked : (more : More) → facesOf (more.marked sees) = more.faces
  | .nil => rfl
  | .cons e rest => by simp [More.marked, More.faces, e.facesOf_marked, rest.facesOf_marked]

end

@[simp] theorem Stmt.facesOf_marked (s : Stmt) : facesOf (s.marked sees) = s.faces := by
  cases s <;> simp [Stmt.marked, Stmt.faces]

/-- Marks leave the tokens of a body as they are. -/
@[simp] theorem facesOf_body (ss : List Stmt) : facesOf (body sees ss) = bodyFaces ss := by
  induction ss with
  | nil => rfl
  | cons s ss ih =>
    rw [body, List.flatMap_cons, facesOf_append, s.facesOf_marked]
    exact congrArg (s.faces ++ ·) ih

theorem Expr.length_marked (e : Expr) : (e.marked sees).length = e.faces.length := by
  rw [← length_facesOf, e.facesOf_marked]

theorem Args.length_marked (args : Args) : (args.marked sees).length = args.faces.length := by
  rw [← length_facesOf, args.facesOf_marked]

theorem Stmt.length_marked (s : Stmt) : (s.marked sees).length = s.faces.length := by
  rw [← length_facesOf, s.facesOf_marked]

mutual

/-- A reader marks the same ternaries if and only if all of them are seen. -/
theorem Expr.marked_eq_iff : (e : Expr) →
    (e.marked sees = e.marked (fun _ => true) ↔ e.all sees = true)
  | .name _ => by simp [Expr.marked, Expr.all]
  | .this => by simp [Expr.marked, Expr.all]
  | .super _ args => by simp [Expr.marked, Expr.all, args.marked_eq_iff]
  | .call _ args => by simp [Expr.marked, Expr.all, args.marked_eq_iff]
  | .paren e => by simp [Expr.marked, Expr.all, e.marked_eq_iff]
  | .and a b => by
    simp [Expr.marked, Expr.all, append_eq_append_iff, Expr.length_marked, a.marked_eq_iff,
      b.marked_eq_iff]
  | .or a b => by
    simp [Expr.marked, Expr.all, append_eq_append_iff, Expr.length_marked, a.marked_eq_iff,
      b.marked_eq_iff]
  | .choose c a b => by
    simp [Expr.marked, Expr.all, append_eq_append_iff, Expr.length_marked, c.marked_eq_iff,
      a.marked_eq_iff, b.marked_eq_iff, and_assoc]

theorem Args.marked_eq_iff : (args : Args) →
    (args.marked sees = args.marked (fun _ => true) ↔ args.all sees = true)
  | .nil => by simp [Args.marked, Args.all]
  | .cons first more => by
    simp [Args.marked, Args.all, append_eq_append_iff, Expr.length_marked, first.marked_eq_iff,
      more.marked_eq_iff]

theorem More.marked_eq_iff : (more : More) →
    (more.marked sees = more.marked (fun _ => true) ↔ more.all sees = true)
  | .nil => by simp [More.marked, More.all]
  | .cons e rest => by
    simp [More.marked, More.all, append_eq_append_iff, Expr.length_marked, e.marked_eq_iff,
      rest.marked_eq_iff]

end

theorem Stmt.marked_eq_iff (s : Stmt) :
    s.marked sees = s.marked (fun _ => true) ↔ s.expr.all sees = true := by
  cases s <;> simp [Stmt.marked, Stmt.expr, Expr.marked_eq_iff]

/-- The marks are those of a reader if and only if the middle operands of all ternaries pass the
test. -/
theorem body_eq_iff (ss : List Stmt) :
    body sees ss = body (fun _ => true) ss ↔ ss.all (·.expr.all sees) = true := by
  induction ss with
  | nil => simp [body]
  | cons s ss ih =>
    have hlen : (s.marked sees).length = (s.marked fun _ => true).length := by
      rw [Stmt.length_marked, Stmt.length_marked]
    simp only [body, List.flatMap_cons, append_eq_append_iff hlen, s.marked_eq_iff, List.all_cons,
      Bool.and_eq_true]
    exact and_congr_right' ih

mutual

/-- A reader sees each ternary once. -/
theorem Expr.countMarks_marked : (e : Expr) →
    countMarks .ternary (e.marked fun _ => true) = e.ternaries
  | .name _ => rfl
  | .this => rfl
  | .super _ args => by simp [Expr.marked, Expr.ternaries, args.countMarks_marked]
  | .call _ args => by simp [Expr.marked, Expr.ternaries, args.countMarks_marked]
  | .paren e => by simp [Expr.marked, Expr.ternaries, e.countMarks_marked]
  | .and a b => by simp [Expr.marked, Expr.ternaries, a.countMarks_marked, b.countMarks_marked]
  | .or a b => by simp [Expr.marked, Expr.ternaries, a.countMarks_marked, b.countMarks_marked]
  | .choose c a b => by
    simp [Expr.marked, Expr.ternaries, c.countMarks_marked, a.countMarks_marked,
      b.countMarks_marked]
    omega

theorem Args.countMarks_marked : (args : Args) →
    countMarks .ternary (args.marked fun _ => true) = args.ternaries
  | .nil => rfl
  | .cons first more => by
    simp [Args.marked, Args.ternaries, first.countMarks_marked, more.countMarks_marked]

theorem More.countMarks_marked : (more : More) →
    countMarks .ternary (more.marked fun _ => true) = more.ternaries
  | .nil => rfl
  | .cons e rest => by
    simp [More.marked, More.ternaries, e.countMarks_marked, rest.countMarks_marked]

end

theorem countMarks_body (ss : List Stmt) :
    countMarks .ternary (body (fun _ => true) ss) = (ss.map (·.expr.ternaries)).sum := by
  induction ss with
  | nil => rfl
  | cons s ss ih =>
    have hs : countMarks .ternary (s.marked fun _ => true) = s.expr.ternaries := by
      cases s <;> simp [Stmt.marked, Stmt.expr, Expr.countMarks_marked]
    rw [body, List.flatMap_cons, countMarks_append, hs, List.map_cons, List.sum_cons]
    exact congrArg (s.expr.ternaries + ·) ih

mutual

/-- The tokens of a type are tidy: no bracket is left open, and none is a literal. -/
theorem Ty.tidy_faces : (t : Ty) → Tidy t.faces
  | .name _ => .cons rfl .nil
  | .generic _ args => .cons rfl (.cons rfl (args.tidy_faces.append (.cons rfl .nil)))

theorem TyArgs.tidy_faces : (args : TyArgs) → Tidy args.faces
  | .any => .cons rfl .nil
  | .upper _ => .cons rfl (.cons rfl (.cons rfl .nil))
  | .lower _ => .cons rfl (.cons rfl (.cons rfl .nil))
  | .types first more => first.tidy_faces.append more.tidy_faces
  | .anyThen t => .cons rfl (.cons rfl t.tidy_faces)

theorem Tys.tidy_faces : (ts : Tys) → Tidy ts.faces
  | .nil => .nil
  | .cons t rest => .cons rfl (t.tidy_faces.append rest.tidy_faces)

end

mutual

theorem Expr.tidy_faces : (e : Expr) → Tidy e.faces
  | .name _ => .cons rfl .nil
  | .this => .cons rfl .nil
  | .super _ args => .cons rfl (.cons rfl (.cons rfl args.tidy_faces.parens))
  | .call _ args => .cons rfl args.tidy_faces.parens
  | .paren e => e.tidy_faces.parens
  | .and a b => a.tidy_faces.append (.cons rfl b.tidy_faces)
  | .or a b => a.tidy_faces.append (.cons rfl b.tidy_faces)
  | .choose c a b => c.tidy_faces.append (.cons rfl (a.tidy_faces.append (.cons rfl b.tidy_faces)))

theorem Args.tidy_faces : (args : Args) → Tidy args.faces
  | .nil => .nil
  | .cons first more => first.tidy_faces.append more.tidy_faces

theorem More.tidy_faces : (more : More) → Tidy more.faces
  | .nil => .nil
  | .cons e rest => .cons rfl (e.tidy_faces.append rest.tidy_faces)

end

theorem Stmt.tidy_faces : (s : Stmt) → Tidy s.faces
  | .declare t _ e =>
    t.tidy_faces.append (.cons rfl (.cons rfl (e.tidy_faces.append (.cons rfl .nil))))
  | .ret e => .cons rfl (e.tidy_faces.append (.cons rfl .nil))

theorem tidy_bodyFaces (ss : List Stmt) : Tidy (bodyFaces ss) := by
  induction ss with
  | nil => exact .nil
  | cons s ss ih => exact s.tidy_faces.append ih

end Question

/-! ## Generic lists -/

namespace Code

variable {code : Code} {first k k' k'' d d' d'' : Nat}

theorem isOp_of_face {f : Face} (h : code.face? k = some f) (o : String) :
    code.isOp k o = (f.1 == .operator && f.2 == o) := by
  obtain ⟨t, ht, hk, hs⟩ := face?_cases h
  simp [isOp, ht, hk, hs]

/-- The search for the end of a generic list gives up, or comes from one token to another. -/
def Comes (code : Code) (first d k d' k' : Nat) : Prop :=
  code.anglesFrom first d k = .ok none ∨
    code.anglesFrom first d k = code.anglesFrom first d' k'

theorem Comes.refl : Comes code first d k d k := Or.inr rfl

/-- Two ways of the search, one behind the other, make one. -/
theorem Comes.trans (h : Comes code first d k d' k') (h' : Comes code first d' k' d'' k'') :
    Comes code first d k d'' k'' := by
  rcases h with h | h
  · exact Or.inl h
  · unfold Comes
    rwa [h]

/-- A face that is no bracket neither opens nor closes one. -/
theorem noBracket_of_face {f : Face} (h : code.face? k = some f)
    (hf : JavaCore.isBracket f = false) :
    code.opensBracket k = false ∧ code.closesBracket k = false := by
  have hne : ∀ {p}, p ∈ bracketTexts → code.isPunct k p ≠ true := by
    intro p hp hpunct
    rw [isPunct_of_face h, Bool.and_eq_true, beq_iff_eq, beq_iff_eq] at hpunct
    have hall : ∀ p ∈ bracketTexts, JavaCore.isBracket (punct p) = true := by decide
    rw [show f = punct p from Prod.ext hpunct.1 hpunct.2, hall p hp] at hf
    cases hf
  constructor
  · refine Bool.eq_false_iff.mpr fun hopen => ?_
    obtain ⟨b, hb⟩ := exists_opening hopen
    exact hne (by cases b <;> decide) hb
  · refine Bool.eq_false_iff.mpr fun hclose => ?_
    obtain ⟨b, hb⟩ := exists_closing hclose
    exact hne (by cases b <;> decide) hb

/-- The search passes over any token but angles, brackets and ends. -/
theorem comes_token {f : Face} (h : code.face? k = some f) (hbracket : JavaCore.isBracket f = false)
    (hf : f.2 ∉ ["<", ">", ";", "&&", "||"]) : Comes code first d k d (k + 1) := by
  simp only [List.mem_cons, List.not_mem_nil, or_false, not_or] at hf
  obtain ⟨hopen, hclose⟩ := noBracket_of_face h hbracket
  unfold Comes
  rw [anglesFrom, dif_pos (lt_size_of_face h)]
  split
  · exact Or.inl rfl
  · exact Or.inr (by simp [isOp_of_face h, isPunct_of_face h, hopen, hclose, hf])

/-- An opening angle raises the depth. -/
theorem comes_open (h : code.face? k = some (op "<")) : Comes code first d k (d + 1) (k + 1) := by
  unfold Comes
  rw [anglesFrom, dif_pos (lt_size_of_face h)]
  split
  · exact Or.inl rfl
  · exact Or.inr (by simp [isOp_of_face h])

/-- A closing angle lowers the depth, as long as the list stays open. -/
theorem comes_close (h : code.face? k = some (op ">")) (hd : 2 ≤ d) :
    Comes code first d k (d - 1) (k + 1) := by
  unfold Comes
  rw [anglesFrom, dif_pos (lt_size_of_face h)]
  split
  · exact Or.inl rfl
  · right
    rw [if_neg (by simp [isOp_of_face h]), if_pos (by simp [isOp_of_face h]), if_neg (by omega),
      if_neg (by omega)]

/-- At the closing angle of the list itself, the search ends. -/
theorem anglesFrom_close (h : code.face? k = some (op ">")) :
    code.anglesFrom first 1 k = .ok none ∨ code.anglesFrom first 1 k = .ok (some (k + 1)) := by
  rw [anglesFrom, dif_pos (lt_size_of_face h)]
  split
  · exact Or.inl rfl
  · exact Or.inr (by simp [isOp_of_face h])

end Code

/-! ## Reading types -/

/-- Texts that are no names. -/
def Language.Java.symbols : List String :=
  ["(", "[", "\x7b", "<", ">", ",", ";", ")", ":", "&&", "||", "extends", "super"]

/-- The words with a meaning are no names of Java. -/
theorem Language.Java.nameless :
    (java.specials ++ Language.Java.symbols).all (!java.isName ·) = true := by
  rw [show java = _ from Language.Java.canonical_eq]
  decide +kernel

/-- The tokens of types, expressions and statements that make no decision. -/
theorem Language.Java.plain : ∀ f ∈ [punct "(", punct ")", punct ",", punct ";", punct ".", op "<",
    op ">", op "=", op ":", word "this", word "super", word "extends", word "return"],
    java.isPlain f = true := by
  decide

namespace Question

open Code

variable {code : Code} {i : Nat}

theorem name_special (n : Name java) : n.text ∉ java.specials := by
  have h := n.not_mem Language.Java.nameless
  rw [List.mem_append, not_or] at h
  exact h.1

theorem name_absent (n : Name java) {words : List String}
    (h : words.all Language.Java.symbols.contains = true) : n.text ∉ words := by
  have hsymbols := n.not_mem Language.Java.nameless
  rw [List.mem_append, not_or] at hsymbols
  intro hmem
  exact hsymbols.2 (List.contains_iff_mem.mp (List.all_eq_true.mp h _ hmem))

theorem name_super (n : Name java) : (n.text == "super") = false := by
  have hne : n.text ∉ ["super"] := name_absent n (by decide)
  exact beq_eq_false_iff_ne.mpr fun h => hne (List.mem_singleton.mpr h)

theorem comes_name {n : Name java} {first : Nat} {d : Nat} (h : code.face? i = some n.face) :
    Comes code first d i d (i + 1) :=
  comes_token h n.isBracket_face (name_absent n (by decide))

mutual

/-- The search for the end of a generic list passes a type in it. -/
theorem Ty.comes : (t : Ty) → {i first : Nat} → {d : Nat} → code.Spells i t.faces → 1 ≤ d →
    Comes code first d i d (i + t.faces.length)
  | .name n, i, _, _, h, _ => comes_name (spells_cons.mp h).1
  | .generic n args, i, first, d, h, hd => by
    rw [Ty.faces] at h ⊢
    obtain ⟨hn, h⟩ := spells_cons.mp h
    obtain ⟨hopen, h⟩ := spells_cons.mp h
    obtain ⟨hargs, h⟩ := spells_append.mp h
    have hclose : Comes code first (d + 1) _ (d + 1 - 1) _ :=
      comes_close (spells_cons.mp h).1 (by omega)
    rw [Nat.add_sub_cancel] at hclose
    refine at_cons (P := Comes code first d i d) (at_cons (P := Comes code first d i d)
      (at_append (P := Comes code first d i d) ?_))
    have hinner := (comes_open hopen).trans ((args.comes hargs (by omega)).trans hclose)
    exact (comes_name hn).trans hinner

theorem TyArgs.comes : (args : TyArgs) → {i first : Nat} → {d : Nat} → code.Spells i args.faces →
    1 ≤ d → Comes code first d i d (i + args.faces.length)
  | .any, i, _, _, h, _ => comes_token (spells_cons.mp h).1 rfl (by decide)
  | .upper n, i, _, _, h, _ => by
    obtain ⟨hmark, h⟩ := spells_cons.mp h
    obtain ⟨hword, h⟩ := spells_cons.mp h
    exact (comes_token hmark rfl (by decide)).trans ((comes_token hword rfl (by decide)).trans
      (comes_name (spells_cons.mp h).1))
  | .lower n, i, _, _, h, _ => by
    obtain ⟨hmark, h⟩ := spells_cons.mp h
    obtain ⟨hword, h⟩ := spells_cons.mp h
    exact (comes_token hmark rfl (by decide)).trans ((comes_token hword rfl (by decide)).trans
      (comes_name (spells_cons.mp h).1))
  | .types first more, i, start, d, h, hd => by
    obtain ⟨hfirst, hmore⟩ := spells_append.mp h
    exact at_append (P := Comes code start d i d)
      ((first.comes hfirst hd).trans (more.comes hmore hd))
  | .anyThen t, i, start, d, h, hd => by
    obtain ⟨hmark, h⟩ := spells_cons.mp h
    obtain ⟨hcomma, ht⟩ := spells_cons.mp h
    refine at_cons (P := Comes code start d i d) (at_cons (P := Comes code start d i d) ?_)
    exact (comes_token hmark rfl (by decide)).trans ((comes_token hcomma rfl (by decide)).trans
      (t.comes ht hd))

theorem Tys.comes : (ts : Tys) → {i first : Nat} → {d : Nat} → code.Spells i ts.faces → 1 ≤ d →
    Comes code first d i d (i + ts.faces.length)
  | .nil, _, _, _, _, _ => .refl
  | .cons t rest, i, first, d, h, hd => by
    obtain ⟨hcomma, h⟩ := spells_cons.mp h
    obtain ⟨ht, hrest⟩ := spells_append.mp h
    refine at_cons (P := Comes code first d i d) (at_append (P := Comes code first d i d) ?_)
    exact (comes_token hcomma rfl (by decide)).trans ((t.comes ht hd).trans (rest.comes hrest hd))

end

/-- The generic list of a type ends right behind it. -/
theorem skipAngles?_generic {args : TyArgs}
    (h : code.Spells i (op "<" :: (args.faces ++ [op ">"]))) :
    code.skipAngles? i = none ∨
      code.skipAngles? i = some (i + (op "<" :: (args.faces ++ [op ">"])).length) := by
  obtain ⟨hopen, h⟩ := spells_cons.mp h
  obtain ⟨hargs, h⟩ := spells_append.mp h
  have hclose := (spells_cons.mp h).1
  have hstart : Comes code i 0 i (0 + 1) (i + 1) := comes_open hopen
  have hpath := hstart.trans (args.comes hargs (by omega))
  have hend : code.anglesFrom i 1 _ = .ok none ∨ code.anglesFrom i 1 _ = .ok (some _) :=
    anglesFrom_close hclose
  have hlen : i + 1 + args.faces.length + 1 = i + (op "<" :: (args.faces ++ [op ">"])).length := by
    simp only [List.length_cons, List.length_append, List.length_nil]
    omega
  rw [hlen] at hend
  rw [skipAngles?, skipAngles, if_pos (by simp [text_of_face hopen])]
  rcases hpath with hnone | heq
  · rw [hnone]
    exact Or.inl rfl
  · rw [heq]
    rcases hend with hnone | hsome
    · rw [hnone]
      exact Or.inl rfl
    · rw [hsome]
      exact Or.inr rfl

/-! ### The tokens of a type -/

/-- What may stand behind a type. -/
structure TypeEnd (code : Code) (j : Nat) : Prop where
  /-- A token that continues no type and opens no parameters. -/
  face : ∃ g, code.face? j = some g ∧ g.2 ∉ ["(", "<", "[", "\x7b"]
  /-- Behind a name comes no body of a type. -/
  container : code.isKind j .identifier = true → code.containerBrace? javaRules (j + 1) = none

/-- A type ends at a symbol that opens nothing. -/
theorem typeEnd_symbol {f : Face} (h : code.face? i = some f) (hkind : f.1 ≠ .identifier)
    (hf : f.2 ∉ ["(", "<", "[", "\x7b"]) : TypeEnd code i :=
  ⟨⟨f, h, hf⟩, fun hid => by rw [isKind_of_face h, beq_iff_eq] at hid; exact absurd hid hkind⟩

/-- The name of a type starts no function. -/
theorem reads_typeName {n : Name java} {g : Face} {ms : List Marked}
    (hn : code.face? i = some n.face) (hg : code.face? (i + 1) = some g)
    (hbrace : g ≠ punct "\x7b") (hcontainer : code.containerAt? javaRules i = none)
    (hend : ∀ {f}, code.face? (code.skipTypeParams javaRules (i + 1)) = some f → f.2 ≠ "(")
    (h : Reads code java (i + 1) ms) : Reads code java i ((n.face, none) :: ms) := by
  have hspecial := name_special n
  simp only [Language.specials, List.mem_append, not_or] at hspecial
  refine h.cons (quiet_of_name hn hcontainer hspecial.1.1 hspecial.1.2 hg hbrace
    fun hparams => ?_) (categoryAt_eq_none hn hspecial.2)
  exact absurd rfl (hend (face?_of_isPunct (params?_eq_some.mp hparams).1))

/-- The question mark of a wildcard makes no decision. -/
theorem reads_wildcard {ms : List Marked} (hopen : code.face? i = some (op "<"))
    (h : code.face? (i + 1) = some (op "?")) (hms : Reads code java (i + 1 + 1) ms) :
    Reads code java (i + 1) ((op "?", none) :: ms) := by
  refine hms.cons (quiet_of_isQuiet h (by decide)) ?_
  rw [categoryAt, ruleAt?_of_mem (by decide) ternaryRule_mem h (Or.inr rfl), if_neg]
  · rfl
  · simp [ternaryRule, guardHolds, guardFits, neighbourFits, textBefore?, text_of_face hopen]

theorem reads_plain {f : Face} {ms : List Marked} (h : code.face? i = some f)
    (hf : f ∈ [punct "(", punct ")", punct ",", punct ";", punct ".", op "<", op ">", op "=",
      op ":", word "this", word "super", word "extends", word "return"])
    (hms : Reads code java (i + 1) ms) : Reads code java i ((f, none) :: ms) :=
  hms.plain h (Language.Java.plain f hf)

/-- A list of types ends like the type before it. -/
theorem typeEnd_more {ts : Tys} (h : code.Spells i ts.faces)
    (hend : code.face? (i + ts.faces.length) = some (op ">")) : TypeEnd code i := by
  cases ts with
  | nil => exact typeEnd_symbol hend (by decide) (by decide)
  | cons t rest => exact typeEnd_symbol (spells_cons.mp h).1 (by decide) (by decide)

/-- A name alone is a type. -/
theorem reads_name {n : Name java} (hn : code.face? i = some n.face)
    (hend : TypeEnd code (i + 1)) : Reads code java i [(n.face, none)] := by
  obtain ⟨g, hg, hne⟩ := hend.face
  simp only [List.mem_cons, List.not_mem_nil, or_false, not_or] at hne
  have hcontainer : code.containerAt? javaRules i = none := by
    unfold containerAt?
    split
    · rename_i hid
      rw [hend.container (Bool.and_eq_true .. ▸ hid).2]
      rfl
    · rfl
  refine reads_typeName hn hg (fun heq => hne.2.2.2 (by rw [heq])) hcontainer
    (fun {f} hf => ?_) .nil
  rw [skipTypeParams_of_face hg hne.2.1 hne.2.2.1, hg] at hf
  rw [← Option.some.inj hf]
  exact hne.1

mutual

/-- Nothing starts in a type, and no token of it makes a decision. -/
theorem Ty.reads : (t : Ty) → {i : Nat} → code.Spells i t.faces →
    TypeEnd code (i + t.faces.length) → Reads code java i (unmarked t.faces)
  | .name n, i, h, hend => reads_name (spells_cons.mp h).1 hend
  | .generic n args, i, h, hend => by
    rw [Ty.faces] at h hend ⊢
    obtain ⟨hn, h⟩ := spells_cons.mp h
    have hlist := h
    obtain ⟨hopen, h⟩ := spells_cons.mp h
    obtain ⟨hargs, h⟩ := spells_append.mp h
    have hclose := (spells_cons.mp h).1
    obtain ⟨g, hg, hne⟩ := hend.face
    simp only [List.mem_cons, List.not_mem_nil, or_false, not_or] at hne
    have hlen : i + (n.face :: op "<" :: (args.faces ++ [op ">"])).length =
        i + 1 + (op "<" :: (args.faces ++ [op ">"])).length := by
      simp only [List.length_cons]
      omega
    rw [hlen] at hg
    have hlast : Reads code java _ [(op ">", none)] := reads_plain hclose (by decide) .nil
    have hinner := args.reads hopen hargs hclose
    rw [← length_unmarked args.faces] at hlast
    rw [unmarked_cons, unmarked_cons, unmarked_append]
    refine reads_typeName hn hopen (by decide) (containerAt?_of_next hopen (by decide))
      (fun {f} hf => ?_) (reads_plain hopen (by decide) (hinner.append hlast))
    -- The search for the end of the list gives up at the angle, or comes to the end of the type.
    rw [skipTypeParams_java] at hf
    rcases skipAngles?_generic hlist with hnone | hskip
    · rw [hnone, Option.getD_none, hopen] at hf
      rw [← Option.some.inj hf]
      decide
    · rw [hskip, Option.getD_some, hg] at hf
      rw [← Option.some.inj hf]
      exact hne.1

theorem TyArgs.reads : (args : TyArgs) → {i : Nat} → code.face? i = some (op "<") →
    code.Spells (i + 1) args.faces → code.face? (i + 1 + args.faces.length) = some (op ">") →
      Reads code java (i + 1) (unmarked args.faces)
  | .any, i, hopen, h, _ => reads_wildcard hopen (spells_cons.mp h).1 .nil
  | .upper n, i, hopen, h, hclose => by
    obtain ⟨hmark, h⟩ := spells_cons.mp h
    obtain ⟨hword, h⟩ := spells_cons.mp h
    have hbound := reads_name (spells_cons.mp h).1 (typeEnd_symbol hclose (by decide) (by decide))
    exact reads_wildcard hopen hmark (reads_plain hword (by decide) hbound)
  | .lower n, i, hopen, h, hclose => by
    obtain ⟨hmark, h⟩ := spells_cons.mp h
    obtain ⟨hword, h⟩ := spells_cons.mp h
    have hbound := reads_name (spells_cons.mp h).1 (typeEnd_symbol hclose (by decide) (by decide))
    exact reads_wildcard hopen hmark (reads_plain hword (by decide) hbound)
  | .types first more, i, hopen, h, hclose => by
    obtain ⟨hfirst, hmore⟩ := spells_append.mp h
    rw [TyArgs.faces, List.length_append, ← Nat.add_assoc] at hclose
    have hreads := more.reads hmore hclose
    rw [← length_unmarked first.faces] at hreads
    rw [TyArgs.faces, unmarked_append]
    exact (first.reads hfirst (typeEnd_more hmore hclose)).append hreads
  | .anyThen t, i, hopen, h, hclose => by
    obtain ⟨hmark, h⟩ := spells_cons.mp h
    obtain ⟨hcomma, ht⟩ := spells_cons.mp h
    have hend : code.face? (i + 1 + 1 + 1 + t.faces.length) = some (op ">") := by
      rw [← hclose, TyArgs.faces, List.length_cons, List.length_cons]
      congr 1
      omega
    have hreads := t.reads ht (typeEnd_symbol hend (by decide) (by decide))
    exact reads_wildcard hopen hmark (reads_plain hcomma (by decide) hreads)

theorem Tys.reads : (ts : Tys) → {i : Nat} → code.Spells i ts.faces →
    code.face? (i + ts.faces.length) = some (op ">") → Reads code java i (unmarked ts.faces)
  | .nil, _, _, _ => .nil
  | .cons t rest, i, h, hclose => by
    obtain ⟨hcomma, h⟩ := spells_cons.mp h
    obtain ⟨ht, hrest⟩ := spells_append.mp h
    have hend : code.face? (i + 1 + t.faces.length + rest.faces.length) = some (op ">") := by
      rw [← hclose, Tys.faces, List.length_cons, List.length_append]
      congr 1
      omega
    have hreads := rest.reads hrest hend
    rw [← length_unmarked t.faces] at hreads
    rw [Tys.faces, unmarked_cons, unmarked_append]
    exact reads_plain hcomma (by decide)
      ((t.reads ht (typeEnd_more hrest hend)).append hreads)

end

/-! ## Reading expressions -/

/-- The scorer does not see a ternary whose middle operand starts with `super`. -/
def sees (e : Expr) : Bool := !e.startsSuper

/-- What follows an expression is no name, opens nothing and starts no clause. -/
theorem afterExpr_facts {g : Face} (hg : g ∈ afterExpr) :
    g.1 ≠ .identifier ∧ g.2 ∉ ["(", "<", "[", "\x7b"] ∧ g.2 ∉ ["throws"] := by
  revert hg
  revert g
  decide

/-- The first token of an expression. -/
theorem Expr.head : (e : Expr) → ∃ f fs, e.faces = f :: fs ∧
    f.2 ∉ ["extends", ">", ",", ")", ":"] ∧ (f.2 == "super") = e.startsSuper
  | .name x => ⟨x.face, [], rfl, name_absent x (by decide), name_super x⟩
  | .this => ⟨_, _, rfl, by decide, rfl⟩
  | .super m args => ⟨_, _, rfl, by decide, rfl⟩
  | .call m args => ⟨m.face, _, rfl, name_absent m (by decide), name_super m⟩
  | .paren e => ⟨_, _, rfl, by decide, rfl⟩
  | .and a b => by
    obtain ⟨f, fs, hfs, hne, hsuper⟩ := a.head
    exact ⟨f, fs ++ op "&&" :: b.faces, by rw [Expr.faces, hfs]; rfl, hne, hsuper⟩
  | .or a b => by
    obtain ⟨f, fs, hfs, hne, hsuper⟩ := a.head
    exact ⟨f, fs ++ op "||" :: b.faces, by rw [Expr.faces, hfs]; rfl, hne, hsuper⟩
  | .choose c a b => by
    obtain ⟨f, fs, hfs, hne, hsuper⟩ := c.head
    exact ⟨f, fs ++ op "?" :: (a.faces ++ op ":" :: b.faces), by rw [Expr.faces, hfs]; rfl, hne,
      hsuper⟩

/-- The last token of an expression. -/
theorem Expr.last : (e : Expr) → ∃ fs f, e.faces = fs ++ [f] ∧ f.2 ∉ ["<", ","]
  | .name x => ⟨[], x.face, rfl, name_absent x (by decide)⟩
  | .this => ⟨[], _, rfl, by decide⟩
  | .super m args =>
    ⟨word "super" :: punct "." :: m.face :: punct "(" :: args.faces, _, rfl, by decide⟩
  | .call m args => ⟨m.face :: punct "(" :: args.faces, _, rfl, by decide⟩
  | .paren e => ⟨punct "(" :: e.faces, _, rfl, by decide⟩
  | .and a b => by
    obtain ⟨fs, f, hfs, hne⟩ := b.last
    exact ⟨a.faces ++ op "&&" :: fs, f, by simp [Expr.faces, hfs], hne⟩
  | .or a b => by
    obtain ⟨fs, f, hfs, hne⟩ := b.last
    exact ⟨a.faces ++ op "||" :: fs, f, by simp [Expr.faces, hfs], hne⟩
  | .choose c a b => by
    obtain ⟨fs, f, hfs, hne⟩ := b.last
    exact ⟨c.faces ++ op "?" :: (a.faces ++ op ":" :: fs), f, by simp [Expr.faces, hfs], hne⟩

/-- The question mark of a ternary is a decision unless `super` stands behind it. -/
theorem categoryAt_question {k : Nat} {f g : Face} (hf : code.face? k = some f)
    (h : code.face? (k + 1) = some (op "?")) (hg : code.face? (k + 1 + 1) = some g)
    (hbefore : f.2 ∉ ["<", ","]) (hafter : g.2 ∉ ["extends", ">", ",", ")", ":"]) :
    code.categoryAt java (k + 1) = if !(g.2 == "super") then some .ternary else none := by
  simp only [List.mem_cons, List.not_mem_nil, or_false, not_or] at hbefore hafter
  have hguard : code.guardHolds java ternaryRule.guard [] (k + 1) = !(g.2 == "super") := by
    by_cases hsuper : g.2 = "super" <;>
      simp [ternaryRule, guardHolds, guardFits, neighbourFits, textBefore?, textAfter?, blockWord?,
        lt_size_of_face hg, text_of_face hf, text_of_face hg, hbefore, hafter, hsuper]
  rw [categoryAt, ruleAt?_of_mem (by decide) ternaryRule_mem h (Or.inr rfl), hguard]
  split <;> rfl

/-- The name of a call and its arguments. -/
theorem reads_call (hp : code.Paired) {m : Name java} {args : List Face} {inner : List Marked}
    {g : Face} (hfaces : facesOf inner = args) (hargs : Balanced args)
    (h : code.Spells i (m.face :: parens args))
    (hg : code.face? (i + (m.face :: parens args).length) = some g) (hend : g ∈ afterExpr)
    (hinner : Reads code java (i + 1 + 1) inner) :
    Reads code java i ((m.face, none) :: (punct "(", none) :: (inner ++ [(punct ")", none)])) := by
  have hspecial := name_special m
  simp only [Language.specials, List.mem_append, not_or] at hspecial
  obtain ⟨hkind, hne, hthrows⟩ := afterExpr_facts hend
  obtain ⟨hm, hparens⟩ := spells_cons.mp h
  obtain ⟨hopen, -, hclose⟩ := spells_parens hparens
  have hbrace : g ≠ punct "\x7b" := fun heq => hne (by rw [heq]; decide)
  have hnext : code.face? (i + 1 + (parens args).length) = some g := by
    rw [← hg, List.length_cons]
    congr 1
    omega
  have hquiet := quiet_of_call hp h hargs hspecial.1.1 hspecial.1.2 hnext hbrace
    (Option.some_ne_none g.2).symm hthrows rfl
  rw [← hfaces, length_facesOf] at hclose
  exact (hinner.group hopen hclose (by decide) (by decide) .nil).cons hquiet
    (categoryAt_eq_none hm hspecial.2)

/-- A logical operator is a decision. -/
theorem reads_logical {o : String} {ms : List Marked} (h : code.face? i = some (op o))
    (ho : o = "&&" ∨ o = "||") (hms : Reads code java (i + 1) ms) :
    Reads code java i ((op o, some .logical) :: ms) := by
  have hquiet : java.isQuiet (op o) = true := by rcases ho with rfl | rfl <;> decide
  have hr : { token := o, category := .logical } ∈ java.decisions := by
    rcases ho with rfl | rfl <;> decide
  exact hms.cons (quiet_of_isQuiet h hquiet) (categoryAt_of_mem (by decide) h (Or.inr rfl) hr)

/-- The question mark between two operands. -/
theorem categoryAt_choose {c a : Expr} (hc : code.Spells i c.faces)
    (hmark : code.face? (i + c.faces.length) = some (op "?"))
    (ha : code.Spells (i + c.faces.length + 1) a.faces) :
    code.categoryAt java (i + c.faces.length) = if sees a then some .ternary else none := by
  obtain ⟨fs, f, hfs, hbefore⟩ := c.last
  obtain ⟨g, gs, hgs, hafter, hsuper⟩ := a.head
  have hlen : i + c.faces.length = i + fs.length + 1 := by
    rw [hfs, List.length_append, List.length_singleton, Nat.add_assoc]
  rw [hfs] at hc
  have hf := (spells_cons.mp (spells_append.mp hc).2).1
  rw [hgs] at ha
  have hg := (spells_cons.mp ha).1
  rw [hlen] at hmark hg ⊢
  rw [categoryAt_question hf hmark hg hbefore hafter, hsuper]
  rfl

/-- Behind an argument comes a comma or the parenthesis. -/
theorem next_more {more : More} (h : code.Spells i more.faces)
    (hclose : code.face? (i + more.faces.length) = some (punct ")")) :
    ∃ g, code.face? i = some g ∧ g ∈ afterExpr := by
  cases more with
  | nil => exact ⟨_, hclose, by decide⟩
  | cons e rest => exact ⟨_, (spells_cons.mp h).1, by decide⟩

mutual

/-- The scorer sees the marked ternaries of an expression, and its conjunctions and disjunctions. -/
theorem Expr.reads (hp : code.Paired) : (e : Expr) → {i : Nat} → {g : Face} →
    code.Spells i e.faces → code.face? (i + e.faces.length) = some g → g ∈ afterExpr →
      Reads code java i (e.marked sees)
  | .name x, i, g, h, hg, hend => by
    obtain ⟨hkind, hne, -⟩ := afterExpr_facts hend
    exact Reads.nil.lone (name_special x) (spells_cons.mp h).1 hg hkind hne
  | .this, i, g, h, _, _ => reads_plain (spells_cons.mp h).1 (by decide) .nil
  | .super m args, i, g, h, hg, hend => by
    obtain ⟨hsuper, h⟩ := spells_cons.mp h
    obtain ⟨hpoint, h⟩ := spells_cons.mp h
    obtain ⟨-, hargs, hclose⟩ := spells_parens (spells_cons.mp h).2
    have hnext : code.face? (i + 1 + 1 + (m.face :: parens args.faces).length) = some g := by
      rw [← hg]
      simp only [Expr.faces, List.length_cons]
      congr 1
      omega
    exact reads_plain hsuper (by decide) (reads_plain hpoint (by decide)
      (reads_call hp (args.facesOf_marked sees) args.tidy_faces.balanced h hnext hend
        (args.reads hp hargs hclose)))
  | .call m args, i, g, h, hg, hend => by
    obtain ⟨-, hargs, hclose⟩ := spells_parens (spells_cons.mp h).2
    exact reads_call hp (args.facesOf_marked sees) args.tidy_faces.balanced h hg hend
      (args.reads hp hargs hclose)
  | .paren e, i, g, h, _, _ => by
    obtain ⟨hopen, he, hclose⟩ := spells_parens h
    have hinner := e.reads hp he hclose (by decide)
    rw [← e.length_marked sees] at hclose
    exact hinner.group hopen hclose (by decide) (by decide) .nil
  | .and a b, i, g, h, hg, hend => by
    obtain ⟨ha, h⟩ := spells_append.mp h
    obtain ⟨hop, hb⟩ := spells_cons.mp h
    rw [Expr.faces, List.length_append, List.length_cons, Nat.add_comm b.faces.length,
      ← Nat.add_assoc, ← Nat.add_assoc] at hg
    have hright := reads_logical hop (Or.inl rfl) (b.reads hp hb hg hend)
    rw [← a.length_marked sees] at hright
    exact (a.reads hp ha hop (by decide)).append hright
  | .or a b, i, g, h, hg, hend => by
    obtain ⟨ha, h⟩ := spells_append.mp h
    obtain ⟨hop, hb⟩ := spells_cons.mp h
    rw [Expr.faces, List.length_append, List.length_cons, Nat.add_comm b.faces.length,
      ← Nat.add_assoc, ← Nat.add_assoc] at hg
    have hright := reads_logical hop (Or.inr rfl) (b.reads hp hb hg hend)
    rw [← a.length_marked sees] at hright
    exact (a.reads hp ha hop (by decide)).append hright
  | .choose c a b, i, g, h, hg, hend => by
    obtain ⟨hc, h⟩ := spells_append.mp h
    obtain ⟨hmark, h⟩ := spells_cons.mp h
    obtain ⟨ha, h⟩ := spells_append.mp h
    obtain ⟨hcolon, hb⟩ := spells_cons.mp h
    have hlen : i + (Expr.choose c a b).faces.length =
        i + c.faces.length + 1 + a.faces.length + 1 + b.faces.length := by
      simp only [Expr.faces, List.length_append, List.length_cons]
      omega
    rw [hlen] at hg
    have hright := reads_plain hcolon (by decide) (b.reads hp hb hg hend)
    rw [← a.length_marked sees] at hright
    have hbranches := (a.reads hp ha hcolon (by decide)).append hright
    have hdecision := hbranches.cons (f := op "?") (quiet_of_isQuiet hmark (by decide))
      (categoryAt_choose hc hmark ha)
    rw [← c.length_marked sees] at hdecision
    exact (c.reads hp hc hmark (by decide)).append hdecision

/-- The arguments of a call. -/
theorem Args.reads (hp : code.Paired) : (args : Args) → {i : Nat} → code.Spells i args.faces →
    code.face? (i + args.faces.length) = some (punct ")") → Reads code java i (args.marked sees)
  | .nil, _, _, _ => .nil
  | .cons first more, i, h, hclose => by
    obtain ⟨hfirst, hmore⟩ := spells_append.mp h
    rw [Args.faces, List.length_append, ← Nat.add_assoc] at hclose
    obtain ⟨g, hg, hend⟩ := next_more hmore hclose
    have hreads := more.reads hp hmore hclose
    rw [← first.length_marked sees] at hreads
    exact (first.reads hp hfirst hg hend).append hreads

theorem More.reads (hp : code.Paired) : (more : More) → {i : Nat} → code.Spells i more.faces →
    code.face? (i + more.faces.length) = some (punct ")") → Reads code java i (more.marked sees)
  | .nil, _, _, _ => .nil
  | .cons e rest, i, h, hclose => by
    obtain ⟨hcomma, h⟩ := spells_cons.mp h
    obtain ⟨he, hrest⟩ := spells_append.mp h
    have hlen : i + (More.cons e rest).faces.length =
        i + 1 + e.faces.length + rest.faces.length := by
      simp only [More.faces, List.length_append, List.length_cons]
      omega
    rw [hlen] at hclose
    obtain ⟨g, hg, hend⟩ := next_more hrest hclose
    have hreads := rest.reads hp hrest hclose
    rw [← e.length_marked sees] at hreads
    exact reads_plain hcomma (by decide) ((e.reads hp he hg hend).append hreads)

end

/-! ## Reading statements -/

/-- Behind the type of a declaration comes its name. -/
theorem typeEnd_name {x : Name java} (hx : code.face? i = some x.face)
    (heq : code.face? (i + 1) = some (op "=")) : TypeEnd code i := by
  refine ⟨⟨x.face, hx, name_absent x (by decide)⟩, fun _ => ?_⟩
  rw [containerBrace?, dif_pos (lt_size_of_face heq)]
  simp [isPunct_of_face heq, isOp_of_face heq]

/-- The expression of a statement and the semicolon. -/
theorem reads_value (hp : code.Paired) {e : Expr} (h : code.Spells i (e.faces ++ [punct ";"])) :
    Reads code java i (e.marked sees ++ [(punct ";", none)]) := by
  obtain ⟨he, hlast⟩ := spells_append.mp h
  have hsemi := (spells_cons.mp hlast).1
  have hend : Reads code java _ [(punct ";", none)] := reads_plain hsemi (by decide) .nil
  rw [← e.length_marked sees] at hend
  exact (e.reads hp he hsemi (by decide)).append hend

/-- The scorer reads a statement as it is marked. -/
theorem Stmt.reads (hp : code.Paired) (s : Stmt) (h : code.Spells i s.faces) :
    Reads code java i (s.marked sees) := by
  cases s with
  | declare t x e =>
    obtain ⟨ht, h⟩ := spells_append.mp h
    obtain ⟨hx, h⟩ := spells_cons.mp h
    obtain ⟨heq, hvalue⟩ := spells_cons.mp h
    have htype := t.reads ht (typeEnd_name hx heq)
    have hrest : Reads code java _ ((x.face, none) :: (op "=", none) ::
        (e.marked sees ++ [(punct ";", none)])) :=
      (reads_plain heq (by decide) (reads_value hp hvalue)).lone (name_special x) hx heq
        (by decide) (by decide)
    rw [← length_unmarked t.faces] at hrest
    exact htype.append hrest
  | ret e =>
    obtain ⟨hword, hvalue⟩ := spells_cons.mp h
    exact reads_plain hword (by decide) (reads_value hp hvalue)

/-- The scorer reads a body as it is marked. -/
theorem reads_body (hp : code.Paired) {ss : List Stmt} (h : code.Spells i (bodyFaces ss)) :
    Reads code java i (body sees ss) := by
  induction ss generalizing i with
  | nil => exact .nil
  | cons s ss ih =>
    rw [bodyFaces, List.flatMap_cons] at h
    obtain ⟨hs, hss⟩ := spells_append.mp h
    have hrest := ih hss
    rw [← s.length_marked sees] at hrest
    exact (s.reads hp hs).append hrest

/-- What the decisions of a function say of the statements of its body, which opens at a brace. -/
structure Tells (code : Code) (opening : Nat) (ss : List Stmt) (ds : List Decision) : Prop where
  /-- They are those that the scorer sees. -/
  marked : ds.map Decision.place = code.placed (opening + 1) (body sees ss)
  /-- They are those that a reader sees exactly where no middle operand starts with `super`. -/
  read : ds.map Decision.place = code.placed (opening + 1) (body (fun _ => true) ss) ↔
    ss.all (·.expr.all sees) = true
  /-- Then each ternary counts once. -/
  ternaries : ss.all (·.expr.all sees) = true →
    ds.countP (·.category == .ternary) = (ss.map (·.expr.ternaries)).sum

/-- Decisions at the marks tell what there is to tell of the statements. -/
theorem tells_of_marked {opening : Nat} {ss : List Stmt} {ds : List Decision} (hlaid : code.Laid)
    (hspell : code.Spells (opening + 1) (bodyFaces ss))
    (hds : ds.map Decision.place = code.placed (opening + 1) (body sees ss)) :
    Tells code opening ss ds := by
  have hread : code.placed (opening + 1) (body sees ss) =
      code.placed (opening + 1) (body (fun _ => true) ss) ↔ ss.all (·.expr.all sees) = true := by
    rw [placed_inj hlaid (by rw [facesOf_body]; exact hspell) (by rw [facesOf_body, facesOf_body])
      (by rw [facesOf_body]; exact (tidy_bodyFaces ss).solid)]
    exact body_eq_iff sees ss
  refine ⟨hds, by rw [hds, hread], fun hall => ?_⟩
  rw [countP_of_placed (hds.trans (hread.mpr hall)), countMarks_body]

end Question

/-! ## The ternaries of a method -/

open Question

/-- In Java, the decisions of a body of the grammar are those that the scorer sees.  No wildcard is
one of them.  They are those of a reader, and each ternary counts once, if and only if no middle
operand starts with `super`.  A method of a class with such a body is found. -/
theorem analyze_ternaries (file source : String) (ss : List Question.Stmt) :
    (∀ r, ({} : Engine).analyze file source "java" = .ok r →
      ∃ forest, detect java (Code.ofSource java source) = .ok forest ∧ ∀ f ∈ r.all, ∃ e,
        forest.at? f.id = some e ∧
          ((Code.ofSource java source).Spells e.opening (braces (bodyFaces ss)) →
            Tells (Code.ofSource java source) e.opening ss f.decisions)) ∧
    ∀ (c m : Ident) (type : Primitive),
      (Code.ofSource java source).faces = methodUnit c type m (bodyFaces ss) →
        ∃ ds, FindsOne (({} : Engine).analyze file source "java") m.text ds ∧
          Tells (Code.ofSource java source) 7 ss ds := by
  have hl : Registry.builtin.lookup? "java" = some java := rfl
  have hp := Code.paired_ofSource java source
  have hlaid := Code.laid_ofSource java source
  have hbalanced : Balanced (facesOf (body sees ss)) := by
    rw [facesOf_body]
    exact (tidy_bodyFaces ss).balanced
  constructor
  · intro r hr
    obtain ⟨forest, hforest, hall⟩ := analyze_reads hl hr
    refine ⟨forest, hforest, fun f hf => ?_⟩
    obtain ⟨e, he, -, hplaces⟩ := hall f hf
    refine ⟨e, he, fun hspell => ?_⟩
    have hinner := (Code.spells_braces hspell).2.1
    have hreads := reads_body hp hinner
    refine tells_of_marked hlaid hinner ?_
    rw [← facesOf_body sees] at hspell
    refine hplaces (body sees ss) hspell hbalanced hreads fun x _ _ _ => ?_
    exact Language.Java.blockless.not_mem_blockWords _
  · intro c m type hfaces
    have hbraces := (Code.spells_append.mp (Code.spells_methodUnit hfaces).2).1
    have hinner := (Code.spells_braces hbraces).2.1
    rw [← facesOf_body sees] at hfaces
    obtain ⟨ds, hfinds, hplaces⟩ :=
      analyze_methodUnit file source hfaces hbalanced (reads_body hp hinner)
    exact ⟨ds, hfinds, tells_of_marked hlaid hinner hplaces⟩

/-- Names of Java for types and variables. -/
theorem Language.Java.letters : ∀ s ∈ ["N", "A", "x", "y", "m"], java.isName s = true := by
  rw [show java = _ from Language.Java.canonical_eq]
  decide +kernel

namespace Question

/-- A declaration with two wildcards and with a ternary as middle operand of another. -/
def nested (n a x m : Name java) : List Stmt :=
  [.declare (.generic n (.types (.generic n .any) (.cons (.generic n (.lower a)) .nil))) x
    (.choose (.name x) (.choose (.and (.name x) .this) (.call m .nil) (.name x))
      (.paren (.super m (.cons (.name x) .nil))))]

/-- A ternary with a call of `super` as middle operand. -/
def hidden (a x m : Name java) : List Stmt := [.ret (.choose (.name a) (.super m .nil) (.name x))]

/-- A method with the statement `nested`, over two lines. -/
def nestedMethod : String :=
  "class C \x7b int f() \x7b N<N<?>, N<? super A>> x = x ? x && this ? m() : x :\n" ++
    "(super.m(x)); \x7d \x7d"

/-- A method with the statement `hidden`. -/
def hiddenMethod : String :=
  "class C \x7b int f() \x7b return A ? super.m() : x; \x7d \x7d"

end Question

/-- A method with two ternaries and two wildcards. -/
theorem analyze_ternaries_nested :
    ∃ r, ({} : Engine).analyze "C.java" nestedMethod "java" = .ok r ∧
      ∀ f ∈ r.all, f.decisions.countP (·.category == .ternary) = 2 := by
  let n : Name java := ⟨"N", Language.Java.letters _ (by decide)⟩
  let a : Name java := ⟨"A", Language.Java.letters _ (by decide)⟩
  let x : Name java := ⟨"x", Language.Java.letters _ (by decide)⟩
  let m : Name java := ⟨"m", Language.Java.letters _ (by decide)⟩
  obtain ⟨hany, hmethod⟩ := analyze_ternaries "C.java" nestedMethod (nested n a x m)
  have hchars : nestedMethod = String.ofList _ := append_eq_ofList rfl rfl
  have hfaces : (Code.ofSource java nestedMethod).faces =
      methodUnit ⟨"C", by decide +kernel⟩ ⟨"int", by decide⟩ ⟨"f", by decide +kernel⟩
        (bodyFaces (nested n a x m)) := by
    change _ = methodUnit _ _ _ [(.identifier, "N"), op "<", (.identifier, "N"), op "<", op "?",
      op ">", punct ",", (.identifier, "N"), op "<", op "?", word "super", (.identifier, "A"),
      op ">", op ">", (.identifier, "x"), op "=", (.identifier, "x"), op "?", (.identifier, "x"),
      op "&&", word "this", op "?", (.identifier, "m"), punct "(", punct ")", op ":",
      (.identifier, "x"), op ":", punct "(", word "super", punct ".", (.identifier, "m"),
      punct "(", (.identifier, "x"), punct ")", punct ")", punct ";"]
    rw [Code.ofSource_eq_ofChars java _ hchars, show java = _ from Language.Java.canonical_eq]
    decide +kernel
  have hopening : ∃ forest, detect java (Code.ofSource java nestedMethod) = .ok forest ∧
      forest.entities.toList.map (·.opening) = [7] := by
    rw [Code.ofSource_eq_ofChars java _ hchars, show java = _ from Language.Java.canonical_eq]
    exact exists_ok_of_view (by decide +kernel)
  obtain ⟨ds, hfinds, hds⟩ := hmethod _ _ _ hfaces
  have hlength : (body sees (nested n a x m)).length = 37 := rfl
  obtain ⟨r, -, hr, -⟩ := hfinds.of_marked hds.marked (by rw [hlength]; decide)
  refine ⟨r, hr, fun f hf => ?_⟩
  obtain ⟨forest, hforest, hall⟩ := hany r hr
  obtain ⟨forest', hforest', hmap⟩ := hopening
  obtain rfl : forest = forest' := Except.ok.inj (hforest.symm.trans hforest')
  obtain ⟨e, he, htells⟩ := hall f hf
  have hspell := (Code.spells_append.mp (Code.spells_methodUnit hfaces).2).1
  rw [← opening_of_single hmap he] at hspell
  exact (htells hspell).ternaries rfl

/-- A ternary whose middle operand is a call of `super` counts nothing. -/
theorem analyze_ternary_super :
    ∃ (c m : Ident) (type : Primitive) (ss : List Question.Stmt),
      (Code.ofSource java hiddenMethod).faces = methodUnit c type m (bodyFaces ss) ∧
        (ss.map (·.expr.ternaries)).sum = 1 ∧
        ∃ r, ({} : Engine).analyze "C.java" hiddenMethod "java" = .ok r ∧
          r.readings = [("f", 1, [])] := by
  let a : Name java := ⟨"A", Language.Java.letters _ (by decide)⟩
  let x : Name java := ⟨"x", Language.Java.letters _ (by decide)⟩
  let m : Name java := ⟨"m", Language.Java.letters _ (by decide)⟩
  have hl : Registry.builtin.lookup? "java" = some java := rfl
  refine ⟨⟨"C", by decide +kernel⟩, ⟨"f", by decide +kernel⟩, ⟨"int", by decide⟩, hidden a x m, ?_,
    rfl, ?_⟩
  · change _ = methodUnit _ _ _ [word "return", (.identifier, "A"), op "?", word "super", punct ".",
      (.identifier, "m"), punct "(", punct ")", op ":", (.identifier, "x"), punct ";"]
    rw [Code.ofSource_eq_ofChars java hiddenMethod rfl,
      show java = _ from Language.Java.canonical_eq]
    decide +kernel
  · rw [Engine.analyze_of_lookup? hl, analyzeIn, Code.ofSource_eq_ofChars java hiddenMethod rfl,
      show java = _ from Language.Java.canonical_eq]
    exact exists_ok_of_view (by decide +kernel)

end Cyclomatic
