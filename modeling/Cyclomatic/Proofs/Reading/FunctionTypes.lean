import Cyclomatic.Proofs.Alike.Score
import Cyclomatic.Proofs.Reading.Functions

/-!
# Function types

The types of an annotation in Kotlin: names, generic types, function types and nullable types.  The
arrow of a function type looks like that of a lambda.  The scorer looks back from it to the token
before the parameters.

`Ty.marked` marks the arrows that the scorer takes for lambdas.  There are none if and only if no
parameter of a function type, apart from the first, is a function type itself
(`Ty.unmarked_iff`).
-/

namespace Cyclomatic

open JavaCore

/-- The table of Kotlin. -/
abbrev kotlin : Language := Language.Kotlin.table.canonical

namespace Annotation

/-! ## Types -/

mutual

/-- A type. -/
inductive Ty where
  | name (n : Name kotlin)
  | generic (n : Name kotlin) (first : Ty) (more : Tys)
  | thunk (result : Ty)
  | func (first : Ty) (more : Tys) (result : Ty)
  | nullable (t : Ty)

/-- The types of a list behind the first. -/
inductive Tys where
  | nil
  | cons (t : Ty) (rest : Tys)

end

mutual

/-- The tokens of a type. -/
def Ty.faces : Ty → List Face
  | .name n => [n.face]
  | .generic n first more => n.face :: op "<" :: (first.faces ++ (more.faces ++ [op ">"]))
  | .thunk result => parens [] ++ op "->" :: result.faces
  | .func first more result => parens (first.faces ++ more.faces) ++ op "->" :: result.faces
  | .nullable t => parens t.faces ++ [op "?"]

def Tys.faces : Tys → List Face
  | .nil => []
  | .cons t rest => punct "," :: (t.faces ++ rest.faces)

end

/-- A type is a function type, nullable or not. -/
def Ty.isFunction : Ty → Bool
  | .name _ | .generic .. => false
  | .thunk _ | .func .. => true
  | .nullable t => t.isFunction

/-- None of the types is a function type. -/
def Tys.noFunction : Tys → Bool
  | .nil => true
  | .cons t rest => !t.isFunction && rest.noFunction

mutual

/-- In a type, no parameter of a function type is a function type, apart from the first. -/
def Ty.plain : Ty → Bool
  | .name _ => true
  | .generic _ first more => first.plain && more.plain
  | .thunk result => result.plain
  | .func first more result =>
    first.plain && more.plain && more.noFunction && result.plain
  | .nullable t => t.plain

def Tys.plain : Tys → Bool
  | .nil => true
  | .cons t rest => t.plain && rest.plain

end

/-! ## What the scorer sees -/

/-- The arrow of a function type that the scorer does or does not count. -/
def arrow (counted : Bool) : Marked := (op "->", if counted then some .lambda else none)

mutual

/-- The tokens of a type with the arrows that the scorer takes for lambdas, where `counted` says
whether it does so with a function type in this place. -/
def Ty.marked (counted : Bool) : Ty → List Marked
  | .name n => [(n.face, none)]
  | .generic n first more =>
    (n.face, none) :: (op "<", none) ::
      (first.marked false ++ (more.marked false ++ [(op ">", none)]))
  | .thunk result =>
    (punct "(", none) :: (punct ")", none) :: arrow counted :: result.marked counted
  | .func first more result =>
    (punct "(", none) :: (first.marked counted ++ more.marked true ++
      (punct ")", none) :: arrow counted :: result.marked counted)
  | .nullable t => (punct "(", none) :: (t.marked counted ++ [(punct ")", none), (op "?", none)])

def Tys.marked (counted : Bool) : Tys → List Marked
  | .nil => []
  | .cons t rest => (punct ",", none) :: (t.marked counted ++ rest.marked counted)

end

mutual

@[simp] theorem Ty.facesOf_marked : (t : Ty) → (counted : Bool) →
    facesOf (t.marked counted) = t.faces
  | .name _, _ => rfl
  | .generic n first more, _ => by
    simp [Ty.marked, Ty.faces, first.facesOf_marked, more.facesOf_marked]
  | .thunk result, c => by simp [Ty.marked, Ty.faces, arrow, parens, result.facesOf_marked]
  | .func first more result, c => by
    simp [Ty.marked, Ty.faces, arrow, parens, first.facesOf_marked, more.facesOf_marked,
      result.facesOf_marked]
  | .nullable t, c => by simp [Ty.marked, Ty.faces, parens, t.facesOf_marked]

@[simp] theorem Tys.facesOf_marked : (ts : Tys) → (counted : Bool) →
    facesOf (ts.marked counted) = ts.faces
  | .nil, _ => rfl
  | .cons t rest, c => by
    simp [Tys.marked, Tys.faces, t.facesOf_marked, rest.facesOf_marked]

end

mutual

/-- No arrow is counted in a plain type in a place where the scorer expects a type, nor in any other
place if the type is no function type itself. -/
theorem Ty.unmarked_iff : (t : Ty) → (counted : Bool) →
    ((t.marked counted).all (·.2.isNone) = true ↔
      (counted && t.isFunction) = false ∧ t.plain = true)
  | .name _, _ => by simp [Ty.marked, Ty.isFunction, Ty.plain]
  | .generic _ first more, _ => by
    simp [Ty.marked, Ty.isFunction, Ty.plain, first.unmarked_iff, more.unmarked_iff]
  | .thunk result, c => by
    cases c <;> simp [Ty.marked, Ty.isFunction, Ty.plain, arrow, result.unmarked_iff]
  | .func first more result, c => by
    cases c <;> simp [Ty.marked, Ty.isFunction, Ty.plain, arrow, first.unmarked_iff,
      more.unmarked_iff, result.unmarked_iff]
    grind
  | .nullable t, c => by simp [Ty.marked, Ty.isFunction, Ty.plain, t.unmarked_iff]

theorem Tys.unmarked_iff : (ts : Tys) → (counted : Bool) →
    ((ts.marked counted).all (·.2.isNone) = true ↔
      (counted = true → ts.noFunction = true) ∧ ts.plain = true)
  | .nil, _ => by simp [Tys.marked, Tys.noFunction, Tys.plain]
  | .cons t rest, c => by
    cases c <;> simp [Tys.marked, Tys.noFunction, Tys.plain, t.unmarked_iff, rest.unmarked_iff]
    grind

end

mutual

theorem Ty.balanced_faces : (t : Ty) → Balanced t.faces
  | .name n => .cons n.isBracket_face .nil
  | .generic n first more =>
    have hmore := more.balanced_faces.append (.cons (f := op ">") rfl .nil)
    .cons n.isBracket_face (.cons rfl (first.balanced_faces.append hmore))
  | .thunk result => .group .round .nil (.cons rfl result.balanced_faces)
  | .func first more result => by
    rw [Ty.faces, parens, List.cons_append, List.append_assoc]
    exact .group .round (first.balanced_faces.append more.balanced_faces)
      (.cons rfl result.balanced_faces)
  | .nullable t => by
    rw [Ty.faces, parens, List.cons_append, List.append_assoc]
    exact .group .round t.balanced_faces (.cons rfl .nil)

theorem Tys.balanced_faces : (ts : Tys) → Balanced ts.faces
  | .nil => .nil
  | .cons t rest => .cons rfl (t.balanced_faces.append rest.balanced_faces)

end

end Annotation

/-! ## Looking back from an arrow -/

namespace Code

variable {code : Code} {l : Language} {i k : Nat}

/-- The parameters that open at a token are those of a function type. -/
def typedAt (code : Code) (l : Language) (i : Nat) : Bool :=
  match code.outermostParen i with
  | 0 => false
  | before + 1 => code.typeBefore l "->" before

theorem inTypePosition_arrow (hp : code.Paired) {inner : List Face}
    (h : code.Spells i (parens inner)) (hinner : Balanced inner)
    (harrow : code.face? (i + (parens inner).length) = some (op "->")) :
    code.inTypePosition l (i + (parens inner).length) = code.typedAt l i := by
  have hclose := (spells_parens h).2.2
  have hopener : code.opener? (i + 1 + inner.length) = some i := h.opener? hp .round hinner
  have hlen : i + (parens inner).length = i + 1 + inner.length + 1 := by
    rw [length_parens]
    omega
  rw [hlen] at harrow ⊢
  rw [inTypePosition_succ, isPunct_of_face hclose, hopener, text_of_face harrow]
  rfl

theorem typedAt_paren (h : code.face? i = some (punct "(")) :
    code.typedAt l (i + 1) = code.typedAt l i := by
  unfold typedAt
  rw [outermostParen, if_pos (by simp [isPunct_of_face h])]

theorem typedAt_token {f : Face} (h : code.face? i = some f) (hf : f.2 ≠ "(") :
    code.typedAt l (i + 1) = code.typeBefore l "->" i := by
  unfold typedAt
  rw [outermostParen, if_neg (by simp [isPunct_of_face h, hf])]

theorem insideAngles_token {f : Face} (h : code.face? k = some f)
    (hf : f.2 ∉ ["<", ">", "(", ")", "[", "]", "\x7b", "\x7d", ";", "="]) (depth : Nat) :
    code.insideAngles depth (k + 1) = code.insideAngles depth k := by
  simp only [List.mem_cons, List.not_mem_nil, or_false, not_or] at hf
  rw [insideAngles]
  simp [closesGroup, isPunct_of_face h, text_of_face h, hf]

theorem insideAngles_open (h : code.face? k = some (op "<")) (depth : Nat) :
    code.insideAngles depth (k + 1) =
      if depth = 0 then true else code.insideAngles (depth - 1) k := by
  rw [insideAngles]
  simp [closesGroup, isPunct_of_face h, text_of_face h]

theorem insideAngles_close (h : code.face? k = some (op ">")) (depth : Nat) :
    code.insideAngles depth (k + 1) = code.insideAngles (depth + 1) k := by
  rw [insideAngles]
  simp [closesGroup, isPunct_of_face h, text_of_face h]

theorem insideAngles_paren (h : code.face? k = some (punct "(")) (depth : Nat) :
    code.insideAngles depth (k + 1) = false := by
  rw [insideAngles]
  simp [closesGroup, isPunct_of_face h, text_of_face h]

theorem insideAngles_parens (hp : code.Paired) {inner : List Face}
    (h : code.Spells k (parens inner)) (hinner : Balanced inner) (depth : Nat) :
    code.insideAngles depth (k + (parens inner).length) = code.insideAngles depth k := by
  have hclose := (spells_parens h).2.2
  have hopener : code.opener? (k + 1 + inner.length) = some k := h.opener? hp .round hinner
  have hlen : k + (parens inner).length = k + 1 + inner.length + 1 := by
    rw [length_parens]
    omega
  rw [hlen, insideAngles, if_pos (by rw [closesGroup_of_face hclose]; rfl)]
  split
  · rename_i o ho
    cases hopener.symm.trans ho
    rfl
  · rename_i ho
    cases hopener.symm.trans ho

/-- The first rule for a token whose guard holds. -/
theorem ruleAt?_of_rules {kind : Kind} {token : String} {stack : List Frame}
    (h : code.face? k = some (kind, token)) (hk : kind = .keyword ∨ kind = .operator) :
    code.ruleAt? l stack k =
      (l.decisions.filter (·.token == token)).find? fun r => code.guardHolds l r.guard stack k := by
  rw [ruleAt?, if_pos (decides_of_face h hk), text_of_face h, List.find?_filter]
  simp only [Bool.decide_and, Bool.decide_eq_true]

end Code

/-! ## Reading types -/

/-- The rules of the arrow: in the block of a `when` it labels a branch. -/
theorem Language.Kotlin.arrowRules : kotlin.decisions.filter (·.token == "->") =
    [{ token := "->", category := .case,
       guard := { inBlockOf := ["when"], notPrecededBy := ["else"] } },
     { token := "->", category := .lambda,
       guard := { notInBlockOf := "when" :: Language.Kotlin.scopeFunctions,
                  notInTypePosition := true } }] := by
  decide

/-- The symbols and keywords of an annotation that make no decision. -/
theorem Language.Kotlin.plain : ∀ f ∈ [punct "(", punct ")", punct ",", op "<", op ">", op "?",
    op ":", op "=", word "val"], kotlin.isPlain f = true := by
  decide

/-- Names that introduce nothing, and that are no symbols. -/
theorem Language.Kotlin.names : (kotlin.signatures.introducers ++ kotlin.signatures.arrowBinders ++
    kotlin.signatures.containerKeywords ++
      ["<", ">", "(", ")", "[", "]", "\x7b", "\x7d", ";", "="]).all (!kotlin.isName ·) = true := by
  rw [show kotlin = _ from Language.Kotlin.canonical_eq]
  decide +kernel

/-- A name makes a decision only behind a point. -/
theorem Language.Kotlin.scopeNames : ∀ r ∈ kotlin.decisions, kotlin.isName r.token = true →
    r.guard.precededBy = [".", "?."] := by
  rw [show kotlin = _ from Language.Kotlin.canonical_eq]
  decide +kernel

namespace Annotation

open Code

variable {code : Code} {i : Nat}

/-- A place of a type, where the scorer does or does not count the arrow of a function type. -/
structure Place (code : Code) (i : Nat) (counted : Bool) : Prop where
  /-- The parameters of a function type in this place. -/
  typed : code.typedAt kotlin i = !counted
  /-- No point stands before it. -/
  before : (code.textBefore? i).any [".", "?."].contains = false

theorem categoryAt_arrow (h : code.face? i = some (op "->")) :
    code.categoryAt kotlin i = if code.inTypePosition kotlin i then none else some .lambda := by
  have hfree : ∀ t : Option String, t.any ([] : List String).contains = false := by
    intro t
    cases t <;> rfl
  rw [categoryAt, ruleAt?_of_rules h (Or.inr rfl), Language.Kotlin.arrowRules]
  cases htype : code.inTypePosition kotlin i <;>
    simp [guardHolds, guardFits, neighbourFits, blockWord?, htype, hfree]

theorem reads_name {n : Name kotlin} {ms : List Marked} (h : code.face? i = some n.face)
    (hbefore : (code.textBefore? i).any [".", "?."].contains = false)
    (hms : Reads code kotlin (i + 1) ms) : Reads code kotlin i ((n.face, none) :: ms) := by
  have hname := n.not_mem Language.Kotlin.names
  simp only [List.mem_append, not_or] at hname
  obtain ⟨⟨⟨hintro, hbind⟩, hcontainer⟩, -⟩ := hname
  refine hms.cons (quiet_of_untyped rfl rfl h hintro hbind hcontainer) ?_
  have hnone : code.ruleAt? kotlin [] i = none := by
    unfold ruleAt?
    split
    · refine List.find?_eq_none.mpr fun r hr hrule => ?_
      simp only [Bool.and_eq_true, beq_iff_eq, text_of_face h] at hrule
      have hpreceded := Language.Kotlin.scopeNames r hr (by rw [hrule.1]; exact n.valid)
      have hguard := hrule.2
      simp [guardHolds, guardFits, neighbourFits, hpreceded, hbefore] at hguard
    · rfl
  rw [categoryAt, hnone]
  rfl

/-- The arrow of a function type. -/
theorem reads_arrow {counted : Bool} {ms : List Marked} (h : code.face? i = some (op "->"))
    (htype : code.inTypePosition kotlin i = !counted) (hms : Reads code kotlin (i + 1) ms) :
    Reads code kotlin i (arrow counted :: ms) := by
  refine hms.cons (quiet_of_isQuiet h (by decide)) ?_
  rw [categoryAt_arrow h, htype]
  cases counted <;> rfl

/-- Behind the arrow of a function type stands a type in the same place. -/
theorem place_result {counted : Bool} (h : code.face? i = some (op "->"))
    (htype : code.inTypePosition kotlin i = !counted) : Place code (i + 1) counted := by
  refine ⟨?_, by rw [textBefore?, text_of_face h]; decide⟩
  rw [typedAt_token h (by decide), typeBefore, text_of_face h]
  exact htype

/-- Behind a parenthesis, too. -/
theorem place_paren {counted : Bool} (h : code.face? i = some (punct "("))
    (hi : Place code i counted) : Place code (i + 1) counted :=
  ⟨by rw [typedAt_paren h]; exact hi.typed, by rw [textBefore?, text_of_face h]; decide⟩

/-- Behind an opening angle, no arrow is counted. -/
theorem place_angle (h : code.face? i = some (op "<")) : Place code (i + 1) false := by
  refine ⟨?_, by rw [textBefore?, text_of_face h]; decide⟩
  rw [typedAt_token h (by decide), typeBefore, text_of_face h]
  rfl

/-- Behind a comma, the bracket around it decides. -/
theorem place_comma {counted : Bool} (h : code.face? i = some (punct ","))
    (hangles : code.insideAngles 0 i = !counted) : Place code (i + 1) counted := by
  refine ⟨?_, by rw [textBefore?, text_of_face h]; decide⟩
  rw [typedAt_token h (by decide), typeBefore, text_of_face h]
  exact hangles

/-- The search for the list of a separator comes from one token to another. -/
abbrev Skipped (code : Code) (depth i j : Nat) : Prop :=
  code.insideAngles depth j = code.insideAngles depth i

theorem skipped_arrow (hp : code.Paired) {inner : List Face} (h : code.Spells i (parens inner))
    (hinner : Balanced inner) (harrow : code.face? (i + (parens inner).length) = some (op "->"))
    (depth : Nat) : Skipped code depth i (i + (parens inner).length + 1) :=
  (insideAngles_token harrow (by decide) depth).trans (insideAngles_parens hp h hinner depth)

mutual

/-- The search for the list of a separator passes a type. -/
theorem Ty.walks (hp : code.Paired) : (t : Ty) → {i : Nat} → code.Spells i t.faces →
    ∀ depth, Skipped code depth i (i + t.faces.length)
  | .name n, i, h, depth => by
    have hname := n.not_mem Language.Kotlin.names
    simp only [List.mem_append, not_or] at hname
    exact insideAngles_token (spells_cons.mp h).1 hname.2 depth
  | .generic n first more, i, h, depth => by
    have hname := n.not_mem Language.Kotlin.names
    simp only [List.mem_append, not_or] at hname
    rw [Ty.faces] at h ⊢
    obtain ⟨hn, h⟩ := spells_cons.mp h
    obtain ⟨hopen, h⟩ := spells_cons.mp h
    obtain ⟨hfirst, h⟩ := spells_append.mp h
    obtain ⟨hmore, h⟩ := spells_append.mp h
    have hclose := (spells_cons.mp h).1
    refine at_cons (P := Skipped code depth i) (at_cons (P := Skipped code depth i)
      (at_append (P := Skipped code depth i) (at_append (P := Skipped code depth i) ?_)))
    change code.insideAngles depth (_ + 1) = _
    rw [insideAngles_close hclose, more.walks hp hmore, first.walks hp hfirst,
      insideAngles_open hopen, if_neg (Nat.succ_ne_zero depth), Nat.add_sub_cancel,
      insideAngles_token hn hname.2]
  | .thunk result, i, h, depth => by
    rw [Ty.faces] at h ⊢
    obtain ⟨hparens, h⟩ := spells_append.mp h
    obtain ⟨harrow, hresult⟩ := spells_cons.mp h
    refine at_append (P := Skipped code depth i) (at_cons (P := Skipped code depth i) ?_)
    exact (result.walks hp hresult depth).trans
      (skipped_arrow hp hparens .nil harrow depth)
  | .func first more result, i, h, depth => by
    rw [Ty.faces] at h ⊢
    obtain ⟨hparens, h⟩ := spells_append.mp h
    obtain ⟨harrow, hresult⟩ := spells_cons.mp h
    refine at_append (P := Skipped code depth i) (at_cons (P := Skipped code depth i) ?_)
    exact (result.walks hp hresult depth).trans (skipped_arrow hp hparens
      (first.balanced_faces.append more.balanced_faces) harrow depth)
  | .nullable t, i, h, depth => by
    rw [Ty.faces] at h ⊢
    obtain ⟨hparens, h⟩ := spells_append.mp h
    have hmark := (spells_cons.mp h).1
    refine at_append (P := Skipped code depth i) ?_
    exact (insideAngles_token hmark (by decide) depth).trans
      (insideAngles_parens hp hparens t.balanced_faces depth)

theorem Tys.walks (hp : code.Paired) : (ts : Tys) → {i : Nat} → code.Spells i ts.faces →
    ∀ depth, Skipped code depth i (i + ts.faces.length)
  | .nil, _, _, _ => rfl
  | .cons t rest, i, h, depth => by
    rw [Tys.faces] at h ⊢
    obtain ⟨hcomma, h⟩ := spells_cons.mp h
    obtain ⟨ht, hrest⟩ := spells_append.mp h
    refine at_cons (P := Skipped code depth i) (at_append (P := Skipped code depth i) ?_)
    rw [Skipped, rest.walks hp hrest, t.walks hp ht, insideAngles_token hcomma (by decide)]

end

mutual

/-- The scorer takes the marked arrows of a type for lambdas. -/
theorem Ty.reads (hp : code.Paired) : (t : Ty) → {i : Nat} → {counted : Bool} →
    code.Spells i t.faces → Place code i counted → Reads code kotlin i (t.marked counted)
  | .name n, i, _, h, hi => reads_name (spells_cons.mp h).1 hi.before .nil
  | .generic n first more, i, _, h, hi => by
    rw [Ty.faces] at h
    obtain ⟨hn, h⟩ := spells_cons.mp h
    obtain ⟨hopen, h⟩ := spells_cons.mp h
    obtain ⟨hfirst, h⟩ := spells_append.mp h
    obtain ⟨hmore, h⟩ := spells_append.mp h
    have hclose := (spells_cons.mp h).1
    have hangles : code.insideAngles 0 (i + 1 + 1 + first.faces.length) = !false := by
      rw [first.walks hp hfirst, insideAngles_open hopen]
      rfl
    have hlast : Reads code kotlin _ [(op ">", none)] :=
      Reads.nil.plain hclose (Language.Kotlin.plain _ (by decide))
    have hreads := first.reads hp hfirst (place_angle hopen)
    have hreads' := more.reads hp hmore hangles
    rw [← first.facesOf_marked false, length_facesOf] at hreads' hlast
    rw [← more.facesOf_marked false, length_facesOf] at hlast
    have hargs := (hreads.append (hreads'.append hlast)).plain hopen
      (Language.Kotlin.plain _ (by decide))
    exact reads_name hn hi.before hargs
  | .thunk result, i, counted, h, hi => by
    rw [Ty.faces] at h
    obtain ⟨hparens, h⟩ := spells_append.mp h
    obtain ⟨harrow, hresult⟩ := spells_cons.mp h
    obtain ⟨hopen, -, hclose⟩ := spells_parens hparens
    have htype : code.inTypePosition kotlin (i + (parens []).length) = !counted :=
      (inTypePosition_arrow hp hparens .nil harrow).trans hi.typed
    have hreads := reads_arrow harrow htype (result.reads hp hresult (place_result harrow htype))
    exact (hreads.plain hclose (Language.Kotlin.plain _ (by decide))).plain hopen
      (Language.Kotlin.plain _ (by decide))
  | .func first more result, i, counted, h, hi => by
    rw [Ty.faces] at h
    obtain ⟨hparens, h⟩ := spells_append.mp h
    obtain ⟨harrow, hresult⟩ := spells_cons.mp h
    obtain ⟨hopen, hinner, hclose⟩ := spells_parens hparens
    obtain ⟨hfirst, hmore⟩ := spells_append.mp hinner
    have htype := (inTypePosition_arrow hp hparens
      (first.balanced_faces.append more.balanced_faces) harrow).trans hi.typed
    have hangles : code.insideAngles 0 (i + 1 + first.faces.length) = !true := by
      rw [first.walks hp hfirst, insideAngles_paren hopen]
      rfl
    have hreads := first.reads hp hfirst (place_paren hopen hi)
    have hreads' := more.reads hp hmore hangles
    have harrows := reads_arrow harrow htype (result.reads hp hresult (place_result harrow htype))
    have hparams : (first.marked counted ++ more.marked true).length =
        (first.faces ++ more.faces).length := by
      rw [← length_facesOf, facesOf_append, first.facesOf_marked, more.facesOf_marked]
    have hlast : Reads code kotlin (i + 1 + (first.marked counted ++ more.marked true).length)
        ((punct ")", none) :: arrow counted :: result.marked counted) := by
      rw [hparams]
      refine Reads.plain hclose (Language.Kotlin.plain _ (by decide)) ?_
      rwa [length_parens, show i + ((first.faces ++ more.faces).length + 2) =
        i + 1 + (first.faces ++ more.faces).length + 1 by omega] at harrows
    rw [← first.facesOf_marked counted, length_facesOf] at hreads'
    exact ((hreads.append hreads').append hlast).plain hopen (Language.Kotlin.plain _ (by decide))
  | .nullable t, i, counted, h, hi => by
    rw [Ty.faces] at h
    obtain ⟨hparens, h⟩ := spells_append.mp h
    have hmark := (spells_cons.mp h).1
    obtain ⟨hopen, ht, hclose⟩ := spells_parens hparens
    rw [length_parens, show i + (t.faces.length + 2) = i + 1 + t.faces.length + 1 by omega] at hmark
    have hlast : Reads code kotlin _ [(punct ")", none), (op "?", none)] :=
      (Reads.nil.plain hmark (Language.Kotlin.plain _ (by decide))).plain hclose
        (Language.Kotlin.plain _ (by decide))
    rw [← t.facesOf_marked counted, length_facesOf] at hlast
    exact ((t.reads hp ht (place_paren hopen hi)).append hlast).plain hopen
      (Language.Kotlin.plain _ (by decide))

/-- The types of a list behind the first. -/
theorem Tys.reads (hp : code.Paired) : (ts : Tys) → {i : Nat} → {counted : Bool} →
    code.Spells i ts.faces → code.insideAngles 0 i = !counted →
      Reads code kotlin i (ts.marked counted)
  | .nil, _, _, _, _ => .nil
  | .cons t rest, i, counted, h, hi => by
    rw [Tys.faces] at h
    obtain ⟨hcomma, h⟩ := spells_cons.mp h
    obtain ⟨ht, hrest⟩ := spells_append.mp h
    have hangles : code.insideAngles 0 (i + 1 + t.faces.length) = !counted := by
      rw [t.walks hp ht, insideAngles_token hcomma (by decide), hi]
    have hreads := rest.reads hp hrest hangles
    rw [← t.facesOf_marked counted, length_facesOf] at hreads
    exact ((t.reads hp ht (place_comma hcomma hi)).append hreads).plain hcomma
      (Language.Kotlin.plain _ (by decide))

end

mutual

/-- No block opens in a type. -/
theorem Ty.brace_not_mem : (t : Ty) → punct "\x7b" ∉ t.faces
  | .name n => by simp [Ty.faces, Name.face]
  | .generic n first more => by
    simp [Ty.faces, Name.face, first.brace_not_mem, more.brace_not_mem]
  | .thunk result => by simp [Ty.faces, parens, result.brace_not_mem]
  | .func first more result => by
    simp [Ty.faces, parens, first.brace_not_mem, more.brace_not_mem, result.brace_not_mem]
  | .nullable t => by simp [Ty.faces, parens, t.brace_not_mem]

theorem Tys.brace_not_mem : (ts : Tys) → punct "\x7b" ∉ ts.faces
  | .nil => by simp [Tys.faces]
  | .cons t rest => by simp [Tys.faces, t.brace_not_mem, rest.brace_not_mem]

end

/-! ## An annotated value -/

/-- The tokens of a value with an annotation, with the arrows that the scorer takes for lambdas. -/
def markedValue (f : Name kotlin) (t : Ty) (g : Name kotlin) : List Marked :=
  (word "val", none) :: (f.face, none) :: (op ":", none) ::
    (t.marked false ++ [(op "=", none), (g.face, none)])

/-- The tokens of a value with an annotation. -/
def value (f : Name kotlin) (t : Ty) (g : Name kotlin) : List Face :=
  word "val" :: f.face :: op ":" :: (t.faces ++ [op "=", g.face])

@[simp] theorem facesOf_markedValue (f : Name kotlin) (t : Ty) (g : Name kotlin) :
    facesOf (markedValue f t g) = value f t g := by
  simp [markedValue, value]

theorem balanced_value (f : Name kotlin) (t : Ty) (g : Name kotlin) : Balanced (value f t g) := by
  have hlast : Balanced [op "=", g.face] := .cons rfl (.cons g.isBracket_face .nil)
  exact .cons rfl (.cons f.isBracket_face (.cons rfl (t.balanced_faces.append hlast)))

theorem brace_not_mem_value (f : Name kotlin) (t : Ty) (g : Name kotlin) :
    punct "\x7b" ∉ value f t g := by
  simp [value, Name.face, t.brace_not_mem]

/-- Only the type has marks. -/
theorem placed_markedValue (code : Code) (f : Name kotlin) (t : Ty) (g : Name kotlin) :
    code.placed i (markedValue f t g) = code.placed (i + 3) (t.marked false) := by
  have hlast : code.placed (i + 3 + (t.marked false).length)
      [(op "=", none), (g.face, none)] = [] := rfl
  change code.placed (i + 3) (t.marked false ++ _) = _
  rw [placed_append, hlast, List.append_nil]

/-- Behind the colon of an annotation stands a type. -/
theorem place_colon {f : Name kotlin} (hval : code.face? i = some (word "val"))
    (hf : code.face? (i + 1) = some f.face) (hcolon : code.face? (i + 2) = some (op ":")) :
    Place code (i + 3) false := by
  refine ⟨?_, by rw [textBefore?, text_of_face hcolon]; decide⟩
  have hname : code.isKind (i + 1) .identifier = true := by
    rw [isKind_of_face hf]
    rfl
  have hword : code.isWord i = true := by
    rw [isWord_of_face hval]
    rfl
  have hannotates : code.annotatesBinding kotlin (i + 2) = true := by
    rw [annotatesBinding, hname, hword, text_of_face hval]
    rfl
  rw [typedAt_token hcolon (by decide), typeBefore, text_of_face hcolon, hannotates]
  rfl

theorem reads_value (hp : code.Paired) {f g : Name kotlin} {t : Ty}
    (h : code.Spells i (value f t g)) : Reads code kotlin i (markedValue f t g) := by
  obtain ⟨hval, h⟩ := spells_cons.mp h
  obtain ⟨hf, h⟩ := spells_cons.mp h
  obtain ⟨hcolon, h⟩ := spells_cons.mp h
  obtain ⟨ht, h⟩ := spells_append.mp h
  obtain ⟨heq, h⟩ := spells_cons.mp h
  have hg := (spells_cons.mp h).1
  have hlast := (reads_name hg (by rw [textBefore?, text_of_face heq]; decide) .nil).plain heq
    (Language.Kotlin.plain _ (by decide))
  rw [← t.facesOf_marked false, length_facesOf] at hlast
  have htype := (t.reads hp ht (place_colon hval hf hcolon)).append hlast
  exact (reads_name hf (by rw [textBefore?, text_of_face hval]; decide)
    (htype.plain hcolon (Language.Kotlin.plain _ (by decide)))).plain hval
      (Language.Kotlin.plain _ (by decide))

end Annotation

open Annotation

/-- In Kotlin, a function is introduced by its keyword. -/
theorem introduces_fun : kotlin.signatures.Introduces "fun" "m" := by
  constructor <;> decide

/-- A function with an annotated value is found.  Its decisions are the arrows that the scorer takes
for lambdas, and there are none if and only if no parameter of a function type in the annotation is
a function type, apart from the first. -/
theorem analyze_annotation (file source : String) (f g : Name kotlin) (t : Annotation.Ty)
    (h : (Code.ofSource kotlin source).faces = functionUnit "fun" "m" (value f t g)) :
    ∃ ds, FindsOne (({} : Engine).analyze file source "kotlin") "m" ds ∧
      ds.map Decision.place = (Code.ofSource kotlin source).placed 8 (t.marked false) ∧
      (ds = [] ↔ t.plain = true) ∧
      (t.plain = true → ∃ r m, ({} : Engine).analyze file source "kotlin" = .ok r ∧ r.all = [m] ∧
        m.name = "m" ∧ m.decisions = [] ∧ m.score = 1) := by
  have hl : Registry.builtin.lookup? "kotlin" = some kotlin := rfl
  have hp := Code.paired_ofSource kotlin source
  have hreads := reads_value hp (Code.spells_braces (Code.spells_functionUnit h)).2.1
  have hmild := Code.mild_functionUnit (l := kotlin) hp h (by decide) (brace_not_mem_value f t g)
  rw [← facesOf_markedValue, length_facesOf] at hmild
  rw [← facesOf_markedValue] at h
  obtain ⟨ds, hfinds, hplaces⟩ := analyze_functionUnit hl file source introduces_fun h
    (by rw [facesOf_markedValue]; exact balanced_value f t g) hreads hmild
  rw [placed_markedValue] at hplaces
  have hplain : ds = [] ↔ t.plain = true := by
    rw [← List.map_eq_nil_iff (f := Decision.place), hplaces, Code.placed_eq_nil, t.unmarked_iff]
    simp
  refine ⟨ds, hfinds, hplaces, hplain, fun h => ?_⟩
  obtain rfl := hplain.mpr h
  exact hfinds.of_nil

/-- Names of Kotlin. -/
theorem Language.Kotlin.letters : ∀ s ∈ ["f", "g", "A", "B", "C", "D"], kotlin.isName s = true := by
  rw [show kotlin = _ from Language.Kotlin.canonical_eq]
  decide +kernel

/-- One of the names. -/
def letter (s : String) (h : s ∈ ["f", "g", "A", "B", "C", "D"] := by decide) : Name kotlin :=
  ⟨s, Language.Kotlin.letters s h⟩

/-- A function with an annotation over two lines. -/
def nestedFunction : String :=
  "fun m() \x7b val f: A<B, (((C) -> D)?, A)\n -> (B) -> C> = g \x7d"

/-- A function with a function type as second parameter in an annotation. -/
def secondFunction : String := "fun m() \x7b val f: (A, (B) -> C) -> D = g \x7d"

/-- A function type as argument of a generic type, with a function type as result and a nullable
function type as first parameter. -/
theorem analyze_annotation_nested : ∃ r m,
    ({} : Engine).analyze "M.kt" nestedFunction "kotlin" = .ok r ∧ r.all = [m] ∧ m.name = "m" ∧
      m.decisions = [] ∧ m.score = 1 := by
  let t : Annotation.Ty := .generic (letter "A") (.name (letter "B"))
    (.cons (.func (.nullable (.func (.name (letter "C")) .nil (.name (letter "D"))))
      (.cons (.name (letter "A")) .nil)
      (.func (.name (letter "B")) .nil (.name (letter "C")))) .nil)
  have hfaces : (Code.ofSource kotlin nestedFunction).faces =
      functionUnit "fun" "m" (value (letter "f") t (letter "g")) := by
    change _ = functionUnit "fun" "m" [word "val", (.identifier, "f"), op ":", (.identifier, "A"),
      op "<", (.identifier, "B"), punct ",", punct "(", punct "(", punct "(", (.identifier, "C"),
      punct ")", op "->", (.identifier, "D"), punct ")", op "?", punct ",", (.identifier, "A"),
      punct ")", op "->", punct "(", (.identifier, "B"), punct ")", op "->", (.identifier, "C"),
      op ">", op "=", (.identifier, "g")]
    rw [Code.ofSource_eq_ofChars kotlin nestedFunction rfl,
      show kotlin = _ from Language.Kotlin.canonical_eq]
    decide +kernel
  obtain ⟨-, -, -, -, hfound⟩ := analyze_annotation "M.kt" _ _ _ _ hfaces
  exact hfound rfl

/-- A function type as second parameter is taken for a lambda. -/
theorem analyze_annotation_second : ∃ t : Annotation.Ty,
    (Code.ofSource kotlin secondFunction).faces =
        functionUnit "fun" "m" (value (letter "f") t (letter "g")) ∧
      ∃ r, ({} : Engine).analyze "M.kt" secondFunction "kotlin" = .ok r ∧
        r.readings = [("m", 2, [(.lambda, 25)])] := by
  have hl : Registry.builtin.lookup? "kotlin" = some kotlin := rfl
  refine ⟨.func (.name (letter "A"))
    (.cons (.func (.name (letter "B")) .nil (.name (letter "C"))) .nil)
    (.name (letter "D")), ?_, ?_⟩
  · change _ = functionUnit "fun" "m" [word "val", (.identifier, "f"), op ":", punct "(",
      (.identifier, "A"), punct ",", punct "(", (.identifier, "B"), punct ")", op "->",
      (.identifier, "C"), punct ")", op "->", (.identifier, "D"), op "=", (.identifier, "g")]
    rw [Code.ofSource_eq_ofChars kotlin secondFunction rfl,
      show kotlin = _ from Language.Kotlin.canonical_eq]
    decide +kernel
  · rw [Engine.analyze_of_lookup? hl, analyzeIn,
      Code.ofSource_eq_ofChars kotlin secondFunction rfl,
      show kotlin = _ from Language.Kotlin.canonical_eq]
    exact exists_ok_of_view (by decide +kernel)

end Cyclomatic
