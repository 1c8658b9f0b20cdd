import Cyclomatic.Proofs.Reading.Functions

/-!
# Loops

A small language of calls, blocks, conditionals and the three loops.  The same keyword starts a
`while` loop and ends a `do` loop.  A reader tells them apart by the tree.  The scorer looks back
from the keyword for the `do` whose body ends there.

`Stmt.read` marks a statement as a reader does, and `Stmt.marked` as the scorer does.  The two
agree exactly on the `regular` trees: the body of every `do` is a block, or it comes to a call
through heads of `if` without `else` and of `for` (`Stmts.marked_eq_read`).
-/

namespace Cyclomatic

open JavaCore

namespace Looping

/-! ## Statements -/

mutual

/-- A statement. -/
inductive Stmt (l : Language) where
  | call (m : Name l)
  | block (ss : Stmts l)
  | cond (x : Name l) (s : Stmt l)
  | condElse (x : Name l) (s t : Stmt l)
  | forever (s : Stmt l)
  | loop (x : Name l) (s : Stmt l)
  | doLoop (s : Stmt l) (x : Name l)

/-- Statements one after another. -/
inductive Stmts (l : Language) where
  | nil
  | cons (s : Stmt l) (rest : Stmts l)

end

variable {l : Language}

mutual

/-- The tokens of a statement, with the decisions that a reader sees: a `while` that ends a `do`
is none, and every other one is a loop. -/
def Stmt.read : Stmt l → List Marked
  | .call m => unmarked (m.face :: (parens [] ++ [punct ";"]))
  | .block ss => (punct "\x7b", none) :: (ss.read ++ [(punct "\x7d", none)])
  | .cond x s => (word "if", some .conditional) :: (unmarked (parens [x.face]) ++ s.read)
  | .condElse x s t =>
    (word "if", some .conditional) ::
      (unmarked (parens [x.face]) ++ (s.read ++ (word "else", none) :: t.read))
  | .forever s =>
    (word "for", some .loop) :: (unmarked (parens [punct ";", punct ";"]) ++ s.read)
  | .loop x s => (word "while", some .loop) :: (unmarked (parens [x.face]) ++ s.read)
  | .doLoop s x =>
    (word "do", some .loop) ::
      (s.read ++ (word "while", none) :: (unmarked (parens [x.face]) ++ [(punct ";", none)]))

def Stmts.read : Stmts l → List Marked
  | .nil => []
  | .cons s rest => s.read ++ rest.read

end

/-- The tokens of a statement. -/
def Stmt.faces (s : Stmt l) : List Face := facesOf s.read

/-- The tokens of statements. -/
def Stmts.faces (ss : Stmts l) : List Face := facesOf ss.read

@[simp] theorem faces_call (m : Name l) :
    (Stmt.call m).faces = m.face :: (parens [] ++ [punct ";"]) := by
  simp [Stmt.faces, Stmt.read]

@[simp] theorem faces_block (ss : Stmts l) : (Stmt.block ss).faces = braces ss.faces := by
  simp [Stmt.faces, Stmt.read, Stmts.faces, braces]

@[simp] theorem faces_cond (x : Name l) (s : Stmt l) :
    (Stmt.cond x s).faces = word "if" :: (parens [x.face] ++ s.faces) := by
  simp [Stmt.faces, Stmt.read]

@[simp] theorem faces_condElse (x : Name l) (s t : Stmt l) : (Stmt.condElse x s t).faces =
    word "if" :: (parens [x.face] ++ (s.faces ++ word "else" :: t.faces)) := by
  simp [Stmt.faces, Stmt.read]

@[simp] theorem faces_forever (s : Stmt l) :
    (Stmt.forever s).faces = word "for" :: (parens [punct ";", punct ";"] ++ s.faces) := by
  simp [Stmt.faces, Stmt.read]

@[simp] theorem faces_loop (x : Name l) (s : Stmt l) :
    (Stmt.loop x s).faces = word "while" :: (parens [x.face] ++ s.faces) := by
  simp [Stmt.faces, Stmt.read]

@[simp] theorem faces_doLoop (s : Stmt l) (x : Name l) : (Stmt.doLoop s x).faces =
    word "do" :: (s.faces ++ word "while" :: (parens [x.face] ++ [punct ";"])) := by
  simp [Stmt.faces, Stmt.read]

@[simp] theorem faces_nil : (Stmts.nil : Stmts l).faces = [] := rfl

@[simp] theorem faces_cons (s : Stmt l) (rest : Stmts l) :
    (Stmts.cons s rest).faces = s.faces ++ rest.faces := by
  simp [Stmts.faces, Stmts.read, Stmt.faces]

mutual

/-- The number of loops of a statement. -/
def Stmt.loops : Stmt l → Nat
  | .call _ => 0
  | .block ss => ss.loops
  | .cond _ s => s.loops
  | .condElse _ s t => s.loops + t.loops
  | .forever s => s.loops + 1
  | .loop _ s => s.loops + 1
  | .doLoop s _ => s.loops + 1

def Stmts.loops : Stmts l → Nat
  | .nil => 0
  | .cons s rest => s.loops + rest.loops

end

/-! ## What the scorer sees -/

/-- Whether a `while` behind the statement is taken for the end of a `do`.  The statement follows
that keyword directly (`direct`), or at least no end of a statement and no `while` stands between
them (`opened`). -/
def Stmt.closes (direct opened : Bool) : Stmt l → Bool
  | .call _ => opened
  | .block _ => direct
  | .cond _ s => s.closes false opened
  | .condElse _ _ t => t.closes false false
  | .forever s => s.closes false opened
  | .loop _ s => s.closes false false
  | .doLoop _ _ => false

mutual

/-- The tokens of a statement, with the decisions that the scorer sees, where `opened` says that a
`do` comes before it, and between them neither the end of a statement nor a `while`. -/
def Stmt.marked (opened : Bool) : Stmt l → List Marked
  | .call m => unmarked (m.face :: (parens [] ++ [punct ";"]))
  | .block ss => (punct "\x7b", none) :: (ss.marked ++ [(punct "\x7d", none)])
  | .cond x s =>
    (word "if", some .conditional) :: (unmarked (parens [x.face]) ++ s.marked opened)
  | .condElse x s t =>
    (word "if", some .conditional) ::
      (unmarked (parens [x.face]) ++ (s.marked opened ++ (word "else", none) :: t.marked false))
  | .forever s =>
    (word "for", some .loop) :: (unmarked (parens [punct ";", punct ";"]) ++ s.marked opened)
  | .loop x s =>
    (word "while", if opened then none else some .loop) ::
      (unmarked (parens [x.face]) ++ s.marked false)
  | .doLoop s x =>
    (word "do", some .loop) ::
      (s.marked true ++ (word "while", if s.closes true true then none else some .loop) ::
        (unmarked (parens [x.face]) ++ [(punct ";", none)]))

def Stmts.marked : Stmts l → List Marked
  | .nil => []
  | .cons s rest => s.marked false ++ rest.marked

end

mutual

/-- The body of every `do` is a block, or comes to a call through heads of `if` without `else` and
of `for`. -/
def Stmt.regular : Stmt l → Bool
  | .call _ => true
  | .block ss => ss.regular
  | .cond _ s => s.regular
  | .condElse _ s t => s.regular && t.regular
  | .forever s => s.regular
  | .loop _ s => s.regular
  | .doLoop s _ => s.closes true true && s.regular

def Stmts.regular : Stmts l → Bool
  | .nil => true
  | .cons s rest => s.regular && rest.regular

end

/-! ## The two readings -/

/-- Without a `do` before it, a statement ends none. -/
@[simp] theorem Stmt.closes_false : (s : Stmt l) → s.closes false false = false
  | .call _ => rfl
  | .block _ => rfl
  | .cond _ s => s.closes_false
  | .condElse _ _ t => t.closes_false
  | .forever s => s.closes_false
  | .loop _ s => s.closes_false
  | .doLoop _ _ => rfl

mutual

theorem Stmt.facesOf_marked : (s : Stmt l) → (opened : Bool) → facesOf (s.marked opened) = s.faces
  | .call _, _ => rfl
  | .block ss, _ => by simp [Stmt.marked, ss.facesOf_marked, braces]
  | .cond _ s, o => by simp [Stmt.marked, s.facesOf_marked o]
  | .condElse _ s t, o => by simp [Stmt.marked, s.facesOf_marked o, t.facesOf_marked false]
  | .forever s, o => by simp [Stmt.marked, s.facesOf_marked o]
  | .loop _ s, _ => by simp [Stmt.marked, s.facesOf_marked false]
  | .doLoop s _, _ => by simp [Stmt.marked, s.facesOf_marked true]

/-- Marks leave the tokens of statements as they are. -/
theorem Stmts.facesOf_marked : (ss : Stmts l) → facesOf ss.marked = ss.faces
  | .nil => rfl
  | .cons s rest => by simp [Stmts.marked, s.facesOf_marked false, rest.facesOf_marked]

end

theorem Stmt.length_marked (s : Stmt l) (opened : Bool) :
    (s.marked opened).length = s.read.length := by
  rw [← length_facesOf, facesOf_marked, Stmt.faces, length_facesOf]

theorem Stmts.length_marked (ss : Stmts l) : ss.marked.length = ss.read.length := by
  rw [← length_facesOf, facesOf_marked, Stmts.faces, length_facesOf]

mutual

/-- A reader sees each loop once. -/
theorem Stmt.countMarks_read : (s : Stmt l) → countMarks .loop s.read = s.loops
  | .call _ => countMarks_unmarked ..
  | .block ss => by simp [Stmt.read, Stmt.loops, ss.countMarks_read]
  | .cond _ s => by simp [Stmt.read, Stmt.loops, s.countMarks_read]
  | .condElse _ s t => by simp [Stmt.read, Stmt.loops, s.countMarks_read, t.countMarks_read]
  | .forever s => by simp [Stmt.read, Stmt.loops, s.countMarks_read]
  | .loop _ s => by simp [Stmt.read, Stmt.loops, s.countMarks_read]
  | .doLoop s _ => by simp [Stmt.read, Stmt.loops, s.countMarks_read]

/-- A reader counts each loop once. -/
theorem Stmts.countMarks_read : (ss : Stmts l) → countMarks .loop ss.read = ss.loops
  | .nil => rfl
  | .cons s rest => by simp [Stmts.read, Stmts.loops, s.countMarks_read, rest.countMarks_read]

end

/-- A loop comes first in the statement, behind heads of `if` and `for`. -/
def Stmt.leads : Stmt l → Bool
  | .cond _ s => s.leads
  | .condElse _ s _ => s.leads
  | .forever s => s.leads
  | .loop _ _ => true
  | .call _ | .block _ | .doLoop _ _ => false

/-- A body that the scorer takes for that of a `do` does not start with a `while`. -/
theorem Stmt.leads_of_closes : (s : Stmt l) → {direct : Bool} → s.closes direct true = true →
    s.leads = false
  | .call _, _, _ => rfl
  | .block _, _, _ => rfl
  | .cond _ s, _, h => s.leads_of_closes h
  | .condElse _ _ t, _, h => by rw [Stmt.closes, t.closes_false] at h; cases h
  | .forever s, _, h => s.leads_of_closes h
  | .loop _ s, _, h => by rw [Stmt.closes, s.closes_false] at h; cases h
  | .doLoop _ _, _, _ => rfl

mutual

/-- The scorer sees what a reader sees if no loop is taken for the end of the `do` before it, and
no end of a `do` for a loop. -/
theorem Stmt.marked_eq_read : (s : Stmt l) → (opened : Bool) →
    (s.marked opened = s.read ↔ (opened && s.leads) = false ∧ s.regular = true)
  | .call _, _ => by simp [Stmt.marked, Stmt.read, Stmt.leads, Stmt.regular]
  | .block ss, _ => by
    simp [Stmt.marked, Stmt.read, Stmt.leads, Stmt.regular,
      append_eq_append_iff ss.length_marked, ss.marked_eq_read]
  | .cond _ s, o => by simp [Stmt.marked, Stmt.read, Stmt.leads, Stmt.regular, s.marked_eq_read o]
  | .condElse _ s t, o => by
    simp [Stmt.marked, Stmt.read, Stmt.leads, Stmt.regular,
      append_eq_append_iff (s.length_marked o), s.marked_eq_read o, t.marked_eq_read false,
      and_assoc]
  | .forever s, o => by simp [Stmt.marked, Stmt.read, Stmt.leads, Stmt.regular, s.marked_eq_read o]
  | .loop _ s, o => by
    cases o <;> simp [Stmt.marked, Stmt.read, Stmt.leads, Stmt.regular, s.marked_eq_read false]
  | .doLoop s _, _ => by
    simp only [Stmt.marked, Stmt.read, Stmt.leads, Stmt.regular, List.cons.injEq,
      Prod.mk.injEq, true_and, append_eq_append_iff (s.length_marked true), s.marked_eq_read true,
      and_true]
    cases h : s.closes true true with
    | false => simp
    | true => simp [s.leads_of_closes h]

/-- The scorer reads regular statements as a reader does, and no others. -/
theorem Stmts.marked_eq_read : (ss : Stmts l) → (ss.marked = ss.read ↔ ss.regular = true)
  | .nil => by simp [Stmts.marked, Stmts.read, Stmts.regular]
  | .cons s rest => by
    simp [Stmts.marked, Stmts.read, Stmts.regular, append_eq_append_iff (s.length_marked false),
      s.marked_eq_read false, rest.marked_eq_read]

end

theorem tidy_condition (x : Name l) : Tidy (parens [x.face]) := Tidy.parens (.cons rfl .nil)

mutual

theorem Stmt.tidy_faces : (s : Stmt l) → Tidy s.faces
  | .call m => by
    rw [faces_call]
    exact .cons rfl (Tidy.nil.parens.append (.cons rfl .nil))
  | .block ss => by
    rw [faces_block]
    exact ss.tidy_faces.braces
  | .cond x s => by
    rw [faces_cond]
    exact .cons rfl ((tidy_condition x).append s.tidy_faces)
  | .condElse x s t => by
    rw [faces_condElse]
    have hbranches := s.tidy_faces.append (t.tidy_faces.cons (f := word "else") rfl)
    exact .cons rfl ((tidy_condition x).append hbranches)
  | .forever s => by
    rw [faces_forever]
    exact .cons rfl ((Tidy.parens (.cons rfl (.cons rfl .nil))).append s.tidy_faces)
  | .loop x s => by
    rw [faces_loop]
    exact .cons rfl ((tidy_condition x).append s.tidy_faces)
  | .doLoop s x => by
    rw [faces_doLoop]
    have htail := (tidy_condition x).append (.cons (f := punct ";") rfl .nil)
    exact .cons rfl (s.tidy_faces.append (htail.cons (f := word "while") rfl))

theorem Stmts.tidy_faces : (ss : Stmts l) → Tidy ss.faces
  | .nil => .nil
  | .cons s rest => by
    rw [faces_cons]
    exact s.tidy_faces.append rest.tidy_faces

end

end Looping

/-! ## Looking back -/

namespace Code

variable {code : Code} {k : Nat}

/-- What the scorer finds, looking back from a token. -/
structure Behind (code : Code) (i : Nat) (direct opened closed : Bool) : Prop where
  /-- A block that opens at the token is the body of a `do`. -/
  direct : (code.openerWord i == "do") = direct
  /-- A `do` comes before the token, and between them neither the end of a statement nor a
  `while`. -/
  opens : code.opensDo i = opened
  /-- A `while` at the token is taken for the end of a `do`. -/
  closes : code.text i = "while" → code.endsBodyOf ["do"] i = closed

/-- What the scorer finds behind a whole statement. -/
abbrev Past (code : Code) (closed : Bool) (i : Nat) : Prop := Behind code i false false closed

/-- Behind a token that ends nothing, only the token itself may open a loop. -/
theorem behind_token {f : Face} (hf : code.face? k = some f)
    (hne : f ∉ [punct ")", punct "\x7d", punct ";"]) :
    Behind code (k + 1) (f.2 == "do") (code.opensDo (k + 1)) (code.opensDo (k + 1)) := by
  simp only [List.mem_cons, List.not_mem_nil, or_false, not_or] at hne
  exact ⟨by rw [openerWord_token hf hne.1], rfl, endsBodyOf_token hf hne.2.1 hne.2.2⟩

theorem opensDo_word (h : code.face? k = some (word "do")) : code.opensDo (k + 1) = true := by
  unfold opensDo
  rw [statementOpensWith, if_pos]
  rw [isWordIn, isWord_of_face h, text_of_face h]
  rfl

/-- Behind a semicolon, a loop is open if one was. -/
theorem past_semicolon (hf : code.face? k = some (punct ";")) :
    Past code (code.opensDo k) (k + 1) := by
  exact ⟨by rw [openerWord_token hf (by decide)]; decide, opensDo_stop hf (by decide),
    endsBodyOf_semicolon hf⟩

/-- Behind the head of a statement. -/
theorem behind_head (hp : code.Paired) {w : String} {inner : List Face}
    (h : code.Spells k (word w :: parens inner)) (hinner : Balanced inner) :
    Behind code (k + 1 + (parens inner).length) (w == "do") (code.opensDo (k + 1))
      (code.opensDo (k + 1)) := by
  have hparens := (spells_cons.mp h).2
  have hopens := (passes_parens hp hparens hinner).opens
  refine ⟨by rw [openerWord_parens hp h hinner], hopens, fun hwhile => ?_⟩
  have hclose := (spells_parens hparens).2.2
  have hlen : k + 1 + (parens inner).length = k + 1 + 1 + inner.length + 1 := by
    rw [length_parens]
    omega
  rw [← hopens]
  rw [hlen] at hwhile ⊢
  exact endsBodyOf_token hclose (by decide) (by decide) hwhile

/-- Behind a block, a loop is open if the block is its body. -/
theorem past_block (hp : code.Paired) {inner : List Face} (h : code.Spells k (braces inner))
    (hinner : Balanced inner) :
    Past code (code.openerWord k == "do") (k + (braces inner).length) := by
  have hclose := (spells_braces h).2.2
  have hlen : k + (braces inner).length = k + 1 + inner.length + 1 := by
    rw [length_braces]
    omega
  refine ⟨?_, ?_, fun _ => ?_⟩
  · rw [hlen, openerWord_token hclose (by decide)]
    decide
  · rw [hlen]
    exact opensDo_stop hclose (by decide)
  · rw [endsBodyOf_block hp h hinner, List.contains_cons, List.contains_nil, Bool.or_false]

end Code

/-! ## Reading statements -/

/-- A language has the decisions of the grammar, and its other tokens mean nothing. -/
structure Language.HasLoops (l : Language) : Prop where
  /-- No guard asks for the block around a token. -/
  blockless : l.blockWords = []
  /-- Each token has one rule. -/
  tokens : (l.decisions.map (·.token)).Nodup
  /-- The heads of conditionals and loops. -/
  cond : { token := "if", category := .conditional } ∈ l.decisions
  forever : { token := "for", category := .loop } ∈ l.decisions
  loop : { token := "while", category := .loop, guard := { notAfterBodyOf := ["do"] } } ∈
    l.decisions
  doLoop : { token := "do", category := .loop } ∈ l.decisions
  /-- Nothing starts at the keywords. -/
  quiet : ∀ w ∈ ["if", "for", "while", "do"], l.isQuiet (word w) = true
  /-- The other tokens make no decisions, either. -/
  plain : ∀ f ∈ [punct "(", punct ")", punct "\x7b", punct "\x7d", punct ";", word "else"],
    l.isPlain f = true
  /-- None of the words with a meaning is a name. -/
  names : (l.specials ++ ["do", "while", ")", "]", ";", "\x7b", "\x7d"]).all (!l.isName ·) = true
  /-- No return type and no clause starts with a semicolon. -/
  noReturn : l.signatures.returnSeparator ≠ some ";"
  noClause : ";" ∉ l.signatures.clauseKeywords
  noFreeReturn : l.signatures.freeReturn = false

namespace Looping

open Code

variable {l : Language} {code : Code} {i : Nat}

/-- The word `while` is a decision unless the body of a loop ends before it. -/
theorem categoryAt_while (hl : l.HasLoops) (h : code.face? i = some (word "while")) :
    code.categoryAt l i = if code.endsBodyOf ["do"] i then none else some .loop := by
  rw [categoryAt, ruleAt?_of_mem hl.tokens hl.loop h (Or.inl rfl)]
  cases hend : code.endsBodyOf ["do"] i <;> simp [guardHolds, guardFits, hend]

/-- The head of a conditional or of a loop. -/
theorem reads_condition (hl : l.HasLoops) {x : Name l} {ms : List Marked}
    (h : code.Spells i (parens [x.face]))
    (hms : Reads code l (i + (parens [x.face]).length) ms) :
    Reads code l i (unmarked (parens [x.face]) ++ ms) := by
  obtain ⟨hopen, hx, hclose⟩ := spells_parens h
  have hname := x.not_mem hl.names
  rw [List.mem_append, not_or] at hname
  have hlast := hms.plain hclose (hl.plain _ (by decide))
  exact (hlast.lone hname.1 (spells_cons.mp hx).1 hclose (by decide) (by decide)).plain hopen
    (hl.plain _ (by decide))

theorem reads_call (hl : l.HasLoops) (hp : code.Paired) {m : Name l} {direct opened : Bool}
    (h : code.Spells i (Stmt.call m).faces) (hi : Behind code i direct opened opened) :
    Reads code l i ((Stmt.call m).marked opened) ∧
      Past code opened (i + (Stmt.call m).faces.length) := by
  rw [faces_call] at h ⊢
  have hname := m.not_mem hl.names
  simp only [List.mem_append, not_or, Language.specials] at hname
  obtain ⟨⟨⟨hintro, hbind⟩, hdecision⟩, hspecial⟩ := hname
  obtain ⟨hm, hrest⟩ := spells_cons.mp h
  obtain ⟨hparens, hlast⟩ := spells_append.mp hrest
  have hsemi := (spells_cons.mp hlast).1
  obtain ⟨hopen, -, hclose⟩ := spells_parens hparens
  have hquiet := quiet_of_call hp (spells_cons.mpr ⟨hm, hparens⟩) .nil hintro hbind hsemi
    (by decide) hl.noReturn hl.noClause hl.noFreeReturn
  constructor
  · have htail : Reads code l (i + 1 + 1 + 1) [(punct ";", none)] :=
      Reads.nil.plain hsemi (hl.plain _ (by decide))
    have hcall := (htail.plain hclose (hl.plain _ (by decide))).plain hopen
      (hl.plain _ (by decide))
    exact hcall.cons hquiet (categoryAt_eq_none hm hdecision)
  · have hend := past_semicolon hsemi
    rw [(passes_parens hp hparens .nil).opens, opensDo_token hm hspecial, hi.opens] at hend
    exact hend

/-- The head of an `if` or a `for` hands on that a `do` is open. -/
theorem behind_passed (hp : code.Paired) {w : String} {inner : List Face} {direct opened : Bool}
    (h : code.Spells i (word w :: parens inner)) (hinner : Balanced inner)
    (hw : w ∈ ["if", "for"]) (hi : Behind code i direct opened opened) :
    Behind code (i + 1 + (parens inner).length) false opened opened := by
  have hhead := behind_head hp h hinner
  have hword := (spells_cons.mp h).1
  simp only [List.mem_cons, List.not_mem_nil, or_false] at hw
  rcases hw with rfl | rfl
  · rwa [opensDo_token hword (by decide), hi.opens] at hhead
  · rwa [opensDo_token hword (by decide), hi.opens] at hhead

/-- Behind the head of a `while`, no `do` is open. -/
theorem behind_while (hp : code.Paired) {inner : List Face}
    (h : code.Spells i (word "while" :: parens inner)) (hinner : Balanced inner) :
    Behind code (i + 1 + (parens inner).length) false false false := by
  have hhead := behind_head hp h hinner
  rwa [opensDo_stop (spells_cons.mp h).1 (by decide)] at hhead

/-- A statement behind a head. -/
theorem reads_headed (hl : l.HasLoops) {w : String} {mark : Option Category} {head fs : List Face}
    {ms : List Marked} {closed : Bool} (hw : w ∈ ["if", "for", "while", "do"])
    (hword : code.face? i = some (word w)) (hmark : code.categoryAt l i = mark)
    (hreads : Reads code l (i + 1) (unmarked (parens head) ++ ms))
    (hend : Past code closed (i + 1 + (parens head).length + fs.length)) :
    Reads code l i ((word w, mark) :: (unmarked (parens head) ++ ms)) ∧
      Past code closed (i + (word w :: (parens head ++ fs)).length) :=
  ⟨hreads.cons (quiet_of_isQuiet hword (hl.quiet w hw)) hmark,
    at_cons (P := Past code closed) (at_append (P := Past code closed) hend)⟩

mutual

/-- A statement makes the marked decisions, and hands on what the next keyword looks back at. -/
theorem Stmt.reads (hl : l.HasLoops) (hp : code.Paired) : (s : Stmt l) → {i : Nat} →
    {direct opened : Bool} → code.Spells i s.faces → Behind code i direct opened opened →
      Reads code l i (s.marked opened) ∧
        Past code (s.closes direct opened) (i + s.faces.length)
  | .call m, i, _, _, h, hi => reads_call hl hp h hi
  | .block ss, i, direct, opened, h, hi => by
    rw [faces_block] at h ⊢
    obtain ⟨hopen, hss, hclose⟩ := spells_braces h
    have hstart : Behind code (i + 1) false false false := by
      have hbrace := behind_token hopen (by decide)
      rwa [opensDo_stop hopen (by decide)] at hbrace
    constructor
    · have hlast : Reads code l (i + 1 + ss.marked.length) [(punct "\x7d", none)] := by
        rw [← length_facesOf, ss.facesOf_marked]
        exact Reads.nil.plain hclose (hl.plain _ (by decide))
      exact ((ss.reads hl hp hss hstart).append hlast).plain hopen (hl.plain _ (by decide))
    · have hend := past_block hp h ss.tidy_faces.balanced
      rwa [hi.direct] at hend
  | .cond x s, i, _, opened, h, hi => by
    rw [faces_cond] at h ⊢
    obtain ⟨hif, hrest⟩ := spells_cons.mp h
    obtain ⟨hparens, hs⟩ := spells_append.mp hrest
    have hhead := behind_passed hp (spells_cons.mpr ⟨hif, hparens⟩) (.cons x.isBracket_face .nil)
      (by decide) hi
    obtain ⟨hreads, hend⟩ := s.reads hl hp hs hhead
    exact reads_headed hl (by decide) hif (categoryAt_of_mem hl.tokens hif (Or.inl rfl) hl.cond)
      (reads_condition hl hparens hreads) hend
  | .condElse x s t, i, _, opened, h, hi => by
    rw [faces_condElse] at h ⊢
    obtain ⟨hif, hrest⟩ := spells_cons.mp h
    obtain ⟨hparens, hrest⟩ := spells_append.mp hrest
    obtain ⟨hs, hrest⟩ := spells_append.mp hrest
    obtain ⟨helse, ht⟩ := spells_cons.mp hrest
    have hhead := behind_passed hp (spells_cons.mpr ⟨hif, hparens⟩) (.cons x.isBracket_face .nil)
      (by decide) hi
    obtain ⟨hreads, hmid⟩ := s.reads hl hp hs hhead
    -- The end of the first branch closes off every `do` before it.
    have hother := behind_token helse (by decide)
    rw [opensDo_token helse (by decide), hmid.opens] at hother
    obtain ⟨hreads', hend⟩ := t.reads hl hp ht hother
    rw [← s.facesOf_marked opened, length_facesOf] at helse hreads'
    have hbranches := hreads.append (hreads'.plain helse (hl.plain _ (by decide)))
    exact reads_headed hl (by decide) hif (categoryAt_of_mem hl.tokens hif (Or.inl rfl) hl.cond)
      (reads_condition hl hparens hbranches)
      (at_append (P := Past code _) (at_cons (P := Past code _) hend))
  | .forever s, i, _, opened, h, hi => by
    rw [faces_forever] at h ⊢
    obtain ⟨hfor, hrest⟩ := spells_cons.mp h
    obtain ⟨hparens, hs⟩ := spells_append.mp hrest
    have hhead := behind_passed hp (spells_cons.mpr ⟨hfor, hparens⟩) (.cons rfl (.cons rfl .nil))
      (by decide) hi
    obtain ⟨hreads, hend⟩ := s.reads hl hp hs hhead
    have hplain : ∀ f ∈ parens [punct ";", punct ";"], l.isPlain f = true :=
      fun f hf => hl.plain f (by revert f; decide)
    exact reads_headed hl (by decide) hfor
      (categoryAt_of_mem hl.tokens hfor (Or.inl rfl) hl.forever) (hreads.plains hparens hplain) hend
  | .loop x s, i, _, opened, h, hi => by
    rw [faces_loop] at h ⊢
    obtain ⟨hwhile, hrest⟩ := spells_cons.mp h
    obtain ⟨hparens, hs⟩ := spells_append.mp hrest
    have hhead := behind_while hp (spells_cons.mpr ⟨hwhile, hparens⟩) (.cons x.isBracket_face .nil)
    obtain ⟨hreads, hend⟩ := s.reads hl hp hs hhead
    have hmark := categoryAt_while hl hwhile
    rw [hi.closes (text_of_face hwhile)] at hmark
    exact reads_headed hl (by decide) hwhile hmark (reads_condition hl hparens hreads) hend
  | .doLoop s x, i, _, opened, h, hi => by
    rw [faces_doLoop] at h ⊢
    obtain ⟨hdo, hrest⟩ := spells_cons.mp h
    obtain ⟨hs, hrest⟩ := spells_append.mp hrest
    obtain ⟨hwhile, hrest⟩ := spells_cons.mp hrest
    obtain ⟨hparens, hlast⟩ := spells_append.mp hrest
    have hsemi := (spells_cons.mp hlast).1
    have hbody : Behind code (i + 1) true true true := by
      have hword := behind_token hdo (by decide)
      rwa [opensDo_word hdo] at hword
    obtain ⟨hreads, hmid⟩ := s.reads hl hp hs hbody
    -- The keyword behind the body ends the loop only if the search back finds its `do`.
    have hmark := categoryAt_while hl hwhile
    rw [hmid.closes (text_of_face hwhile)] at hmark
    have hend := past_semicolon hsemi
    rw [(passes_parens hp hparens (.cons x.isBracket_face .nil)).opens,
      opensDo_stop hwhile (by decide)] at hend
    have hsemicolon : Reads code l _ [(punct ";", none)] :=
      Reads.nil.plain hsemi (hl.plain _ (by decide))
    have htail := (reads_condition hl hparens hsemicolon).cons (f := word "while")
      (quiet_of_isQuiet hwhile (hl.quiet _ (by decide))) hmark
    rw [← s.facesOf_marked true, length_facesOf] at htail
    refine ⟨(hreads.append htail).cons (quiet_of_isQuiet hdo (hl.quiet _ (by decide)))
      (categoryAt_of_mem hl.tokens hdo (Or.inl rfl) hl.doLoop), ?_⟩
    exact at_cons (P := Past code false) (at_append (P := Past code false)
      (at_cons (P := Past code false) (at_append (P := Past code false) hend)))

/-- Statements are read as they are marked. -/
theorem Stmts.reads (hl : l.HasLoops) (hp : code.Paired) : (ss : Stmts l) → {i : Nat} →
    code.Spells i ss.faces → Behind code i false false false → Reads code l i ss.marked
  | .nil, _, _, _ => .nil
  | .cons s rest, i, h, hi => by
    rw [faces_cons] at h
    obtain ⟨hs, hrest⟩ := spells_append.mp h
    obtain ⟨hreads, hend⟩ := s.reads hl hp hs hi
    rw [s.closes_false] at hend
    have hrest := rest.reads hl hp hrest hend
    rw [← s.facesOf_marked false, length_facesOf] at hrest
    exact hreads.append hrest

end

/-- What the decisions of a function say of the statements of its body, which open at a brace. -/
structure Counts (code : Code) (opening : Nat) (ss : Stmts l) (ds : List Decision) : Prop where
  /-- They are those that the scorer sees. -/
  marked : ds.map Decision.place = code.placed (opening + 1) ss.marked
  /-- They are those that a reader sees exactly in regular statements. -/
  read : ds.map Decision.place = code.placed (opening + 1) ss.read ↔ ss.regular = true
  /-- In regular statements, each loop counts once. -/
  loops : ss.regular = true → ds.countP (·.category == .loop) = ss.loops

/-- Decisions at the marks count the loops. -/
theorem counts_of_marked {opening : Nat} {ss : Stmts l} {ds : List Decision} (hlaid : code.Laid)
    (hspell : code.Spells (opening + 1) ss.faces)
    (hds : ds.map Decision.place = code.placed (opening + 1) ss.marked) :
    Counts code opening ss ds := by
  have hread : code.placed (opening + 1) ss.marked = code.placed (opening + 1) ss.read ↔
      ss.regular = true := by
    rw [placed_inj hlaid (by rw [ss.facesOf_marked]; exact hspell) (ss.facesOf_marked).symm
      (by rw [ss.facesOf_marked]; exact ss.tidy_faces.solid)]
    exact ss.marked_eq_read
  refine ⟨hds, by rw [hds, hread], fun hregular => ?_⟩
  rw [countP_of_placed (hds.trans (hread.mpr hregular)), ss.countMarks_read]

/-- The statements behind the brace of a body make the marked decisions. -/
theorem reads_body (hl : l.HasLoops) (hp : code.Paired) {ss : Stmts l}
    (h : code.Spells i (braces ss.faces)) : Reads code l (i + 1) ss.marked := by
  obtain ⟨hopen, hss, -⟩ := spells_braces h
  have hstart := behind_token hopen (by decide)
  rw [opensDo_stop hopen (by decide)] at hstart
  exact ss.reads hl hp hss hstart

end Looping

/-! ## The count of loops -/

open Looping

/-- Java has the decisions of the grammar. -/
theorem Language.Java.hasLoops : java.HasLoops := by
  rw [show java = _ from Language.Java.canonical_eq]
  constructor <;> decide +kernel

/-- JavaScript has them, too. -/
theorem Language.JavaScript.hasLoops : Language.JavaScript.table.canonical.HasLoops := by
  rw [Language.JavaScript.canonical_eq]
  constructor <;> decide +kernel

/-- Java and JavaScript have the loops of the grammar. -/
theorem hasLoops_of_mem {language : String} {l : Language}
    (hlanguage : language ∈ ["java", "javascript"])
    (hl : Registry.builtin.lookup? language = some l) : l.HasLoops := by
  simp only [List.mem_cons, List.not_mem_nil, or_false] at hlanguage
  rcases hlanguage with rfl | rfl
  · exact Option.some.inj hl ▸ Language.Java.hasLoops
  · exact Option.some.inj hl ▸ Language.JavaScript.hasLoops

/-- In JavaScript, a function is introduced by its keyword. -/
theorem introduces_function (m : Name Language.JavaScript.table.canonical) :
    Language.JavaScript.table.canonical.signatures.Introduces "function" m.text := by
  have hnames : (["*"].all (!Language.JavaScript.table.canonical.isName ·) = true) ∧
      (["<"].all (!Language.JavaScript.table.canonical.isName ·) = true) := by
    rw [Language.JavaScript.canonical_eq]
    decide +kernel
  exact {
    introducer := by decide
    noContainer := by decide
    noMarker := m.not_mem hnames.1
    noAngle := fun h => m.not_mem hnames.2 (List.mem_singleton.mpr h)
    noReceiver := rfl
    noReturn := by decide
    noClause := by decide
    noFreeReturn := rfl }

/-- In Java and JavaScript, the decisions of a body of the grammar are those that the scorer sees.
They are those of a reader, and each loop counts once, if and only if the statements are regular.
A method of a class and a function with such a body are found. -/
theorem analyze_loops {language : String} {l : Language}
    (hlanguage : language ∈ ["java", "javascript"])
    (hl : Registry.builtin.lookup? language = some l) (file source : String) (ss : Stmts l) :
    (∀ r, ({} : Engine).analyze file source language = .ok r →
      ∃ forest, detect l (Code.ofSource l source) = .ok forest ∧ ∀ f ∈ r.all, ∃ e,
        forest.at? f.id = some e ∧
          ((Code.ofSource l source).Spells e.opening (braces ss.faces) →
            Counts (Code.ofSource l source) e.opening ss f.decisions)) ∧
    (language = "java" → ∀ (c m : Ident) (type : Primitive),
      (Code.ofSource l source).faces = methodUnit c type m ss.faces →
        ∃ ds, FindsOne (({} : Engine).analyze file source language) m.text ds ∧
          Counts (Code.ofSource l source) 7 ss ds) ∧
    (language = "javascript" → ∀ m : Name l,
      (Code.ofSource l source).faces = functionUnit "function" m.text ss.faces →
        ∃ ds, FindsOne (({} : Engine).analyze file source language) m.text ds ∧
          Counts (Code.ofSource l source) 4 ss ds) := by
  have hloops := hasLoops_of_mem hlanguage hl
  have hp := Code.paired_ofSource l source
  have hlaid := Code.laid_ofSource l source
  have hbalanced : Balanced (facesOf ss.marked) := by
    rw [ss.facesOf_marked]
    exact ss.tidy_faces.balanced
  have hmild : ∀ x, (Code.ofSource l source).openerWord x ∉ l.blockWords := fun x => by
    rw [hloops.blockless]
    exact List.not_mem_nil
  refine ⟨fun r hr => ?_, ?_, ?_⟩
  · obtain ⟨forest, hforest, hall⟩ := analyze_reads hl hr
    refine ⟨forest, hforest, fun f hf => ?_⟩
    obtain ⟨e, he, -, hplaces⟩ := hall f hf
    refine ⟨e, he, fun hspell => ?_⟩
    have hreads := reads_body hloops hp hspell
    refine counts_of_marked hlaid (Code.spells_braces hspell).2.1 ?_
    rw [← ss.facesOf_marked] at hspell
    exact hplaces ss.marked hspell hbalanced hreads fun x _ _ _ => hmild x
  · rintro rfl c m type hfaces
    obtain rfl : l = java := (Option.some.inj hl).symm
    have hbraces := (Code.spells_append.mp (Code.spells_methodUnit hfaces).2).1
    rw [← ss.facesOf_marked] at hfaces
    obtain ⟨ds, hfinds, hplaces⟩ :=
      analyze_methodUnit file source hfaces hbalanced (reads_body hloops hp hbraces)
    exact ⟨ds, hfinds, counts_of_marked hlaid (Code.spells_braces hbraces).2.1 hplaces⟩
  · rintro rfl m hfaces
    obtain rfl : l = Language.JavaScript.table.canonical := (Option.some.inj hl).symm
    have hbraces := Code.spells_functionUnit hfaces
    rw [← ss.facesOf_marked] at hfaces
    obtain ⟨ds, hfinds, hplaces⟩ := analyze_functionUnit hl file source
      (introduces_function m) hfaces hbalanced (reads_body hloops hp hbraces)
      fun x _ _ _ => hmild x
    exact ⟨ds, hfinds, counts_of_marked hlaid (Code.spells_braces hbraces).2.1 hplaces⟩

/-- Two names of Java. -/
theorem Language.Java.names : java.isName "x" = true ∧ java.isName "m" = true := by
  rw [show java = _ from Language.Java.canonical_eq]
  decide +kernel

/-- Two names of JavaScript. -/
theorem Language.JavaScript.names : Language.JavaScript.table.canonical.isName "x" = true ∧
    Language.JavaScript.table.canonical.isName "m" = true := by
  rw [Language.JavaScript.canonical_eq]
  decide +kernel

namespace Looping

variable {l : Language}

/-- A `for` over an `if` as body of a `do`, and a `while` behind it. -/
def stacked (x m : Name l) : Stmts l :=
  .cons (.doLoop (.forever (.cond x (.call m))) x)
    (.cons (.loop x (.block (.cons (.call m) .nil))) .nil)

/-- A conditional with a block as body of a `do`. -/
def guarded (x m : Name l) : Stmts l :=
  .cons (.doLoop (.cond x (.block (.cons (.call m) .nil))) x) .nil

/-- The tokens of `stacked`. -/
def stackedFaces : List Face :=
  let condition := parens [(.identifier, "x")]
  let call := (.identifier, "m") :: (parens [] ++ [punct ";"])
  word "do" :: word "for" :: (parens [punct ";", punct ";"] ++ word "if" :: (condition ++ call)) ++
    word "while" :: (condition ++ punct ";" :: word "while" :: (condition ++ braces call))

theorem faces_stacked {x m : Name l} (hx : x.text = "x") (hm : m.text = "m") :
    (stacked x m).faces = stackedFaces := by
  simp [stacked, stackedFaces, Name.face, hx, hm, parens]

/-- The tokens of `guarded`. -/
def guardedFaces : List Face :=
  let condition := parens [(.identifier, "x")]
  let call := (.identifier, "m") :: (parens [] ++ [punct ";"])
  word "do" :: word "if" :: (condition ++ braces call) ++ word "while" :: (condition ++ [punct ";"])

theorem faces_guarded {x m : Name l} (hx : x.text = "x") (hm : m.text = "m") :
    (guarded x m).faces = guardedFaces := by
  simp [guarded, guardedFaces, Name.face, hx, hm, parens]

/-- A method with the statements `stacked`, over two lines. -/
def stackedMethod : String :=
  "class C \x7b void f() \x7b do for (;;)\nif (x) m(); while (x); " ++
    "while (x) \x7b m(); \x7d \x7d \x7d"

/-- A function with them. -/
def stackedFunction : String :=
  "function m() \x7b do for (;;)\nif (x) m(); while (x); while (x) \x7b m(); \x7d \x7d"

end Looping

/-- Statements with three loops, in a method and in a function. -/
theorem analyze_loops_stacked :
    (∃ r, ({} : Engine).analyze "C.java" stackedMethod "java" = .ok r ∧
      ∀ f ∈ r.all, f.decisions.countP (·.category == .loop) = 3) ∧
    ∃ r f, ({} : Engine).analyze "m.js" stackedFunction "javascript" = .ok r ∧ r.all = [f] ∧
      f.decisions.countP (·.category == .loop) = 3 := by
  constructor
  · let x : Name java := ⟨"x", Language.Java.names.1⟩
    let m : Name java := ⟨"m", Language.Java.names.2⟩
    have hl : Registry.builtin.lookup? "java" = some java := rfl
    obtain ⟨hany, hmethod, -⟩ :=
      analyze_loops (by decide) hl "C.java" stackedMethod (stacked x m)
    have hchars : stackedMethod = String.ofList _ := append_eq_ofList rfl rfl
    have hfaces : (Code.ofSource java stackedMethod).faces =
        methodUnit ⟨"C", by decide +kernel⟩ ⟨"void", by decide⟩ ⟨"f", by decide +kernel⟩
          (stacked x m).faces := by
      rw [faces_stacked rfl rfl, Code.ofSource_eq_ofChars java _ hchars,
        show java = _ from Language.Java.canonical_eq]
      decide +kernel
    have hopening : ∃ forest, detect java (Code.ofSource java stackedMethod) = .ok forest ∧
        forest.entities.toList.map (·.opening) = [7] := by
      rw [Code.ofSource_eq_ofChars java _ hchars, show java = _ from Language.Java.canonical_eq]
      exact exists_ok_of_view (by decide +kernel)
    obtain ⟨ds, hfinds, hcounts⟩ := hmethod rfl _ _ _ hfaces
    have hlength : (stacked x m).marked.length = 29 := rfl
    obtain ⟨r, -, hr, -⟩ := hfinds.of_marked hcounts.marked (by rw [hlength]; decide)
    refine ⟨r, hr, fun f hf => ?_⟩
    obtain ⟨forest, hforest, hall⟩ := hany r hr
    obtain ⟨forest', hforest', hmap⟩ := hopening
    obtain rfl : forest = forest' := Except.ok.inj (hforest.symm.trans hforest')
    obtain ⟨e, he, hcounts⟩ := hall f hf
    have hspell := (Code.spells_append.mp (Code.spells_methodUnit hfaces).2).1
    rw [← opening_of_single hmap he] at hspell
    exact (hcounts hspell).loops rfl
  · let x : Name Language.JavaScript.table.canonical := ⟨"x", Language.JavaScript.names.1⟩
    let m : Name Language.JavaScript.table.canonical := ⟨"m", Language.JavaScript.names.2⟩
    have hl : Registry.builtin.lookup? "javascript" =
      some Language.JavaScript.table.canonical := rfl
    have hfaces : (Code.ofSource Language.JavaScript.table.canonical stackedFunction).faces =
        functionUnit "function" "m" (stacked x m).faces := by
      rw [faces_stacked rfl rfl, Code.ofSource_eq_ofChars _ stackedFunction rfl,
        Language.JavaScript.canonical_eq]
      decide +kernel
    obtain ⟨-, -, hfunction⟩ := analyze_loops (by decide) hl "m.js" stackedFunction (stacked x m)
    obtain ⟨ds, hfinds, hcounts⟩ := hfunction rfl m hfaces
    have hlength : (stacked x m).marked.length = 29 := rfl
    obtain ⟨r, f, hr, hall, -, rfl, -⟩ :=
      hfinds.of_marked hcounts.marked (by rw [hlength]; decide)
    exact ⟨r, f, hr, hall, hcounts.loops rfl⟩

/-- A method with the statements `guarded`. -/
def guardedMethod : String :=
  "class C \x7b void f() \x7b do if (x) \x7b m(); \x7d while (x); \x7d \x7d"

/-- The block of a conditional hides the `do` in front of it, and the end of the loop counts as
another. -/
theorem analyze_guarded_twice : ∃ (c m : Ident) (type : Primitive) (ss : Stmts java),
    (Code.ofSource java guardedMethod).faces = methodUnit c type m ss.faces ∧ ss.loops = 1 ∧
      ∃ r, ({} : Engine).analyze "C.java" guardedMethod "java" = .ok r ∧
        r.readings = [("f", 4, [(.loop, 21), (.conditional, 24), (.loop, 40)])] := by
  let x : Name java := ⟨"x", Language.Java.names.1⟩
  let m : Name java := ⟨"m", Language.Java.names.2⟩
  have hl : Registry.builtin.lookup? "java" = some java := rfl
  refine ⟨⟨"C", by decide +kernel⟩, ⟨"f", by decide +kernel⟩, ⟨"void", by decide⟩, guarded x m, ?_,
    rfl, ?_⟩
  · rw [faces_guarded rfl rfl, Code.ofSource_eq_ofChars java guardedMethod rfl,
      show java = _ from Language.Java.canonical_eq]
    decide +kernel
  · rw [Engine.analyze_of_lookup? hl, analyzeIn, Code.ofSource_eq_ofChars java guardedMethod rfl,
      show java = _ from Language.Java.canonical_eq]
    exact exists_ok_of_view (by decide +kernel)

end Cyclomatic
