import Cyclomatic.Proofs.JavaCore.Quiet

/-!
# Bodies of methods

A piece of code is a `Segment` if no type and no function starts in it and its tokens make the
given decisions, in order.  Every expression and every statement of the grammar is a segment with
the decisions that a reader counts.

The keyword `while` is the start of a loop or the end of one that starts with `do`.  `Start` says
that a statement may start at a token: looking back from there, the scorer finds no open `do`.
Each statement hands this on to the next.
-/

namespace Cyclomatic

open JavaCore

namespace Code

variable {code : Code} {i k : Nat}

/-! ## Segments -/

/-- No type and no function starts in a piece of code, and its tokens make the given decisions. -/
structure Segment (code : Code) (i : Nat) (fs : List Face) (marks : List Mark) : Prop where
  /-- No type and no function starts in it. -/
  still : ∀ {k}, i ≤ k → k < i + fs.length → Still code k
  /-- Its decisions. -/
  marks : (List.range' i fs.length).filterMap code.markAt = marks

namespace Segment

theorem nil : Segment code i [] [] := ⟨fun h1 h2 => by simp at h2; omega, rfl⟩

/-- Two segments follow each other. -/
theorem append {a b : List Face} {m n : List Mark} (ha : Segment code i a m)
    (hb : Segment code (i + a.length) b n) : Segment code i (a ++ b) (m ++ n) := by
  refine ⟨fun {k} h1 h2 => ?_, ?_⟩
  · rw [List.length_append] at h2
    by_cases hk : k < i + a.length
    · exact ha.still h1 hk
    · exact hb.still (by omega) (by omega)
  · rw [List.length_append, ← List.range'_append_1, List.filterMap_append, ha.marks, hb.marks]

theorem token {f : Face} {m : Option Mark} (hs : Still code i) (hm : code.markAt i = m) :
    Segment code i [f] m.toList := by
  refine ⟨fun {k} h1 h2 => ?_, ?_⟩
  · obtain rfl : k = i := by simp at h2; omega
    exact hs
  · subst hm
    cases h : code.markAt i <;> simp [h]

/-- A piece of code behind a token that makes no decision. -/
theorem cons {f : Face} {fs : List Face} {m : List Mark} (hs : Still code i)
    (hm : code.markAt i = none) (h : Segment code (i + 1) fs m) : Segment code i (f :: fs) m :=
  (token (f := f) hs hm).append h

/-- A piece of code behind a token that makes a decision. -/
theorem mark {f : Face} {fs : List Face} {d : Mark} {m : List Mark} (hs : Still code i)
    (hm : code.markAt i = some d) (h : Segment code (i + 1) fs m) :
    Segment code i (f :: fs) (d :: m) :=
  (token (f := f) hs hm).append h

end Segment

/-- A symbol or keyword that neither starts a type nor makes a decision. -/
def isPlain (f : Face) : Bool :=
  f.1 != .identifier && !javaRules.containerKeywords.contains f.2 &&
    !(java.decisions.map (·.token)).contains f.2

/-- The symbols and keywords of the grammar that neither start a type nor make a decision. -/
def plainFaces : List Face :=
  [punct "(", punct ")", punct "\x7b", punct "\x7d", punct "[", punct "]", punct ";", punct ",",
    op "<", op ">", op "=", op ":", word "else", word "try", word "switch", word "default"]

theorem isPlain_of_mem {f : Face} (h : f ∈ plainFaces) : isPlain f = true := by
  have hall : ∀ f ∈ plainFaces, isPlain f = true := by decide
  exact hall f h

/-- At a plain token nothing starts and nothing is decided. -/
theorem silent_of_plain {f : Face} (hf : code.face? i = some f) (hplain : isPlain f = true) :
    Silent code i ∧ code.markAt i = none := by
  simp only [isPlain, Bool.and_eq_true, bne_iff_ne, Bool.not_eq_true',
    ← Bool.not_eq_true, List.contains_iff_mem] at hplain
  exact ⟨silent_of_symbol hf hplain.1.1 hplain.1.2, markAt_eq_none hf hplain.2⟩

theorem Segment.plain {f : Face} {fs : List Face} {m : List Mark} (hf : code.face? i = some f)
    (hplain : isPlain f = true) (h : Segment code (i + 1) fs m) : Segment code i (f :: fs) m := by
  obtain ⟨hs, hm⟩ := silent_of_plain hf hplain
  exact h.cons hs.still hm

theorem markAt_name {x : Ident} (hx : code.face? i = some x.face) : code.markAt i = none :=
  markAt_eq_none hx (x.not_mem (by decide))

theorem Segment.name {x : Ident} {fs : List Face} {m : List Mark} (hs : Still code i)
    (hx : code.face? i = some x.face) (h : Segment code (i + 1) fs m) :
    Segment code i (x.face :: fs) m :=
  h.cons hs (markAt_name hx)

/-- A keyword or operator that makes a decision wherever it stands. -/
theorem Segment.decide {kind : Kind} {token : String} {category : Category} {fs : List Face}
    {m : List Mark} (hf : code.face? i = some (kind, token))
    (hk : kind = .keyword ∨ kind = .operator) (hc : token ∉ javaRules.containerKeywords)
    (hr : { token := token, category := category } ∈ java.decisions)
    (h : Segment code (i + 1) fs m) :
    Segment code i ((kind, token) :: fs) ((category, token) :: m) := by
  have hkind : kind ≠ .identifier := by rcases hk with rfl | rfl <;> simp
  exact h.mark (silent_of_symbol hf hkind hc).still (markAt_of_rule hf hk hr)

/-! ## Groups -/

/-- A segment in parentheses is one. -/
theorem Segment.parens {fs : List Face} {m : List Mark} (h : code.Spells i (parens fs))
    (hin : Segment code (i + 1) fs m) : Segment code i (parens fs) m := by
  obtain ⟨hopen, -, hclose⟩ := spells_parens h
  have hlast : Segment code (i + 1 + fs.length) [punct ")"] [] :=
    nil.plain hclose (isPlain_of_mem (by decide))
  have hall := (hin.append hlast).plain hopen (isPlain_of_mem (by decide))
  rwa [List.append_nil] at hall

/-- A segment in braces is one. -/
theorem Segment.braces {fs : List Face} {m : List Mark} (h : code.Spells i (braces fs))
    (hin : Segment code (i + 1) fs m) : Segment code i (braces fs) m := by
  obtain ⟨hopen, -, hclose⟩ := spells_braces h
  have hlast : Segment code (i + 1 + fs.length) [punct "\x7d"] [] :=
    nil.plain hclose (isPlain_of_mem (by decide))
  have hall := (hin.append hlast).plain hopen (isPlain_of_mem (by decide))
  rwa [List.append_nil] at hall

theorem at_cons {P : Nat → Prop} {f : Face} {fs : List Face} (h : P (i + 1 + fs.length)) :
    P (i + (f :: fs).length) := by
  rwa [List.length_cons, Nat.add_comm fs.length, ← Nat.add_assoc]

theorem at_append {P : Nat → Prop} {a b : List Face} (h : P (i + a.length + b.length)) :
    P (i + (a ++ b).length) := by
  rwa [List.length_append, ← Nat.add_assoc]

/-! ## Types -/

/-- Nothing happens in a piece of code: nothing starts there, and no token makes a decision. -/
structure Lull (code : Code) (i : Nat) (fs : List Face) : Prop where
  /-- Nothing starts there. -/
  silent : ∀ {k}, i ≤ k → k < i + fs.length → Silent code k
  /-- No token makes a decision. -/
  unmarked : ∀ {k}, i ≤ k → k < i + fs.length → code.markAt k = none

namespace Lull

theorem nil : Lull code i [] :=
  ⟨fun h1 h2 => by simp at h2; omega, fun h1 h2 => by simp at h2; omega⟩

theorem append {a b : List Face} (ha : Lull code i a) (hb : Lull code (i + a.length) b) :
    Lull code i (a ++ b) := by
  constructor
  all_goals
    intro k h1 h2
    rw [List.length_append] at h2
    by_cases hk : k < i + a.length
  · exact ha.silent h1 hk
  · exact hb.silent (by omega) (by omega)
  · exact ha.unmarked h1 hk
  · exact hb.unmarked (by omega) (by omega)

theorem cons {f : Face} {fs : List Face} (hs : Silent code i) (hm : code.markAt i = none)
    (h : Lull code (i + 1) fs) : Lull code i (f :: fs) := by
  have htoken : Lull code i [f] := by
    constructor
    all_goals
      intro k h1 h2
      obtain rfl : k = i := by simp at h2; omega
    · exact hs
    · exact hm
  exact htoken.append h

theorem plain {f : Face} {fs : List Face} (hf : code.face? i = some f)
    (hplain : isPlain f = true) (h : Lull code (i + 1) fs) : Lull code i (f :: fs) := by
  obtain ⟨hs, hm⟩ := silent_of_plain hf hplain
  exact h.cons hs hm

theorem name {x : Ident} {fs : List Face} (hs : Silent code i) (hx : code.face? i = some x.face)
    (h : Lull code (i + 1) fs) : Lull code i (x.face :: fs) :=
  h.cons hs (markAt_name hx)

theorem segment {fs : List Face} (h : Lull code i fs) : Segment code i fs [] := by
  refine ⟨fun h1 h2 => (h.silent h1 h2).still, List.filterMap_eq_nil_iff.mpr fun k hk => ?_⟩
  rw [List.mem_range'_1] at hk
  exact h.unmarked hk.1 hk.2

end Lull

theorem lull_dims (array : Bool) (h : code.Spells i (dims array)) : Lull code i (dims array) := by
  cases array with
  | false => exact .nil
  | true =>
    obtain ⟨hopen, hrest⟩ := spells_cons.mp h
    obtain ⟨hclose, -⟩ := spells_cons.mp hrest
    have hlast : Lull code (i + 1) [punct "]"] := Lull.nil.plain hclose (isPlain_of_mem (by decide))
    exact hlast.plain hopen (isPlain_of_mem (by decide))

theorem plain_primitive (p : Primitive) : isPlain (word p.text) = true := by
  have hall : ∀ s ∈ primitives, isPlain (word s) = true := by decide
  exact hall _ p.valid

/-- The first token of the dimensions and of what follows them. -/
theorem face?_dims {array : Bool} {g : Face} (h : code.Spells i (dims array))
    (hg : code.face? (i + (dims array).length) = some g) (hparen : g ≠ punct "(") :
    ∃ f, code.face? i = some f ∧ f ≠ punct "(" := by
  cases array with
  | false => exact ⟨g, hg, hparen⟩
  | true => exact ⟨punct "[", (spells_cons.mp h).1, by simp⟩

mutual

/-- Nothing happens in a type. -/
theorem lull_type (ha : code.Angles) : (t : Ty) → {i : Nat} → {g : Face} →
    code.Spells i t.render → code.face? (i + t.render.length) = some g → g ≠ punct "(" →
    Lull code i t.render
  | .primitive p array, i, g, h, _, _ => by
    obtain ⟨hp, hdims⟩ := spells_cons.mp h
    exact (lull_dims array hdims).plain hp (plain_primitive p)
  | .name n array, i, g, h, hg, hparen => by
    obtain ⟨hn, hdims⟩ := spells_cons.mp h
    rw [Ty.render, List.length_cons, Nat.add_comm _ 1, ← Nat.add_assoc] at hg
    obtain ⟨f, hf, hne⟩ := face?_dims hdims hg hparen
    exact (lull_dims array hdims).name (silent_of_name ha hn hf hne) hn
  | .generic n args array, i, g, h, _, _ => by
    obtain ⟨hn, h⟩ := spells_cons.mp h
    obtain ⟨hopen, h⟩ := spells_cons.mp h
    obtain ⟨hargs, h⟩ := spells_append.mp h
    obtain ⟨hclose, hdims⟩ := spells_cons.mp h
    have hinner := lull_typeArgs ha args hargs hclose (by simp)
    have hlast := (lull_dims array hdims).plain hclose (isPlain_of_mem (by decide))
    have hall := (hinner.append hlast).plain hopen (isPlain_of_mem (by decide))
    exact hall.name (silent_of_name ha hn hopen (by simp)) hn

/-- Nothing starts in the arguments of a type if no parenthesis follows them. -/
theorem lull_typeArgs (ha : code.Angles) : (args : TyArgs) → {i : Nat} → {g : Face} →
    code.Spells i args.render → code.face? (i + args.render.length) = some g → g ≠ punct "(" →
    Lull code i args.render
  | .one t, _, _, h, hg, hparen => lull_type ha t h hg hparen
  | .more t rest, i, g, h, hg, hparen => by
    obtain ⟨ht, h⟩ := spells_append.mp h
    obtain ⟨hcomma, hrest⟩ := spells_cons.mp h
    have hend : code.face? (i + t.render.length + 1 + rest.render.length) = some g := by
      rw [← hg, TyArgs.render, List.length_append, List.length_cons]
      congr 1
      omega
    have hlast := lull_typeArgs ha rest hrest hend hparen
    have htail := hlast.plain hcomma (isPlain_of_mem (by decide))
    exact (lull_type ha t ht hcomma (by simp)).append htail

end

/-! ## Expressions -/

/-- The tokens that may follow an expression. -/
def afterExpr : List Face :=
  [punct ";", punct ",", punct ")", op "&&", op "||", op "?", op ":"]

theorem passes_name {x : Ident} (hx : code.face? i = some x.face) : Passes code i [x.face] :=
  passes_token hx (x.not_mem (by decide))

/-- What follows an expression is no part of a signature. -/
theorem not_throws_of_afterExpr {g : Face} (hg : g ∈ afterExpr) :
    g ≠ punct "(" ∧ g ≠ punct "\x7b" ∧ g.2 ≠ "throws" := by
  revert hg
  revert g
  decide

/-- The token after an argument is a comma or the parenthesis. -/
theorem face?_comma {rest : Args} {fs : List Face} (h : code.Spells i (rest.comma fs))
    (hg : code.face? (i + (rest.comma fs).length) = some (punct ")")) :
    ∃ g, code.face? i = some g ∧ g ∈ afterExpr := by
  cases rest with
  | nil => exact ⟨_, hg, by decide⟩
  | expr => exact ⟨_, (spells_cons.mp h).1, by decide⟩
  | lambda => exact ⟨_, (spells_cons.mp h).1, by decide⟩

/-- What is to be shown of arguments: they are a segment.  The statement of a lambda in them
starts with the first argument of the call. -/
def ArgsSegment (code : Code) (args : Args) : Prop :=
  ∀ {i}, code.Spells i args.render → code.face? (i + args.render.length) = some (punct ")") →
    (args ≠ .nil → ∃ x : Ident, code.face? (code.statementStart i) = some x.face) →
    Segment code i args.render args.marks

/-- The arguments after the first are a segment. -/
theorem segment_comma {rest : Args} (hrest : ArgsSegment code rest)
    (h : code.Spells i (rest.comma rest.render))
    (hg : code.face? (i + (rest.comma rest.render).length) = some (punct ")"))
    (hfirst : ∃ x : Ident, code.face? (code.statementStart i) = some x.face) :
    Segment code i (rest.comma rest.render) rest.marks := by
  by_cases hnil : rest = .nil
  · subst hnil
    exact .nil
  · have hcomma : rest.comma rest.render = punct "," :: rest.render := by
      cases rest with
      | nil => exact absurd rfl hnil
      | expr => rfl
      | lambda => rfl
    rw [hcomma] at h hg ⊢
    obtain ⟨hsep, h⟩ := spells_cons.mp h
    rw [List.length_cons, Nat.add_comm _ 1, ← Nat.add_assoc] at hg
    have hpass : Passes code i [punct ","] := passes_token hsep (by decide)
    refine (hrest h hg fun _ => ?_).plain hsep (isPlain_of_mem (by decide))
    rw [show i + 1 = i + [punct ","].length from rfl, hpass.start]
    exact hfirst

mutual

/-- An expression is a segment that the walks of the guards pass. -/
theorem segment_expr (hp : code.Paired) (ha : code.Angles) : (e : Expr) → {i : Nat} → {g : Face} →
    code.Spells i e.render → code.face? (i + e.render.length) = some g → g ∈ afterExpr →
    Segment code i e.render e.marks ∧ Passes code i e.render
  | .name x, i, g, h, hg, hend => by
    obtain ⟨hx, -⟩ := spells_cons.mp h
    have hsilent := silent_of_name ha hx hg (not_throws_of_afterExpr hend).1
    exact ⟨Segment.nil.name hsilent.still hx, passes_name hx⟩
  | .call m args, i, g, h, hg, hend => by
    obtain ⟨hm, hparens⟩ := spells_cons.mp h
    obtain ⟨hopen, hargs, hclose⟩ := spells_parens hparens
    have hbalanced := args.neat_render.balanced
    obtain ⟨-, hbrace, hthrows⟩ := not_throws_of_afterExpr hend
    have hgend : code.face? (i + 1 + (parens args.render).length) = some g := by
      rw [← hg, Expr.render, List.length_cons]
      congr 1
      simp [parens]
      omega
    have hstill := still_of_call hp h hbalanced hgend hbrace hthrows
    have hinner := segment_args hp ha args hargs hclose fun hne => by
      obtain ⟨x, fs, hx⟩ := head_args hne
      rw [hx] at hargs
      exact ⟨x, by rw [statementStart_open hopen]; exact (spells_cons.mp hargs).1⟩
    exact ⟨(hinner.parens hparens).name hstill hm,
      (passes_name hm).append (passes_parens hp hparens hbalanced)⟩
  | .and a b, i, g, h, hg, hend => by
    obtain ⟨hleft, h⟩ := spells_append.mp h
    obtain ⟨hop, hright⟩ := spells_cons.mp h
    have hgend : code.face? (i + a.render.length + 1 + b.render.length) = some g := by
      rw [← hg, Expr.render, List.length_append, List.length_cons]
      congr 1
      omega
    obtain ⟨sa, pa⟩ := segment_expr hp ha a hleft hop (by decide)
    obtain ⟨sb, pb⟩ := segment_expr hp ha b hright hgend hend
    have hpass : Passes code (i + a.render.length) [op "&&"] := passes_token hop (by decide)
    exact ⟨sa.append (sb.decide hop (Or.inr rfl) (by decide) (by decide)),
      pa.append (hpass.append pb)⟩
  | .or a b, i, g, h, hg, hend => by
    obtain ⟨hleft, h⟩ := spells_append.mp h
    obtain ⟨hop, hright⟩ := spells_cons.mp h
    have hgend : code.face? (i + a.render.length + 1 + b.render.length) = some g := by
      rw [← hg, Expr.render, List.length_append, List.length_cons]
      congr 1
      omega
    obtain ⟨sa, pa⟩ := segment_expr hp ha a hleft hop (by decide)
    obtain ⟨sb, pb⟩ := segment_expr hp ha b hright hgend hend
    have hpass : Passes code (i + a.render.length) [op "||"] := passes_token hop (by decide)
    exact ⟨sa.append (sb.decide hop (Or.inr rfl) (by decide) (by decide)),
      pa.append (hpass.append pb)⟩

/-- Arguments are a segment. -/
theorem segment_args (hp : code.Paired) (ha : code.Angles) : (args : Args) → ArgsSegment code args
  | .nil, _, _, _, _ => .nil
  | .expr e rest, i, h, hg, hfirst => by
    obtain ⟨he, hcomma⟩ := spells_append.mp h
    rw [Args.render, List.length_append, ← Nat.add_assoc] at hg
    obtain ⟨g, hnext, hend⟩ := face?_comma hcomma hg
    obtain ⟨se, pe⟩ := segment_expr hp ha e he hnext hend
    refine se.append (segment_comma (segment_args hp ha rest) hcomma hg ?_)
    rw [pe.start]
    exact hfirst (by simp)
  | .lambda x e rest, i, h, hg, hfirst => by
    obtain ⟨hx, h⟩ := spells_cons.mp h
    obtain ⟨harrow, h⟩ := spells_cons.mp h
    obtain ⟨he, hcomma⟩ := spells_append.mp h
    rw [Args.render, List.length_cons, List.length_cons, List.length_append,
      show i + (e.render.length + (rest.comma rest.render).length + 1 + 1) =
        i + 1 + 1 + e.render.length + (rest.comma rest.render).length by omega] at hg
    obtain ⟨g, hnext, hend⟩ := face?_comma hcomma hg
    obtain ⟨se, pe⟩ := segment_expr hp ha e he hnext hend
    obtain ⟨y, hy⟩ := hfirst (by simp)
    have hstart : code.statementStart (i + 1) = code.statementStart i := (passes_name hx).start
    have hmark : code.markAt (i + 1) = some (.lambda, "->") := by
      refine markAt_arrow harrow ?_
      rw [hstart, text_of_face hy]
      exact y.not_mem (by decide)
    have hpass : Passes code (i + 1) [op "->"] := passes_token harrow (by decide)
    have hmore := segment_comma (segment_args hp ha rest) hcomma hg (by
      rw [pe.start, show i + 1 + 1 = i + 1 + [op "->"].length from rfl, hpass.start, hstart]
      exact ⟨y, hy⟩)
    have htail := (se.append hmore).mark (f := op "->")
      (silent_of_symbol harrow (by simp) (by decide)).still hmark
    exact htail.name (silent_of_name ha hx harrow (by simp)).still hx

end

/-- The last token of an expression. -/
theorem last_expr : (e : Expr) → {i : Nat} → code.Spells i e.render →
    ∃ p f, i + e.render.length = p + 1 ∧ code.face? p = some f ∧ f.2 ∉ ["<", ","]
  | .name x, i, h => ⟨i, x.face, rfl, (spells_cons.mp h).1, x.not_mem (by decide)⟩
  | .call m args, i, h => by
    obtain ⟨-, -, hclose⟩ := spells_parens (spells_cons.mp h).2
    refine ⟨_, _, ?_, hclose, by decide⟩
    simp [Expr.render]
    omega
  | .and a b, i, h => by
    obtain ⟨p, f, hlen, hf, hne⟩ := last_expr b (spells_cons.mp (spells_append.mp h).2).2
    refine ⟨p, f, ?_, hf, hne⟩
    rw [← hlen, Expr.render, List.length_append, List.length_cons]
    omega
  | .or a b, i, h => by
    obtain ⟨p, f, hlen, hf, hne⟩ := last_expr b (spells_cons.mp (spells_append.mp h).2).2
    refine ⟨p, f, ?_, hf, hne⟩
    rw [← hlen, Expr.render, List.length_append, List.length_cons]
    omega

/-! ## Starts of statements -/

/-- A statement may start at a token: no `do` is open before it. -/
structure Start (code : Code) (i : Nat) : Prop where
  /-- Looking back over the statement before finds none. -/
  fresh : code.opensDo i = false
  /-- A loop that starts here is not the end of another. -/
  ready : code.text i = "while" → code.endsBodyOf ["do"] i = false

/-- Behind a token that ends no statement, the two searches for a `do` are one. -/
theorem endsBodyOf_token {f : Face} (hf : code.face? k = some f) (hclose : f ≠ punct "\x7d")
    (hsemi : f ≠ punct ";") (hwhile : code.text (k + 1) = "while") :
    code.endsBodyOf ["do"] (k + 1) = code.opensDo (k + 1) := by
  unfold endsBodyOf
  dsimp only
  rw [isPunct_of_ne hf hclose, isPunct_of_ne hf hsemi, if_neg Bool.false_ne_true,
    if_neg Bool.false_ne_true, hwhile]
  rfl

/-- Behind a semicolon, the search starts before it. -/
theorem endsBodyOf_semicolon (h : code.face? k = some (punct ";"))
    (hwhile : code.text (k + 1) = "while") :
    code.endsBodyOf ["do"] (k + 1) = code.opensDo k := by
  unfold endsBodyOf
  dsimp only
  rw [isPunct_of_face h, isPunct_of_face h, hwhile]
  rfl

/-- A statement starts behind a token that ends none and opens no loop. -/
theorem start_of_fresh {f : Face} (hf : code.face? k = some f) (hclose : f ≠ punct "\x7d")
    (hsemi : f ≠ punct ";") (h : code.opensDo (k + 1) = false) : Start code (k + 1) :=
  ⟨h, fun hwhile => (endsBodyOf_token hf hclose hsemi hwhile).trans h⟩

theorem start_after_open (h : code.face? k = some (punct "\x7b")) : Start code (k + 1) :=
  start_of_fresh h (by decide) (by decide) (opensDo_stop h (by decide))

/-- A statement starts behind a semicolon, unless this ends a loop with its condition last. -/
theorem start_after_semicolon (h : code.face? k = some (punct ";"))
    (hfresh : code.opensDo k = false) : Start code (k + 1) :=
  ⟨opensDo_stop h (by decide), fun hwhile => (endsBodyOf_semicolon h hwhile).trans hfresh⟩

/-- The word that opens a block, from the end of the block. -/
theorem endsBodyOf_block (hp : code.Paired) {inner : List Face} (h : code.Spells k (braces inner))
    (hinner : Balanced inner) (words : List String) :
    code.endsBodyOf words (k + (braces inner).length) = words.contains (code.openerWord k) := by
  obtain ⟨-, -, hclose⟩ := spells_braces h
  have hpartner : code.partner? (k + 1 + inner.length) = some k :=
    (Option.filter_eq_some_iff.mp (h.opener? hp .curly hinner)).1
  rw [length_braces, show k + (inner.length + 2) = (k + 1 + inner.length) + 1 by omega]
  unfold endsBodyOf
  dsimp only
  rw [if_pos (by simp [isPunct_of_face hclose]), hpartner]
  rfl

/-- A statement starts behind a block that is not the body of such a loop. -/
theorem start_after_block (hp : code.Paired) {inner : List Face}
    (h : code.Spells k (braces inner)) (hinner : Balanced inner)
    (hword : code.openerWord k ≠ "do") : Start code (k + (braces inner).length) := by
  obtain ⟨-, -, hclose⟩ := spells_braces h
  refine ⟨?_, fun _ => ?_⟩
  · rw [length_braces, show k + (inner.length + 2) = (k + 1 + inner.length) + 1 by omega]
    exact opensDo_stop hclose (by decide)
  · rw [endsBodyOf_block hp h hinner]
    simpa using hword

/-- A block is opened by the token in front of it. -/
theorem openerWord_token {f : Face} (h : code.face? k = some f) (hne : f ≠ punct ")") :
    code.openerWord (k + 1) = f.2 := by
  unfold openerWord
  dsimp only
  rw [isPunct_of_ne h hne]
  exact text_of_face h

/-- A block behind parentheses is opened by the token in front of them. -/
theorem openerWord_parens (hp : code.Paired) {f : Face} {inner : List Face}
    (h : code.Spells k (f :: parens inner)) (hinner : Balanced inner) :
    code.openerWord (k + 1 + (parens inner).length) = f.2 := by
  obtain ⟨hw, hparens⟩ := spells_cons.mp h
  obtain ⟨-, -, hclose⟩ := spells_parens hparens
  have hpartner : code.partner? (k + 1 + 1 + inner.length) = some (k + 1) :=
    (Option.filter_eq_some_iff.mp (hparens.opener? hp .round hinner)).1
  rw [length_parens,
    show k + 1 + (inner.length + 2) = (k + 1 + 1 + inner.length) + 1 by omega]
  unfold openerWord
  dsimp only
  rw [if_pos (by simp [isPunct_of_face hclose]), hpartner]
  exact text_of_face hw

/-! ## Statements -/

/-- Tokens that make the given decisions wherever a statement may start, and after which another
may start. -/
def Follows (code : Code) (fs : List Face) (marks : List Mark) : Prop :=
  ∀ i, code.Spells i fs → Start code i →
    Segment code i fs marks ∧ Start code (i + fs.length)

theorem Follows.nil : Follows code [] [] := fun _ _ hstart => ⟨.nil, hstart⟩

/-- Statements follow each other. -/
theorem Follows.append {a b : List Face} {m n : List Mark} (ha : Follows code a m)
    (hb : Follows code b n) : Follows code (a ++ b) (m ++ n) := by
  intro i h hstart
  obtain ⟨h1, h2⟩ := spells_append.mp h
  obtain ⟨s1, hmid⟩ := ha _ h1 hstart
  obtain ⟨s2, hend⟩ := hb _ h2 hmid
  exact ⟨s1.append s2, at_append (P := Start code) hend⟩

/-- A statement that ends with a semicolon and that the search for a `do` passes. -/
theorem follows_simple {fs : List Face} {m : List Mark}
    (h : ∀ {i}, code.Spells i fs → code.face? (i + fs.length) = some (punct ";") →
      Segment code i fs m ∧ code.opensDo (i + fs.length) = code.opensDo i) :
    Follows code (fs ++ [punct ";"]) m := by
  intro i hspell hstart
  obtain ⟨hfs, hsemi⟩ := spells_append.mp hspell
  have hsemi := (spells_cons.mp hsemi).1
  obtain ⟨hseg, hopens⟩ := h hfs hsemi
  have hlast : Segment code (i + fs.length) [punct ";"] [] :=
    Segment.nil.plain hsemi (isPlain_of_mem (by decide))
  refine ⟨by simpa using hseg.append hlast, at_append (P := Start code) ?_⟩
  exact start_after_semicolon hsemi (hopens.trans hstart.fresh)

/-- A keyword with a block. -/
theorem follows_block (hp : code.Paired) {w : String} {fs : List Face} {m : List Mark}
    (hplain : isPlain (word w) = true) (hw : w ≠ "do") (hfs : Balanced fs)
    (hbody : Follows code fs m) : Follows code (word w :: braces fs) m := by
  intro i h hstart
  obtain ⟨hword, hbraces⟩ := spells_cons.mp h
  obtain ⟨hopen, hinner, -⟩ := spells_braces hbraces
  obtain ⟨hseg, -⟩ := hbody _ hinner (start_after_open hopen)
  refine ⟨(hseg.braces hbraces).plain hword hplain, at_cons (P := Start code) ?_⟩
  exact start_after_block hp hbraces hfs (by rwa [openerWord_token hword (by simp)])

/-- A keyword with parentheses and a block. -/
theorem follows_guarded (hp : code.Paired) {w : String} {head fs : List Face}
    {key m n : List Mark} (hw : w ≠ "do")
    (hkey : ∀ {i rest d}, code.face? i = some (word w) → Start code i →
      Segment code (i + 1) rest d → Segment code i (word w :: rest) (key ++ d))
    (hhead : Balanced head)
    (hseg : ∀ {i}, code.Spells i head → code.face? (i + head.length) = some (punct ")") →
      Segment code i head m)
    (hfs : Balanced fs) (hbody : Follows code fs n) :
    Follows code (word w :: (parens head ++ braces fs)) (key ++ (m ++ n)) := by
  intro i h hstart
  obtain ⟨hword, hrest⟩ := spells_cons.mp h
  obtain ⟨hparens, hbraces⟩ := spells_append.mp hrest
  obtain ⟨-, hinner, hclose⟩ := spells_parens hparens
  obtain ⟨hopen, hblock, -⟩ := spells_braces hbraces
  obtain ⟨hsegBody, -⟩ := hbody _ hblock (start_after_open hopen)
  have hsegHead := (hseg hinner hclose).parens hparens
  refine ⟨hkey hword hstart (hsegHead.append (hsegBody.braces hbraces)), ?_⟩
  refine at_cons (P := Start code) (at_append (P := Start code) ?_)
  refine start_after_block hp hbraces hfs ?_
  rwa [openerWord_parens hp (spells_cons.mpr ⟨hword, hparens⟩) hhead]

/-- The key of a statement that makes a decision wherever it stands. -/
theorem key_decide {w : String} {category : Category} (hc : w ∉ javaRules.containerKeywords)
    (hr : { token := w, category := category } ∈ java.decisions) {i : Nat} {rest : List Face}
    {d : List Mark} (hf : code.face? i = some (word w)) (_ : Start code i)
    (h : Segment code (i + 1) rest d) :
    Segment code i (word w :: rest) ([(category, w)] ++ d) :=
  h.decide hf (Or.inl rfl) hc hr

/-- The word `while` is a decision where a statement starts. -/
theorem key_while {i : Nat} {rest : List Face} {d : List Mark}
    (hf : code.face? i = some (word "while")) (hstart : Start code i)
    (h : Segment code (i + 1) rest d) :
    Segment code i (word "while" :: rest) ([(.loop, "while")] ++ d) := by
  refine h.mark (silent_of_symbol hf (by simp) (by decide)).still ?_
  rw [markAt_while hf, hstart.ready (text_of_face hf)]
  rfl

/-- A plain word is no decision. -/
theorem key_plain {w : String} (hplain : isPlain (word w) = true) {i : Nat} {rest : List Face}
    {d : List Mark} (hf : code.face? i = some (word w)) (_ : Start code i)
    (h : Segment code (i + 1) rest d) : Segment code i (word w :: rest) ([] ++ d) :=
  h.plain hf hplain

/-- The head of a statement is an expression. -/
theorem segment_condition (hp : code.Paired) (ha : code.Angles) (c : Expr) {i : Nat}
    (h : code.Spells i c.render) (hg : code.face? (i + c.render.length) = some (punct ")")) :
    Segment code i c.render c.marks :=
  (segment_expr hp ha c h hg (by decide)).1

/-- The head of a loop over elements has the decisions of its expression. -/
theorem segment_each (hp : code.Paired) (ha : code.Angles) (t : Ty) (x : Ident) (e : Expr) {i : Nat}
    (h : code.Spells i (typed t x ++ op ":" :: e.render))
    (hg : code.face? (i + (typed t x ++ op ":" :: e.render).length) = some (punct ")")) :
    Segment code i (typed t x ++ op ":" :: e.render) e.marks := by
  obtain ⟨htyped, hrest⟩ := spells_append.mp h
  obtain ⟨hcolon, he⟩ := spells_cons.mp hrest
  obtain ⟨ht, hx⟩ := spells_append.mp htyped
  have hx := (spells_cons.mp hx).1
  have hcolon' : code.face? (i + t.render.length + 1) = some (op ":") := by
    rw [← hcolon, typed, List.length_append, List.length_singleton, ← Nat.add_assoc]
  have hend : code.face? (i + (typed t x).length + 1 + e.render.length) = some (punct ")") := by
    rw [← hg, List.length_append, List.length_cons]
    congr 1
    omega
  have hname : Segment code (i + t.render.length) [x.face] [] :=
    Segment.nil.name (silent_of_name ha hx hcolon' (by simp)).still hx
  have htype := (lull_type ha t ht hx (by simp [Ident.face])).segment.append hname
  exact htype.append ((segment_condition hp ha e he hend).plain hcolon (isPlain_of_mem (by decide)))

/-- A call has the decisions of its arguments. -/
theorem follows_call (hp : code.Paired) (ha : code.Angles) (m : Ident) (args : Args) :
    Follows code (Stmt.call m args).render (Stmt.call m args).marks := by
  have hsimple : Follows code ((Expr.call m args).render ++ [punct ";"]) (Expr.call m args).marks :=
    follows_simple fun h hsemi =>
      have ⟨hseg, hpass⟩ := segment_expr hp ha (.call m args) h hsemi (by decide)
      ⟨hseg, hpass.opens⟩
  exact hsimple

/-- An assignment has those of its expression. -/
theorem follows_assign (hp : code.Paired) (ha : code.Angles) (x : Ident) (e : Expr) :
    Follows code (Stmt.assign x e).render (Stmt.assign x e).marks := by
  have hsimple : Follows code ((x.face :: op "=" :: e.render) ++ [punct ";"]) e.marks := by
    refine follows_simple fun {i} h hsemi => ?_
    obtain ⟨hx, h⟩ := spells_cons.mp h
    obtain ⟨heq, he⟩ := spells_cons.mp h
    have hend : code.face? (i + 1 + 1 + e.render.length) = some (punct ";") := by
      rw [← hsemi, List.length_cons, List.length_cons]
      congr 1
      omega
    obtain ⟨hseg, hpass⟩ := segment_expr hp ha e he hend (by decide)
    have hvalue := hseg.plain heq (isPlain_of_mem (by decide))
    refine ⟨hvalue.name (silent_of_name ha hx heq (by simp)).still hx, ?_⟩
    refine at_cons (P := fun j => code.opensDo j = code.opensDo i)
      (at_cons (P := fun j => code.opensDo j = code.opensDo i) ?_)
    rw [hpass.opens, opensDo_token heq (by decide)]
    exact (passes_name hx).opens
  exact hsimple

/-- An assignment of a ternary has those of its three expressions, and one of its own. -/
theorem follows_choose (hp : code.Paired) (ha : code.Angles) (x : Ident) (c a b : Expr) :
    Follows code (Stmt.choose x c a b).render (Stmt.choose x c a b).marks := by
  intro i h hstart
  obtain ⟨hx, h⟩ := spells_cons.mp h
  obtain ⟨heq, h⟩ := spells_cons.mp h
  obtain ⟨hc, h⟩ := spells_append.mp h
  obtain ⟨hq, h⟩ := spells_cons.mp h
  obtain ⟨hl, h⟩ := spells_append.mp h
  obtain ⟨hcolon, h⟩ := spells_cons.mp h
  obtain ⟨hr, h⟩ := spells_append.mp h
  have hsemi := (spells_cons.mp h).1
  obtain ⟨sc, pc⟩ := segment_expr hp ha c hc hq (by decide)
  obtain ⟨sl, pl⟩ := segment_expr hp ha a hl hcolon (by decide)
  obtain ⟨sr, pr⟩ := segment_expr hp ha b hr hsemi (by decide)
  -- The question mark stands between the last token of one expression and the first of another.
  have hmark : code.markAt (i + 1 + 1 + c.render.length) = some (.ternary, "?") := by
    obtain ⟨p, f, hlen, hf, hne⟩ := last_expr c hc
    obtain ⟨y, fs, hy⟩ := head_expr a
    rw [hy] at hl
    have hyface := (spells_cons.mp hl).1
    rw [hlen] at hq hyface ⊢
    exact markAt_question hq hf hyface hne (y.not_mem (by decide))
  have hlast : Segment code _ [punct ";"] [] := Segment.nil.plain hsemi (isPlain_of_mem (by decide))
  have hright := (sr.append hlast).plain hcolon (isPlain_of_mem (by decide))
  have hsilent := silent_of_symbol hq (by simp) (by decide)
  have hleft := (sl.append hright).mark (f := op "?") hsilent.still hmark
  have hall := ((sc.append hleft).plain heq (isPlain_of_mem (by decide))).name
    (silent_of_name ha hx heq (by simp)).still hx
  rw [List.append_nil] at hall
  refine ⟨hall, ?_⟩
  have hopens : code.opensDo (i + 1 + 1 + c.render.length + 1 + a.render.length + 1 +
      b.render.length) = false := by
    rw [pr.opens, opensDo_token hcolon (by decide), pl.opens, opensDo_token hq (by decide),
      pc.opens, opensDo_token heq (by decide)]
    exact (passes_name hx).opens.trans hstart.fresh
  have hend := start_after_semicolon hsemi hopens
  refine at_cons (P := Start code) (at_cons (P := Start code) (at_append (P := Start code) ?_))
  refine at_cons (P := Start code) (at_append (P := Start code) (at_cons (P := Start code) ?_))
  exact at_append (P := Start code) hend

/-- A loop with its condition last has one decision, for its first word. -/
theorem follows_doLoop (hp : code.Paired) (ha : code.Angles) (body : Stmts) (c : Expr)
    (hbody : Follows code body.render body.marks) :
    Follows code (Stmt.doLoop body c).render (Stmt.doLoop body c).marks := by
  intro i h hstart
  have hbalanced := body.neat_render.balanced
  obtain ⟨hdo, h⟩ := spells_cons.mp h
  obtain ⟨hbraces, h⟩ := spells_append.mp h
  obtain ⟨hwhile, h⟩ := spells_cons.mp h
  obtain ⟨hparens, h⟩ := spells_append.mp h
  have hsemi := (spells_cons.mp h).1
  obtain ⟨hopen, hinner, -⟩ := spells_braces hbraces
  obtain ⟨-, hc, hclose⟩ := spells_parens hparens
  obtain ⟨sbody, -⟩ := hbody _ hinner (start_after_open hopen)
  have scond := (segment_condition hp ha c hc hclose).parens hparens
  -- The block before the second keyword is that of the loop.
  have hmark : code.markAt (i + 1 + (braces body.render).length) = none := by
    rw [markAt_while hwhile, endsBodyOf_block hp hbraces hbalanced,
      openerWord_token hdo (by decide)]
    rfl
  have hlast : Segment code _ [punct ";"] [] := Segment.nil.plain hsemi (isPlain_of_mem (by decide))
  have htail := (scond.append hlast).cons (f := word "while")
    (silent_of_symbol hwhile (by simp) (by decide)).still hmark
  have hall := ((sbody.braces hbraces).append htail).decide hdo (Or.inl rfl) (by decide)
    (show (⟨"do", .loop, 1, {}⟩ : DecisionRule) ∈ java.decisions by decide)
  rw [List.append_nil] at hall
  refine ⟨hall, ?_⟩
  have hpass := passes_parens hp hparens c.neat_render.balanced
  have hend := start_after_semicolon hsemi (hpass.opens.trans (opensDo_stop hwhile (by decide)))
  refine at_cons (P := Start code) (at_append (P := Start code) (at_cons (P := Start code) ?_))
  exact at_append (P := Start code) hend

/-- A label with statements behind it. -/
theorem follows_label {label : List Face} {fs : List Face} {key m : List Mark}
    (hlabel : ∀ {i}, code.Spells i label → Start code i → code.face? (i + label.length) =
      some (op ":") → Segment code i label key ∧ code.opensDo (i + label.length) = code.opensDo i)
    (hfs : Follows code fs m) : Follows code (label ++ op ":" :: fs) (key ++ m) := by
  intro i h hstart
  obtain ⟨hl, h⟩ := spells_append.mp h
  obtain ⟨hcolon, hrest⟩ := spells_cons.mp h
  obtain ⟨slabel, hopens⟩ := hlabel hl hstart hcolon
  have hstart' : Start code (i + label.length + 1) := by
    refine start_of_fresh hcolon (by decide) (by decide) ?_
    rw [opensDo_token hcolon (by decide), hopens, hstart.fresh]
  obtain ⟨srest, hend⟩ := hfs _ hrest hstart'
  refine ⟨slabel.append (srest.plain hcolon (isPlain_of_mem (by decide))), ?_⟩
  exact at_append (P := Start code) (at_cons (P := Start code) hend)

/-- A case has one decision in front of those of its statements. -/
theorem follows_case (ha : code.Angles) (x : Ident) {fs : List Face} {m : List Mark}
    (hfs : Follows code fs m) :
    Follows code (word "case" :: x.face :: op ":" :: fs) ((.case, "case") :: m) := by
  have hlabel : Follows code ([word "case", x.face] ++ op ":" :: fs) ([(.case, "case")] ++ m) := by
    refine follows_label (fun {i} h _ hcolon => ?_) hfs
    obtain ⟨hcase, h⟩ := spells_cons.mp h
    have hx := (spells_cons.mp h).1
    have hname : Segment code (i + 1) [x.face] [] :=
      Segment.nil.name (silent_of_name ha hx hcolon (by simp)).still hx
    refine ⟨key_decide (by decide) (by decide) hcase ‹_› hname, ?_⟩
    exact (passes_name hx).opens.trans (opensDo_token hcase (by decide))
  exact hlabel

theorem follows_default {fs : List Face} {m : List Mark} (hfs : Follows code fs m) :
    Follows code (word "default" :: op ":" :: fs) m := by
  have hlabel : Follows code ([word "default"] ++ op ":" :: fs) ([] ++ m) := by
    refine follows_label (fun {i} h _ _ => ?_) hfs
    have hword := (spells_cons.mp h).1
    exact ⟨Segment.nil.plain hword (isPlain_of_mem (by decide)), opensDo_token hword (by decide)⟩
  exact hlabel

/-- The head of a handler: a type and a name. -/
theorem segment_handler (ha : code.Angles) (n x : Ident) {i : Nat}
    (h : code.Spells i [n.face, x.face])
    (hg : code.face? (i + [n.face, x.face].length) = some (punct ")")) :
    Segment code i [n.face, x.face] [] := by
  obtain ⟨hn, h⟩ := spells_cons.mp h
  have hx := (spells_cons.mp h).1
  have hlast : Segment code (i + 1) [x.face] [] :=
    Segment.nil.name (silent_of_name ha hx hg (by simp)).still hx
  exact hlast.name (silent_of_name ha hn hx (by simp [Ident.face])).still hn

/-- A conditional, with what follows its block. -/
theorem follows_if (hp : code.Paired) (ha : code.Angles) (c : Expr) (body : Stmts)
    (hbody : Follows code body.render body.marks) {fs : List Face} {m : List Mark}
    (hrest : Follows code fs m) :
    Follows code (word "if" :: (parens c.render ++ (braces body.render ++ fs)))
      ((.conditional, "if") :: (c.marks ++ (body.marks ++ m))) := by
  have hif : Follows code (word "if" :: (parens c.render ++ braces body.render))
      ([(.conditional, "if")] ++ (c.marks ++ body.marks)) :=
    follows_guarded hp (by decide) (key_decide (by decide) (by decide)) c.neat_render.balanced
      (segment_condition hp ha c) body.neat_render.balanced hbody
  simpa using hif.append hrest

/-- A handler, with those behind it. -/
theorem follows_catch (hp : code.Paired) (ha : code.Angles) (n x : Ident) (body : Stmts)
    (hbody : Follows code body.render body.marks) {fs : List Face} {m : List Mark}
    (hrest : Follows code fs m) :
    Follows code (word "catch" :: (parens [n.face, x.face] ++ (braces body.render ++ fs)))
      ((.catch, "catch") :: (body.marks ++ m)) := by
  have hcatch : Follows code (word "catch" :: (parens [n.face, x.face] ++ braces body.render))
      ([(.catch, "catch")] ++ ([] ++ body.marks)) :=
    follows_guarded hp (by decide) (key_decide (by decide) (by decide))
      ((Neat.nil.name x).name n).balanced (segment_handler ha n x) body.neat_render.balanced hbody
  simpa using hcatch.append hrest

theorem follows_else {fs : List Face} {m : List Mark} (hfs : Follows code fs m) :
    Follows code (word "else" :: fs) m := by
  intro i h hstart
  obtain ⟨hword, hrest⟩ := spells_cons.mp h
  have hfresh : code.opensDo (i + 1) = false := by
    rw [opensDo_token hword (by decide), hstart.fresh]
  obtain ⟨hseg, hend⟩ := hfs _ hrest (start_of_fresh hword (by decide) (by decide) hfresh)
  exact ⟨hseg.plain hword (isPlain_of_mem (by decide)), at_cons (P := Start code) hend⟩

/-- A loop over elements has one decision in front of those of its head and body. -/
theorem follows_each (hp : code.Paired) (ha : code.Angles) (t : Ty) (x : Ident) (e : Expr)
    (body : Stmts) (hbody : Follows code body.render body.marks) :
    Follows code (Stmt.each t x e body).render (Stmt.each t x e body).marks := by
  have hhead : Neat (typed t x ++ op ":" :: e.render) :=
    (neat_typed t x).append (e.neat_render.cons rfl (by simp))
  have hfor : Follows code
      (word "for" :: (parens (typed t x ++ op ":" :: e.render) ++ braces body.render))
      ([(.loop, "for")] ++ (e.marks ++ body.marks)) :=
    follows_guarded hp (by decide) (key_decide (by decide) (by decide)) hhead.balanced
      (segment_each hp ha t x e) body.neat_render.balanced hbody
  exact hfor

/-- A loop with its condition first has one decision in front of those of its condition and body. -/
theorem follows_while (hp : code.Paired) (ha : code.Angles) (c : Expr) (body : Stmts)
    (hbody : Follows code body.render body.marks) :
    Follows code (Stmt.loop c body).render (Stmt.loop c body).marks := by
  have hwhile : Follows code (word "while" :: (parens c.render ++ braces body.render))
      ([(.loop, "while")] ++ (c.marks ++ body.marks)) :=
    follows_guarded hp (by decide) key_while c.neat_render.balanced (segment_condition hp ha c)
      body.neat_render.balanced hbody
  exact hwhile

/-- A switch has the decisions of its expression and its cases. -/
theorem follows_switch (hp : code.Paired) (ha : code.Angles) (e : Expr) (cases : Cases)
    (hcases : Follows code cases.render cases.marks) :
    Follows code (Stmt.switch e cases).render (Stmt.switch e cases).marks := by
  have hswitch : Follows code (word "switch" :: (parens e.render ++ braces cases.render))
      ([] ++ (e.marks ++ cases.marks)) :=
    follows_guarded hp (by decide) (key_plain (isPlain_of_mem (by decide))) e.neat_render.balanced
      (segment_condition hp ha e) cases.neat_render.balanced hcases
  exact hswitch

/-- Statements make the decisions that a reader counts.  The induction is over statements, what
follows a conditional, branches and handlers at once. -/
theorem follows_stmts (hp : code.Paired) (ha : code.Angles) (ss : Stmts) :
    Follows code ss.render ss.marks := by
  refine @Stmts.rec (fun s => Follows code s.render s.marks)
    (fun ss => Follows code ss.render ss.marks) (fun e => Follows code e.render e.marks)
    (fun cs => Follows code cs.render cs.marks) (fun hs => Follows code hs.render hs.marks)
    ?call ?assign ?choose ?cond ?each ?loop ?doLoop ?switch ?attempt ?nil ?cons ?noElse ?block
    ?elseIf ?noCase ?default ?case ?noHandler ?handler ss
  case call => exact follows_call hp ha
  case assign => exact follows_assign hp ha
  case choose => exact follows_choose hp ha
  case cond => exact fun c body _ hbody hrest => follows_if hp ha c body hbody hrest
  case each => exact fun t x e body hbody => follows_each hp ha t x e body hbody
  case loop => exact fun c body hbody => follows_while hp ha c body hbody
  case doLoop => exact fun body c hbody => follows_doLoop hp ha body c hbody
  case switch => exact fun e cases hcases => follows_switch hp ha e cases hcases
  case attempt =>
    intro body handlers hbody hhandlers
    have htry := follows_block hp (w := "try") (isPlain_of_mem (by decide)) (by decide)
      body.neat_render.balanced hbody
    exact htry.append hhandlers
  case nil => exact .nil
  case cons => exact fun _ _ hs hrest => hs.append hrest
  case noElse => exact .nil
  case block =>
    intro body hbody
    exact follows_block hp (isPlain_of_mem (by decide)) (by decide) body.neat_render.balanced hbody
  case elseIf =>
    intro c body rest hbody hrest
    exact follows_else (follows_if hp ha c body hbody hrest)
  case noCase => exact .nil
  case default => exact fun _ hbody => follows_default hbody
  case case => exact fun x _ _ hbody hrest => follows_case ha x (hbody.append hrest)
  case noHandler => exact .nil
  case handler => exact fun n x body _ hbody hrest => follows_catch hp ha n x body hbody hrest

end Code

end Cyclomatic
