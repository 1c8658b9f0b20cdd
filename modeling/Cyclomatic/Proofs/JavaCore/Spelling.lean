import Cyclomatic.Proofs.Brackets
import Cyclomatic.Proofs.JavaCore.Grammar
import Mathlib.Data.List.Chain

/-!
# Code that spells a list of tokens

`Code.Spells` says which kinds and texts stand in a code from a token on.  A list of tokens with
brackets in matching pairs leaves the stack of the pairing pass as it was, so its brackets pair
with each other wherever it stands (`Code.Spells.closer?`).

The tokens of every syntax tree are `Neat`: their brackets match, and no closing angle stands
before a parenthesis or at the end.
-/

namespace Cyclomatic

open JavaCore

/-! ## Kinds and texts of a code -/

/-- The kind and the text of a token. -/
def Token.face (t : Token) : Face := (t.kind, t.text)

namespace Code

variable {code : Code} {i : Nat}

/-- The kind and the text of the token with an index. -/
def face? (code : Code) (i : Nat) : Option Face := (code.token? i).map Token.face

/-- The kinds and texts of all tokens. -/
def faces (code : Code) : List Face := code.tokens.map Token.face

/-- The tokens from `i` on start with the given ones. -/
def Spells (code : Code) (i : Nat) (fs : List Face) : Prop := fs <+: code.faces.drop i

theorem face?_eq (code : Code) (i : Nat) : code.face? i = code.faces[i]? := by
  simp [face?, faces, ← tokens_getElem?]

/-- A kind and a text stand at a token of the code. -/
theorem face?_cases {f : Face} (h : code.face? i = some f) :
    ∃ t, code.lexemes[i]? = some t ∧ t.kind = f.1 ∧ t.text = f.2 := by
  obtain ⟨t, ht, rfl⟩ := Option.map_eq_some_iff.mp h
  obtain ⟨x, hx, rfl⟩ := Option.map_eq_some_iff.mp ht
  exact ⟨x, hx, rfl, rfl⟩

section Face

variable {f : Face}

theorem text_of_face (h : code.face? i = some f) : code.text i = f.2 := by
  obtain ⟨t, ht, -, hs⟩ := face?_cases h
  simp [text, ht, hs]

theorem isKind_of_face (h : code.face? i = some f) (k : Kind) :
    code.isKind i k = (f.1 == k) := by
  obtain ⟨t, ht, hk, -⟩ := face?_cases h
  simp [isKind, kind?, ht, hk]

/-- A token with a face is a given punctuation if the face is. -/
theorem isPunct_of_face (h : code.face? i = some f) (p : String) :
    code.isPunct i p = (f.1 == .punctuation && f.2 == p) := by
  obtain ⟨t, ht, hk, hs⟩ := face?_cases h
  simp [isPunct, Token.isPunct, ht, hk, hs]

theorem isPunct_of_ne {p : String} (h : code.face? i = some f) (hne : f ≠ punct p) :
    code.isPunct i p = false := by
  rw [isPunct_of_face h, Bool.eq_false_iff]
  intro heq
  simp only [Bool.and_eq_true, beq_iff_eq] at heq
  exact hne (Prod.ext heq.1 heq.2)

/-- A token with a face is a word if its kind is that of words. -/
theorem isWord_of_face (h : code.face? i = some f) :
    code.isWord i = (f.1 == .identifier || f.1 == .keyword) := by
  obtain ⟨t, ht, hk, -⟩ := face?_cases h
  simp [isWord, Token.isWord, ht, hk]

end Face

/-! ## Spelling -/

/-- Two lists are spelled one behind the other. -/
theorem spells_append {a b : List Face} :
    code.Spells i (a ++ b) ↔ code.Spells i a ∧ code.Spells (i + a.length) b := by
  unfold Spells
  rw [← List.drop_drop]
  constructor
  · rintro ⟨t, ht⟩
    rw [← ht, List.append_assoc]
    exact ⟨List.prefix_append .., by simp⟩
  · rintro ⟨⟨t, ht⟩, hb⟩
    rw [← ht, List.drop_left] at hb
    obtain ⟨u, rfl⟩ := hb
    exact ⟨u, by rw [← ht, List.append_assoc]⟩

/-- A list is spelled if its first token stands at `i` and the others behind it. -/
theorem spells_cons {f : Face} {fs : List Face} :
    code.Spells i (f :: fs) ↔ code.face? i = some f ∧ code.Spells (i + 1) fs := by
  rw [← List.singleton_append, spells_append, List.length_singleton, face?_eq]
  refine and_congr_left' ?_
  unfold Spells
  constructor
  · rintro ⟨t, ht⟩
    have := congrArg List.head? ht
    simpa [List.head?_drop] using this.symm
  · intro h
    obtain ⟨hlt, hget⟩ := List.getElem?_eq_some_iff.mp h
    rw [List.drop_eq_getElem_cons hlt, hget]
    exact ⟨_, rfl⟩

/-- A token of the code is one of those that it spells there. -/
theorem Spells.mem {fs : List Face} (h : code.Spells i fs) {n : Nat} (hn : n < fs.length) {f : Face}
    (hf : code.face? (i + n) = some f) : f ∈ fs := by
  obtain ⟨tail, htail⟩ := h
  refine List.mem_of_getElem? (i := n) ?_
  rw [← List.getElem?_append_left hn, htail, List.getElem?_drop, ← face?_eq]
  exact hf

theorem length_parens (fs : List Face) : (parens fs).length = fs.length + 2 := by simp [parens]

theorem length_braces (fs : List Face) : (braces fs).length = fs.length + 2 := by simp [braces]

/-- A list in parentheses stands between its two parentheses. -/
theorem spells_parens {fs : List Face} (h : code.Spells i (parens fs)) :
    code.face? i = some (punct "(") ∧ code.Spells (i + 1) fs ∧
      code.face? (i + 1 + fs.length) = some (punct ")") := by
  obtain ⟨hopen, hrest⟩ := spells_cons.mp h
  obtain ⟨hin, hclose⟩ := spells_append.mp hrest
  exact ⟨hopen, hin, (spells_cons.mp hclose).1⟩

/-- A block stands between its two braces. -/
theorem spells_braces {fs : List Face} (h : code.Spells i (braces fs)) :
    code.face? i = some (punct "\x7b") ∧ code.Spells (i + 1) fs ∧
      code.face? (i + 1 + fs.length) = some (punct "\x7d") := by
  obtain ⟨hopen, hrest⟩ := spells_cons.mp h
  obtain ⟨hin, hclose⟩ := spells_append.mp hrest
  exact ⟨hopen, hin, (spells_cons.mp hclose).1⟩

end Code

/-! ## Matching brackets -/

/-- A token opens or closes a bracket. -/
def JavaCore.isBracket (f : Face) : Bool :=
  f.1 == .punctuation && ["(", ")", "[", "]", "\x7b", "\x7d"].contains f.2

/-- The brackets of a list stand in matching pairs. -/
inductive Balanced : List Face → Prop where
  | nil : Balanced []
  | cons {f : Face} {fs : List Face} : isBracket f = false → Balanced fs → Balanced (f :: fs)
  | group (b : Bracket) {inner fs : List Face} : Balanced inner → Balanced fs →
      Balanced (punct b.opening :: (inner ++ punct b.closing :: fs))

theorem Balanced.append {a b : List Face} (ha : Balanced a) (hb : Balanced b) :
    Balanced (a ++ b) := by
  induction ha with
  | nil => exact hb
  | cons hf _ ih => exact .cons hf ih
  | group s hinner _ _ ih =>
    rw [List.cons_append, List.append_assoc, List.cons_append]
    exact .group s hinner ih

/-- A token with the face of an opening bracket opens it. -/
theorem Token.opens?_of_face {t : Token} {b : Bracket} (h : t.face = punct b.opening) :
    t.opens? = some b := by
  obtain ⟨hk, hs⟩ := Prod.ext_iff.mp h
  exact Token.opens?_iff.mpr (by simp only [face] at hk hs; simp [isPunct, hk, hs])

/-- A token with the face of a closing bracket opens nothing and closes it. -/
theorem Token.closes?_of_face {t : Token} {b : Bracket} (h : t.face = punct b.closing) :
    t.opens? = none ∧ t.closes? = some b := by
  obtain ⟨hk, hs⟩ := Prod.ext_iff.mp h
  simp only [face] at hk hs
  refine ⟨?_, Token.closes?_iff.mpr (by simp [isPunct, hk, hs])⟩
  unfold opens?
  rw [hk, hs]
  cases b <;> decide

/-- A token with the face of no bracket opens and closes nothing. -/
theorem Token.plain_of_face {t : Token} (h : isBracket t.face = false) :
    t.opens? = none ∧ t.closes? = none := by
  unfold isBracket face at h
  unfold opens? closes?
  grind

/-- Matching brackets leave the stack as it was. -/
theorem pairsFrom_balanced {fs : List Face} (h : Balanced fs) {ts : List Token}
    (hts : ts.map Token.face = fs) (i : Nat) (stack : List (Nat × Bracket)) (rest : List Token) :
    ∃ pairs, pairsFrom i stack (ts ++ rest) = pairs ++ pairsFrom (i + ts.length) stack rest := by
  induction h generalizing ts i stack rest with
  | nil =>
    obtain rfl := List.map_eq_nil_iff.mp hts
    exact ⟨[], rfl⟩
  | @cons f fs hf _ ih =>
    obtain ⟨t, ts, rfl, rfl, hrest⟩ := List.map_eq_cons_iff.mp hts
    obtain ⟨hopen, hclose⟩ := Token.plain_of_face hf
    obtain ⟨pairs, hpairs⟩ := ih hrest (i + 1) stack rest
    refine ⟨pairs, ?_⟩
    rw [List.cons_append, pairsFrom]
    simp only [hopen, hclose]
    rw [hpairs, List.length_cons, Nat.add_assoc, Nat.add_comm 1]
  | @group b inner fs _ _ ih1 ih2 =>
    obtain ⟨t, ts, rfl, ht, hts⟩ := List.map_eq_cons_iff.mp hts
    obtain ⟨mid, after, rfl, hmid, hafter⟩ := List.map_eq_append_iff.mp hts
    obtain ⟨u, after, rfl, hu, hafter⟩ := List.map_eq_cons_iff.mp hafter
    obtain ⟨hnot, hclose⟩ := Token.closes?_of_face hu
    obtain ⟨p1, hp1⟩ := ih1 hmid (i + 1) ((i, b) :: stack) (u :: (after ++ rest))
    obtain ⟨p2, hp2⟩ := ih2 hafter (i + 1 + mid.length + 1) stack rest
    refine ⟨p1 ++ (i, i + 1 + mid.length) :: p2, ?_⟩
    rw [List.cons_append, pairsFrom]
    simp only [Token.opens?_of_face ht]
    rw [List.append_assoc, List.cons_append, hp1, pairsFrom]
    simp only [hnot, hclose]
    simp [hp2]
    congr 1
    omega

/-- The pairing pass reaches every place with some stack. -/
theorem pairsFrom_append (ts : List Token) (i : Nat) (stack : List (Nat × Bracket)) :
    ∃ pairs stack', ∀ rest,
      pairsFrom i stack (ts ++ rest) = pairs ++ pairsFrom (i + ts.length) stack' rest := by
  induction ts generalizing i stack with
  | nil => exact ⟨[], stack, fun _ => rfl⟩
  | cons t ts ih =>
    have hlen : i + (t :: ts).length = i + 1 + ts.length := by simp; omega
    rw [hlen]
    cases hopen : t.opens? with
    | some b =>
      obtain ⟨pairs, stack', h⟩ := ih (i + 1) ((i, b) :: stack)
      exact ⟨pairs, stack', fun rest => by simp [pairsFrom, hopen, h]⟩
    | none =>
      cases hclose : t.closes? with
      | none =>
        obtain ⟨pairs, stack', h⟩ := ih (i + 1) stack
        exact ⟨pairs, stack', fun rest => by simp [pairsFrom, hopen, hclose, h]⟩
      | some b =>
        cases hfound : stack.dropWhile (·.2 != b) with
        | nil =>
          obtain ⟨pairs, stack', h⟩ := ih (i + 1) stack
          exact ⟨pairs, stack', fun rest => by simp [pairsFrom, hopen, hclose, hfound, h]⟩
        | cons e below =>
          obtain ⟨pairs, stack', h⟩ := ih (i + 1) below
          exact ⟨(e.1, i) :: pairs, stack', fun rest => by
            simp [pairsFrom, hopen, hclose, hfound, h]⟩

/-- A bracket pairs with the one that matches it, whatever stands around them. -/
theorem mem_bracketPairs_group (front back : List Token) {inner : List Token} {s t : Token}
    {b : Bracket} (hs : s.face = punct b.opening) (ht : t.face = punct b.closing)
    (hinner : Balanced (inner.map Token.face)) :
    (front.length, front.length + 1 + inner.length) ∈
      bracketPairs (front ++ s :: (inner ++ t :: back)) := by
  obtain ⟨hnot, hclose⟩ := Token.closes?_of_face ht
  obtain ⟨pairs, stack, hpairs⟩ := pairsFrom_append front 0 []
  obtain ⟨inside, hinside⟩ := pairsFrom_balanced hinner rfl (front.length + 1)
    ((front.length, b) :: stack) (t :: back)
  rw [bracketPairs, hpairs, Nat.zero_add, pairsFrom]
  simp only [Token.opens?_of_face hs]
  rw [hinside, pairsFrom]
  simp [hnot, hclose]

namespace Code

variable {code : Code} {i : Nat}

/-- A bracket pairs with the one that matches it in what the code spells. -/
theorem Spells.closer? (hp : code.Paired) (b : Bracket) {inner : List Face}
    (h : code.Spells i (punct b.opening :: (inner ++ [punct b.closing])))
    (hinner : Balanced inner) : code.closer? i = some (i + 1 + inner.length) := by
  obtain ⟨tail, htail⟩ := h
  have hlt : i < code.tokens.length := by
    have := congrArg List.length htail
    simp [faces] at this
    omega
  rw [faces, ← List.map_drop] at htail
  rw [List.cons_append, List.append_assoc] at htail
  obtain ⟨t, ts, hdrop, ht, hts⟩ := List.map_eq_cons_iff.mp htail.symm
  obtain ⟨mid, after, rfl, rfl, hafter⟩ := List.map_eq_append_iff.mp hts
  obtain ⟨u, after, rfl, hu, -⟩ := List.map_eq_cons_iff.mp hafter
  have hpair := mem_bracketPairs_group (code.tokens.take i) after ht hu hinner
  rw [← hdrop, List.take_append_drop, List.length_take_of_le (Nat.le_of_lt hlt)] at hpair
  rw [hp.closer?_iff, List.length_map]
  exact hpair

/-- The partner of a bracket around a balanced list is the bracket at its end. -/
theorem Spells.partner? (hp : code.Paired) (b : Bracket) {inner : List Face}
    (h : code.Spells i (punct b.opening :: (inner ++ [punct b.closing])))
    (hinner : Balanced inner) : code.partner? i = some (i + 1 + inner.length) :=
  (Option.filter_eq_some_iff.mp (h.closer? hp b hinner)).1

/-- The bracket at the end of a balanced list goes back to the one in front of it. -/
theorem Spells.opener? (hp : code.Paired) (b : Bracket) {inner : List Face}
    (h : code.Spells i (punct b.opening :: (inner ++ [punct b.closing])))
    (hinner : Balanced inner) : code.opener? (i + 1 + inner.length) = some i :=
  hp.opener?_iff.mpr (hp.closer?_iff.mp (h.closer? hp b hinner))

end Code

/-! ## Neat lists of tokens -/

/-- A closing angle does not stand right before a parenthesis. -/
def JavaCore.AngleApart (a b : Face) : Prop := ¬ (a = op ">" ∧ b = punct "(")

/-- No closing angle stands before a parenthesis or at the end of a list. -/
structure Tame (fs : List Face) : Prop where
  /-- A closing angle stands before no parenthesis. -/
  angles : fs.IsChain AngleApart
  /-- The last token is no closing angle. -/
  last : fs.getLast? ≠ some (op ">")

namespace Tame

theorem nil : Tame [] := ⟨.nil, by simp⟩

theorem append {a b : List Face} (ha : Tame a) (hb : Tame b) : Tame (a ++ b) := by
  refine ⟨List.isChain_append.mpr ⟨ha.angles, hb.angles, ?_⟩, ?_⟩
  · rintro x hx y - ⟨rfl, -⟩
    exact ha.last hx
  · rw [List.getLast?_append]
    cases hlast : b.getLast? with
    | none => simpa using ha.last
    | some f => simpa [hlast] using hb.last

theorem cons {f : Face} {fs : List Face} (hne : f ≠ op ">") (h : Tame fs) : Tame (f :: fs) :=
  append ⟨.singleton f, by simpa using hne⟩ h

end Tame

/-- The brackets of a list match, and its angles are tame. -/
structure Neat (fs : List Face) : Prop where
  /-- The brackets match. -/
  balanced : Balanced fs
  /-- No closing angle stands before a parenthesis or at the end. -/
  tame : Tame fs

namespace Neat

theorem nil : Neat [] := ⟨.nil, .nil⟩

/-- Neat lists stay neat when they are joined. -/
theorem append {a b : List Face} (ha : Neat a) (hb : Neat b) : Neat (a ++ b) :=
  ⟨ha.balanced.append hb.balanced, ha.tame.append hb.tame⟩

/-- A token that is neither bracket nor closing angle may stand in front. -/
theorem cons {f : Face} {fs : List Face} (hf : isBracket f = false) (hne : f ≠ op ">")
    (h : Neat fs) : Neat (f :: fs) :=
  ⟨.cons hf h.balanced, .cons hne h.tame⟩

/-- A list in brackets. -/
theorem group (b : Bracket) {inner fs : List Face} (hinner : Neat inner) (h : Neat fs) :
    Neat (punct b.opening :: (inner ++ punct b.closing :: fs)) :=
  ⟨.group b hinner.balanced h.balanced,
    .cons (by simp) (hinner.tame.append (.cons (by simp) h.tame))⟩

theorem name (x : Ident) {fs : List Face} (h : Neat fs) : Neat (x.face :: fs) :=
  h.cons rfl (by simp [Ident.face])

theorem word (s : String) {fs : List Face} (h : Neat fs) : Neat (word s :: fs) :=
  h.cons rfl (by simp)

theorem parens {inner : List Face} (h : Neat inner) : Neat (parens inner) := h.group .round nil

theorem braces {inner : List Face} (h : Neat inner) : Neat (braces inner) := h.group .curly nil

/-- Neat pieces stay neat between commas. -/
theorem commas {pieces : List (List Face)} (h : ∀ piece ∈ pieces, Neat piece) :
    Neat (commas pieces) := by
  fun_induction JavaCore.commas pieces with
  | case1 => exact nil
  | case2 piece => exact h piece (List.mem_singleton_self piece)
  | case3 piece rest hrest ih =>
    have hrest := ih fun p hp => h p (List.mem_cons_of_mem _ hp)
    exact (h piece (List.mem_cons_self ..)).append (hrest.cons rfl (by simp))

end Neat

/-! ## Syntax trees are neat -/

namespace JavaCore

theorem balanced_dims (array : Bool) : Balanced (dims array) := by
  cases array with
  | false => exact .nil
  | true => exact .group .square .nil .nil

mutual

/-- The tokens of a type have matching brackets, since angles are none. -/
theorem Ty.balanced_render : (t : Ty) → Balanced t.render
  | .primitive _ array => .cons rfl (balanced_dims array)
  | .name _ array => .cons rfl (balanced_dims array)
  | .generic _ args array =>
    .cons rfl (.cons rfl (args.balanced_render.append (.cons rfl (balanced_dims array))))

theorem TyArgs.balanced_render : (args : TyArgs) → Balanced args.render
  | .one t => t.balanced_render
  | .more t rest => t.balanced_render.append (.cons rfl rest.balanced_render)

end

/-- A token that is no closing angle may stand before anything. -/
theorem apart_cons {f : Face} {fs : List Face} (hne : f ≠ op ">") (h : fs.IsChain AngleApart) :
    (f :: fs).IsChain AngleApart :=
  List.isChain_cons.mpr ⟨fun _ _ hp => hne hp.1, h⟩

theorem apart_dims (array : Bool) {fs : List Face} (h : fs.IsChain AngleApart) :
    (dims array ++ fs).IsChain AngleApart := by
  cases array with
  | false => exact h
  | true => exact apart_cons (by simp) (apart_cons (by simp) h)

/-- With the brackets of an array in front, a list still starts with no parenthesis. -/
theorem head_dims (array : Bool) {fs : List Face} (h : fs.head? ≠ some (punct "(")) :
    (dims array ++ fs).head? ≠ some (punct "(") := by
  cases array with
  | false => exact h
  | true => simp [dims]

mutual

/-- The angles of a type stay off parentheses if none follows the type. -/
theorem Ty.apart_render : (t : Ty) → {fs : List Face} → fs.head? ≠ some (punct "(") →
    fs.IsChain AngleApart → (t.render ++ fs).IsChain AngleApart
  | .primitive _ array, _, _, h => apart_cons (by simp) (apart_dims array h)
  | .name n array, _, _, h => apart_cons (by simp [Ident.face]) (apart_dims array h)
  | .generic n args array, fs, hhead, h => by
    have hgt : (op ">" :: (dims array ++ fs)).IsChain AngleApart := by
      refine List.isChain_cons.mpr ⟨fun y hy hp => head_dims array hhead ?_, apart_dims array h⟩
      rw [← hp.2]
      exact hy
    have hargs := args.apart_render (by simp) hgt
    rw [Ty.render, List.cons_append, List.cons_append, List.append_assoc]
    exact apart_cons (by simp [Ident.face]) (apart_cons (by simp) hargs)

theorem TyArgs.apart_render : (args : TyArgs) → {fs : List Face} → fs.head? ≠ some (punct "(") →
    fs.IsChain AngleApart → (args.render ++ fs).IsChain AngleApart
  | .one t, _, hhead, h => t.apart_render hhead h
  | .more t rest, fs, hhead, h => by
    rw [TyArgs.render, List.append_assoc, List.cons_append]
    exact t.apart_render (by simp) (apart_cons (by simp) (rest.apart_render hhead h))

end

/-- A type with a name behind it is neat, since the name closes off the angles of the type. -/
theorem neat_typed (t : Ty) (x : Ident) : Neat (typed t x) where
  balanced := t.balanced_render.append (.cons rfl .nil)
  tame := ⟨t.apart_render (by simp [Ident.face]) (.singleton _), by simp [typed, Ident.face]⟩

theorem neat_comma {rest : Args} {fs : List Face} (h : Neat fs) : Neat (rest.comma fs) := by
  cases rest with
  | nil => exact .nil
  | expr => exact h.cons rfl (by simp)
  | lambda => exact h.cons rfl (by simp)

mutual

/-- The tokens of an expression are neat. -/
theorem Expr.neat_render : (e : Expr) → Neat e.render
  | .name x => .name x .nil
  | .call m args => .name m args.neat_render.parens
  | .and a b => a.neat_render.append (b.neat_render.cons rfl (by simp))
  | .or a b => a.neat_render.append (b.neat_render.cons rfl (by simp))

theorem Args.neat_render : (args : Args) → Neat args.render
  | .nil => .nil
  | .expr e rest => e.neat_render.append (neat_comma rest.neat_render)
  | .lambda x e rest =>
    .name x ((e.neat_render.append (neat_comma rest.neat_render)).cons rfl (by simp))

end

theorem neat_semicolon : Neat [punct ";"] := Neat.nil.cons rfl (by simp)

mutual

/-- The tokens of a statement are neat. -/
theorem Stmt.neat_render : (s : Stmt) → Neat s.render
  | .call m args => .name m (args.neat_render.parens.append neat_semicolon)
  | .assign x e => .name x ((e.neat_render.append neat_semicolon).cons rfl (by simp))
  | .choose x c a b =>
    have hb := (b.neat_render.append neat_semicolon).cons (f := op ":") rfl (by simp)
    have ha := (a.neat_render.append hb).cons (f := op "?") rfl (by simp)
    .name x ((c.neat_render.append ha).cons rfl (by simp))
  | .cond c body rest =>
    .word "if" (c.neat_render.parens.append (body.neat_render.braces.append rest.neat_render))
  | .each t x e body =>
    have head := (neat_typed t x).append (e.neat_render.cons (f := op ":") rfl (by simp))
    .word "for" (head.parens.append body.neat_render.braces)
  | .loop c body => .word "while" (c.neat_render.parens.append body.neat_render.braces)
  | .doLoop body c =>
    have tail := (c.neat_render.parens.append neat_semicolon).word "while"
    .word "do" (body.neat_render.braces.append tail)
  | .switch e cases => .word "switch" (e.neat_render.parens.append cases.neat_render.braces)
  | .attempt body handlers => .word "try" (body.neat_render.braces.append handlers.neat_render)

theorem Stmts.neat_render : (ss : Stmts) → Neat ss.render
  | .nil => .nil
  | .cons s rest => s.neat_render.append rest.neat_render

theorem Else.neat_render : (e : Else) → Neat e.render
  | .nil => .nil
  | .block body => .word "else" body.neat_render.braces
  | .cond c body rest =>
    have tail := c.neat_render.parens.append (body.neat_render.braces.append rest.neat_render)
    .word "else" (tail.word "if")

theorem Cases.neat_render : (cs : Cases) → Neat cs.render
  | .nil => .nil
  | .default body => .word "default" (body.neat_render.cons rfl (by simp))
  | .case x body rest =>
    .word "case" (.name x ((body.neat_render.append rest.neat_render).cons rfl (by simp)))

theorem Handlers.neat_render : (hs : Handlers) → Neat hs.render
  | .nil => .nil
  | .handler n x body rest =>
    have head := ((Neat.nil.name x).name n).parens
    .word "catch" (head.append (body.neat_render.braces.append rest.neat_render))

end

/-- The tokens of a parameter list are neat. -/
theorem neat_params (params : List (Ty × Ident)) : Neat (renderParams params) := by
  refine Neat.commas fun piece hp => ?_
  obtain ⟨p, -, rfl⟩ := List.mem_map.mp hp
  exact neat_typed p.1 p.2

/-- The tokens of a list of exceptions are neat. -/
theorem neat_throws (names : List Ident) : Neat (renderThrows names) := by
  cases names with
  | nil => exact .nil
  | cons n names =>
    refine Neat.word "throws" (Neat.commas fun piece hp => ?_)
    obtain ⟨m, -, rfl⟩ := List.mem_map.mp hp
    exact .name m .nil

/-- The tokens of a method up to its body are neat. -/
theorem Header.neat_render (h : Header) : Neat h.render := by
  have hmods : ∀ ms : List Modifier, Neat (ms.map fun m => word m.text) := by
    intro ms
    induction ms with
    | nil => exact .nil
    | cons m ms ih => exact .word m.text ih
  exact (hmods h.modifiers).append ((neat_typed h.type h.name).append (neat_params h.params).parens)

/-- The tokens of a member are neat. -/
theorem Member.neat_render (m : Member) : Neat m.render := by
  cases m with
  | method h throws body =>
    exact h.neat_render.append ((neat_throws throws).append body.neat_render.braces)
  | declaration h => exact h.neat_render.append neat_semicolon

theorem neat_members (ms : List Member) : Neat (renderMembers ms) := by
  induction ms with
  | nil => exact .nil
  | cons m ms ih => exact m.neat_render.append ih

/-- The tokens of a class are neat, and so its brackets match. -/
theorem ClassUnit.neat_render (u : ClassUnit) : Neat u.render :=
  .word "class" (.name u.name (neat_members u.members).braces)

/-! ## First tokens -/

/-- An expression starts with a name. -/
theorem head_expr : (e : Expr) → ∃ (x : Ident) (fs : List Face), e.render = x.face :: fs
  | .name x => ⟨x, [], rfl⟩
  | .call m _ => ⟨m, _, rfl⟩
  | .and a _ => by
    obtain ⟨x, fs, hx⟩ := head_expr a
    exact ⟨x, _, by rw [Expr.render, hx]; rfl⟩
  | .or a _ => by
    obtain ⟨x, fs, hx⟩ := head_expr a
    exact ⟨x, _, by rw [Expr.render, hx]; rfl⟩

/-- Arguments start with a name. -/
theorem head_args {args : Args} (h : args ≠ .nil) :
    ∃ (x : Ident) (fs : List Face), args.render = x.face :: fs := by
  cases args with
  | nil => exact absurd rfl h
  | expr e rest =>
    obtain ⟨x, fs, hx⟩ := head_expr e
    exact ⟨x, _, by rw [Args.render, hx]; rfl⟩
  | lambda x e rest => exact ⟨x, _, rfl⟩

end JavaCore

end Cyclomatic
