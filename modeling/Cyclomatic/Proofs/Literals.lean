import Cyclomatic.Proofs.Alike.Analysis
import Cyclomatic.Proofs.LiteralPieces

/-!
# Texts of literals

The text of a literal does not matter to an analysis unless it is one of the words exposed by the
language (`analyze_swapped`).  A literal as a whole, its first piece and its last piece have
quotes and are never exposed.  A piece between two pieces of code has no quotes, and some walks
compare texts without looking at the kind of the token.  In JavaScript each exposed word shows in
some source (`decided_exposed`).
-/

namespace Cyclomatic

namespace Code

variable {l : Language} {source source' : String} {i : Nat}

/-- A literal whose text is not exposed is veiled. -/
theorem veiled_of_not_exposed (hquoting : l.Quoting) {x : Lexeme}
    (hx : (ofSource l source).cores[i]? = some x) (hk : x.kind = .stringLiteral)
    (hexposed : x.text ∉ l.exposed) : (ofSource l source).Veiled l i := by
  have htext : (ofSource l source).text i = x.text := by
    rw [text_eq_cores, hx]
    rfl
  constructor
  · rw [kind?_eq_cores, hx]
    exact congrArg some hk
  · intro hunquoted
    rw [htext] at hunquoted ⊢
    exact ⟨enclosed_of_bare hquoting hx ⟨hk, hunquoted⟩, hexposed⟩

end Code

/-! ## Swapped texts -/

/-- The tokens are the same, or literals whose texts are not exposed. -/
def Token.Swap (l : Language) (t t' : Token) : Prop :=
  t' = t ∨ (t.kind = .stringLiteral ∧ t.text ∉ l.exposed) ∧
    t'.kind = .stringLiteral ∧ t'.text ∉ l.exposed

theorem Token.Swap.layout {l : Language} {t t' : Token} (h : t.Swap l t') :
    t'.kind = t.kind ∧ t'.breaksLine = t.breaksLine := by
  rcases h with rfl | ⟨⟨hk, -⟩, hk', -⟩
  · exact ⟨rfl, rfl⟩
  · refine ⟨hk'.trans hk.symm, ?_⟩
    simp only [Token.breaksLine, hk, hk']
    rfl

/-- The tokens are swapped, after the same line breaks. -/
def Lexeme.Swap (l : Language) (x x' : Lexeme) : Prop :=
  x.toToken.Swap l x'.toToken ∧ x'.afterBreak = x.afterBreak

theorem Lexeme.Swap.akin {l : Language} {x x' : Lexeme} (h : x.Swap l x') :
    Code.LexemeAkin x x' := by
  obtain ⟨hswap, hbreak⟩ := h
  refine ⟨⟨hswap.layout.1, ?_⟩, hbreak⟩
  rcases hswap with heq | ⟨⟨hk, -⟩, -⟩
  · exact .inl (by rw [heq])
  · exact .inr hk

theorem swap_lexemesFrom {l : Language} {ts ts' : List Token}
    (h : List.Forall₂ (Token.Swap l) ts ts') (pending : Bool) :
    List.Forall₂ (Lexeme.Swap l) (lexemesFrom pending ts) (lexemesFrom pending ts') := by
  induction h generalizing pending with
  | nil => exact .nil
  | cons ht _ ih =>
    obtain ⟨hk, hbreaks⟩ := ht.layout
    simp only [lexemesFrom, hk, hbreaks]
    split
    · exact ih true
    split
    · exact ih pending
    · exact .cons ⟨ht, rfl⟩ (ih false)

theorem getElem?_of_forall₂ {α : Type} {R : α → α → Prop} {xs ys : List α}
    (h : List.Forall₂ R xs ys) (i : Nat) :
    xs[i]? = none ∧ ys[i]? = none ∨ ∃ x y, xs[i]? = some x ∧ ys[i]? = some y ∧ R x y := by
  induction h generalizing i with
  | nil => exact .inl ⟨rfl, rfl⟩
  | @cons x y _ _ hxy _ ih =>
    cases i with
    | zero => exact .inr ⟨x, y, rfl, rfl, hxy⟩
    | succ i => simpa using ih i

/-- Codes with swapped literals are alike. -/
theorem Code.alike_of_swappedCores {l : Language} (hl : l.Legible) (huniform : Scan.Uniform l)
    (hquoting : l.Quoting) {source source' : String}
    (h : List.Forall₂ (Lexeme.Swap l) (ofSource l source).cores (ofSource l source').cores) :
    Alike l (ofSource l source) (ofSource l source') := by
  refine alike_of_cores (h.imp fun _ _ hx => hx.akin) hl huniform ?_
  intro i
  rcases getElem?_of_forall₂ h i with ⟨hx, hx'⟩ | ⟨x, x', hx, hx', hswap, -⟩
  · rw [text_eq_cores, text_eq_cores, hx, hx']
    exact .inl rfl
  · rcases hswap with heq | ⟨⟨hk, hexposed⟩, hk', hexposed'⟩
    · rw [text_eq_cores, text_eq_cores, hx, hx']
      exact .inl (congrArg Token.text heq)
    · exact .inr ⟨veiled_of_not_exposed hquoting hx hk hexposed,
        veiled_of_not_exposed hquoting hx' hk' hexposed'⟩

/-- The codes of sources with swapped literals are alike. -/
theorem Code.alike_of_swaps {l : Language} (hl : l.Legible) (huniform : Scan.Uniform l)
    (hquoting : l.Quoting) {source source' : String}
    (h : List.Forall₂ (Token.Swap l) ((scan l source).map Token.core)
      ((scan l source').map Token.core)) :
    Alike l (ofSource l source) (ofSource l source') := by
  refine alike_of_swappedCores hl huniform hquoting ?_
  rw [cores_ofSource, cores_ofSource]
  exact swap_lexemesFrom h false

/-- The sources have the same tokens but for one literal, which is `a` in the first and `b` in the
second. -/
def Swapped (l : Language) (a b source source' : String) : Prop :=
  ∃ before after : List Token,
    (scan l source).map Token.core = before ++ ⟨.stringLiteral, a, 0, 0⟩ :: after ∧
      (scan l source').map Token.core = before ++ ⟨.stringLiteral, b, 0, 0⟩ :: after

theorem Swapped.swaps {l : Language} {a b source source' : String}
    (h : Swapped l a b source source') (ha : a ∉ l.exposed) (hb : b ∉ l.exposed) :
    List.Forall₂ (Token.Swap l) ((scan l source).map Token.core)
      ((scan l source').map Token.core) := by
  obtain ⟨before, after, hsource, hsource'⟩ := h
  have hsame : ∀ ts : List Token, List.Forall₂ (Token.Swap l) ts ts := fun ts =>
    List.forall₂_same.mpr fun _ _ => .inl rfl
  rw [hsource, hsource']
  exact List.rel_append (hsame before) (.cons (.inr ⟨⟨rfl, ha⟩, rfl, hb⟩) (hsame after))

/-! ## Built-in languages -/

/-- The texts of literals do not matter unless they are exposed.  Two sources in a built-in language
that differ in one literal have the same functions with the same scores and decisions, or the same
fault. -/
theorem analyze_swapped {name : String} {l : Language}
    (hl : Registry.builtin.lookup? name = some l) {a b source source' : String}
    (h : Swapped l a b source source') (ha : a ∉ l.exposed) (hb : b ∉ l.exposed)
    (options : ScoringOptions) (file : String) :
    (({ options := options } : Engine).analyze file source' name).map FileResult.core =
      (({ options := options } : Engine).analyze file source name).map FileResult.core := by
  have halike : Code.Alike l (Code.ofSource l source) (Code.ofSource l source') :=
    Code.alike_of_swaps (legible_builtin hl) (uniform_builtin hl) (quoting_builtin hl)
      (h.swaps ha hb)
  rw [Engine.analyze_of_lookup? hl, Engine.analyze_of_lookup? hl]
  exact analyzeIn_alike (braceless_builtin hl) halike (Code.inRange_builtin hl source)
    (Code.inRange_builtin hl source') options file

/-! ## Exposed words -/

/-- A place in a source where the text of a literal may show. -/
structure Leak where
  /-- The text. -/
  text : String
  /-- What stands before the text. -/
  before : String
  /-- What stands after the text. -/
  after : String
  /-- The number of tokens before the text. -/
  index : Nat

namespace Leak

variable (k : Leak) (l : Language)

/-- The source with a text in that place. -/
def source (text : String) : String := k.before ++ text ++ k.after

/-- The tokens of the source with a text in that place. -/
def tokens (text : String) : List Token := (scan l (k.source text)).map Token.core

/-- The texts of the decisions of the outermost functions, with a text in that place. -/
def decided? (text : String) : Option (List (List String)) :=
  (analyzeIn l {} "" (k.source text)).toOption.map fun r =>
    r.functions.map (·.function.decisions.map (·.token))

/-- The source with the text and the source with `x` have the same tokens but for that literal. -/
def swaps : Bool :=
  (k.tokens l k.text)[k.index]? == some ⟨.stringLiteral, k.text, 0, 0⟩ &&
    (k.tokens l "x")[k.index]? == some ⟨.stringLiteral, "x", 0, 0⟩ &&
    (k.tokens l k.text).take k.index == (k.tokens l "x").take k.index &&
    (k.tokens l k.text).drop (k.index + 1) == (k.tokens l "x").drop (k.index + 1)

/-- The source by the characters of its pieces. -/
theorem source_eq (text : String) :
    k.source text = String.ofList (k.before.toList ++ text.toList ++ k.after.toList) := by
  simp only [source, String.ofList_append, String.ofList_toList]

theorem tokens_eq (text : String) : k.tokens l text =
    (scanFrom l [] 0 (k.before.toList ++ text.toList ++ k.after.toList)).map Token.core := by
  rw [tokens, scan, source_eq, String.toList_ofList]

theorem code_eq (text : String) : Code.ofSource l (k.source text) =
    Code.ofChars l (k.before.toList ++ text.toList ++ k.after.toList) :=
  Code.ofSource_eq_ofChars l _ (k.source_eq text)

theorem swapped {k : Leak} {l : Language} (h : k.swaps l = true) :
    Swapped l k.text "x" (k.source k.text) (k.source "x") := by
  simp only [swaps, Bool.and_eq_true, beq_iff_eq] at h
  obtain ⟨⟨⟨htext, hx⟩, htake⟩, hdrop⟩ := h
  have hsplit : ∀ {ts : List Token} {t : Token}, ts[k.index]? = some t →
      ts = ts.take k.index ++ t :: ts.drop (k.index + 1) := by
    intro ts t ht
    obtain ⟨hlt, rfl⟩ := List.getElem?_eq_some_iff.mp ht
    rw [← List.drop_eq_getElem_cons hlt, List.take_append_drop]
  refine ⟨(k.tokens l "x").take k.index, (k.tokens l "x").drop (k.index + 1), ?_, hsplit hx⟩
  rw [← htake, ← hdrop]
  exact hsplit htext

/-- The word of a condition in a template. -/
def condition : Leak :=
  ⟨"if", "function f() \x7b g(\x60$\x7ba\x7d", "$\x7bb\x7d\x60); \x7d", 14⟩

/-- The name of the loop in a template, inside a loop that is tested at its end. -/
def loop : Leak :=
  ⟨"while", "function f() \x7b do x = \x60$\x7ba\x7d", "$\x7bb\x7d\x60; while (c); \x7d", 18⟩

/-- An angle bracket in a template, before an arrow function. -/
def angle : Leak :=
  ⟨"<", "function f() \x7b x = \x60$\x7ba\x7d", "$\x7bb, (c) => d\x7d\x60; \x7d", 16⟩

end Leak

/-- The word of a condition in a template does not show. -/
theorem analyze_swapped_condition :
    Swapped Language.JavaScript.table.canonical Leak.condition.text "x"
        (Leak.condition.source Leak.condition.text) (Leak.condition.source "x") ∧
      Leak.condition.text ∉ Language.JavaScript.table.canonical.exposed ∧
      ∀ options file,
        (({ options := options } : Engine).analyze file (Leak.condition.source "x")
            "javascript").map FileResult.core =
          (({ options := options } : Engine).analyze file
            (Leak.condition.source Leak.condition.text) "javascript").map FileResult.core := by
  have hl : Registry.builtin.lookup? "javascript" = some Language.JavaScript.table.canonical := rfl
  have hswaps : Leak.condition.swaps Language.JavaScript.table.canonical = true ∧
      Leak.condition.text ∉ Language.JavaScript.table.canonical.exposed ∧
      "x" ∉ Language.JavaScript.table.canonical.exposed := by
    simp only [Leak.swaps, Leak.tokens_eq]
    rw [Language.JavaScript.canonical_eq]
    decide +kernel
  have hswapped := Leak.swapped hswaps.1
  exact ⟨hswapped, hswaps.2.1, analyze_swapped hl hswapped hswaps.2.1 hswaps.2.2⟩

/-- In JavaScript both exposed words show.  The word of the loop hides the start of the loop from
its test, which then counts twice.  The angle bracket turns a lambda into the type of a
function. -/
theorem decided_exposed :
    Language.JavaScript.table.canonical.exposed = [Leak.angle.text, Leak.loop.text] ∧
      (Leak.loop.swaps Language.JavaScript.table.canonical = true ∧
        Leak.loop.decided? Language.JavaScript.table.canonical "while" = some [["do", "while"]] ∧
        Leak.loop.decided? Language.JavaScript.table.canonical "x" = some [["do"]]) ∧
      Leak.angle.swaps Language.JavaScript.table.canonical = true ∧
        Leak.angle.decided? Language.JavaScript.table.canonical "<" = some [[]] ∧
        Leak.angle.decided? Language.JavaScript.table.canonical "x" = some [["=>"]] := by
  simp only [Leak.swaps, Leak.tokens_eq, Leak.decided?, analyzeIn, Leak.code_eq]
  rw [Language.JavaScript.canonical_eq]
  decide +kernel

end Cyclomatic
