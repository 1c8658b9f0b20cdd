import Cyclomatic.Proofs.Alike.Basic
import Mathlib.Data.List.Forall2

/-!
# Scans without places

The scan of a text is determined by its characters and modes, apart from offsets
(`Scan.tokens_cons`).  Delimiters of the modes are those of the language, and only the innermost
mode is inside a literal (`Scan.Nested`).  Codes with the same significant tokens have the same
partners (`Code.partner?_of_core`).
-/

namespace Cyclomatic

/-! ## Tokens without places -/

/-- A token without its place in the source. -/
def Token.core (t : Token) : Token := { t with start := 0, stop := 0 }

/-- A significant token without its place in the source. -/
def Lexeme.core (x : Lexeme) : Lexeme := ⟨x.toToken.core, x.afterBreak⟩

/-- The significant tokens do not depend on places. -/
theorem lexemesFrom_map (f : Token → Token) (hf : ∀ t, (f t).kind = t.kind ∧ (f t).text = t.text)
    (pending : Bool) (ts : List Token) :
    lexemesFrom pending (ts.map f) =
      (lexemesFrom pending ts).map fun x => ⟨f x.toToken, x.afterBreak⟩ := by
  induction ts generalizing pending with
  | nil => rfl
  | cons t ts ih =>
    simp only [List.map_cons, lexemesFrom]
    have hbreaks : (f t).breaksLine = t.breaksLine := by
      simp only [Token.breaksLine, (hf t).1, (hf t).2]
    rw [hbreaks, (hf t).1]
    split
    · exact ih true
    split
    · exact ih pending
    · rw [List.map_cons, ih false]

/-- Which tokens count does not depend on their places. -/
theorem lexemesFrom_core (pending : Bool) (ts : List Token) :
    lexemesFrom pending (ts.map Token.core) = (lexemesFrom pending ts).map Lexeme.core :=
  lexemesFrom_map Token.core (fun _ => ⟨rfl, rfl⟩) pending ts

namespace Scan

/-- A step as a token without place. -/
def Found.token (found : Found) : Token := ⟨found.kind, String.ofList found.taken, 0, 0⟩

/-- Tokens without places do not depend on where the scan starts. -/
theorem scanFrom_core (l : Language) (modes : List Mode) (start start' : Nat) (cs : List Char) :
    (scanFrom l modes start cs).map Token.core = (scanFrom l modes start' cs).map Token.core := by
  fun_induction scanFrom l modes start cs generalizing start' with
  | case1 => simp [scanFrom]
  | case2 modes start c cs found text stop ih =>
    rw [scanFrom, List.map_cons, List.map_cons, ih]
    rfl

/-- The tokens of a text in given modes, without places. -/
def tokens (l : Language) (modes : List Mode) (cs : List Char) : List Token :=
  (scanFrom l modes 0 cs).map Token.core

theorem tokens_nil (l : Language) (modes : List Mode) : tokens l modes [] = [] := by
  simp [tokens, scanFrom]

/-- The first token comes from a step, and the others from what the step leaves. -/
theorem tokens_cons (l : Language) (modes : List Mode) (c : Char) (cs : List Char) :
    tokens l modes (c :: cs) =
      (step l modes c cs).token :: tokens l (step l modes c cs).modes (step l modes c cs).rest := by
  rw [tokens, scanFrom, List.map_cons, scanFrom_core l _ _ 0]
  rfl

/-- The significant tokens of a text, without places. -/
def lexemes (l : Language) (modes : List Mode) (pending : Bool) (cs : List Char) : List Lexeme :=
  lexemesFrom pending (tokens l modes cs)

/-! ## Steps -/

variable {l : Language} {modes outer : List Mode} {d : Delimiter} {c : Char} {cs : List Char}

/-- The literal that a mode belongs to. -/
def Mode.delimiter : Mode → Delimiter
  | .literal d => d
  | .code d _ => d

/-- The mode is inside the text of a literal. -/
def Mode.isLiteral : Mode → Bool
  | .literal _ => true
  | .code _ _ => false

/-- A literal is interrupted by code only behind the opener of its delimiter. -/
theorem literalText_interpolation {code : List Char} {text : String}
    (h : (literalText d cs).stop = .opener text code) : d.interpolation = some text := by
  fun_induction literalText d cs with
  | case3 c hc e cs' ih => exact ih h
  | case5 c cs _ _ t r hr =>
    cases h
    exact (opener?_eq_some hr).1
  | case7 c cs _ _ _ _ ih => exact ih h
  | _ => cases h

/-- What a symbol can do: stand for itself, or count a brace of code inside a literal, or end such
code. -/
theorem symbol_cases (modes : List Mode) (c : Char) (cs : List Char) :
    ((symbol modes c cs).kind = .operator ∨ (symbol modes c cs).kind = .punctuation) ∧
        ((symbol modes c cs).modes = modes ∨
          ∃ d n m outer, modes = .code d n :: outer ∧
            (symbol modes c cs).modes = .code d m :: outer) ∨
      ∃ d outer, modes = .code d 0 :: outer ∧
        symbol modes c cs = ⟨.interpolation, ['\x7d'], cs, .literal d :: outer⟩ := by
  unfold symbol
  split
  · exact .inl ⟨.inl rfl, .inl rfl⟩
  split
  · split
    · exact .inl ⟨.inr rfl, .inr ⟨_, _, _, _, rfl, rfl⟩⟩
    split
    · rename_i hc
      split
      · rw [beq_iff_eq.mp hc]
        exact .inr ⟨_, _, rfl, rfl⟩
      · exact .inl ⟨.inr rfl, .inr ⟨_, _, _, _, rfl, rfl⟩⟩
    · exact .inl ⟨.inr rfl, .inl rfl⟩
  · exact .inl ⟨.inr rfl, .inl rfl⟩

/-- What a token of code can be: a blank, a comment, a word or a number, which leave the modes as
they are, the first literal that matches, the first operator that matches, or a symbol. -/
theorem codeStep_origin (l : Language) (modes : List Mode) (c : Char) (cs : List Char) :
    ((codeStep l modes c cs).modes = modes ∧ (codeStep l modes c cs).kind ≠ .stringLiteral ∧
        (codeStep l modes c cs).kind ≠ .interpolation ∧
        (codeStep l modes c cs).kind ≠ .operator ∧ (codeStep l modes c cs).kind ≠ .punctuation) ∨
      (∃ d r, literalAt? l.strings.delimiters (c :: cs) = some (d, r) ∧
        codeStep l modes c cs = openLiteral d modes r) ∨
      (∃ o r, operatorAt? l.operators (c :: cs) = some (o, r) ∧
        codeStep l modes c cs = ⟨.operator, o.toList, r, modes⟩) ∨
      operatorAt? l.operators (c :: cs) = none ∧ codeStep l modes c cs = symbol modes c cs := by
  unfold codeStep
  split
  · exact .inl ⟨rfl, nofun, nofun, nofun, nofun⟩
  split
  · exact .inl ⟨rfl, nofun, nofun, nofun, nofun⟩
  split
  · exact .inl ⟨rfl, nofun, nofun, nofun, nofun⟩
  split
  · exact .inl ⟨rfl, nofun, nofun, nofun, nofun⟩
  split
  · exact .inl ⟨rfl, nofun, nofun, nofun, nofun⟩
  split
  · rename_i d r hd
    exact .inr (.inl ⟨d, r, hd, rfl⟩)
  split
  · dsimp only
    split
    · exact .inl ⟨rfl, nofun, nofun, nofun, nofun⟩
    · exact .inl ⟨rfl, nofun, nofun, nofun, nofun⟩
  split
  · exact .inl ⟨rfl, nofun, nofun, nofun, nofun⟩
  split
  · rename_i o r ho
    exact .inr (.inr (.inl ⟨o, r, ho, rfl⟩))
  · rename_i hnone
    exact .inr (.inr (.inr ⟨hnone, rfl⟩))

/-- What a token of code can be: one that leaves the modes as they are, a literal or a symbol. -/
theorem codeStep_cases (l : Language) (modes : List Mode) (c : Char) (cs : List Char) :
    ((codeStep l modes c cs).modes = modes ∧ (codeStep l modes c cs).kind ≠ .stringLiteral ∧
        (codeStep l modes c cs).kind ≠ .interpolation) ∨
      (∃ d ∈ l.strings.delimiters, ∃ r, codeStep l modes c cs = openLiteral d modes r) ∨
      codeStep l modes c cs = symbol modes c cs := by
  rcases codeStep_origin l modes c cs with ⟨hmodes, hliteral, hinterpolation, -⟩ |
      ⟨d, r, hd, heq⟩ | ⟨o, r, -, heq⟩ | ⟨-, heq⟩
  · exact .inl ⟨hmodes, hliteral, hinterpolation⟩
  · exact .inr (.inl ⟨d, (literalAt?_eq_some hd).1, r, heq⟩)
  · rw [heq]
    exact .inl ⟨rfl, nofun, nofun⟩
  · exact .inr (.inr heq)

/-- What a resumed literal can be: an opener of code, a piece before one, or the last piece. -/
theorem resume_cases (d : Delimiter) (outer : List Mode) (cs : List Char) :
    (∃ text code, d.interpolation = some text ∧ cs = text.toList ++ code ∧
        resume d outer cs = ⟨.interpolation, text.toList, code, .code d 0 :: outer⟩) ∨
      (∃ text code, (literalText d cs).stop = .opener text code ∧ (literalText d cs).taken ≠ [] ∧
        resume d outer cs = .ofCut .stringLiteral (.literal d :: outer) (literalText d cs).toCut) ∨
      (∀ text code, (literalText d cs).stop ≠ .opener text code) ∧
        resume d outer cs = .ofCut .stringLiteral outer (literalText d cs).toCut := by
  unfold resume
  dsimp only
  cases hstop : (literalText d cs).stop with
  | opener text code =>
    dsimp only
    split
    · rename_i hnil
      have happ := literalText_append d cs
      rw [List.isEmpty_iff.mp hnil, (literalText_opener hstop).1] at happ
      exact .inl ⟨text, code, literalText_interpolation hstop, happ.symm, rfl⟩
    · rename_i hne
      exact .inr (.inl ⟨text, code, rfl, by simpa using hne, rfl⟩)
  | closed => exact .inr (.inr ⟨nofun, rfl⟩)
  | lineBreak => exact .inr (.inr ⟨nofun, rfl⟩)
  | inputEnd => exact .inr (.inr ⟨nofun, rfl⟩)

/-- A literal that opens takes its text, and the modes say whether code interrupts it. -/
theorem openLiteral_cases (d : Delimiter) (outer : List Mode) (cs : List Char) :
    ∃ modes, openLiteral d outer cs = .ofCut .stringLiteral modes
        ((literalText d cs).prepend d.opening.toList).toCut ∧
      ((∃ text code, (literalText d cs).stop = .opener text code ∧
        modes = .literal d :: outer) ∨ modes = outer) := by
  unfold openLiteral
  dsimp only
  split
  · rename_i text code hstop
    exact ⟨_, rfl, .inl ⟨text, code, hstop, rfl⟩⟩
  · exact ⟨_, rfl, .inr rfl⟩

/-! ## Modes -/

/-- The mode belongs to a literal of the language that holds code. -/
def Mode.Known (l : Language) (m : Mode) : Prop :=
  m.delimiter ∈ l.strings.delimiters ∧ m.delimiter.interpolation.isSome = true

/-- The modes are known, and only the innermost is in the text of a literal. -/
inductive Nested (l : Language) : List Mode → Prop where
  | plain : Nested l []
  | cons {m : Mode} {outer : List Mode} : m.Known l →
      (∀ m ∈ outer, m.Known l ∧ m.isLiteral = false) → Nested l (m :: outer)

/-- Below the innermost mode stand modes of code. -/
theorem Nested.around {m : Mode} (h : Nested l (m :: outer)) :
    m.Known l ∧ ∀ m ∈ outer, m.Known l ∧ m.isLiteral = false := by
  cases h with
  | cons hm houter => exact ⟨hm, houter⟩

/-- Modes of code are nested. -/
theorem nested_of_codes (h : ∀ m ∈ modes, m.Known l ∧ m.isLiteral = false) : Nested l modes := by
  cases modes with
  | nil => exact .plain
  | cons m outer =>
    exact .cons (h m (List.mem_cons_self ..)).1 fun m hm => h m (List.mem_cons_of_mem _ hm)

/-- In code, no mode is in the text of a literal. -/
theorem Nested.codes (h : Nested l modes) (hcode : ∀ d outer, modes ≠ .literal d :: outer) :
    ∀ m ∈ modes, m.Known l ∧ m.isLiteral = false := by
  cases h with
  | plain => exact nofun
  | @cons m outer hm houter =>
    intro x hx
    rcases List.mem_cons.mp hx with rfl | hx
    · refine ⟨hm, ?_⟩
      cases x with
      | literal d => exact absurd rfl (hcode d outer)
      | code d n => rfl
    · exact houter x hx

/-- A step through code keeps modes nested. -/
theorem Nested.codeStep (hcodes : ∀ m ∈ modes, m.Known l ∧ m.isLiteral = false) (c : Char)
    (cs : List Char) : Nested l (codeStep l modes c cs).modes := by
  rcases codeStep_cases l modes c cs with ⟨hmodes, -⟩ | ⟨d, hd, r, heq⟩ | heq
  · rw [hmodes]
    exact nested_of_codes hcodes
  · obtain ⟨modes', hopen, ⟨text, code, hstop, rfl⟩ | rfl⟩ := openLiteral_cases d modes r
    · rw [heq, hopen]
      exact .cons ⟨hd, by simp [Mode.delimiter, literalText_interpolation hstop]⟩ hcodes
    · rw [heq, hopen]
      exact nested_of_codes hcodes
  · rw [heq]
    rcases symbol_cases modes c cs with ⟨-, hmodes | ⟨d, n, m, outer, rfl, hmodes⟩⟩ |
        ⟨d, outer, rfl, hsymbol⟩
    · rw [hmodes]
      exact nested_of_codes hcodes
    · rw [hmodes]
      exact .cons (hcodes _ (List.mem_cons_self ..)).1 fun x hx =>
        hcodes x (List.mem_cons_of_mem _ hx)
    · rw [hsymbol]
      exact .cons (hcodes _ (List.mem_cons_self ..)).1 fun x hx =>
        hcodes x (List.mem_cons_of_mem _ hx)

/-- Outside of literals, a step is one through code. -/
theorem step_code (h : ∀ d outer, modes ≠ .literal d :: outer) (c : Char) (cs : List Char) :
    step l modes c cs = codeStep l modes c cs := by
  unfold step
  split
  · exact absurd rfl (h _ _)
  · rfl

/-- Modes stay nested. -/
theorem Nested.step (h : Nested l modes) (c : Char) (cs : List Char) :
    Nested l (step l modes c cs).modes := by
  by_cases hlit : ∃ d outer, modes = .literal d :: outer
  · obtain ⟨d, outer, rfl⟩ := hlit
    obtain ⟨hd, houter⟩ := h.around
    change Nested l (resume d outer (c :: cs)).modes
    rcases resume_cases d outer (c :: cs) with ⟨text, code, -, -, heq⟩ | ⟨text, code, -, -, heq⟩ |
        ⟨-, heq⟩
    · rw [heq]
      exact .cons hd houter
    · rw [heq]
      exact .cons hd houter
    · rw [heq]
      exact nested_of_codes houter
  · have hcode : ∀ d outer, modes ≠ .literal d :: outer := fun d outer heq =>
      hlit ⟨d, outer, heq⟩
    rw [step_code hcode]
    exact .codeStep (h.codes hcode) c cs

/-! ## Interpolation -/

/-- All code inside literals is opened in the same way. -/
def Uniform (l : Language) : Prop :=
  ∀ d ∈ l.strings.delimiters, ∀ text ∈ d.interpolation, text = "$\x7b"

/-- A token of interpolation is a closing brace or the opener of code in a literal. -/
theorem step_interpolation (hl : Uniform l) (h : Nested l modes)
    (hk : (step l modes c cs).kind = .interpolation) :
    (step l modes c cs).taken = ['\x7d'] ∨ (step l modes c cs).taken = ['$', '\x7b'] := by
  by_cases hlit : ∃ d outer, modes = .literal d :: outer
  · obtain ⟨d, outer, rfl⟩ := hlit
    change (resume d outer (c :: cs)).kind = _ at hk
    change (resume d outer (c :: cs)).taken = _ ∨ (resume d outer (c :: cs)).taken = _
    rcases resume_cases d outer (c :: cs) with ⟨text, code, htext, -, heq⟩ | ⟨_, _, -, -, heq⟩ |
        ⟨-, heq⟩
    · rw [heq, hl d h.around.1.1 text htext]
      exact .inr rfl
    · rw [heq] at hk
      cases hk
    · rw [heq] at hk
      cases hk
  · rw [step_code fun d outer heq => hlit ⟨d, outer, heq⟩] at hk ⊢
    rcases codeStep_cases l modes c cs with ⟨-, -, hne⟩ | ⟨d, -, r, heq⟩ | heq
    · exact absurd hk hne
    · obtain ⟨modes', hopen, -⟩ := openLiteral_cases d modes r
      rw [heq, hopen] at hk
      cases hk
    · rw [heq] at hk ⊢
      rcases symbol_cases modes c cs with ⟨hkind | hkind, -⟩ | ⟨d, outer, -, hsymbol⟩
      · rw [hkind] at hk
        cases hk
      · rw [hkind] at hk
        cases hk
      · rw [hsymbol]
        exact .inl rfl

/-- Induction over the steps of a scan. -/
theorem step_induction {P : List Mode → List Char → Prop} (nil : ∀ modes, P modes [])
    (cons : ∀ modes c cs, P (step l modes c cs).modes (step l modes c cs).rest →
      P modes (c :: cs)) (modes : List Mode) (cs : List Char) : P modes cs :=
  match cs with
  | [] => nil modes
  | c :: cs => cons modes c cs (step_induction nil cons _ _)
termination_by weight cs modes
decreasing_by exact step_weight l modes c cs

theorem tokens_interpolation (hl : Uniform l) (h : Nested l modes) :
    ∀ t ∈ tokens l modes cs, t.kind = .interpolation → t.text = "\x7d" ∨ t.text = "$\x7b" := by
  induction modes, cs using step_induction (l := l) with
  | nil modes =>
    rw [tokens_nil]
    exact nofun
  | cons modes c cs ih =>
    rw [tokens_cons]
    intro t ht hk
    rcases List.mem_cons.mp ht with rfl | ht
    · rcases step_interpolation hl h hk with htaken | htaken
      · exact .inl (by rw [Found.token, htaken])
      · exact .inr (by rw [Found.token, htaken])
    · exact ih (h.step c cs) t ht hk

end Scan

/-! ## Codes from scans -/

/-- Every token that counts is a token of the scan. -/
theorem mem_of_mem_lexemesFrom {pending : Bool} {ts : List Token} {x : Lexeme}
    (h : x ∈ lexemesFrom pending ts) : x.toToken ∈ ts := by
  induction ts generalizing pending with
  | nil => cases h
  | cons t ts ih =>
    simp only [lexemesFrom] at h
    split at h
    · exact List.mem_cons_of_mem _ (ih h)
    split at h
    · exact List.mem_cons_of_mem _ (ih h)
    · rcases List.mem_cons.mp h with rfl | h
      · exact List.mem_cons_self ..
      · exact List.mem_cons_of_mem _ (ih h)

/-- The tokens have the same kind and the same text, unless they are literals. -/
def Token.Akin (t t' : Token) : Prop :=
  t'.kind = t.kind ∧ (t'.text = t.text ∨ t.kind = .stringLiteral)

/-- Akin tokens open and close the same brackets. -/
theorem Token.Akin.brackets {t t' : Token} (h : t.Akin t') :
    t'.opens? = t.opens? ∧ t'.closes? = t.closes? := by
  obtain ⟨hk, ht | hs⟩ := h
  · simp only [Token.opens?, Token.closes?, hk, ht, and_self]
  · simp [Token.opens?, Token.closes?, hk, hs]

theorem pairsFrom_akin {ts ts' : List Token} (h : List.Forall₂ Token.Akin ts ts') (i : Nat)
    (stack : List (Nat × Bracket)) : pairsFrom i stack ts' = pairsFrom i stack ts := by
  induction h generalizing i stack with
  | nil => rfl
  | cons ht _ ih =>
    obtain ⟨hopens, hcloses⟩ := ht.brackets
    simp only [pairsFrom, hopens, hcloses, ih]

namespace Code

/-- The significant tokens without places. -/
def cores (code : Code) : List Lexeme := code.lexemes.toList.map Lexeme.core

/-- A code is what the scan makes of its source, apart from places. -/
theorem cores_ofSource (l : Language) (source : String) :
    (ofSource l source).cores = Scan.lexemes l [] false source.toList := by
  rw [Scan.lexemes, Scan.tokens, lexemesFrom_core]
  rfl

section Cores

variable (code : Code) (i : Nat)

theorem kind?_eq_cores : code.kind? i = code.cores[i]?.map (·.kind) := by
  simp [kind?, cores, Function.comp_def, Lexeme.core, Token.core]

theorem text_eq_cores : code.text i = (code.cores[i]?.map (·.text)).getD "" := by
  simp [text, cores, Function.comp_def, Lexeme.core, Token.core]

theorem afterBreak_eq_cores :
    code.afterBreak i = (code.cores[i]?.map (·.afterBreak)).getD true := by
  simp [afterBreak, cores, Function.comp_def, Lexeme.core]

theorem size_eq_cores : code.size = code.cores.length := by
  simp [size, cores]

end Cores

/-- Codes of akin tokens have the same partners. -/
theorem partners_akin {code code' : Code} (hp : code.Paired) (hp' : code'.Paired)
    (h : List.Forall₂ Token.Akin code.tokens code'.tokens) : code'.partners = code.partners := by
  have hsize : code'.lexemes.size = code.lexemes.size := by
    have hlength := h.length_eq
    rw [length_tokens, length_tokens] at hlength
    exact hlength.symm
  rw [hp, hp', hsize, bracketPairs, pairsFrom_akin h]
  rfl

theorem map_getElem?_of_forall₂ {α β : Type} {R : α → α → Prop} {f : α → β} {xs ys : List α}
    (h : List.Forall₂ R xs ys) (hf : ∀ {x y}, R x y → f y = f x) (i : Nat) :
    ys[i]?.map f = xs[i]?.map f := by
  induction h generalizing i with
  | nil => rfl
  | cons hxy _ ih =>
    cases i with
    | zero => simp [hf hxy]
    | succ i => simpa using ih i

/-- The tokens are akin and stand after the same line breaks. -/
def LexemeAkin (x x' : Lexeme) : Prop := x.toToken.Akin x'.toToken ∧ x'.afterBreak = x.afterBreak

section Sources

variable {l : Language} {source source' : String}
  (hcores : List.Forall₂ LexemeAkin (ofSource l source).cores (ofSource l source').cores)

include hcores

theorem partners_of_cores : (ofSource l source').partners = (ofSource l source).partners := by
  refine partners_akin (paired_ofSource l source) (paired_ofSource l source') ?_
  simp only [cores, List.forall₂_map_left_iff, List.forall₂_map_right_iff] at hcores
  simp only [tokens, List.forall₂_map_left_iff, List.forall₂_map_right_iff]
  exact hcores.imp fun _ _ h => h.1

/-- Sources whose significant tokens differ in veiled literals have alike codes. -/
theorem alike_of_cores (hl : l.Legible) (huniform : Scan.Uniform l)
    (htext : ∀ i, (ofSource l source').text i = (ofSource l source).text i ∨
      (ofSource l source).Veiled l i ∧ (ofSource l source').Veiled l i) :
    Alike l (ofSource l source) (ofSource l source') := by
  refine ⟨hl, ?_, fun i => ?_, fun i => ?_, fun i => ?_, htext, paired_ofSource l source, ?_⟩
  · rw [size_eq_cores, size_eq_cores, hcores.length_eq]
  · rw [kind?_eq_cores, kind?_eq_cores, map_getElem?_of_forall₂ hcores fun h => h.1.1]
  · rw [afterBreak_eq_cores, afterBreak_eq_cores, map_getElem?_of_forall₂ hcores fun h => h.2]
  · rw [partner?, partner?, partners_of_cores hcores]
  · intro i hk
    rw [kind?_eq_cores, cores_ofSource] at hk
    rw [text_eq_cores, cores_ofSource]
    obtain ⟨x, hx, hkind⟩ := Option.map_eq_some_iff.mp hk
    have hmem := mem_of_mem_lexemesFrom (List.mem_of_getElem? hx)
    rw [hx]
    exact Scan.tokens_interpolation huniform .plain _ hmem hkind

end Sources

end Code

end Cyclomatic
