import Cyclomatic.Proofs.Comments
import Mathlib.Data.List.Chain

/-!
# Pieces of literals without quotes

A token without quotes among the literals is `Bare`.  A bare token stands right between a closing
brace of code inside the literal and an opener of code, a line break or the end
(`Scan.chain_tokens`).  Among the significant tokens it is enclosed in this way
(`Code.enclosed_of_bare`).
-/

namespace Cyclomatic

/-- The token is a piece of a literal and has no quotes. -/
def Token.Bare (t : Token) : Prop := t.kind = .stringLiteral ∧ unquoted t.text = true

theorem Token.not_bare {t : Token} (h : t.kind ≠ .stringLiteral) : ¬ t.Bare := fun ht => h ht.1

/-- The delimiters of literals have quotes. -/
def Language.Quoting (l : Language) : Prop :=
  ∀ d ∈ l.strings.delimiters, unquoted d.opening = false ∧ unquoted d.closing = false

theorem unquoted_append_left {s : String} (h : unquoted s = false) (cs : List Char) :
    unquoted (String.ofList (s.toList ++ cs)) = false := by
  simp only [unquoted] at h
  simp only [unquoted, String.toList_ofList, List.all_append, h, Bool.false_and]

theorem unquoted_append_right {s : String} (h : unquoted s = false) (cs : List Char) :
    unquoted (String.ofList (cs ++ s.toList)) = false := by
  simp only [unquoted] at h
  simp only [unquoted, String.toList_ofList, List.all_append, h, Bool.and_false]

/-! ## Neighbours of bare tokens -/

/-- What two adjacent tokens are if one of them is bare. -/
structure Token.Seam (l : Language) (p t : Token) : Prop where
  before : t.Bare → l.interpolates = true ∧ p.kind = .interpolation ∧ p.text = "\x7d"
  after : p.Bare → t.kind = .interpolation ∨ l.breaksLiterals = true ∧ t.kind = .newline

namespace Scan

variable {l : Language} {modes outer : List Mode} {d : Delimiter} {c : Char} {cs code : List Char}
  {text : String}

/-- A cut before an opener of code leaves the opener at the front. -/
theorem literalText_rest (h : (literalText d cs).stop = .opener text code) :
    literalText d (literalText d cs).rest = ⟨⟨[], (literalText d cs).rest⟩, .opener text code⟩ := by
  fun_induction literalText d cs with
  | case3 c hc e cs' ih => exact ih h
  | case5 c cs hescape hclosing t r hr =>
    cases h
    show literalText d (c :: cs) = _
    rw [literalText.eq_def]
    simp only [hescape, hclosing, hr]
    rfl
  | case7 c cs _ _ _ _ ih => exact ih h
  | _ => cases h

/-- A literal that closes ends with the closing delimiter. -/
theorem literalText_closed (h : (literalText d cs).stop = .closed) :
    ∃ front, (literalText d cs).taken = front ++ d.closing.toList := by
  fun_induction literalText d cs with
  | case3 c hc e cs' ih =>
    obtain ⟨front, hfront⟩ := ih h
    exact ⟨[c, e] ++ front, by simp [LiteralCut.prepend, hfront]⟩
  | case4 => exact ⟨[], rfl⟩
  | case7 c cs _ _ _ _ ih =>
    obtain ⟨front, hfront⟩ := ih h
    exact ⟨[c] ++ front, by simp [LiteralCut.prepend, hfront]⟩
  | _ => cases h

theorem literalText_lineBreak (h : (literalText d cs).stop = .lineBreak) :
    d.multiline = false ∧ ∃ r, (literalText d cs).rest = '\n' :: r := by
  fun_induction literalText d cs with
  | case3 c hc e cs' ih => exact ih h
  | case6 c cs _ _ _ hbreak =>
    simp only [Bool.and_eq_true, beq_iff_eq, Bool.not_eq_true'] at hbreak
    exact ⟨hbreak.2, cs, by rw [hbreak.1]⟩
  | case7 c cs _ _ _ _ ih => exact ih h
  | _ => cases h

theorem literalText_inputEnd (h : (literalText d cs).stop = .inputEnd) :
    (literalText d cs).rest = [] := by
  fun_induction literalText d cs with
  | case1 => rfl
  | case2 => rfl
  | case3 c hc e cs' ih => exact ih h
  | case7 c cs _ _ _ _ ih => exact ih h
  | _ => cases h

/-- What is ahead after a token `p`.  Inside a literal, `p` ended code of the literal or code opens
next.  In code, a bare `p` was ended by a line feed or the end. -/
inductive Ahead (l : Language) (p : Token) : List Mode → List Char → Prop where
  | resumed {d : Delimiter} {outer : List Mode} {cs : List Char} :
      p.kind = .interpolation → p.text = "\x7d" → Ahead l p (.literal d :: outer) cs
  | opener {d : Delimiter} {outer : List Mode} {cs : List Char} (text : String)
      (code : List Char) : literalText d cs = ⟨⟨[], cs⟩, .opener text code⟩ →
      Ahead l p (.literal d :: outer) cs
  | code {modes : List Mode} {cs : List Char} : (∀ d outer, modes ≠ .literal d :: outer) →
      (p.Bare → cs = [] ∨ l.breaksLiterals = true ∧ ∃ r, cs = '\n' :: r) → Ahead l p modes cs

theorem ne_literal_of_codes (h : ∀ m ∈ modes, m.Known l ∧ m.isLiteral = false) (d : Delimiter)
    (outer : List Mode) : modes ≠ .literal d :: outer := by
  rintro rfl
  cases (h _ (List.mem_cons_self ..)).2

/-- A step joins the token before it, and what is ahead after it is as said. -/
theorem Ahead.after_resume {p : Token} (hnested : Nested l (.literal d :: outer))
    (hquoting : l.Quoting) (h : Ahead l p (.literal d :: outer) cs) :
    p.Seam l (resume d outer cs).token ∧
      Ahead l (resume d outer cs).token (resume d outer cs).modes (resume d outer cs).rest := by
  obtain ⟨⟨hd, hsome⟩, houter⟩ := hnested.around
  have hinterpolates : l.interpolates = true := List.any_eq_true.mpr ⟨d, hd, hsome⟩
  have hcodes := ne_literal_of_codes houter
  rcases resume_cases d outer cs with ⟨text, code, -, -, heq⟩ | ⟨text, code, hstop, hne, heq⟩ |
      ⟨hstop, heq⟩
  · rw [heq]
    have hnot : ¬ (Found.mk .interpolation text.toList code (.code d 0 :: outer)).token.Bare :=
      Token.not_bare nofun
    exact ⟨⟨fun ht => absurd ht hnot, fun _ => .inl rfl⟩, .code nofun fun ht => absurd ht hnot⟩
  · rw [heq]
    cases h with
    | resumed hk ht =>
      exact ⟨⟨fun _ => ⟨hinterpolates, hk, ht⟩, fun hp => by rw [hp.1] at hk; cases hk⟩,
        .opener text code (literalText_rest hstop)⟩
    | opener text' code' hopener =>
      rw [hopener] at hne
      exact absurd rfl hne
    | code hcode _ => exact absurd rfl (hcode d outer)
  · rw [heq]
    cases h with
    | resumed hk ht =>
      refine ⟨⟨fun _ => ⟨hinterpolates, hk, ht⟩, fun hp => by rw [hp.1] at hk; cases hk⟩,
        .code hcodes ?_⟩
      intro hbare
      cases hcut : (literalText d cs).stop with
      | closed =>
        obtain ⟨front, hfront⟩ := literalText_closed hcut
        have hquoted := unquoted_append_right (hquoting d hd).2 front
        rw [← hfront] at hquoted
        cases hquoted.symm.trans hbare.2
      | opener text code => exact absurd hcut (hstop text code)
      | lineBreak =>
        obtain ⟨hline, r, hr⟩ := literalText_lineBreak hcut
        refine .inr ⟨List.any_eq_true.mpr ⟨d, hd, ?_⟩, r, hr⟩
        simp only [Bool.and_eq_true, Bool.not_eq_true']
        exact ⟨hsome, hline⟩
      | inputEnd => exact .inl (literalText_inputEnd hcut)
    | opener text code hopener => exact absurd (by rw [hopener]) (hstop text code)
    | code hcode _ => exact absurd rfl (hcode d outer)

theorem Ahead.after_codeStep {p : Token} (hquoting : l.Quoting)
    (hcode : ∀ d outer, modes ≠ .literal d :: outer)
    (hbare : p.Bare → l.breaksLiterals = true ∧ c = '\n') :
    p.Seam l (codeStep l modes c cs).token ∧
      Ahead l (codeStep l modes c cs).token (codeStep l modes c cs).modes
        (codeStep l modes c cs).rest := by
  have hafter : p.Bare → (codeStep l modes c cs).token.kind = .interpolation ∨
      l.breaksLiterals = true ∧ (codeStep l modes c cs).token.kind = .newline := by
    intro hp
    obtain ⟨hbreaks, rfl⟩ := hbare hp
    exact .inr ⟨hbreaks, rfl⟩
  -- A token of code is not bare: it is no literal, or the opening of one has a quote.
  suffices h : ¬ (codeStep l modes c cs).token.Bare ∧
      ((∀ d outer, (codeStep l modes c cs).modes ≠ .literal d :: outer) ∨
        Ahead l (codeStep l modes c cs).token (codeStep l modes c cs).modes
          (codeStep l modes c cs).rest) by
    obtain ⟨hnot, hmodes | hahead⟩ := h
    · exact ⟨⟨fun ht => absurd ht hnot, hafter⟩, .code hmodes fun ht => absurd ht hnot⟩
    · exact ⟨⟨fun ht => absurd ht hnot, hafter⟩, hahead⟩
  rcases codeStep_cases l modes c cs with ⟨hmodes, hkind, -⟩ | ⟨d, hd, r, heq⟩ | heq
  · rw [hmodes]
    exact ⟨Token.not_bare hkind, .inl hcode⟩
  · obtain ⟨modes', hopen, hmodes⟩ := openLiteral_cases d modes r
    rw [heq, hopen]
    refine ⟨fun ht => ?_, ?_⟩
    · have hquoted := unquoted_append_left (hquoting d hd).1 (literalText d r).taken
      cases hquoted.symm.trans ht.2
    · rcases hmodes with ⟨text, code, hstop, rfl⟩ | rfl
      · exact .inr (.opener text code (literalText_rest hstop))
      · exact .inl hcode
  · rw [heq]
    rcases symbol_cases modes c cs with ⟨hkind, hmodes⟩ | ⟨d, outer, rfl, hsymbol⟩
    · refine ⟨fun ht => ?_, .inl ?_⟩
      · have hliteral : (symbol modes c cs).kind = .stringLiteral := ht.1
        rcases hkind with hkind | hkind
        · cases hkind.symm.trans hliteral
        · cases hkind.symm.trans hliteral
      · rcases hmodes with hmodes | ⟨d, n, m, outer, -, hmodes⟩
        · rw [hmodes]
          exact hcode
        · rw [hmodes]
          exact nofun
    · rw [hsymbol]
      exact ⟨Token.not_bare nofun, .inr (.resumed rfl rfl)⟩

theorem Ahead.after_step {p : Token} (hnested : Nested l modes) (hquoting : l.Quoting)
    (h : Ahead l p modes (c :: cs)) :
    p.Seam l (step l modes c cs).token ∧
      Ahead l (step l modes c cs).token (step l modes c cs).modes (step l modes c cs).rest := by
  cases h with
  | resumed hk ht => exact Ahead.after_resume hnested hquoting (.resumed hk ht)
  | opener text code hopener =>
    exact Ahead.after_resume hnested hquoting (.opener text code hopener)
  | code hcode hbare =>
    rw [step_code hcode]
    refine Ahead.after_codeStep hquoting hcode ?_
    intro hp
    rcases hbare hp with hnil | ⟨hbreaks, r, hr⟩
    · cases hnil
    · exact ⟨hbreaks, (List.cons.inj hr).1⟩

/-- Adjacent tokens of a scan. -/
theorem chain_tokens (hquoting : l.Quoting) {p : Token} (hnested : Nested l modes)
    (h : Ahead l p modes cs) : (p :: tokens l modes cs).IsChain (Token.Seam l) := by
  induction modes, cs using step_induction (l := l) generalizing p with
  | nil modes =>
    rw [tokens_nil]
    exact List.isChain_singleton p
  | cons modes c cs ih =>
    obtain ⟨hseam, hahead⟩ := h.after_step hnested hquoting
    rw [tokens_cons, List.isChain_cons_cons]
    exact ⟨hseam, ih (hnested.step c cs) hahead⟩

end Scan

/-! ## Significant tokens -/

theorem Token.isTrivia_of_breaksLine {t : Token} (h : t.breaksLine = true) :
    t.kind.isTrivia = true := by
  simp only [Token.breaksLine, Bool.or_eq_true, Bool.and_eq_true, beq_iff_eq] at h
  rcases h with hk | ⟨hk, -⟩
  · rw [hk]
    rfl
  · rw [hk]
    rfl

/-- What two adjacent significant tokens are if one of them is bare. -/
structure Lexeme.Seam (l : Language) (x y : Lexeme) : Prop where
  before : y.Bare → l.interpolates = true ∧ x.kind = .interpolation ∧ x.text = "\x7d"
  after : x.Bare → y.kind = .interpolation ∨ l.breaksLiterals = true ∧ y.afterBreak = true

/-- The line break after a bare token is remembered up to the next significant token. -/
theorem chain_lexemesFrom {l : Language} {p : Token} {ts : List Token} {x : Lexeme} {pending : Bool}
    (hchain : (p :: ts).IsChain (Token.Seam l)) (hp : p.kind = .interpolation → x.toToken = p)
    (hx : x.Bare → x.toToken = p ∨ l.breaksLiterals = true ∧ pending = true) :
    (x :: lexemesFrom pending ts).IsChain (Lexeme.Seam l) := by
  induction ts generalizing p x pending with
  | nil => exact List.isChain_singleton x
  | cons t ts ih =>
    rw [List.isChain_cons_cons] at hchain
    obtain ⟨hseam, hchain⟩ := hchain
    have hafter : x.Bare → (t.kind = .interpolation ∨ l.breaksLiterals = true ∧ t.kind = .newline) ∨
        l.breaksLiterals = true ∧ pending = true := by
      intro hbare
      rcases hx hbare with heq | hpending
      · exact .inl (hseam.after (heq ▸ hbare))
      · exact .inr hpending
    simp only [lexemesFrom]
    split
    · rename_i hbreaks
      have htrivia := Token.isTrivia_of_breaksLine hbreaks
      refine ih hchain (fun hk => ?_) fun hbare => .inr ⟨?_, rfl⟩
      · rw [hk] at htrivia
        cases htrivia
      · rcases hafter hbare with (hk | hk) | hk
        · rw [hk] at htrivia
          cases htrivia
        · exact hk.1
        · exact hk.1
    · rename_i hbreaks
      split
      · rename_i htrivia
        refine ih hchain (fun hk => ?_) fun hbare => .inr ?_
        · rw [hk] at htrivia
          cases htrivia
        · rcases hafter hbare with (hk | ⟨-, hk⟩) | hk
          · rw [hk] at htrivia
            cases htrivia
          · simp [Token.breaksLine, hk] at hbreaks
          · exact hk
      · rename_i htrivia
        rw [List.isChain_cons_cons]
        refine ⟨⟨fun hbare => ?_, fun hbare => ?_⟩, ih hchain (fun _ => rfl) fun _ => .inl rfl⟩
        · obtain ⟨hinterpolates, hk, htext⟩ := hseam.before hbare
          rw [hp hk]
          exact ⟨hinterpolates, hk, htext⟩
        · rcases hafter hbare with (hk | ⟨-, hk⟩) | hk
          · exact .inl hk
          · rw [hk] at htrivia
            exact absurd rfl htrivia
          · exact .inr hk

namespace Code

variable {l : Language} {source source' : String} {i : Nat}

/-- A line feed before the first token, which is not bare. -/
def firstBreak : Lexeme := ⟨⟨.newline, "\n", 0, 0⟩, false⟩

theorem chain_cores (hquoting : l.Quoting) (source : String) :
    (firstBreak :: (ofSource l source).cores).IsChain (Lexeme.Seam l) := by
  have hnot : ¬ firstBreak.Bare := Token.not_bare nofun
  have hahead : Scan.Ahead l firstBreak.toToken [] source.toList :=
    .code nofun fun hbare => absurd hbare hnot
  rw [cores_ofSource]
  exact chain_lexemesFrom (Scan.chain_tokens hquoting .plain hahead) nofun
    fun hbare => absurd hbare hnot

/-- Bare tokens are enclosed. -/
theorem enclosed_of_bare (hquoting : l.Quoting) {x : Lexeme}
    (hx : (ofSource l source).cores[i]? = some x) (hbare : x.Bare) :
    (ofSource l source).Enclosed l i := by
  have hchain := List.isChain_iff_getElem.mp (chain_cores hquoting source)
  obtain ⟨hi, rfl⟩ := List.getElem?_eq_some_iff.mp hx
  have hbefore := (hchain i (by simpa using hi)).before hbare
  refine ⟨hbefore.1, ?_, ?_, ?_⟩
  · rw [kind?_eq_cores, hx]
    exact congrArg some hbare.1
  · cases i with
    | zero => cases hbefore.2.1
    | succ p =>
      have hp : (ofSource l source).cores[p]? = some (ofSource l source).cores[p] :=
        List.getElem?_eq_getElem _
      refine ⟨p, rfl, ?_, ?_⟩
      · rw [kind?_eq_cores, hp]
        exact congrArg some hbefore.2.1
      · rw [text_eq_cores, hp]
        exact hbefore.2.2
  · by_cases hnext : i + 1 < (ofSource l source).cores.length
    · have hafter := (hchain (i + 1) (by simpa using hnext)).after hbare
      have hn : (ofSource l source).cores[i + 1]? = some (ofSource l source).cores[i + 1] :=
        List.getElem?_eq_getElem _
      rcases hafter with hk | ⟨hbreaks, hk⟩
      · refine .inl ?_
        rw [kind?_eq_cores, hn]
        exact congrArg some hk
      · refine .inr (.inr ⟨hbreaks, ?_⟩)
        rw [afterBreak_eq_cores, hn]
        exact hk
    · refine .inr (.inl ?_)
      rw [kind?_eq_cores, List.getElem?_eq_none (by omega)]
      rfl

end Code

/-! ## Built-in languages -/

theorem Language.Quoting.canonical {l : Language} (h : l.Quoting) : l.canonical.Quoting := by
  intro d hd
  exact h d (mem_canonicalDelimiters.mp hd)

theorem quoting_builtin {name : String} {l : Language}
    (h : Registry.builtin.lookup? name = some l) : l.Quoting := by
  rcases Registry.builtin_cases h with rfl | rfl | rfl | rfl | rfl
  all_goals
    apply Language.Quoting.canonical
    simp only [Language.Quoting]
    decide

end Cyclomatic
