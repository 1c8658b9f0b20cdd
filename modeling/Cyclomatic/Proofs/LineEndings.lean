import Cyclomatic.Proofs.Alike.Lines
import Cyclomatic.Proofs.Returns

/-!
# Line endings

A source with a carriage return before every line feed has the same functions, declarations, scores
and decisions in the same lines, and the same number of lines that hold something, unless a step of
the scan is fragile (`analyze_withReturns`).

The exceptions show (`fragile_shows`).  The escape in a literal of one line takes a line feed into
the literal.  Before a carriage return it takes only that, so the line feed ends the literal and the
text behind it turns into code.
-/

namespace Cyclomatic

/-- The tokens are swapped, after the same line breaks and in the same lines. -/
def Lexeme.Turned (l : Language) (x x' : Lexeme) : Prop :=
  x.core.Swap l x'.core ∧ x'.start = x.start

namespace Scan

variable {l : Language} {modes : List Mode} {c : Char} {cs : List Char}

/-! ## Scans -/

/-- No step of a scan is fragile. -/
def sturdy (l : Language) (modes : List Mode) (cs : List Char) : Bool :=
  match cs with
  | [] => true
  | c :: cs => !fragile l modes c cs && sturdy l (step l modes c cs).modes (step l modes c cs).rest
termination_by weight cs modes
decreasing_by exact step_weight l modes c cs

theorem sturdy_cons (h : sturdy l modes (c :: cs) = true) :
    fragile l modes c cs = false ∧
      sturdy l (step l modes c cs).modes (step l modes c cs).rest = true := by
  rw [sturdy] at h
  simpa using h

theorem Found.Turned.breaksLine {found found' : Found} (h : found.Turned l found') :
    found'.token.breaksLine = found.token.breaksLine := by
  simp only [Token.breaksLine, Found.token, String.toList_ofList, h.kind, h.cut.contains]

/-- A carriage return that the step has left in code does nothing. -/
theorem Found.Turned.ahead {found found' : Found} (h : found.Turned l found') (pending : Bool)
    (line : Nat) :
    linedLexemes l found.modes pending line found'.rest =
      linedLexemes l found.modes pending line (crlf found.rest) := by
  rcases h.code with hrest | hcode
  · rw [hrest]
  · rcases h.cut.rest with hrest | hrest
    · rw [hrest]
    · rw [hrest, linedLexemes_blank hcode (by decide)]
      simp

/-- The significant tokens of a text with carriage returns stand in the same lines. -/
theorem linedLexemes_crlf (hl : l.Feedless) (hmodes : Nested l modes)
    (h : sturdy l modes cs = true) (pending : Bool) (line : Nat) :
    List.Forall₂ (Lexeme.Turned l) (linedLexemes l modes pending line cs)
      (linedLexemes l modes pending line (crlf cs)) := by
  induction modes, cs using step_induction (l := l) generalizing pending line with
  | nil modes =>
    rw [crlf_nil, linedLexemes_nil]
    exact .nil
  | cons modes c cs ih =>
    obtain ⟨hstep, hrest⟩ := sturdy_cons h
    have ih := ih (hmodes.step c cs) hrest
    by_cases hfeed : (∀ d outer, modes ≠ .literal d :: outer) ∧ c = '\n'
    · obtain ⟨hcode, rfl⟩ := hfeed
      have hnewline : step l modes '\n' cs = ⟨.newline, ['\n'], cs, modes⟩ := by
        rw [step_code hcode]
        rfl
      have hblanks : ∀ x ∈ ['\r', '\n'], Text.isBlank x = true :=
        List.forall_mem_cons.mpr ⟨rfl, List.forall_mem_singleton.mpr rfl⟩
      rw [hnewline] at ih
      change List.Forall₂ _ _ (linedLexemes l modes pending line (['\r', '\n'] ++ crlf cs))
      rw [linedLexemes_blank hcode rfl, linedLexemes_blanks hcode hblanks]
      exact ih _ _
    · obtain ⟨c', cs', hcs, hturned⟩ :=
        step_crlf hl hmodes (fun hcode hc => hfeed ⟨hcode, hc⟩) hstep
      rw [hcs, linedLexemes_cons, linedLexemes_cons l modes pending line c' cs', hturned.breaksLine,
        hturned.kind, hturned.modes, hturned.cut.count, hturned.ahead, hturned.ahead, hturned.ahead]
      split
      · exact ih _ _
      split
      · exact ih _ _
      · rename_i htrivia
        refine .cons ⟨⟨?_, rfl⟩, rfl⟩ (ih _ _)
        rcases hturned.text (by simpa using htrivia) with htext | ⟨hk, hexposed, hexposed'⟩
        · exact .inl (by rw [htext])
        · exact .inr ⟨⟨hk, hexposed⟩, hk, hexposed'⟩

end Scan

/-! ## Codes -/

/-- The source with a carriage return before every line feed. -/
def withReturns (source : String) : String := String.ofList (Scan.crlf source.toList)

theorem toList_withReturns (source : String) :
    (withReturns source).toList = Scan.crlf source.toList := by
  rw [withReturns, String.toList_ofList]

/-- A carriage return ends a line that its line feed does not end again. -/
theorem realLines_withReturns (source : String) :
    realLines (withReturns source) = realLines source := by
  have hlines : ∀ held cs, realLinesFrom held (Scan.crlf cs) = realLinesFrom held cs := by
    intro held cs
    induction cs generalizing held with
    | nil => rfl
    | cons c cs ih =>
      by_cases hc : c = '\n'
      · subst hc
        rw [Scan.crlf_feed, realLinesFrom, if_pos (by decide), realLinesFrom, if_pos (by decide),
          realLinesFrom, if_pos (by decide), ih]
        simp
      · rw [Scan.crlf_cons hc, realLinesFrom, realLinesFrom, ih, ih]
  rw [realLines, realLines, toList_withReturns, hlines]

section Codes

variable {l : Language} {source : String}

/-- The tokens stand in the same lines. -/
theorem lineOf_withReturns (hl : l.Feedless) (h : Scan.sturdy l [] source.toList = true) (i : Nat) :
    (Code.ofSource l (withReturns source)).lineOf i = (Code.ofSource l source).lineOf i := by
  have hturned := Scan.linedLexemes_crlf hl .plain h false 1
  rw [Code.lineOf_eq_lined, Code.lineOf_eq_lined, toList_withReturns, Scan.count_crlf]
  rcases getElem?_of_forall₂ hturned i with ⟨hx, hx'⟩ | ⟨x, x', hx, hx', -, hline⟩
  · rw [hx, hx']
  · rw [hx, hx', Option.map_some, Option.map_some, hline]

theorem alike_withReturns {name : String} (hname : Registry.builtin.lookup? name = some l)
    (hl : l.Feedless) (h : Scan.sturdy l [] source.toList = true) :
    Code.Alike l (Code.ofSource l source) (Code.ofSource l (withReturns source)) := by
  refine Code.alike_of_swappedCores (legible_builtin hname) (uniform_builtin hname)
    (quoting_builtin hname) ?_
  rw [Code.cores_ofSource, Code.cores_ofSource, toList_withReturns, Scan.lexemes_eq_lined false 1,
    Scan.lexemes_eq_lined false 1, List.forall₂_map_left_iff, List.forall₂_map_right_iff]
  exact (Scan.linedLexemes_crlf hl .plain h false 1).imp fun _ _ hx => hx.1

end Codes

/-! ## Built-in languages -/

instance (d : Delimiter) : Decidable d.Feedless :=
  decidable_of_iff ((feedless d.opening = true ∧ feedless d.closing = true) ∧
      (∀ text ∈ d.interpolation, feedless text = true) ∧
        d.escape ≠ some '\r' ∧ d.escape ≠ some '\n')
    ⟨fun h => ⟨h.1.1, h.1.2, h.2.1, h.2.2⟩,
      fun h => ⟨⟨h.opening, h.closing⟩, h.interpolation, h.escape⟩⟩

theorem Language.canonical_compared (l : Language) : l.canonical.compared = l.compared := by
  rw [Language.compared, Language.canonical]
  rfl

/-- Canonical form sorts the delimiters and the operators, which adds none. -/
theorem Language.Feedless.canonical {l : Language} (h : l.Feedless) : l.canonical.Feedless := by
  constructor
  · exact h.line
  · exact h.block
  · intro d hd
    exact h.delimiters d (mem_canonicalDelimiters.mp hd)
  · intro o ho
    exact h.operators o (mem_canonicalOperators.mp ho).1
  · rw [Language.canonical_isIdentifierChar, Language.canonical_isIdentifierChar]
    exact h.identifiers
  · rw [Language.canonical_compared]
    exact h.compared

theorem feedless_builtin {name : String} {l : Language}
    (h : Registry.builtin.lookup? name = some l) : l.Feedless := by
  rcases Registry.builtin_cases h with rfl | rfl | rfl | rfl | rfl
  all_goals
    apply Language.Feedless.canonical
    constructor <;> decide +kernel

/-! ## Analyses -/

/-- Line endings do not matter unless a step of the scan is fragile.  A source in a built-in
language with a carriage return before every line feed has the same number of lines that hold
something, the same functions, declarations, scores and decisions in the same lines, or the same
fault. -/
theorem analyze_withReturns {name : String} {l : Language}
    (hl : Registry.builtin.lookup? name = some l) {source : String}
    (h : Scan.sturdy l [] source.toList = true) (options : ScoringOptions) (file : String) :
    (({ options := options } : Engine).analyze file (withReturns source) name).map
        FileResult.lined =
      (({ options := options } : Engine).analyze file source name).map FileResult.lined := by
  have hfeedless := feedless_builtin hl
  rw [Engine.analyze_of_lookup? hl, Engine.analyze_of_lookup? hl]
  exact analyzeIn_lined (braceless_builtin hl) (alike_withReturns hl hfeedless h)
    (Code.inRange_builtin hl source) (Code.inRange_builtin hl (withReturns source))
    (lineOf_withReturns hfeedless h) (realLines_withReturns source) options file

/-- A function with comments, a literal of several lines with code in it, and a literal that a line
feed cuts off. -/
def sprawling : String := "function f(a) \x7b // one
  x = \x60/*
  $\x7b a &&
    b \x7d\x60; /* two
  */ y = 'open
\x7d"

/-- A function that sprawls over lines is the same with carriage returns. -/
theorem analyze_withReturns_sprawling :
    Scan.sturdy Language.JavaScript.table.canonical [] sprawling.toList = true ∧
      ∀ options file,
        (({ options := options } : Engine).analyze file (withReturns sprawling) "javascript").map
            FileResult.lined =
          (({ options := options } : Engine).analyze file sprawling "javascript").map
            FileResult.lined := by
  have hl : Registry.builtin.lookup? "javascript" = some Language.JavaScript.table.canonical := rfl
  have hsturdy : Scan.sturdy Language.JavaScript.table.canonical [] sprawling.toList = true := by
    rw [toList_eq_chars sprawling rfl, Language.JavaScript.canonical_eq]
    decide +kernel
  exact ⟨hsturdy, analyze_withReturns hl hsturdy⟩

/-! ## Fragile steps -/

/-- What an analysis shows of a function in a source. -/
structure Outline where
  /-- Its qualified name. -/
  name : String
  /-- The lines where it starts and ends. -/
  lines : Nat × Nat
  /-- Its score. -/
  score : UInt32
  /-- The texts of its decisions with their lines. -/
  decisions : List (String × Nat)
deriving DecidableEq

/-- The functions that an analysis finds in a source. -/
def outlines? (name source : String) : Option (List Outline) :=
  (({} : Engine).analyze "input" source name).toOption.map fun r => r.all.map fun f =>
    ⟨f.qualifiedName, (f.span.startLine, f.span.endLine), f.score,
      f.decisions.map fun d => (d.token, d.line)⟩

/-- A literal of one line in which a line feed is escaped. -/
def escapedFeed : String := "function f() \x7b
  x = \"\\
 if (a)\"; \x7d
"

/-- A quoted identifier that a line feed cuts off. -/
def cutOffName : String := "fun \x60f
() \x7b \x7d"

/-- A loop that is tested at its end, with its word in a literal that a line feed cuts off. -/
def cutOffWord : String := "fun f() \x7b do x = \"$\x7ba\x7dwhile
while (c) \x7d"

/-- Each kind of fragile step shows.  With carriage returns the escaped line feed ends the literal,
so the text behind it turns into code.  The name gets a carriage return, and the word is no longer
taken for that of the loop. -/
theorem fragile_shows :
    (outlines? "javascript" escapedFeed = some [⟨"f", (1, 3), 1, []⟩] ∧
        outlines? "javascript" (withReturns escapedFeed) = some [⟨"f", (1, 4), 2, [("if", 3)]⟩]) ∧
      (outlines? "kotlin" cutOffName = some [⟨"\x60f", (1, 2), 1, []⟩] ∧
        outlines? "kotlin" (withReturns cutOffName) = some [⟨"\x60f\r", (1, 2), 1, []⟩]) ∧
      outlines? "kotlin" cutOffWord = some [⟨"f", (1, 2), 3, [("do", 1), ("while", 2)]⟩] ∧
        outlines? "kotlin" (withReturns cutOffWord) = some [⟨"f", (1, 2), 2, [("do", 1)]⟩] := by
  have hjavascript : Registry.builtin.lookup? "javascript" =
      some Language.JavaScript.table.canonical := rfl
  have hkotlin : Registry.builtin.lookup? "kotlin" = some Language.Kotlin.table.canonical := rfl
  simp only [outlines?, Engine.analyze_of_lookup? hjavascript, Engine.analyze_of_lookup? hkotlin,
    analyzeIn]
  rw [Code.ofSource_eq_ofChars _ escapedFeed rfl, Code.ofSource_eq_ofChars _ cutOffName rfl,
    Code.ofSource_eq_ofChars _ cutOffWord rfl,
    Code.ofSource_eq_ofChars _ (withReturns escapedFeed) rfl,
    Code.ofSource_eq_ofChars _ (withReturns cutOffName) rfl,
    Code.ofSource_eq_ofChars _ (withReturns cutOffWord) rfl, Language.JavaScript.canonical_eq,
    Language.Kotlin.canonical_eq]
  decide +kernel

end Cyclomatic
