import Cyclomatic.Proofs.Literals
import Cyclomatic.Proofs.LongestMatch

/-!
# Nested interpolations

Code inside literals is properly nested in the tokens of every source (`scan_nests`).  A `Reading`
goes over the tokens from left to right and knows nothing of the scanner.  It keeps the openers that
are still open, each with the literal it interrupts and the braces open in its code.  It fails at a
closing brace without opener, at braces that do not balance, and at a token after a closing brace
that does not go on with the literal.

It never fails, because its openers are the modes of the scanner.  The literal in front of them, if
there is one, was just resumed or is interrupted next (`Reading.Fits`).  Each step keeps this
(`Reading.Fits.step`).
-/

namespace Cyclomatic

/-! ## Reading tokens -/

/-- An opener of code that is still open. -/
structure Opened where
  /-- The literal that it interrupts. -/
  delimiter : Delimiter
  /-- The number of braces open in the code after it. -/
  braces : Nat
deriving DecidableEq, Repr

/-- What the token read last leaves behind it. -/
inductive Reading.Behind where
  /-- Code. -/
  | code
  /-- A piece of a literal.  Either the literal has ended or an opener of code interrupts it. -/
  | piece (delimiter : Delimiter)
  /-- A closing brace that goes back to a literal. -/
  | resumed (delimiter : Delimiter)
deriving DecidableEq, Repr

/-- The first delimiter of a language whose opening starts a text. -/
def Language.delimiterOf? (l : Language) (text : String) : Option Delimiter :=
  l.strings.delimiters.find? fun d => d.opening.toList <+: text.toList

/-- What is known after some tokens of a source. -/
structure Reading where
  /-- The openers that are still open, innermost first. -/
  opened : List Opened := []
  /-- What the last token leaves. -/
  behind : Reading.Behind := .code
deriving DecidableEq, Repr

namespace Reading

/-- An opener of code interrupts a literal. -/
def interrupt (r : Reading) (d : Delimiter) (text : String) : Option Reading :=
  if d.interpolation = some text then some ⟨⟨d, 0⟩ :: r.opened, .code⟩ else none

/-- A closing brace goes back to the literal that the innermost opener interrupts. -/
def close (r : Reading) : Option Reading :=
  match r.opened with
  | ⟨d, 0⟩ :: outer => some ⟨outer, .resumed d⟩
  | _ => none

/-- A mark of punctuation.  In code of a literal the braces balance. -/
def punctuate (r : Reading) (text : String) : Option Reading :=
  match r.opened with
  | [] => some ⟨[], .code⟩
  | ⟨d, n⟩ :: outer =>
    if text = "\x7b" then some ⟨⟨d, n + 1⟩ :: outer, .code⟩
    else if text = "\x7d" then
      match n with
      | 0 => none
      | n + 1 => some ⟨⟨d, n⟩ :: outer, .code⟩
    else some ⟨⟨d, n⟩ :: outer, .code⟩

/-- Read one more token. -/
def read (l : Language) (r : Reading) (t : Token) : Option Reading :=
  match r.behind, t.kind with
  | .resumed d, .interpolation => r.interrupt d t.text
  | .resumed d, .stringLiteral => some { r with behind := .piece d }
  | .resumed _, _ => none
  | .piece d, .interpolation => if t.text = "\x7d" then r.close else r.interrupt d t.text
  | .code, .interpolation => if t.text = "\x7d" then r.close else none
  | _, .stringLiteral => (l.delimiterOf? t.text).map fun d => { r with behind := .piece d }
  | _, .punctuation => r.punctuate t.text
  | _, _ => some { r with behind := .code }

/-- Read tokens from left to right. -/
def ofTokens? (l : Language) (ts : List Token) : Option Reading := ts.foldlM (read l) {}

end Reading

/-- The token goes on with a literal: it is an opener of code, or it runs to the next mark. -/
def Token.Continues (source : String) (d : Delimiter) (t : Token) : Prop :=
  t.kind = .interpolation ∧ d.interpolation = some t.text ∨
    t.kind = .stringLiteral ∧
      ∃ rest, StandsBefore source t.text t.start rest ∧ d.Runs t.text.toList rest

/-! ## What is read -/

namespace Reading

section Read

variable {l : Language} {r : Reading} {t : Token} {d : Delimiter}

theorem read_interrupt (h : r.behind = .resumed d ∨ r.behind = .piece d)
    (hkind : t.kind = .interpolation) (htext : t.text ≠ "\x7d") :
    r.read l t = r.interrupt d t.text := by
  rcases h with h | h
  · simp only [read, h, hkind]
  · simp only [read, h, hkind, if_neg htext]

theorem read_piece (h : r.behind = .resumed d) (hkind : t.kind = .stringLiteral) :
    r.read l t = some { r with behind := .piece d } := by
  simp only [read, h, hkind]

variable (h : ∀ d, r.behind ≠ .resumed d)

include h

theorem read_code (hliteral : t.kind ≠ .stringLiteral) (hinterpolation : t.kind ≠ .interpolation)
    (hpunctuation : t.kind ≠ .punctuation) :
    r.read l t = some { r with behind := .code } := by
  unfold read
  split
  all_goals simp_all

theorem read_literal (hkind : t.kind = .stringLiteral) :
    r.read l t = (l.delimiterOf? t.text).map fun d => { r with behind := .piece d } := by
  cases hbehind : r.behind with
  | resumed d => exact absurd hbehind (h d)
  | _ => simp only [read, hbehind, hkind]

theorem read_punctuation (hkind : t.kind = .punctuation) :
    r.read l t = r.punctuate t.text := by
  cases hbehind : r.behind with
  | resumed d => exact absurd hbehind (h d)
  | _ => simp only [read, hbehind, hkind]

theorem read_close (hkind : t.kind = .interpolation) (htext : t.text = "\x7d") :
    r.read l t = r.close := by
  cases hbehind : r.behind with
  | resumed d => exact absurd hbehind (h d)
  | _ => simp only [read, hbehind, hkind, if_pos htext]

end Read

end Reading

/-! ## Readings and modes -/

/-- The mode of the code after an opener. -/
def Opened.mode (o : Opened) : Scan.Mode := .code o.delimiter o.braces

namespace Reading

open Scan

/-- A reading fits a place of the scan.  The openers are the modes of code.  A literal in front of
them was just resumed, or an opener of code is ahead. -/
inductive Fits (r : Reading) : Scan.Place → Prop where
  | code {cs : List Char} : (∀ d, r.behind ≠ .resumed d) → Fits r ⟨r.opened.map Opened.mode, cs⟩
  | resumed {d : Delimiter} {cs : List Char} :
      r.behind = .resumed d → Fits r ⟨.literal d :: r.opened.map Opened.mode, cs⟩
  | interrupted {d : Delimiter} {cs code : List Char} {text : String} :
      r.behind = .piece d → literalText d cs = ⟨⟨[], cs⟩, .opener text code⟩ →
      Fits r ⟨.literal d :: r.opened.map Opened.mode, cs⟩

variable {l : Language} {r : Reading} {c : Char} {cs : List Char} {t : Token} {d : Delimiter}

theorem Fits.behind_code {opened : List Opened} :
    Fits ⟨opened, .code⟩ ⟨opened.map Opened.mode, cs⟩ :=
  .code fun _ h => by cases h

theorem Fits.behind_piece {opened : List Opened} :
    Fits ⟨opened, .piece d⟩ ⟨opened.map Opened.mode, cs⟩ :=
  .code fun _ h => by cases h

/-- The token that a step finds, at some offsets. -/
def Finds (found : Found) (t : Token) : Prop :=
  t.kind = found.kind ∧ t.text = String.ofList found.taken

/-- A reading can read a token, and then fits the place behind it. -/
def GoesOn (l : Language) (r : Reading) (t : Token) (found : Found) : Prop :=
  ∃ r', r.read l t = some r' ∧ r'.Fits ⟨found.modes, found.rest⟩

/-- An opener of code interrupts the literal in front of it. -/
theorem goesOn_opener (hd : d.Sound) (h : r.behind = .resumed d ∨ r.behind = .piece d)
    {text : String} {code : List Char} (hopener : d.interpolation = some text)
    (ht : Finds ⟨.interpolation, text.toList, code, .code d 0 :: r.opened.map Opened.mode⟩ t) :
    r.GoesOn l t ⟨.interpolation, text.toList, code, .code d 0 :: r.opened.map Opened.mode⟩ := by
  obtain ⟨hkind, htext⟩ := ht
  rw [String.ofList_toList] at htext
  have hread := read_interrupt (l := l) h hkind (htext ▸ hd.opener_ne_brace hopener)
  rw [interrupt, htext, if_pos hopener] at hread
  exact ⟨_, hread, .behind_code⟩

/-- A resumed literal goes on with a piece or with an opener of code. -/
theorem goesOn_resumed (hd : d.Sound) (h : r.behind = .resumed d)
    (ht : Finds (resume d (r.opened.map Opened.mode) cs) t) :
    r.GoesOn l t (resume d (r.opened.map Opened.mode) cs) := by
  rcases resume_cases d (r.opened.map Opened.mode) cs with ⟨text, code, hopener, -, heq⟩ |
      ⟨text, code, hstop, -, heq⟩ | ⟨-, heq⟩
  all_goals rw [heq] at ht ⊢
  · exact goesOn_opener hd (.inl h) hopener ht
  · exact ⟨_, read_piece h ht.1, .interrupted rfl (literalText_rest hstop)⟩
  · exact ⟨_, read_piece h ht.1, .behind_piece⟩

/-- A literal before an opener of code is interrupted by it. -/
theorem goesOn_interrupted (hd : d.Sound) (h : r.behind = .piece d) {text : String}
    {code : List Char} (hahead : literalText d cs = ⟨⟨[], cs⟩, .opener text code⟩)
    (ht : Finds (resume d (r.opened.map Opened.mode) cs) t) :
    r.GoesOn l t (resume d (r.opened.map Opened.mode) cs) := by
  have hopener : d.interpolation = some text := literalText_interpolation (by rw [hahead])
  have heq : resume d (r.opened.map Opened.mode) cs =
      ⟨.interpolation, text.toList, code, .code d 0 :: r.opened.map Opened.mode⟩ := by
    simp only [resume, hahead, List.isEmpty_nil, if_true]
  rw [heq] at ht ⊢
  exact goesOn_opener hd (.inr h) hopener ht

/-- The delimiter that opens a literal is known from the text of the token. -/
theorem delimiterOf?_of_literalAt? (hsound : ∀ d ∈ l.strings.delimiters, d.Sound)
    {rest : List Char} (h : literalAt? l.strings.delimiters cs = some (d, rest)) {text : String}
    (hopens : d.opening.toList <+: text.toList) (htext : text.toList <+: cs) :
    l.delimiterOf? text = some d := by
  obtain ⟨-, longer, shorter, hsplit, hlonger⟩ := literalAt?_first hsound h
  rw [Language.delimiterOf?, List.find?_eq_some_iff_append]
  refine ⟨decide_eq_true hopens, longer, shorter, hsplit, fun e he => ?_⟩
  simpa using fun hmatch => hlonger e he (hmatch.trans htext)

/-- A literal that opens in code is read. -/
theorem goesOn_literal (hsound : ∀ d ∈ l.strings.delimiters, d.Sound)
    (h : ∀ d, r.behind ≠ .resumed d) {rest : List Char}
    (hfound : literalAt? l.strings.delimiters cs = some (d, rest))
    (ht : Finds (openLiteral d (r.opened.map Opened.mode) rest) t) :
    r.GoesOn l t (openLiteral d (r.opened.map Opened.mode) rest) := by
  obtain ⟨hkind, htext⟩ := ht
  have happ := openLiteral_append d (r.opened.map Opened.mode) rest
  rw [← (literalAt?_eq_some hfound).2.1] at happ
  have hcs : t.text.toList <+: cs := by
    rw [htext, String.toList_ofList]
    exact ⟨_, happ⟩
  obtain ⟨modes', hopen, hmodes⟩ := openLiteral_cases d (r.opened.map Opened.mode) rest
  rw [hopen] at hkind htext ⊢
  have hopens : d.opening.toList <+: t.text.toList := by
    rw [htext, String.toList_ofList]
    exact List.prefix_append ..
  have hread := read_literal (l := l) h hkind
  rw [delimiterOf?_of_literalAt? hsound hfound hopens hcs, Option.map_some] at hread
  rcases hmodes with ⟨text, code, hstop, rfl⟩ | rfl
  · exact ⟨_, hread, .interrupted rfl (literalText_rest hstop)⟩
  · exact ⟨_, hread, .behind_piece⟩

/-- A symbol of code is read.  Where the scanner counts a brace, so does the reading. -/
theorem goesOn_symbol (h : ∀ d, r.behind ≠ .resumed d)
    (ht : Finds (symbol (r.opened.map Opened.mode) c cs) t) :
    r.GoesOn l t (symbol (r.opened.map Opened.mode) c cs) := by
  obtain ⟨hkind, htext⟩ := ht
  rw [(symbol_near _ c cs cs).1] at htext
  unfold symbol at hkind ⊢
  split at hkind
  · rename_i hsign
    rw [if_pos hsign]
    exact ⟨_, read_code h (by simp [hkind]) (by simp [hkind]) (by simp [hkind]), .behind_code⟩
  rename_i hsign
  rw [if_neg hsign]
  cases hopened : r.opened with
  | nil =>
    rw [hopened] at hkind
    have hread := read_punctuation (l := l) h hkind
    rw [punctuate, hopened] at hread
    exact ⟨_, hread, .behind_code⟩
  | cons o outer =>
    obtain ⟨d, n⟩ := o
    rw [hopened] at hkind
    simp only [List.map_cons, Opened.mode] at hkind ⊢
    by_cases hopen : c = '\x7b'
    · subst hopen
      have hread := read_punctuation (l := l) h hkind
      rw [punctuate, hopened, htext] at hread
      exact ⟨_, hread, .behind_code⟩
    by_cases hclose : c = '\x7d'
    · subst hclose
      cases n with
      | zero =>
        have hread := read_close (l := l) h hkind htext
        rw [close, hopened] at hread
        exact ⟨_, hread, .resumed rfl⟩
      | succ n =>
        have hread := read_punctuation (l := l) h hkind
        rw [punctuate, hopened, htext] at hread
        exact ⟨_, hread, .behind_code⟩
    · simp only [beq_eq_false_iff_ne.mpr hopen, beq_eq_false_iff_ne.mpr hclose,
        Bool.false_eq_true, if_false] at hkind ⊢
      have hread := read_punctuation (l := l) h hkind
      have hne (x : Char) (hx : c ≠ x) : t.text ≠ String.ofList [x] := by
        rw [htext]
        simpa using hx
      rw [punctuate, hopened] at hread
      simp only [if_neg (hne '\x7b' hopen), if_neg (hne '\x7d' hclose)] at hread
      exact ⟨_, hread, .behind_code⟩

/-- A token found in a literal goes on with it. -/
theorem continues_of_resume (hd : d.Sound) {source : String} {front : List Char}
    {outer : List Mode} (hsource : source.toList = front ++ cs)
    (hstart : t.start = (String.ofList front).utf8ByteSize)
    (ht : Finds (resume d outer cs) t) : t.Continues source d := by
  obtain ⟨hkind, htext⟩ := ht
  have hpiece : t.kind = .stringLiteral → t.text.toList = (literalText d cs).taken →
      t.Continues source d := by
    intro hkind htext
    refine .inr ⟨hkind, (literalText d cs).rest, ⟨front, ?_, hstart.symm⟩, ?_⟩
    · rw [hsource, htext, literalText_append]
    · rw [htext]
      exact runs_literalText hd cs
  rcases resume_cases d outer cs with ⟨text, code, hopener, -, heq⟩ | ⟨text, code, -, -, heq⟩ |
      ⟨-, heq⟩
  · rw [heq] at hkind htext
    rw [String.ofList_toList] at htext
    exact .inl ⟨hkind, htext ▸ hopener⟩
  · rw [heq] at hkind htext
    exact hpiece hkind (by rw [htext, String.toList_ofList]; rfl)
  · rw [heq] at hkind htext
    exact hpiece hkind (by rw [htext, String.toList_ofList]; rfl)

/-- Each step of the scanner finds a token that can be read. -/
theorem Fits.step (hsound : ∀ d ∈ l.strings.delimiters, d.Sound) {modes : List Mode}
    (hnested : Scan.Nested l modes) (h : r.Fits ⟨modes, c :: cs⟩)
    (ht : Finds (Scan.step l modes c cs) t) : r.GoesOn l t (Scan.step l modes c cs) := by
  cases h with
  | resumed h => exact goesOn_resumed (hsound _ hnested.around.1.1) h ht
  | interrupted h hahead => exact goesOn_interrupted (hsound _ hnested.around.1.1) h hahead ht
  | code h =>
    have hcode : ∀ d outer, r.opened.map Opened.mode ≠ .literal d :: outer := by
      intro d outer heq
      obtain ⟨o, os, -, hmode, -⟩ := List.map_eq_cons_iff.mp heq
      cases hmode
    rw [step_code hcode] at ht ⊢
    rcases codeStep_origin l (r.opened.map Opened.mode) c cs with
        ⟨hmodes, hliteral, hinterpolation, -, hpunctuation⟩ | ⟨d, rest, hfound, heq⟩ |
        ⟨o, rest, -, heq⟩ | ⟨-, heq⟩
    · obtain ⟨hkind, -⟩ := ht
      rw [← hkind] at hliteral hinterpolation hpunctuation
      rw [GoesOn, hmodes]
      exact ⟨_, read_code h hliteral hinterpolation hpunctuation, .behind_code⟩
    · rw [heq] at ht ⊢
      exact goesOn_literal hsound h hfound ht
    · rw [heq] at ht ⊢
      obtain ⟨hkind, -⟩ := ht
      exact ⟨_, read_code h (by simp [hkind]) (by simp [hkind]) (by simp [hkind]), .behind_code⟩
    · rw [heq] at ht ⊢
      exact goesOn_symbol h ht

/-- Reading goes on along a scan, and fits each place of it. -/
theorem Fits.run (hsound : ∀ d ∈ l.strings.delimiters, d.Sound) {modes : List Mode}
    (hnested : Scan.Nested l modes) (h : r.Fits ⟨modes, cs⟩) (start n : Nat) :
    ∃ r', ((scanFrom l modes start cs).take n).foldlM (read l) r = some r' ∧
      Scan.Nested l (placeAfter l n ⟨modes, cs⟩).modes ∧ r'.Fits (placeAfter l n ⟨modes, cs⟩) := by
  induction n generalizing r modes start cs with
  | zero => exact ⟨r, rfl, hnested, h⟩
  | succ n ih =>
    cases cs with
    | nil =>
      rw [scanFrom]
      exact ⟨r, rfl, hnested, h⟩
    | cons c cs =>
      rw [scanFrom_cons, List.take_succ_cons, List.foldlM_cons]
      have hfinds : Finds (Scan.step l modes c cs) ⟨(Scan.step l modes c cs).kind,
          String.ofList (Scan.step l modes c cs).taken, start,
          start + (String.ofList (Scan.step l modes c cs).taken).utf8ByteSize⟩ := ⟨rfl, rfl⟩
      obtain ⟨r', hread, hfits⟩ := h.step hsound hnested hfinds
      rw [hread]
      exact ih (hnested.step c cs) hfits _

theorem Fits.modes_eq {p : Scan.Place} (h : r.Fits p) :
    r.opened.map Opened.mode = p.modes.filter (!·.isLiteral) ∧
      ∀ m ∈ p.modes.tail, m.isLiteral = false := by
  have hcodes : ∀ m ∈ r.opened.map Opened.mode, m.isLiteral = false := by
    intro m hm
    obtain ⟨o, -, rfl⟩ := List.mem_map.mp hm
    rfl
  have hfilter : (r.opened.map Opened.mode).filter (!·.isLiteral) = r.opened.map Opened.mode :=
    List.filter_eq_self.mpr fun m hm => by simp [hcodes m hm]
  cases h with
  | code => exact ⟨hfilter.symm, fun m hm => hcodes m (List.mem_of_mem_tail hm)⟩
  | resumed => exact ⟨hfilter.symm, hcodes⟩
  | interrupted => exact ⟨hfilter.symm, hcodes⟩

end Reading

/-- Interpolations nest.  For every table that is accepted, the tokens of a source can be read from
left to right, up to every point.  So each closing brace has an opener that is still open, and
closes the innermost one; the braces in the code between them balance and are never closed below
it; and the token after the closing brace goes on with the literal that the opener interrupted.  The
openers that are still open are the modes of code of the scanner, and no other mode than the
innermost is in the text of a literal. -/
theorem scan_nests {l table : Language} (h : l.validate = .ok table) (source : String) (n : Nat) :
    ∃ r, Reading.ofTokens? table ((scan table source).take n) = some r ∧
      r.opened.map Opened.mode =
        (Scan.placeAfter table n (.first source)).modes.filter (!·.isLiteral) ∧
      (∀ m ∈ (Scan.placeAfter table n (.first source)).modes.tail, m.isLiteral = false) ∧
      ∀ d t, r.behind = .resumed d → (scan table source)[n]? = some t → t.Continues source d := by
  have hsound : ∀ d ∈ table.strings.delimiters, d.Sound := by
    rw [delimiters_of_validate h]
    intro d hd
    exact l.sound_of_validate h d (mem_canonicalDelimiters.mp hd)
  have hstart : Reading.Fits {} (.first source) := .behind_code
  obtain ⟨r, hread, hnested, hfits⟩ := hstart.run hsound .plain 0 n
  refine ⟨r, hread, hfits.modes_eq.1, hfits.modes_eq.2, fun d t hbehind hn => ?_⟩
  obtain ⟨front, modes, c, cs, hplace, hsource, hstart, hkind, htext⟩ :=
    Scan.exists_step_of_getElem? hn
  rw [Nat.zero_add] at hstart
  rw [hplace] at hnested hfits
  cases hfits with
  | code hcode => exact absurd hbehind (hcode d)
  | interrupted hpiece => cases hpiece.symm.trans hbehind
  | @resumed d' _ hresumed =>
    obtain rfl : d' = d := Reading.Behind.resumed.inj (hresumed.symm.trans hbehind)
    exact Reading.continues_of_resume (hsound _ hnested.around.1.1) hsource hstart ⟨hkind, htext⟩

/-- A table with one delimiter, whose literals hold code. -/
def templated : Language where
  id := "toy"
  comments := {}
  strings := { delimiters := [.quoted "'" none false (some "$\x7b")] }

theorem templated_canonical : templated.canonical = templated :=
  Language.canonical_eq (by decide +kernel) (wordSet_eq []).symm rfl (by decide +kernel) (by decide)
    rfl

/-- Code of a literal, in which a block and another literal with code stand. -/
def nestedTemplates : String := "'a$\x7b\x7bb\x7d'c$\x7bd\x7d'\x7de'"

/-- After the closing brace of the inner code the inner literal goes on, in the outer code. -/
theorem scan_nests_templates :
    templated.validate = .ok templated ∧
      ∃ d t, Reading.ofTokens? templated ((scan templated nestedTemplates).take 9) =
          some ⟨[⟨d, 0⟩], .resumed d⟩ ∧
        (Scan.placeAfter templated 9 (.first nestedTemplates)).modes = [.literal d, .code d 0] ∧
        (scan templated nestedTemplates)[9]? = some t ∧ t.text = "'" ∧
        t.Continues nestedTemplates d := by
  have h : templated.validate = .ok templated :=
    Language.validate_eq_ok_iff.mpr ⟨by decide +kernel, templated_canonical.symm⟩
  have hread : Reading.ofTokens? templated ((scan templated nestedTemplates).take 9) =
      some ⟨[⟨.quoted "'" none false (some "$\x7b"), 0⟩],
        .resumed (.quoted "'" none false (some "$\x7b"))⟩ := by
    decide +kernel
  have hnext : (scan templated nestedTemplates)[9]? = some ⟨.stringLiteral, "'", 13, 14⟩ := by
    decide +kernel
  obtain ⟨r, hr, -, -, hcontinues⟩ := scan_nests h nestedTemplates 9
  obtain rfl := Option.some.inj (hr.symm.trans hread)
  exact ⟨h, .quoted "'" none false (some "$\x7b"), ⟨.stringLiteral, "'", 13, 14⟩, hread,
    by decide +kernel, hnext, rfl, hcontinues _ _ rfl hnext⟩

end Cyclomatic
