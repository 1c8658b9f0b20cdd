import Cyclomatic.Proofs.Scanning
import Mathlib.Data.List.TakeWhile

/-!
# Lines of tokens

The line of a token is one more than the number of line feeds before it
(`lineAt_lineStarts`).  So a scan can count lines in place of bytes (`Scan.linedLexemes`), and the
lines of a code are those of such a scan (`Code.lineOf_eq_lined`).  Blanks in code are passed over
and only count their line feeds (`Scan.linedLexemes_blanks`).
-/

namespace Cyclomatic

/-! ## Lines of offsets -/

theorem utf8ByteSize_ofList_cons (c : Char) (cs : List Char) :
    (String.ofList (c :: cs)).utf8ByteSize = c.utf8Size + (String.ofList cs).utf8ByteSize := by
  rw [String.ofList_cons, String.utf8ByteSize_append, String.utf8ByteSize_singleton]

theorem lt_of_mem_lineStartsFrom {offset n : Nat} {cs : List Char}
    (h : n ∈ lineStartsFrom offset cs) : offset < n := by
  induction cs generalizing offset with
  | nil => cases h
  | cons c cs ih =>
    have hsize := c.utf8Size_pos
    simp only [lineStartsFrom] at h
    split at h
    · rcases List.mem_cons.mp h with rfl | h
      · omega
      · exact Nat.lt_trans (by omega) (ih h)
    · exact Nat.lt_trans (by omega) (ih h)

/-- The line starts up to the end of a front follow the line feeds of the front. -/
theorem countP_lineStartsFrom (offset : Nat) (front back : List Char) :
    (lineStartsFrom offset (front ++ back)).countP
        (· ≤ offset + (String.ofList front).utf8ByteSize) = front.count '\n' := by
  induction front generalizing offset with
  | nil =>
    rw [List.count_nil, List.countP_eq_zero]
    intro n hn
    simp [lt_of_mem_lineStartsFrom hn]
  | cons c front ih =>
    have hrest := ih (offset + c.utf8Size)
    rw [Nat.add_assoc, ← utf8ByteSize_ofList_cons] at hrest
    rw [List.cons_append, lineStartsFrom]
    split
    · rename_i hfeed
      rw [List.countP_cons_of_pos (by simp), hrest, List.count_cons, if_pos hfeed]
    · rename_i hfeed
      rw [hrest, List.count_cons, if_neg hfeed, Nat.add_zero]

/-- The line of an offset is one more than the number of line feeds before it. -/
theorem lineAt_lineStarts (front back : List Char) :
    lineAt (lineStarts (String.ofList (front ++ back))) (String.ofList front).utf8ByteSize =
      1 + front.count '\n' := by
  have hcount := countP_lineStartsFrom 0 front back
  rw [Nat.zero_add] at hcount
  rw [lineAt, lineStarts, String.toList_ofList, List.countP_cons_of_pos (by simp), hcount,
    Nat.add_comm]

/-! ## Scans that count lines -/

/-- A token with the line where it starts in place of its offsets. -/
def Token.lined (starts : List Nat) (t : Token) : Token :=
  { t with start := lineAt starts t.start, stop := 0 }

namespace Scan

/-- The tokens of a text that starts in a line, each with the line where it starts in place of its
offsets. -/
def linedTokens (l : Language) (modes : List Mode) (line : Nat) (cs : List Char) : List Token :=
  match cs with
  | [] => []
  | c :: cs =>
    let found := step l modes c cs
    ⟨found.kind, String.ofList found.taken, line, 0⟩ ::
      linedTokens l found.modes (line + found.taken.count '\n') found.rest
termination_by weight cs modes
decreasing_by exact step_weight l modes c cs

variable {l : Language} {modes : List Mode}

/-- The tokens behind a front have the lines that the whole text gives them. -/
theorem linedTokens_eq (l : Language) (modes : List Mode) (front cs : List Char) :
    linedTokens l modes (1 + front.count '\n') cs =
      (scanFrom l modes (String.ofList front).utf8ByteSize cs).map
        (Token.lined (lineStarts (String.ofList (front ++ cs)))) := by
  induction modes, cs using step_induction (l := l) generalizing front with
  | nil modes => simp [linedTokens, scanFrom]
  | cons modes c cs ih =>
    have hrest := ih (front ++ (step l modes c cs).taken)
    have hbytes : (String.ofList (front ++ (step l modes c cs).taken)).utf8ByteSize =
        (String.ofList front).utf8ByteSize +
          (String.ofList (step l modes c cs).taken).utf8ByteSize := by
      rw [String.ofList_append, String.utf8ByteSize_append]
    rw [List.append_assoc, step_append, List.count_append, ← Nat.add_assoc, hbytes] at hrest
    rw [linedTokens, scanFrom, List.map_cons, hrest, Token.lined, lineAt_lineStarts]

theorem map_core_linedTokens (line : Nat) (cs : List Char) :
    (linedTokens l modes line cs).map Token.core = tokens l modes cs := by
  induction modes, cs using step_induction (l := l) generalizing line with
  | nil modes => simp [linedTokens, tokens_nil]
  | cons modes c cs ih =>
    rw [linedTokens, List.map_cons, ih, tokens_cons]
    rfl

/-- The significant tokens of a text that starts in a line, each with its line. -/
def linedLexemes (l : Language) (modes : List Mode) (pending : Bool) (line : Nat)
    (cs : List Char) : List Lexeme :=
  lexemesFrom pending (linedTokens l modes line cs)

theorem linedLexemes_nil (pending : Bool) (line : Nat) :
    linedLexemes l modes pending line [] = [] := by
  rw [linedLexemes, linedTokens]
  rfl

theorem lexemes_eq_lined (pending : Bool) (line : Nat) (cs : List Char) :
    lexemes l modes pending cs = (linedLexemes l modes pending line cs).map Lexeme.core := by
  rw [lexemes, ← map_core_linedTokens line, lexemesFrom_core]
  rfl

/-- The significant tokens from a step on. -/
theorem linedLexemes_cons (l : Language) (modes : List Mode) (pending : Bool) (line : Nat)
    (c : Char) (cs : List Char) :
    linedLexemes l modes pending line (c :: cs) =
      if (step l modes c cs).token.breaksLine then
        linedLexemes l (step l modes c cs).modes true
          (line + (step l modes c cs).taken.count '\n') (step l modes c cs).rest
      else if (step l modes c cs).kind.isTrivia then
        linedLexemes l (step l modes c cs).modes pending
          (line + (step l modes c cs).taken.count '\n') (step l modes c cs).rest
      else
        ⟨⟨(step l modes c cs).kind, String.ofList (step l modes c cs).taken, line, 0⟩, pending⟩ ::
          linedLexemes l (step l modes c cs).modes false
            (line + (step l modes c cs).taken.count '\n') (step l modes c cs).rest := by
  rw [linedLexemes, linedTokens, lexemesFrom]
  rfl

/-! ## Blanks -/

section Blanks

variable (hcode : ∀ d outer, modes ≠ .literal d :: outer)

include hcode

/-- Blanks on one line in code are passed over. -/
theorem linedLexemes_space {c : Char} (hc : Text.isBlank c = true) (hfeed : (c == '\n') = false)
    (pending : Bool) (line : Nat) (cs : List Char) :
    linedLexemes l modes pending line (c :: cs) =
      linedLexemes l modes pending line (cs.dropWhile fun x => Text.isBlank x && x != '\n') := by
  have hstep : step l modes c cs = .ofCut .whitespace modes
      ((takeAll (fun x => Text.isBlank x && x != '\n') cs).prepend [c]) := by
    rw [step_code hcode, codeStep, if_neg (by simp [hfeed]), if_pos hc]
  have hcount : (c :: cs.takeWhile fun x => Text.isBlank x && x != '\n').count '\n' = 0 := by
    rw [List.count_eq_zero]
    intro hmem
    rcases List.mem_cons.mp hmem with rfl | hmem
    · exact absurd hfeed (by decide)
    · have hblank := List.mem_takeWhile_imp hmem
      exact absurd hblank (by decide)
  rw [linedLexemes_cons, hstep]
  change linedLexemes l modes pending (line + (c :: cs.takeWhile _).count '\n') _ = _
  rw [hcount, Nat.add_zero]
  rfl

/-- A blank in code does nothing but break the line. -/
theorem linedLexemes_blank {c : Char} (hc : Text.isBlank c = true) (pending : Bool) (line : Nat)
    (cs : List Char) :
    linedLexemes l modes pending line (c :: cs) =
      linedLexemes l modes (pending || c == '\n') (line + [c].count '\n') cs := by
  cases hfeed : c == '\n' with
  | true =>
    have hstep : step l modes c cs = ⟨.newline, [c], cs, modes⟩ := by
      rw [step_code hcode, codeStep, if_pos hfeed]
    rw [linedLexemes_cons, hstep, Bool.or_true]
    rfl
  | false =>
    have hcount : [c].count '\n' = 0 := by simp [List.count_cons, hfeed]
    rw [linedLexemes_space hcode hc hfeed, hcount, Bool.or_false, Nat.add_zero]
    cases cs with
    | nil => rfl
    | cons x xs =>
      rw [List.dropWhile_cons]
      split
      · rename_i hx
        simp only [Bool.and_eq_true, bne, Bool.not_eq_true'] at hx
        rw [linedLexemes_space hcode hx.1 hx.2]
      · rfl

theorem linedLexemes_blanks {t : List Char} (ht : ∀ x ∈ t, Text.isBlank x = true) (pending : Bool)
    (line : Nat) (cs : List Char) :
    linedLexemes l modes pending line (t ++ cs) =
      linedLexemes l modes (pending || t.contains '\n') (line + t.count '\n') cs := by
  induction t generalizing pending line with
  | nil => simp
  | cons c t ih =>
    rw [List.cons_append, linedLexemes_blank hcode (ht c (List.mem_cons_self ..)),
      ih fun x hx => ht x (List.mem_cons_of_mem _ hx), Bool.or_assoc, List.contains_cons,
      BEq.comm (a := c), Nat.add_assoc, ← List.count_append, List.singleton_append]

end Blanks

end Scan

/-! ## Lines of codes -/

namespace Code

variable (l : Language) (source : String)

/-- The significant tokens of a code with their lines. -/
theorem lined_ofSource :
    (ofSource l source).lexemes.toList.map
        (fun x => ⟨x.toToken.lined (lineStarts source), x.afterBreak⟩) =
      Scan.linedLexemes l [] false 1 source.toList := by
  have htokens := Scan.linedTokens_eq l [] [] source.toList
  rw [List.nil_append, String.ofList_toList, List.count_nil, Nat.add_zero] at htokens
  rw [Scan.linedLexemes, htokens, lexemesFrom_map (Token.lined _) (fun _ => ⟨rfl, rfl⟩)]
  rfl

/-- A token stands in the line that the scan has counted, and all others in the last. -/
theorem lineOf_eq_lined (i : Nat) :
    (ofSource l source).lineOf i =
      ((Scan.linedLexemes l [] false 1 source.toList)[i]?.map (·.start)).getD
        (1 + source.toList.count '\n') := by
  have hlast : lineAt (lineStarts source) source.utf8ByteSize = 1 + source.toList.count '\n' := by
    have h := lineAt_lineStarts source.toList []
    rwa [List.append_nil, String.ofList_toList] at h
  rw [← lined_ofSource, List.getElem?_map, lineOf, offset]
  cases h : (ofSource l source).lexemes[i]? with
  | none =>
    simp only [Array.getElem?_toList, h]
    exact hlast
  | some x =>
    simp only [Array.getElem?_toList, h]
    rfl

end Code

end Cyclomatic
