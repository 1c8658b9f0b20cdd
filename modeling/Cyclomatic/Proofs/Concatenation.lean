import Cyclomatic.Proofs.LineEndings
import Cyclomatic.Proofs.Tiling

/-!
# Scans of joined texts

A text that ends with a line feed in plain code can be scanned on its own.  Whatever follows it, its
tokens stay the same, and the tokens of what follows are found as in a source of its own, at moved
offsets (`scan_append`).

A step looks ahead for markers, for the digit after a point and for the character that ends a
piece.  Where the rest that it leaves ends with a line feed, no marker reaches past that line feed,
and every piece ends before it or at it.  Hence the step finds the same if more text follows
(`Scan.step_extend`).  Only the last token leaves no rest, and a line feed is a token of its own
whatever follows it (`Scan.step_of_newline`).
-/

namespace Cyclomatic

/-! ## Tables -/

/-- The markers of a literal stand on one line. -/
structure Delimiter.LineBound (d : Delimiter) : Prop where
  opening : '\n' ∉ d.opening.toList
  closing : '\n' ∉ d.closing.toList
  interpolation : ∀ text ∈ d.interpolation, '\n' ∉ text.toList

/-- All markers and operators that the scanner looks for stand on one line. -/
structure Language.LineBound (l : Language) : Prop where
  line : ∀ m ∈ l.comments.line, '\n' ∉ m.toList
  block : ∀ b ∈ l.comments.block, '\n' ∉ b.opening.toList ∧ '\n' ∉ b.closing.toList
  delimiters : ∀ d ∈ l.strings.delimiters, d.LineBound
  operators : ∀ o ∈ l.operators, '\n' ∉ o.toList

theorem Delimiter.Feedless.lineBound {d : Delimiter} (h : d.Feedless) : d.LineBound where
  opening := not_mem_of_feedless h.opening
  closing := not_mem_of_feedless h.closing
  interpolation text ht := not_mem_of_feedless (h.interpolation text ht)

theorem Language.Feedless.lineBound {l : Language} (h : l.Feedless) : l.LineBound where
  line m hm := not_mem_of_feedless (h.line m hm)
  block b hb := ⟨not_mem_of_feedless (h.block b hb).1, not_mem_of_feedless (h.block b hb).2⟩
  delimiters d hd := (h.delimiters d hd).lineBound
  operators o ho := not_mem_of_feedless (h.operators o ho)

/-- The token with its offsets moved. -/
def Token.shift (n : Nat) (t : Token) : Token :=
  { t with start := n + t.start, stop := n + t.stop }

namespace Scan

/-! ## Texts that end with a line feed -/

/-- The text ends with a line feed. -/
def Ended (cs : List Char) : Prop := cs.getLast? = some '\n'

namespace Ended

variable {cs t r : List Char}

theorem ne_nil (h : Ended cs) : cs ≠ [] := by
  rintro rfl
  cases h

theorem mem (h : Ended cs) : '\n' ∈ cs := List.mem_of_getLast? h

theorem append (t : List Char) (h : Ended r) : Ended (t ++ r) := by
  rw [Ended, List.getLast?_append, h]
  rfl

end Ended

/-! ## Cuts of longer texts -/

/-- The cut with more text behind its rest. -/
def Cut.extend (zs : List Char) (cut : Cut) : Cut := { cut with rest := cut.rest ++ zs }

/-- The stop with more text behind it. -/
def Stop.extend (zs : List Char) : Stop → Stop
  | .opener text code => .opener text (code ++ zs)
  | stop => stop

/-- The cut of a literal with more text behind its rest. -/
def LiteralCut.extend (zs : List Char) (cut : LiteralCut) : LiteralCut :=
  ⟨cut.toCut.extend zs, cut.stop.extend zs⟩

/-- The step with more text behind its rest. -/
def Found.extend (zs : List Char) (found : Found) : Found := found.leaving (found.rest ++ zs)

variable {cs : List Char} {c : Char}

theorem after?_extend_of_some {m : String} {r : List Char} (h : after? m cs = some r)
    (zs : List Char) : after? m (cs ++ zs) = some (r ++ zs) := by
  obtain ⟨rfl, hpos⟩ := after?_eq_some h
  rw [List.append_assoc, after?_append hpos]

/-- A marker that stands on one line is found in a text that ends with a line feed, or it is not
found whatever follows. -/
theorem after?_extend {m : String} (hm : '\n' ∉ m.toList) (h : Ended cs) (zs : List Char) :
    after? m (cs ++ zs) = (after? m cs).map (· ++ zs) := by
  cases hcs : after? m cs with
  | some r => exact after?_extend_of_some hcs zs
  | none =>
    cases hlong : after? m (cs ++ zs) with
    | none => rfl
    | some r =>
      obtain ⟨happ, hpos⟩ := after?_eq_some hlong
      rcases List.append_eq_append_iff.mp happ with ⟨t, hmarker, -⟩ | ⟨t, hfront, -⟩
      · -- The marker would reach past the end of the text, over its line feed.
        rw [hmarker] at hm
        exact absurd (List.mem_append_left t h.mem) hm
      · rw [hfront, after?_append hpos] at hcs
        cases hcs

theorem takeAll_extend {p : Char → Bool} (h : (takeAll p cs).rest ≠ []) (zs : List Char) :
    takeAll p (cs ++ zs) = (takeAll p cs).extend zs := by
  rcases takeAll_cases p cs with hcut | ⟨t, c, r, hall, hc, hcut⟩
  · rw [hcut] at h
    exact absurd rfl h
  · have happ := takeAll_append p cs
    rw [hcut] at happ ⊢
    rw [← happ, List.append_assoc, List.cons_append, takeAll_stop hall hc]
    rfl

theorem quotedText_extend {quote : Char} (h : (quotedText quote cs).rest ≠ []) (zs : List Char) :
    quotedText quote (cs ++ zs) = (quotedText quote cs).extend zs := by
  rcases takeAll_cases (fun c => c != quote && c != '\n') cs with hcut | ⟨t, c, r, hall, hc, hcut⟩
  · have hquoted : quotedText quote cs = ⟨cs, []⟩ := by simp [quotedText, hcut]
    rw [hquoted] at h
    exact absurd rfl h
  · have hrest : (takeAll (fun c => c != quote && c != '\n') cs).rest ≠ [] := by simp [hcut]
    have hlong := takeAll_extend hrest zs
    rw [hcut] at hlong
    cases hquote : c == quote with
    | true => simp [quotedText, hcut, hlong, Cut.extend, hquote]
    | false => simp [quotedText, hcut, hlong, Cut.extend, hquote]

/-- The digit that a point looks for stands before the line feed. -/
theorem numberText_extend (h : Ended (numberText cs).rest) (zs : List Char) :
    numberText (cs ++ zs) = (numberText cs).extend zs := by
  fun_induction numberText cs with
  | case1 => exact absurd rfl h.ne_nil
  | case2 c cs hc ih =>
    rw [List.cons_append, numberText, if_pos hc, ih h]
    rfl
  | case3 c cs hc hpoint ih =>
    have hne : cs ≠ [] := by
      rintro rfl
      simp at hpoint
    rw [List.cons_append, numberText, if_neg hc, List.head?_append_of_ne_nil cs hne, if_pos hpoint,
      ih h]
    rfl
  | case4 c cs hc hpoint =>
    have hdigit : ¬(c == '.' && (cs ++ zs).head?.any Text.isAsciiDigit) = true := by
      cases cs with
      | nil =>
        -- The one character left is the line feed, so it is no point.
        obtain rfl : c = '\n' := by simpa [Ended] using h
        simp
      | cons x cs => exact hpoint
    rw [List.cons_append, numberText, if_neg hc, if_neg hdigit]
    rfl

/-- Where no comment closes before a line feed, none closes before more text either, and one opens
as before. -/
theorem commentMarks_extend {block : BlockComment}
    (hb : '\n' ∉ block.opening.toList ∧ '\n' ∉ block.closing.toList) {nested : Bool}
    {found : Option (List Char)} (h : Ended cs) (hclose : after? block.closing cs = none)
    (hopen : (if nested then after? block.opening cs else none) = found) (zs : List Char) :
    after? block.closing (cs ++ zs) = none ∧
      (if nested then after? block.opening (cs ++ zs) else none) = found.map (· ++ zs) := by
  refine ⟨by rw [after?_extend hb.2 h, hclose]; rfl, ?_⟩
  subst hopen
  cases nested with
  | true => exact after?_extend hb.1 h zs
  | false => rfl

theorem commentText_extend {block : BlockComment}
    (hb : '\n' ∉ block.opening.toList ∧ '\n' ∉ block.closing.toList) {nested : Bool} {outer : Nat}
    (h : Ended (commentText block nested outer cs).rest) (zs : List Char) :
    commentText block nested outer (cs ++ zs) =
      (commentText block nested outer cs).extend zs := by
  fun_induction commentText block nested outer cs with
  | case1 => exact absurd rfl h.ne_nil
  | case2 c cs r hclose =>
    have hclose' := after?_extend_of_some hclose zs
    rw [List.cons_append] at hclose' ⊢
    rw [commentText_closing hclose']
    rfl
  | case3 c cs r hclose outer ih =>
    have hclose' := after?_extend_of_some hclose zs
    rw [List.cons_append] at hclose' ⊢
    rw [commentText_closing hclose']
    simp only [ih h]
    rfl
  | case4 outer c cs hclose r hopen ih =>
    rw [dite_eq_ite] at hopen
    have hended : Ended (c :: cs) := by
      rw [← commentText_append block nested outer (c :: cs), commentText_opening hclose hopen]
      exact Ended.append _ h
    obtain ⟨hclose', hopen'⟩ := commentMarks_extend hb hended hclose hopen zs
    rw [List.cons_append] at hclose' hopen' ⊢
    rw [commentText_opening hclose' hopen', ih h]
    rfl
  | case5 outer c cs hclose hopen ih =>
    rw [dite_eq_ite] at hopen
    have hended : Ended (c :: cs) := by
      rw [← commentText_append block nested outer (c :: cs), commentText_plain hclose hopen]
      exact Ended.append _ h
    obtain ⟨hclose', hopen'⟩ := commentMarks_extend hb hended hclose hopen zs
    rw [List.cons_append] at hclose' hopen' ⊢
    rw [commentText_plain hclose' hopen', ih h]
    rfl

theorem opener?_extend {d : Delimiter} (hd : d.LineBound) (h : Ended cs) (zs : List Char) :
    opener? d (cs ++ zs) = (opener? d cs).map fun found => (found.1, found.2 ++ zs) := by
  unfold opener?
  cases ht : d.interpolation with
  | none => rfl
  | some text => exact map_after?_map_rest text (after?_extend (hd.interpolation text ht) h zs)

/-- Where no literal closes before a line feed, none closes before more text either, and code opens
in it as before. -/
theorem literalMarks_extend {d : Delimiter} (hd : d.LineBound)
    {found : Option (String × List Char)} (h : Ended cs) (hclose : after? d.closing cs = none)
    (hopen : opener? d cs = found) (zs : List Char) :
    after? d.closing (cs ++ zs) = none ∧
      opener? d (cs ++ zs) = found.map fun found => (found.1, found.2 ++ zs) :=
  ⟨by rw [after?_extend hd.closing h, hclose]; rfl, hopen ▸ opener?_extend hd h zs⟩

theorem literalText_extend {d : Delimiter} (hd : d.LineBound) (h : Ended (literalText d cs).rest)
    (zs : List Char) : literalText d (cs ++ zs) = (literalText d cs).extend zs := by
  fun_induction literalText d cs with
  | case1 => exact absurd rfl h.ne_nil
  | case2 c hc => exact absurd rfl h.ne_nil
  | case3 c hc e cs ih =>
    rw [List.cons_append, List.cons_append, literalText_escape hc, ih h]
    rfl
  | case4 c cs hc r hclose =>
    have hclose' := after?_extend_of_some hclose zs
    rw [List.cons_append] at hclose' ⊢
    rw [literalText_plain hc, hclose']
    rfl
  | case5 c cs hc hclose text code hopen =>
    obtain ⟨hclose', hopen'⟩ := literalMarks_extend hd h hclose hopen zs
    rw [List.cons_append] at hclose' hopen' ⊢
    rw [literalText_plain hc, hclose', hopen']
    rfl
  | case6 c cs hc hclose hopen hbreak =>
    obtain ⟨hclose', hopen'⟩ := literalMarks_extend hd h hclose hopen zs
    rw [List.cons_append] at hclose' hopen' ⊢
    rw [literalText_plain hc, hclose', hopen']
    exact if_pos hbreak
  | case7 c cs hc hclose hopen hbreak ih =>
    have hended : Ended (c :: cs) := by
      rw [← literalText_append d cs]
      exact Ended.append (c :: (literalText d cs).taken) h
    obtain ⟨hclose', hopen'⟩ := literalMarks_extend hd hended hclose hopen zs
    rw [List.cons_append] at hclose' hopen' ⊢
    rw [literalText_plain hc, hclose', hopen']
    simp only [Option.map_none, if_neg hbreak, ih h]
    rfl

/-! ## Steps before more text -/

variable {l : Language} {modes outer : List Mode}

theorem openLiteral_extend {d : Delimiter} (hd : d.LineBound)
    (h : Ended (openLiteral d outer cs).rest) (zs : List Char) :
    openLiteral d outer (cs ++ zs) = (openLiteral d outer cs).extend zs := by
  obtain ⟨modes, heq, -⟩ := openLiteral_cases d outer cs
  rw [heq] at h
  unfold openLiteral
  rw [literalText_extend hd h]
  cases hstop : (literalText d cs).stop with
  | _ =>
    simp only [LiteralCut.prepend, LiteralCut.extend, hstop, Stop.extend]
    rfl

theorem resume_extend {d : Delimiter} (hd : d.LineBound) (h : Ended (resume d outer cs).rest)
    (zs : List Char) : resume d outer (cs ++ zs) = (resume d outer cs).extend zs := by
  have hrest : Ended (literalText d cs).rest := by
    unfold resume at h
    cases hstop : (literalText d cs).stop with
    | opener text code =>
      cases hempty : (literalText d cs).taken.isEmpty with
      | true =>
        simp only [hstop, hempty, if_true] at h
        rw [(literalText_opener hstop).1]
        exact h.append text.toList
      | false =>
        simp only [hstop, hempty, Bool.false_eq_true, if_false] at h
        exact h
    | _ =>
      simp only [hstop] at h
      exact h
  unfold resume
  rw [literalText_extend hd hrest]
  cases hstop : (literalText d cs).stop with
  | opener text code =>
    simp only [LiteralCut.extend, Cut.extend, hstop, Stop.extend]
    split
    · rfl
    · rfl
  | _ =>
    simp only [LiteralCut.extend, hstop, Stop.extend]
    rfl

theorem symbol_extend (modes : List Mode) (c : Char) (cs zs : List Char) :
    symbol modes c (cs ++ zs) = (symbol modes c cs).extend zs := by
  obtain ⟨htaken, hsymbol⟩ := symbol_near modes c cs (cs ++ zs)
  have happ := symbol_append modes c cs
  rw [htaken, List.singleton_append] at happ
  rw [hsymbol, Found.extend, (List.cons.inj happ).2]

theorem lineAt_extend (hl : l.LineBound) (h : Ended (c :: cs)) (zs : List Char) :
    (l.comments.line.any fun m => (after? m (c :: (cs ++ zs))).isSome) =
      l.comments.line.any fun m => (after? m (c :: cs)).isSome := by
  rw [Bool.eq_iff_iff, List.any_eq_true, List.any_eq_true]
  refine exists_congr fun m => and_congr_right fun hm => ?_
  rw [← List.cons_append, after?_extend (hl.line m hm) h, Option.isSome_map]

/-- A significant token that leaves a rest with a line feed at its end. -/
theorem codeToken_extend (hl : l.LineBound) (hended : Ended (c :: cs))
    (h : Ended (codeToken l modes c cs).rest) (zs : List Char) :
    codeToken l modes c (cs ++ zs) = (codeToken l modes c cs).extend zs := by
  have hliteral' := literalAt?_map_rest fun d hd =>
    after?_extend (hl.delimiters d hd).opening hended zs
  have hoperator' := operatorAt?_map_rest fun o ho => after?_extend (hl.operators o ho) hended zs
  rw [List.cons_append] at hliteral' hoperator'
  unfold codeToken at h ⊢
  rw [hliteral', hoperator']
  split at h
  · rename_i hquote
    rw [if_pos hquote, if_pos hquote, quotedText_extend h.ne_nil]
    rfl
  rename_i hquote
  rw [if_neg hquote, if_neg hquote]
  cases hliteral : literalAt? l.strings.delimiters (c :: cs) with
  | some found =>
    obtain ⟨d, r⟩ := found
    rw [hliteral] at h
    exact openLiteral_extend (hl.delimiters d (literalAt?_eq_some hliteral).1) h zs
  | none =>
    simp only [hliteral] at h
    simp only [Option.map_none]
    split at h
    · rename_i hword
      rw [if_pos hword, if_pos hword, takeAll_extend h.ne_nil]
      rfl
    rename_i hword
    rw [if_neg hword, if_neg hword]
    split at h
    · rename_i hdigit
      rw [if_pos hdigit, if_pos hdigit, numberText_extend h]
      rfl
    rename_i hdigit
    rw [if_neg hdigit, if_neg hdigit]
    cases hoperator : operatorAt? l.operators (c :: cs) with
    | some found => rfl
    | none => exact symbol_extend modes c cs zs

/-- A token of code that leaves a rest with a line feed at its end. -/
theorem codeStep_extend (hl : l.LineBound) (h : Ended (codeStep l modes c cs).rest)
    (zs : List Char) : codeStep l modes c (cs ++ zs) = (codeStep l modes c cs).extend zs := by
  have hended : Ended (c :: cs) := by
    rw [← codeStep_append l modes c cs]
    exact h.append _
  have hblock' := blockAt?_map_rest fun b hb => after?_extend (hl.block b hb).1 hended zs
  rw [List.cons_append] at hblock'
  unfold codeStep at h ⊢
  rw [lineAt_extend hl hended, hblock']
  split at h
  · rename_i hfeed
    rw [if_pos hfeed, if_pos hfeed]
    rfl
  rename_i hfeed
  rw [if_neg hfeed, if_neg hfeed]
  split at h
  · rename_i hblank
    rw [if_pos hblank, if_pos hblank, takeAll_extend h.ne_nil]
    rfl
  rename_i hblank
  rw [if_neg hblank, if_neg hblank]
  split at h
  · rename_i hline
    rw [if_pos hline, if_pos hline, takeAll_extend h.ne_nil]
    rfl
  rename_i hline
  rw [if_neg hline, if_neg hline]
  cases hblock : blockAt? l.comments (c :: cs) with
  | some found =>
    obtain ⟨b, r⟩ := found
    rw [hblock] at h
    have hb := hl.block b (blockAt?_eq_some hblock).1
    simp only [Option.map_some, commentText_extend hb h]
    rfl
  | none =>
    rw [hblock] at h
    exact codeToken_extend hl hended h zs

/-- A step that leaves a rest with a line feed at its end finds the same before more text. -/
theorem step_extend (hl : l.LineBound) (hmodes : Nested l modes)
    (h : Ended (step l modes c cs).rest) (zs : List Char) :
    step l modes c (cs ++ zs) = (step l modes c cs).extend zs := by
  by_cases hlit : ∃ d outer, modes = .literal d :: outer
  · obtain ⟨d, outer, rfl⟩ := hlit
    exact resume_extend (hl.delimiters d hmodes.around.1.1) h zs
  · have hcode : ∀ d outer, modes ≠ .literal d :: outer := fun d outer heq =>
      hlit ⟨d, outer, heq⟩
    rw [step_code hcode] at h ⊢
    rw [step_code hcode]
    exact codeStep_extend hl h zs

/-- In code, only a line feed gives a token of its kind. -/
theorem codeStep_of_newline (h : (codeStep l modes c cs).kind = .newline) : c = '\n' := by
  have htrivia : (codeStep l modes c cs).kind.isTrivia = true := by
    rw [h]
    rfl
  rcases codeStep_of_trivia htrivia with ⟨hfeed, -⟩ | ⟨-, -, heq⟩ | ⟨-, -, heq⟩ | ⟨b, r, -, heq⟩
  · exact hfeed
  all_goals
    rw [heq] at h
    cases h

/-- A line feed is a token of its own, whatever follows it. -/
theorem step_of_newline (h : (step l modes c cs).kind = .newline) (ys : List Char) :
    step l modes c ys = ⟨.newline, ['\n'], ys, modes⟩ := by
  by_cases hlit : ∃ d outer, modes = .literal d :: outer
  · obtain ⟨d, outer, rfl⟩ := hlit
    change (resume d outer (c :: cs)).kind = _ at h
    rcases resume_cases d outer (c :: cs) with ⟨text, code, -, -, heq⟩ | ⟨_, _, -, -, heq⟩ |
        ⟨-, heq⟩
    all_goals
      rw [heq] at h
      cases h
  · have hcode : ∀ d outer, modes ≠ .literal d :: outer := fun d outer heq =>
      hlit ⟨d, outer, heq⟩
    rw [step_code hcode] at h ⊢
    obtain rfl := codeStep_of_newline h
    rfl

/-! ## Runs before more text -/

/-- The modes behind a text. -/
def modesAfter (l : Language) (modes : List Mode) (cs : List Char) : List Mode :=
  match cs with
  | [] => modes
  | c :: cs => modesAfter l (step l modes c cs).modes (step l modes c cs).rest
termination_by weight cs modes
decreasing_by exact step_weight l modes c cs

/-- The last token is a line feed. -/
def EndsLine (ts : List Token) : Prop := ts.getLast?.map (·.kind) = some .newline

instance (ts : List Token) : Decidable (EndsLine ts) :=
  inferInstanceAs (Decidable (_ = _))

theorem EndsLine.tail {t : Token} {ts : List Token} (h : EndsLine (t :: ts)) (hts : ts ≠ []) :
    EndsLine ts := by
  rw [EndsLine, List.getLast?_cons, List.getLast?_eq_some_getLast hts] at h
  rw [EndsLine, List.getLast?_eq_some_getLast hts]
  exact h

theorem scanFrom_ne_nil {start : Nat} (h : cs ≠ []) : scanFrom l modes start cs ≠ [] := by
  cases cs with
  | nil => exact absurd rfl h
  | cons c cs => simp [scanFrom_cons]

/-- The last step of a text whose last token is a line feed, and the steps before it. -/
theorem endsLine_cases {start : Nat} (h : EndsLine (scanFrom l modes start (c :: cs))) :
    c = '\n' ∧ cs = [] ∧ (∀ ys, step l modes c ys = ⟨.newline, ['\n'], ys, modes⟩) ∨
      (step l modes c cs).rest ≠ [] ∧
        EndsLine (scanFrom l (step l modes c cs).modes
          (start + (String.ofList (step l modes c cs).taken).utf8ByteSize)
          (step l modes c cs).rest) := by
  rw [scanFrom_cons] at h
  by_cases hrest : (step l modes c cs).rest = []
  · rw [hrest, scanFrom] at h
    have hstep := step_of_newline (Option.some.inj h)
    have happ := step_append l modes c cs
    rw [hstep cs] at hrest happ
    obtain ⟨rfl, -⟩ := List.cons.inj happ
    exact .inl ⟨rfl, hrest, hstep⟩
  · exact .inr ⟨hrest, h.tail (scanFrom_ne_nil hrest)⟩

theorem ended_of_endsLine {start : Nat} (h : EndsLine (scanFrom l modes start cs)) : Ended cs := by
  induction modes, cs using step_induction (l := l) generalizing start with
  | nil modes =>
    rw [scanFrom] at h
    cases h
  | cons modes c cs ih =>
    rcases endsLine_cases h with ⟨rfl, rfl, -⟩ | ⟨-, hlater⟩
    · rfl
    · rw [← step_append l modes c cs]
      exact (ih hlater).append _

/-- The scan of a text whose last token is a line feed goes on behind it in the modes reached. -/
theorem scanFrom_append (hl : l.LineBound) (hmodes : Nested l modes) {start : Nat}
    (h : EndsLine (scanFrom l modes start cs)) (zs : List Char) :
    scanFrom l modes start (cs ++ zs) =
      scanFrom l modes start cs ++
        scanFrom l (modesAfter l modes cs) (start + (String.ofList cs).utf8ByteSize) zs := by
  induction modes, cs using step_induction (l := l) generalizing start with
  | nil modes =>
    rw [scanFrom] at h
    cases h
  | cons modes c cs ih =>
    rcases endsLine_cases h with ⟨rfl, rfl, hstep⟩ | ⟨-, hlater⟩
    · rw [List.cons_append, List.nil_append, scanFrom_cons, scanFrom_cons, modesAfter, hstep, hstep]
      simp only [scanFrom, modesAfter, List.cons_append, List.nil_append]
    · have hended := ended_of_endsLine hlater
      have hstep := step_extend hl hmodes hended zs
      have hbytes := congrArg String.utf8ByteSize (ofList_step l modes c cs)
      rw [String.utf8ByteSize_append] at hbytes
      rw [List.cons_append, scanFrom_cons, scanFrom_cons, hstep, List.cons_append, modesAfter,
        ← hbytes, ← Nat.add_assoc]
      exact congrArg _ (ih (hmodes.step c cs) hlater)

/-- A scan that starts later finds the same tokens at moved offsets. -/
theorem scanFrom_shift (l : Language) (modes : List Mode) (n start : Nat) (cs : List Char) :
    scanFrom l modes (n + start) cs = (scanFrom l modes start cs).map (Token.shift n) := by
  induction modes, cs using step_induction (l := l) generalizing start with
  | nil modes =>
    rw [scanFrom, scanFrom]
    rfl
  | cons modes c cs ih =>
    rw [scanFrom_cons, scanFrom_cons, List.map_cons, Nat.add_assoc, ih]
    rfl

end Scan

/-! ## Sources -/

/-- Scanning composes at line ends.  In every built-in table, and in every other one whose markers
and operators stand on one line, the tokens of a source whose front ends with a line feed in plain
code are those of the front, and then those of the rest with their offsets moved by the bytes of the
front. -/
theorem scan_append :
    (∀ name l, Registry.builtin.lookup? name = some l → l.LineBound) ∧
      ∀ l : Language, l.LineBound → ∀ front back : String,
        Scan.EndsLine (scan l front) → Scan.modesAfter l [] front.toList = [] →
          scan l (front ++ back) =
            scan l front ++ (scan l back).map (Token.shift front.utf8ByteSize) := by
  refine ⟨fun name l hname => (feedless_builtin hname).lineBound, ?_⟩
  intro l hl front back hline hmodes
  have happ := Scan.scanFrom_append hl .plain hline back.toList
  rw [hmodes, String.ofList_toList, Nat.add_comm, Scan.scanFrom_shift] at happ
  rw [scan, String.toList_append]
  exact happ

/-- A comment over two lines, a template over two lines with code in it, and a number before a
point. -/
def spread : String := "a /* one
  two */ + \x60b
  $\x7b c \x7d\x60 + 1.
"

/-- Lines with comments, a template and a number are scanned apart from what follows them. -/
theorem scan_append_spread :
    Scan.EndsLine (scan Language.JavaScript.table.canonical spread) ∧
      Scan.modesAfter Language.JavaScript.table.canonical [] spread.toList = [] ∧
      ∀ back : String, scan Language.JavaScript.table.canonical (spread ++ back) =
        scan Language.JavaScript.table.canonical spread ++
          (scan Language.JavaScript.table.canonical back).map
            (Token.shift spread.utf8ByteSize) := by
  have hl : Language.JavaScript.table.canonical.LineBound := scan_append.1 "javascript" _ rfl
  have hline : Scan.EndsLine (scan Language.JavaScript.table.canonical spread) := by
    rw [Language.JavaScript.canonical_eq]
    decide +kernel
  have hmodes : Scan.modesAfter Language.JavaScript.table.canonical [] spread.toList = [] := by
    rw [Language.JavaScript.canonical_eq]
    decide +kernel
  exact ⟨hline, hmodes, fun back => scan_append.2 _ hl spread back hline hmodes⟩

end Cyclomatic
