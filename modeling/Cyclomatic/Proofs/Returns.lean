import Cyclomatic.Proofs.Literals

/-!
# Carriage returns before line feeds

`Scan.crlf` puts a carriage return before every line feed of a text.  The scanner knows only line
feeds, so a carriage return is a blank in code, a character of the comment or literal that it
stands in, and the end of a word or a number.  A step on the text with carriage returns finds the
same token with its own carriage returns, and stops at the same place or right behind the carriage
return that belongs to the line feed ahead (`Scan.step_crlf`).

There are three exceptions, the steps that are `Scan.fragile`.  An escape takes the carriage return
in place of the line feed, which then ends a literal of one line.  A quoted identifier that a line
feed cuts off and a piece of a literal that it ends take the carriage return into their text, where
it shows in a name and hides an exposed word.
-/

namespace Cyclomatic

/-! ## Tables -/

/-- A text has no carriage return and no line feed in it. -/
def feedless (s : String) : Bool := s.toList.all fun c => c != '\r' && c != '\n'

theorem ne_of_feedless {s : String} (h : feedless s = true) {c : Char} (hc : c ∈ s.toList) :
    c ≠ '\r' ∧ c ≠ '\n' := by
  simpa using List.all_eq_true.mp h c hc

theorem not_mem_of_feedless {s : String} (h : feedless s = true) : '\n' ∉ s.toList :=
  fun hmem => (ne_of_feedless h hmem).2 rfl

/-- The markers of a literal stand on one line, and its escape is no end of a line. -/
structure Delimiter.Feedless (d : Delimiter) : Prop where
  opening : feedless d.opening = true
  closing : feedless d.closing = true
  interpolation : ∀ text ∈ d.interpolation, feedless text = true
  escape : d.escape ≠ some '\r' ∧ d.escape ≠ some '\n'

/-- All that the scanner looks for stands on one line, and so do the words that the walks
compare. -/
structure Language.Feedless (l : Language) : Prop where
  line : ∀ m ∈ l.comments.line, feedless m = true
  block : ∀ b ∈ l.comments.block, feedless b.opening = true ∧ feedless b.closing = true
  delimiters : ∀ d ∈ l.strings.delimiters, d.Feedless
  operators : ∀ o ∈ l.operators, feedless o = true
  identifiers : l.isIdentifierChar '\r' = false ∧ l.isIdentifierChar '\n' = false
  compared : ∀ w ∈ l.compared, feedless w = true

/-- Exposed words have no line breaks if the words of the language have none. -/
theorem Language.Feedless.exposed {l : Language} (hl : l.Feedless) {w : String}
    (hw : w ∈ l.exposed) : feedless w = true := by
  have hbounds : ∀ w ∈ statementBounds, feedless w = true := by decide
  rcases mem_exposed hw with rfl | hw | hw
  · decide
  · exact hbounds w hw
  · exact hl.compared w hw

namespace Scan

/-! ## Texts -/

/-- A text with a carriage return before every line feed. -/
def crlf (cs : List Char) : List Char :=
  cs.flatMap fun c => if c == '\n' then ['\r', '\n'] else [c]

theorem crlf_nil : crlf [] = [] := rfl

/-- Line breaks are turned piece by piece. -/
theorem crlf_append (xs ys : List Char) : crlf (xs ++ ys) = crlf xs ++ crlf ys :=
  List.flatMap_append

theorem crlf_feed (cs : List Char) : crlf ('\n' :: cs) = '\r' :: '\n' :: crlf cs := rfl

theorem crlf_cons {c : Char} (h : c ≠ '\n') (cs : List Char) : crlf (c :: cs) = c :: crlf cs := by
  simp [crlf, h]

/-- A text without line feeds stays as it is. -/
theorem crlf_of_not_mem {cs : List Char} (h : '\n' ∉ cs) : crlf cs = cs := by
  induction cs with
  | nil => rfl
  | cons c cs ih =>
    rw [List.mem_cons, not_or] at h
    rw [crlf_cons (Ne.symm h.1), ih h.2]

theorem crlf_marker {m : String} (hm : feedless m = true) : crlf m.toList = m.toList :=
  crlf_of_not_mem (not_mem_of_feedless hm)

theorem crlf_eq_nil {cs : List Char} : crlf cs = [] ↔ cs = [] := by
  cases cs with
  | nil => simp [crlf]
  | cons c cs =>
    by_cases hc : c = '\n'
    · subst hc
      simp [crlf_feed]
    · simp [crlf_cons hc]

/-- A text keeps its number of line feeds. -/
theorem count_crlf (cs : List Char) : (crlf cs).count '\n' = cs.count '\n' := by
  induction cs with
  | nil => rfl
  | cons c cs ih =>
    by_cases hc : c = '\n'
    · subst hc
      rw [crlf_feed, List.count_cons_of_ne (by decide), List.count_cons_self,
        List.count_cons_self, ih]
    · rw [crlf_cons hc, List.count_cons_of_ne hc, List.count_cons_of_ne hc, ih]

/-- A front without line breaks was one before the line breaks were turned. -/
theorem isPrefixOf_crlf {m cs : List Char} (hm : ∀ c ∈ m, c ≠ '\r' ∧ c ≠ '\n')
    (h : m.isPrefixOf (crlf cs) = true) : m.isPrefixOf cs = true := by
  induction m generalizing cs with
  | nil => rfl
  | cons c m ih =>
    cases cs with
    | nil => exact h
    | cons x cs =>
      obtain ⟨hreturn, -⟩ := hm c (List.mem_cons_self ..)
      by_cases hx : x = '\n'
      · subst hx
        simp only [crlf_feed, List.isPrefixOf, Bool.and_eq_true, beq_iff_eq] at h
        exact absurd h.1 hreturn
      · simp only [crlf_cons hx, List.isPrefixOf, Bool.and_eq_true] at h ⊢
        exact ⟨h.1, ih (fun c hc => hm c (List.mem_cons_of_mem _ hc)) h.2⟩

/-- The same markers stand in both texts. -/
theorem after?_crlf {m : String} (hm : feedless m = true) (cs : List Char) :
    after? m (crlf cs) = (after? m cs).map crlf := by
  cases h : after? m cs with
  | some r =>
    obtain ⟨rfl, hpos⟩ := after?_eq_some h
    rw [crlf_append, crlf_marker hm, after?_append hpos, Option.map_some]
  | none =>
    have hprefix : m.toList.isPrefixOf (crlf cs) = true → m.toList.isPrefixOf cs = true :=
      isPrefixOf_crlf fun _ hc => ne_of_feedless hm hc
    rw [Option.map_none]
    unfold after? at h ⊢
    split at h
    · cases h
    · rename_i hne
      rw [if_neg]
      simp only [Bool.and_eq_true] at hne ⊢
      exact fun h => hne ⟨h.1, hprefix h.2⟩

/-- A marker stands in front of the same texts, their line breaks turned. -/
theorem after?_crlf_cons {m : String} (hm : feedless m = true) {c : Char} (hc : c ≠ '\n')
    {cs : List Char} {r : Option (List Char)} (h : after? m (c :: cs) = r) :
    after? m (c :: crlf cs) = r.map crlf := by
  rw [← crlf_cons hc, after?_crlf hm, h]

/-! ## Cuts -/

/-- A cut with carriage returns in both pieces. -/
def Cut.crlf (cut : Cut) : Cut := ⟨Scan.crlf cut.taken, Scan.crlf cut.rest⟩

/-- A cut is turned in front and behind. -/
theorem Cut.crlf_prepend (t : List Char) (cut : Cut) :
    (cut.prepend t).crlf = cut.crlf.prepend (Scan.crlf t) := by
  simp only [Cut.crlf, Cut.prepend, crlf_append]

/-- A cut and what becomes of it with carriage returns.  A cut at a line feed may take the carriage
return that belongs to it. -/
inductive Cut.Turned (cut : Cut) : Cut → Prop where
  | plain : Cut.Turned cut cut.crlf
  | late {r : List Char} : cut.rest = '\n' :: r →
      Cut.Turned cut ⟨Scan.crlf cut.taken ++ ['\r'], '\n' :: Scan.crlf r⟩

namespace Cut.Turned

variable {cut cut' : Cut}

theorem prepend (t : List Char) (h : cut.Turned cut') :
    (cut.prepend t).Turned (cut'.prepend (Scan.crlf t)) := by
  cases h with
  | plain =>
    rw [← Cut.crlf_prepend]
    exact .plain
  | late hfeed =>
    have hlate := @Turned.late (cut.prepend t) _ hfeed
    simpa only [Cut.prepend, crlf_append, List.append_assoc] using hlate

/-- A turned cut has as many line feeds. -/
theorem count (h : cut.Turned cut') : cut'.taken.count '\n' = cut.taken.count '\n' := by
  cases h with
  | plain => exact count_crlf cut.taken
  | late _ =>
    rw [List.count_append, count_crlf]
    simp

/-- A turned cut has a line feed if the cut has one. -/
theorem contains (h : cut.Turned cut') :
    cut'.taken.contains '\n' = cut.taken.contains '\n' := by
  rw [Bool.eq_iff_iff, List.contains_iff_mem, List.contains_iff_mem, ← List.count_pos_iff,
    ← List.count_pos_iff, h.count]

/-- What is left has its carriage returns, or all but the first. -/
theorem rest (h : cut.Turned cut') :
    Scan.crlf cut.rest = cut'.rest ∨ Scan.crlf cut.rest = '\r' :: cut'.rest := by
  cases h with
  | plain => exact .inl rfl
  | late hfeed => exact .inr (by rw [hfeed, crlf_feed])

end Cut.Turned

theorem takeAll_cons_pos {p : Char → Bool} {c : Char} (h : p c = true) (cs : List Char) :
    takeAll p (c :: cs) = (takeAll p cs).prepend [c] := by
  simp [takeAll, Cut.prepend, h]

theorem takeAll_cons_neg {p : Char → Bool} {c : Char} (h : p c = false) (cs : List Char) :
    takeAll p (c :: cs) = ⟨[], c :: cs⟩ := by
  simp [takeAll, h]

/-- A run to which line feeds do not belong has none. -/
theorem not_mem_takeAll {p : Char → Bool} (h : p '\n' = false) (cs : List Char) :
    '\n' ∉ (takeAll p cs).taken := by
  intro hmem
  have := List.mem_takeWhile_imp hmem
  rw [h] at this
  cases this

/-- A piece that does not go past a carriage return ends before it. -/
theorem takeAll_crlf {p : Char → Bool} (hp : p '\r' = false ∧ p '\n' = false) (cs : List Char) :
    takeAll p (crlf cs) = (takeAll p cs).crlf := by
  induction cs with
  | nil => rfl
  | cons c cs ih =>
    by_cases hc : c = '\n'
    · subst hc
      rw [crlf_feed, takeAll_cons_neg hp.1, takeAll_cons_neg hp.2]
      rfl
    · rw [crlf_cons hc]
      cases hpc : p c with
      | true =>
        rw [takeAll_cons_pos hpc, takeAll_cons_pos hpc, ih, Cut.crlf_prepend, crlf_cons hc,
          crlf_nil]
      | false =>
        rw [takeAll_cons_neg hpc, takeAll_cons_neg hpc, Cut.crlf, crlf_cons hc, crlf_nil]

/-- A piece that goes on up to a line feed takes the carriage return before it. -/
theorem takeAll_turned {p : Char → Bool} (hp : p '\r' = true ∧ p '\n' = false) (cs : List Char) :
    (takeAll p cs).Turned (takeAll p (crlf cs)) := by
  induction cs with
  | nil => exact .plain
  | cons c cs ih =>
    by_cases hc : c = '\n'
    · subst hc
      rw [crlf_feed, takeAll_cons_neg hp.2, takeAll_cons_pos hp.1, takeAll_cons_neg hp.2]
      exact .late rfl
    · rw [crlf_cons hc]
      cases hpc : p c with
      | true =>
        rw [takeAll_cons_pos hpc, takeAll_cons_pos hpc]
        have hturned := ih.prepend [c]
        rwa [crlf_cons hc, crlf_nil] at hturned
      | false =>
        rw [takeAll_cons_neg hpc, takeAll_cons_neg hpc, ← crlf_cons hc]
        exact .plain

/-! ## Comments -/

/-- A comment goes on where neither its end nor another comment stands. -/
theorem commentText_plain {block : BlockComment} {nested : Bool} {c : Char} {cs : List Char}
    (hclose : after? block.closing (c :: cs) = none)
    (hopen : (if nested then after? block.opening (c :: cs) else none) = none) (outer : Nat) :
    commentText block nested outer (c :: cs) = (commentText block nested outer cs).prepend [c] := by
  rw [commentText]
  split
  · rename_i r hr
    rw [hclose] at hr
    cases hr
  split
  · rename_i r hr
    rw [hopen] at hr
    cases hr
  · rfl

/-- At its end a comment is closed, or one of those around it goes on. -/
theorem commentText_closing {block : BlockComment} {nested : Bool} {c : Char} {cs r : List Char}
    (hclose : after? block.closing (c :: cs) = some r) (outer : Nat) :
    commentText block nested outer (c :: cs) =
      match outer with
      | 0 => ⟨block.closing.toList, r⟩
      | outer + 1 => (commentText block nested outer r).prepend block.closing.toList := by
  rw [commentText]
  split
  · rename_i r' hr
    rw [hclose] at hr
    cases hr
    rfl
  · rename_i hr
    rw [hclose] at hr
    cases hr

/-- Where comments nest, another one opens. -/
theorem commentText_opening {block : BlockComment} {nested : Bool} {c : Char} {cs r : List Char}
    (hclose : after? block.closing (c :: cs) = none)
    (hopen : (if nested then after? block.opening (c :: cs) else none) = some r) (outer : Nat) :
    commentText block nested outer (c :: cs) =
      (commentText block nested (outer + 1) r).prepend block.opening.toList := by
  rw [commentText]
  split
  · rename_i r' hr
    rw [hclose] at hr
    cases hr
  split
  · rename_i r' hr
    rw [hopen] at hr
    cases hr
    rfl
  · rename_i hr
    rw [hopen] at hr
    cases hr

/-- A marker that stands on one line does not stand at its end. -/
theorem after?_of_end {m : String} (hm : feedless m = true) {c : Char} (hc : c = '\r' ∨ c = '\n')
    (cs : List Char) : after? m (c :: cs) = none := by
  cases h : after? m (c :: cs) with
  | none => rfl
  | some r =>
    obtain ⟨heq, hpos⟩ := after?_eq_some h
    cases hlist : m.toList with
    | nil => exact absurd hlist (toList_ne_nil_of_length_pos hpos)
    | cons x t =>
      rw [hlist, List.cons_append] at heq
      obtain ⟨hreturn, hfeed⟩ := ne_of_feedless hm (c := x) (by simp [hlist])
      rw [(List.cons.inj heq).1] at hc
      exact absurd hc (not_or.mpr ⟨hreturn, hfeed⟩)

/-- Where a marker stands, no line feed does. -/
theorem ne_feed_of_after? {m : String} (hm : feedless m = true) {c : Char} {cs r : List Char}
    (h : after? m (c :: cs) = some r) : c ≠ '\n' := by
  rintro rfl
  rw [after?_of_end hm (.inr rfl)] at h
  cases h

/-- A comment ends at the same place, its line breaks turned. -/
theorem commentText_crlf {block : BlockComment}
    (hb : feedless block.opening = true ∧ feedless block.closing = true) (nested : Bool)
    (outer : Nat) (cs : List Char) :
    commentText block nested outer (crlf cs) = (commentText block nested outer cs).crlf := by
  have hopening : ∀ cs, (if nested then after? block.opening (crlf cs) else none) =
      (if nested then after? block.opening cs else none).map crlf := by
    intro cs
    cases nested with
    | true => exact after?_crlf hb.1 cs
    | false => rfl
  have hend : ∀ {c}, c = '\r' ∨ c = '\n' → ∀ outer cs, commentText block nested outer (c :: cs) =
      (commentText block nested outer cs).prepend [c] := by
    intro c hc outer cs
    refine commentText_plain (after?_of_end hb.2 hc cs) ?_ outer
    rw [after?_of_end hb.1 hc, ite_self]
  fun_induction commentText block nested outer cs with
  | case1 => rw [crlf_nil, commentText, Cut.crlf, crlf_nil]
  | case2 c cs r hclose =>
    have hc := ne_feed_of_after? hb.2 hclose
    rw [crlf_cons hc, commentText_closing (after?_crlf_cons hb.2 hc hclose), Cut.crlf,
      crlf_marker hb.2]
  | case3 c cs r hclose outer ih =>
    have hc := ne_feed_of_after? hb.2 hclose
    rw [crlf_cons hc, commentText_closing (after?_crlf_cons hb.2 hc hclose), Cut.crlf_prepend,
      crlf_marker hb.2, ← ih]
  | case4 outer c cs hclose r hopen ih =>
    have hc : c ≠ '\n' := by
      split at hopen
      · exact ne_feed_of_after? hb.1 hopen
      · cases hopen
    have hopen' := hopening (c :: cs)
    rw [dite_eq_ite] at hopen
    rw [hopen, crlf_cons hc] at hopen'
    rw [crlf_cons hc, commentText_opening (after?_crlf_cons hb.2 hc hclose) hopen',
      Cut.crlf_prepend, crlf_marker hb.1, ih]
  | case5 outer c cs hclose hopen ih =>
    by_cases hc : c = '\n'
    · subst hc
      rw [crlf_feed, hend (.inl rfl), hend (.inr rfl), ih, Cut.crlf_prepend, crlf_feed, crlf_nil]
      rfl
    · have hopen' := hopening (c :: cs)
      rw [dite_eq_ite] at hopen
      rw [hopen, crlf_cons hc] at hopen'
      rw [crlf_cons hc, commentText_plain (after?_crlf_cons hb.2 hc hclose) hopen', ih,
        Cut.crlf_prepend, crlf_cons hc, crlf_nil]

/-! ## Numbers and names -/

theorem numberText_crlf (cs : List Char) :
    numberText (crlf cs) = (numberText cs).crlf ∧ '\n' ∉ (numberText cs).taken := by
  have hhead : ∀ cs : List Char, (crlf cs).head?.any Text.isAsciiDigit =
      cs.head?.any Text.isAsciiDigit := by
    intro cs
    cases cs with
    | nil => rfl
    | cons c cs =>
      by_cases hc : c = '\n'
      · subst hc
        rfl
      · rw [crlf_cons hc]
        rfl
  fun_induction numberText cs with
  | case1 => exact ⟨rfl, List.not_mem_nil⟩
  | case2 c cs h ih =>
    have hc : c ≠ '\n' := by
      rintro rfl
      exact absurd h (by decide)
    refine ⟨?_, ?_⟩
    · rw [crlf_cons hc, numberText, if_pos h, ih.1, Cut.crlf_prepend, crlf_cons hc, crlf_nil]
    · simpa [Cut.prepend, Ne.symm hc] using ih.2
  | case3 c cs h hpoint ih =>
    have hc : c ≠ '\n' := by
      rintro rfl
      exact absurd hpoint (by simp)
    refine ⟨?_, ?_⟩
    · rw [crlf_cons hc, numberText, if_neg h, hhead, if_pos hpoint, ih.1, Cut.crlf_prepend,
        crlf_cons hc, crlf_nil]
    · simpa [Cut.prepend, Ne.symm hc] using ih.2
  | case4 c cs h hpoint =>
    refine ⟨?_, List.not_mem_nil⟩
    by_cases hc : c = '\n'
    · subst hc
      rw [crlf_feed, numberText, if_neg (by decide), if_neg (by simp)]
      rfl
    · rw [crlf_cons hc, numberText, if_neg h, hhead, if_neg hpoint, Cut.crlf, crlf_cons hc,
        crlf_nil]

/-- A quoted identifier that no line feed cuts off. -/
theorem quotedText_crlf {quote : Char} {cs : List Char}
    (h : cs.find? (fun x => x == quote || x == '\n') ≠ some '\n') :
    quotedText quote (crlf cs) = (quotedText quote cs).crlf ∧
      '\n' ∉ (quotedText quote cs).taken := by
  rcases takeAll_cases (fun c => c != quote && c != '\n') cs with hcut | ⟨t, c, r, hall, hc, hcut⟩
  · have hnot := not_mem_takeAll (p := fun c => c != quote && c != '\n') (by simp) cs
    have hquoted : quotedText quote cs = ⟨cs, []⟩ := by simp [quotedText, hcut]
    rw [hcut] at hnot
    rw [crlf_of_not_mem hnot, hquoted, Cut.crlf, crlf_of_not_mem hnot]
    exact ⟨rfl, hnot⟩
  · have happ := takeAll_append (fun c => c != quote && c != '\n') cs
    have hnot := not_mem_takeAll (p := fun c => c != quote && c != '\n') (by simp) cs
    rw [hcut] at happ hnot
    subst happ
    have hfind : (t ++ c :: r).find? (fun x => x == quote || x == '\n') = some c := by
      rw [List.find?_append, List.find?_eq_none.mpr, List.find?_cons_of_pos]
      · rfl
      · simpa [bne, or_iff_not_imp_left] using hc
      · intro x hx
        simpa using hall x hx
    have hfeed : c ≠ '\n' := fun heq => h (heq ▸ hfind)
    have hclose : (c == quote) = true := by simpa [hfeed] using hc
    have hquoted : ∀ r, quotedText quote (t ++ c :: r) = ⟨t ++ [c], r⟩ := by
      intro r
      simp [quotedText, takeAll_stop hall hc, hclose]
    rw [crlf_append, crlf_of_not_mem hnot, crlf_cons hfeed, hquoted, hquoted, Cut.crlf, crlf_append,
      crlf_of_not_mem hnot, crlf_cons hfeed, crlf_nil]
    exact ⟨rfl, by simpa [Ne.symm hfeed] using hnot⟩

/-! ## Literals -/

section Literals

variable {d : Delimiter} (hd : d.Feedless)

include hd

/-- Code opens in a literal at the same places. -/
theorem opener?_crlf (cs : List Char) :
    opener? d (crlf cs) = (opener? d cs).map fun found => (found.1, crlf found.2) := by
  unfold opener?
  cases ht : d.interpolation with
  | none => rfl
  | some text =>
    rw [Option.bind_some, Option.bind_some, after?_crlf (hd.interpolation text ht)]
    cases after? text cs <;> rfl

theorem opener?_of_end {c : Char} (hc : c = '\r' ∨ c = '\n') (cs : List Char) :
    opener? d (c :: cs) = none := by
  unfold opener?
  cases ht : d.interpolation with
  | none => rfl
  | some text =>
    rw [Option.bind_some, after?_of_end (hd.interpolation text ht) hc, Option.map_none]

/-- A carriage return is a character of the literal. -/
theorem literalText_return (cs : List Char) :
    literalText d ('\r' :: cs) = (literalText d cs).prepend ['\r'] := by
  rw [literalText_plain (by simpa using hd.escape.1), after?_of_end hd.closing (.inl rfl),
    opener?_of_end hd (.inl rfl)]
  exact if_neg (by simp)

theorem literalText_feed (cs : List Char) :
    literalText d ('\n' :: cs) =
      if d.multiline then (literalText d cs).prepend ['\n']
      else ⟨⟨[], '\n' :: cs⟩, .lineBreak⟩ := by
  rw [literalText_plain (by simpa using hd.escape.2), after?_of_end hd.closing (.inr rfl),
    opener?_of_end hd (.inr rfl)]
  cases d.multiline <;> rfl

end Literals

/-- The text of a literal with carriage returns.  Before a line feed that ends it, the literal takes
one too. -/
def LiteralCut.crlf (cut : LiteralCut) : LiteralCut :=
  match cut.stop with
  | .lineBreak => ⟨⟨Scan.crlf cut.taken ++ ['\r'], (Scan.crlf cut.rest).tail⟩, .lineBreak⟩
  | .opener text code => ⟨cut.toCut.crlf, .opener text (Scan.crlf code)⟩
  | stop => ⟨cut.toCut.crlf, stop⟩

/-- A literal stops for the same reason. -/
def Stop.crlf : Stop → Stop
  | .opener text code => .opener text (Scan.crlf code)
  | stop => stop

theorem Stop.crlf_of_ne (stop : Stop) (h : ∀ text code, stop ≠ .opener text code) :
    stop.crlf = stop := by
  cases stop with
  | opener text code => exact absurd rfl (h text code)
  | _ => rfl

theorem LiteralCut.stop_crlf (cut : LiteralCut) : cut.crlf.stop = cut.stop.crlf := by
  obtain ⟨cut, stop⟩ := cut
  cases stop <;> rfl

theorem LiteralCut.crlf_prepend (t : List Char) (cut : LiteralCut) :
    (cut.prepend t).crlf = cut.crlf.prepend (Scan.crlf t) := by
  obtain ⟨⟨taken, rest⟩, stop⟩ := cut
  cases stop <;> simp [LiteralCut.crlf, LiteralCut.prepend, Cut.crlf, crlf_append]

/-- A literal of several lines, or one of one line in which no line feed is escaped. -/
theorem literalText_crlf {d : Delimiter} (hd : d.Feedless) {cs : List Char}
    (h : d.multiline = true ∨ '\n' ∉ (literalText d cs).taken) :
    literalText d (crlf cs) = (literalText d cs).crlf := by
  have hlater : ∀ {t : List Char} {cut : LiteralCut},
      d.multiline = true ∨ '\n' ∉ (cut.prepend t).taken →
        d.multiline = true ∨ '\n' ∉ cut.taken := fun h =>
    h.imp_right fun hnot hmem => hnot (List.mem_append_right _ hmem)
  fun_induction literalText d cs with
  | case1 => rw [crlf_nil, literalText]; rfl
  | case2 c hc =>
    have hfeed : c ≠ '\n' := by
      rintro rfl
      exact absurd hc (by simpa using hd.escape.2)
    rw [crlf_cons hfeed, crlf_nil, literalText, if_pos hc]
    simp only [LiteralCut.crlf, Cut.crlf, crlf_cons hfeed, crlf_nil]
  | case3 c hc e cs ih =>
    have hfeed : c ≠ '\n' := by
      rintro rfl
      exact absurd hc (by simpa using hd.escape.2)
    have ih := ih (hlater h)
    by_cases he : e = '\n'
    · subst he
      -- The escape takes the carriage return, and the line feed is left to the literal.
      have hmulti : d.multiline = true := h.resolve_right fun hnot =>
        hnot (by simp [LiteralCut.prepend])
      rw [crlf_cons hfeed, crlf_feed, literalText_escape hc, literalText_feed hd, if_pos hmulti, ih,
        LiteralCut.crlf_prepend, crlf_cons hfeed, crlf_feed, crlf_nil]
      rfl
    · rw [crlf_cons hfeed, crlf_cons he, literalText_escape hc, ih, LiteralCut.crlf_prepend,
        crlf_cons hfeed, crlf_cons he, crlf_nil]
  | case4 c cs hc r hclose =>
    have hfeed := ne_feed_of_after? hd.closing hclose
    rw [crlf_cons hfeed, literalText_plain hc, after?_crlf_cons hd.closing hfeed hclose]
    simp only [Option.map_some, LiteralCut.crlf, Cut.crlf, crlf_marker hd.closing]
  | case5 c cs hc hclose text code hopen =>
    have hfeed : c ≠ '\n' := by
      rintro rfl
      rw [opener?_of_end hd (.inr rfl)] at hopen
      cases hopen
    have hopen' := opener?_crlf hd (c :: cs)
    rw [hopen, crlf_cons hfeed] at hopen'
    rw [crlf_cons hfeed, literalText_plain hc, after?_crlf_cons hd.closing hfeed hclose, hopen']
    simp only [Option.map_some, Option.map_none, LiteralCut.crlf, Cut.crlf, crlf_cons hfeed,
      crlf_nil]
  | case6 c cs hc hclose hopen hbreak =>
    simp only [Bool.and_eq_true, beq_iff_eq, Bool.not_eq_true'] at hbreak
    obtain ⟨rfl, hline⟩ := hbreak
    rw [crlf_feed, literalText_return hd, literalText_feed hd, hline]
    rfl
  | case7 c cs hc hclose hopen hbreak ih =>
    have ih := ih (hlater h)
    by_cases hfeed : c = '\n'
    · subst hfeed
      have hmulti : d.multiline = true := by simpa using hbreak
      rw [crlf_feed, literalText_return hd, literalText_feed hd, if_pos hmulti, ih,
        LiteralCut.crlf_prepend, crlf_feed, crlf_nil]
      rfl
    · have hopen' := opener?_crlf hd (c :: cs)
      rw [hopen, crlf_cons hfeed] at hopen'
      rw [crlf_cons hfeed, literalText_plain hc, after?_crlf_cons hd.closing hfeed hclose, hopen',
        LiteralCut.crlf_prepend, crlf_cons hfeed, crlf_nil]
      simp only [Option.map_none, ih]
      exact if_neg hbreak

/-! ## Steps -/

/-- A step and the same with carriage returns.  It may stop behind a carriage return only where code
goes on, and a text that changes belongs to a literal and is not exposed. -/
structure Found.Turned (l : Language) (found found' : Found) : Prop where
  kind : found'.kind = found.kind
  modes : found'.modes = found.modes
  cut : Cut.Turned ⟨found.taken, found.rest⟩ ⟨found'.taken, found'.rest⟩
  code : found'.rest = crlf found.rest ∨ ∀ d outer, found.modes ≠ .literal d :: outer
  text : found.kind.isTrivia = false → found'.taken = found.taken ∨
    found.kind = .stringLiteral ∧ String.ofList found.taken ∉ l.exposed ∧
      String.ofList found'.taken ∉ l.exposed

section Steps

variable {l : Language} {modes outer : List Mode} {c : Char} {cs : List Char}

/-- A token without line feeds stays as it is. -/
theorem Found.Turned.leaving {found : Found} (h : '\n' ∉ found.taken) :
    found.Turned l (found.leaving (crlf found.rest)) where
  kind := rfl
  modes := rfl
  cut := by
    have hplain := @Cut.Turned.plain ⟨found.taken, found.rest⟩
    rwa [Cut.crlf, crlf_of_not_mem h] at hplain
  code := .inl rfl
  text _ := .inl rfl

/-- A text with a line break is no exposed word. -/
theorem not_exposed_of_mem (hl : l.Feedless) {t : List Char} (h : '\r' ∈ t ∨ '\n' ∈ t) :
    String.ofList t ∉ l.exposed := by
  intro hexposed
  have hfeedless := hl.exposed hexposed
  rcases h with h | h
  · exact (ne_of_feedless hfeedless (by simpa using h)).1 rfl
  · exact (ne_of_feedless hfeedless (by simpa using h)).2 rfl

/-- The text of a literal before the line feed that ends it is not exposed. -/
def Sheltered (l : Language) (front : List Char) (cut : LiteralCut) : Prop :=
  cut.stop = .lineBreak → String.ofList (front ++ cut.taken) ∉ l.exposed

/-- A piece of a literal of several lines, or one of one line in which no line feed is escaped. -/
theorem turned_literal (modes : List Mode) (hl : l.Feedless) {d : Delimiter} (hd : d.Feedless)
    {front : List Char} (hfront : '\n' ∉ front)
    (h : d.multiline = true ∨ '\n' ∉ (literalText d cs).taken)
    (hsheltered : Sheltered l front (literalText d cs))
    (hmodes : (literalText d cs).stop = .lineBreak → ∀ d outer, modes ≠ .literal d :: outer) :
    Found.Turned l
      (.ofCut .stringLiteral modes ((literalText d cs).prepend front).toCut)
      (.ofCut .stringLiteral modes ((literalText d (crlf cs)).prepend front).toCut) := by
  have hplain : (literalText d cs).stop ≠ .lineBreak →
      (literalText d (crlf cs)).toCut = (literalText d cs).toCut.crlf := by
    intro hstop
    rw [literalText_crlf hd h, LiteralCut.crlf]
    cases hs : (literalText d cs).stop <;> simp_all
  by_cases hstop : (literalText d cs).stop = .lineBreak
  · obtain ⟨-, r, hr⟩ := literalText_lineBreak hstop
    have hlate : (literalText d (crlf cs)).toCut =
        ⟨crlf (literalText d cs).taken ++ ['\r'], '\n' :: crlf r⟩ := by
      rw [literalText_crlf hd h, LiteralCut.crlf, hstop, hr]
      rfl
    have hturned := (@Cut.Turned.late (literalText d cs).toCut _ hr).prepend front
    rw [← hlate, crlf_of_not_mem hfront] at hturned
    refine ⟨rfl, rfl, hturned, .inr (hmodes hstop), fun _ => .inr ⟨rfl, hsheltered hstop, ?_⟩⟩
    refine not_exposed_of_mem hl (.inl ?_)
    simp [Found.ofCut, LiteralCut.prepend, hlate]
  · have hturned := (@Cut.Turned.plain (literalText d cs).toCut).prepend front
    rw [← hplain hstop, crlf_of_not_mem hfront] at hturned
    refine ⟨rfl, rfl, hturned, .inl ?_, fun _ => ?_⟩
    · exact congrArg Cut.rest (hplain hstop)
    · have htaken : (literalText d (crlf cs)).taken = crlf (literalText d cs).taken :=
        congrArg Cut.taken (hplain hstop)
      by_cases hmem : '\n' ∈ (literalText d cs).taken
      · refine .inr ⟨rfl, not_exposed_of_mem hl (.inr ?_), not_exposed_of_mem hl (.inr ?_)⟩
        · exact List.mem_append_right _ hmem
        · refine List.mem_append_right _ ?_
          rw [htaken, ← List.count_pos_iff, count_crlf, List.count_pos_iff]
          exact hmem
      · refine .inl ?_
        change front ++ _ = front ++ _
        rw [htaken, crlf_of_not_mem hmem]

/-- Resuming a literal finds the same piece. -/
theorem resume_crlf (hl : l.Feedless) {d : Delimiter} (hd : d.Feedless)
    (houter : ∀ d' outer', outer ≠ .literal d' :: outer')
    (h : d.multiline = true ∨ '\n' ∉ (literalText d cs).taken)
    (hsheltered : Sheltered l [] (literalText d cs)) :
    (resume d outer cs).Turned l (resume d outer (crlf cs)) := by
  have hturned := fun modes => turned_literal modes hl hd List.not_mem_nil h hsheltered
  have hstop' := LiteralCut.stop_crlf (literalText d cs)
  rw [← literalText_crlf hd h] at hstop'
  cases hstop : (literalText d cs).stop with
  | opener text code =>
    have hfeedless := hd.interpolation text (literalText_interpolation hstop)
    have hempty : (literalText d (crlf cs)).taken.isEmpty = (literalText d cs).taken.isEmpty := by
      rw [literalText_crlf hd h, LiteralCut.crlf, hstop, Bool.eq_iff_iff, List.isEmpty_iff,
        List.isEmpty_iff]
      exact crlf_eq_nil
    rw [hstop, Stop.crlf] at hstop'
    simp only [resume, hstop, hstop', hempty]
    split
    · exact @Found.Turned.leaving l ⟨.interpolation, text.toList, code, _⟩
        (not_mem_of_feedless hfeedless)
    · exact hturned _ fun heq => by rw [hstop] at heq; cases heq
  | _ =>
    rw [hstop, Stop.crlf_of_ne _ (by simp)] at hstop'
    simp only [resume, hstop, hstop']
    exact hturned outer fun _ => houter

/-- Opening a literal finds the same piece. -/
theorem openLiteral_crlf (hl : l.Feedless) {d : Delimiter} (hd : d.Feedless)
    (houter : ∀ d' outer', outer ≠ .literal d' :: outer')
    (h : d.multiline = true ∨ '\n' ∉ (literalText d cs).taken)
    (hsheltered : Sheltered l d.opening.toList (literalText d cs)) :
    (openLiteral d outer cs).Turned l (openLiteral d outer (crlf cs)) := by
  have hfront := not_mem_of_feedless hd.opening
  have hturned := fun modes => turned_literal modes hl hd hfront h hsheltered
  have hstop' := LiteralCut.stop_crlf (literalText d cs)
  rw [← literalText_crlf hd h] at hstop'
  cases hstop : (literalText d cs).stop with
  | opener text code =>
    rw [hstop, Stop.crlf] at hstop'
    simp only [openLiteral, LiteralCut.prepend, hstop, hstop']
    exact hturned _ fun heq => by rw [hstop] at heq; cases heq
  | _ =>
    rw [hstop, Stop.crlf_of_ne _ (by simp)] at hstop'
    simp only [openLiteral, LiteralCut.prepend, hstop, hstop']
    exact hturned outer fun _ => houter

section Lookups

variable {g : List Char → List Char} {xs ys : List Char}

/-- The first of several markers that stands in a text, where each stands in both texts. -/
theorem findSome?_map_rest {α : Type} {f : α → List Char → Option (α × List Char)}
    {markers : List α} (hf : ∀ m ∈ markers, f m ys = (f m xs).map fun found =>
      (found.1, g found.2)) :
    markers.findSome? (f · ys) = (markers.findSome? (f · xs)).map fun found =>
      (found.1, g found.2) := by
  induction markers with
  | nil => rfl
  | cons m markers ih =>
    have ih := ih fun m hm => hf m (List.mem_cons_of_mem _ hm)
    rw [List.findSome?_cons, List.findSome?_cons, hf m (List.mem_cons_self ..), ih]
    cases f m xs <;> rfl

/-- What is looked up by a marker is found with the rest turned. -/
theorem map_after?_map_rest {α : Type} (x : α) {m : String}
    (h : after? m ys = (after? m xs).map g) :
    (after? m ys).map (fun r => (x, r)) =
      ((after? m xs).map fun r => (x, r)).map fun found => (found.1, g found.2) := by
  rw [h]
  cases after? m xs <;> rfl

theorem literalAt?_map_rest {ds : List Delimiter}
    (h : ∀ d ∈ ds, after? d.opening ys = (after? d.opening xs).map g) :
    literalAt? ds ys = (literalAt? ds xs).map fun found => (found.1, g found.2) :=
  findSome?_map_rest (f := fun (d : Delimiter) cs => (after? d.opening cs).map fun r => (d, r))
    fun d hd => map_after?_map_rest d (h d hd)

theorem operatorAt?_map_rest {ops : List String}
    (h : ∀ o ∈ ops, after? o ys = (after? o xs).map g) :
    operatorAt? ops ys = (operatorAt? ops xs).map fun found => (found.1, g found.2) := by
  refine findSome?_map_rest (f := fun (o : String) cs =>
    if o.utf8ByteSize > 1 then (after? o cs).map fun r => (o, r) else none) fun o ho => ?_
  split
  · exact map_after?_map_rest o (h o ho)
  · rfl

theorem blockAt?_map_rest {comments : CommentSyntax}
    (h : ∀ b ∈ comments.block, after? b.opening ys = (after? b.opening xs).map g) :
    blockAt? comments ys = (blockAt? comments xs).map fun found => (found.1, g found.2) := by
  unfold blockAt?
  cases hb : comments.block with
  | none => rfl
  | some b => exact map_after?_map_rest b (h b hb)

end Lookups

/-- The same literals open. -/
theorem literalAt?_crlf (hl : l.Feedless) (cs : List Char) :
    literalAt? l.strings.delimiters (crlf cs) =
      (literalAt? l.strings.delimiters cs).map fun found => (found.1, crlf found.2) :=
  literalAt?_map_rest fun d hd => after?_crlf (hl.delimiters d hd).opening cs

theorem operatorAt?_crlf (hl : l.Feedless) (cs : List Char) :
    operatorAt? l.operators (crlf cs) =
      (operatorAt? l.operators cs).map fun found => (found.1, crlf found.2) :=
  operatorAt?_map_rest fun o ho => after?_crlf (hl.operators o ho) cs

theorem blockAt?_crlf (hl : l.Feedless) (cs : List Char) :
    blockAt? l.comments (crlf cs) =
      (blockAt? l.comments cs).map fun found => (found.1, crlf found.2) :=
  blockAt?_map_rest fun b hb => after?_crlf (hl.block b hb).1 cs

/-- The step opens or resumes a literal of one line. -/
def inLine (l : Language) (modes : List Mode) (c : Char) (cs : List Char) : Bool :=
  match modes with
  | .literal d :: _ => !d.multiline
  | _ => (literalAt? l.strings.delimiters (c :: cs)).any fun found => !found.1.multiline

/-- The token of a step may not be the same with carriage returns.  In a literal of one line a line
feed is escaped, or an exposed text ends at one, or a line feed cuts off a quoted identifier. -/
def fragile (l : Language) (modes : List Mode) (c : Char) (cs : List Char) : Bool :=
  let found := step l modes c cs
  match found.kind with
  | .stringLiteral =>
    inLine l modes c cs && (found.taken.contains '\n' ||
      (found.rest.head? == some '\n' && l.exposed.contains (String.ofList found.taken)))
  | .identifier =>
    l.strings.quotedIdentifier == some c &&
      cs.find? (fun x => x == c || x == '\n') == some '\n'
  | _ => false

/-- The literal of a step that is not fragile. -/
theorem sheltered_of_literal {d : Delimiter} {modes' : List Mode} {front r : List Char}
    (h : fragile l modes c cs = false) (hline : inLine l modes c cs = !d.multiline)
    (hstep : step l modes c cs =
      .ofCut .stringLiteral modes' ((literalText d r).prepend front).toCut) :
    (d.multiline = true ∨ '\n' ∉ (literalText d r).taken) ∧
      Sheltered l front (literalText d r) := by
  simp only [fragile, hstep, Found.ofCut, LiteralCut.prepend, hline, Bool.and_eq_false_imp,
    Bool.not_eq_true', Bool.or_eq_false_iff, List.contains_eq_mem, decide_eq_false_iff_not,
    List.mem_append, not_or, beq_iff_eq] at h
  refine ⟨?_, fun hstop => ?_⟩
  · cases hd : d.multiline with
    | true => exact .inl rfl
    | false => exact .inr (h hd).1.2
  · obtain ⟨hd, r', hr⟩ := literalText_lineBreak hstop
    exact (h hd).2 (by rw [hr]; rfl)

/-- A literal that goes on is sheltered where it is not fragile. -/
theorem resume_sheltered {d : Delimiter} (h : fragile l (.literal d :: outer) c cs = false) :
    (d.multiline = true ∨ '\n' ∉ (literalText d (c :: cs)).taken) ∧
      Sheltered l [] (literalText d (c :: cs)) := by
  have hstep : ∀ modes', resume d outer (c :: cs) =
      .ofCut .stringLiteral modes' (literalText d (c :: cs)).toCut →
        (d.multiline = true ∨ '\n' ∉ (literalText d (c :: cs)).taken) ∧
          Sheltered l [] (literalText d (c :: cs)) := fun modes' hresume =>
    @sheltered_of_literal _ _ _ _ _ modes' [] (c :: cs) h rfl hresume
  cases hstop : (literalText d (c :: cs)).stop with
  | opener text code =>
    cases hempty : (literalText d (c :: cs)).taken.isEmpty with
    | true =>
      rw [List.isEmpty_iff.mp hempty]
      exact ⟨.inr List.not_mem_nil, fun hbreak => by rw [hstop] at hbreak; cases hbreak⟩
    | false => exact hstep (.literal d :: outer) (by simp [resume, hstop, hempty])
  | _ => exact hstep outer (by simp [resume, hstop])

/-- Blanks and comments may take the carriage return before a line feed. -/
theorem Found.Turned.trivia {kind : Kind} (hk : kind.isTrivia = true)
    (hcode : ∀ d outer, modes ≠ .literal d :: outer) {front : List Char} (hfront : '\n' ∉ front)
    {cut cut' : Cut} (h : cut.Turned cut') :
    Found.Turned l (.ofCut kind modes (cut.prepend front))
      (.ofCut kind modes (cut'.prepend front)) where
  kind := rfl
  modes := rfl
  cut := by
    have hturned := h.prepend front
    rwa [crlf_of_not_mem hfront] at hturned
  code := .inr hcode
  text hnot := by
    rw [Found.ofCut, hk] at hnot
    cases hnot

/-- A token of code that is not fragile is found with carriage returns too. -/
theorem codeToken_crlf (hl : l.Feedless) (hcode : ∀ d outer, modes ≠ .literal d :: outer)
    (hc : c ≠ '\n') (hstep : step l modes c cs = codeToken l modes c cs)
    (h : fragile l modes c cs = false) :
    (codeToken l modes c cs).Turned l (codeToken l modes c (crlf cs)) := by
  have hplain : ∀ {kind : Kind} {cut : Cut}, '\n' ∉ cut.taken →
      Found.Turned l (.ofCut kind modes (cut.prepend [c]))
        (.ofCut kind modes (cut.crlf.prepend [c])) := by
    intro kind cut hnot
    rw [Cut.crlf, crlf_of_not_mem hnot]
    exact Found.Turned.leaving (by simpa [Found.ofCut, Cut.prepend, Ne.symm hc] using hnot)
  have hliteral' := literalAt?_crlf hl (c :: cs)
  have hoperator' := operatorAt?_crlf hl (c :: cs)
  rw [crlf_cons hc] at hliteral' hoperator'
  unfold codeToken at hstep ⊢
  cases hquote : l.strings.quotedIdentifier == some c with
  | true =>
    rw [if_pos hquote] at hstep
    have hfind : cs.find? (fun x => x == c || x == '\n') ≠ some '\n' := by
      simpa [fragile, hstep, Found.ofCut, hquote] using h
    obtain ⟨hquoted, hnot⟩ := quotedText_crlf hfind
    rw [if_pos rfl, if_pos rfl, hquoted]
    exact hplain hnot
  | false =>
    have hfalse : ¬ (l.strings.quotedIdentifier == some c) = true := by simp [hquote]
    rw [if_neg hfalse] at hstep
    rw [if_neg Bool.false_ne_true, if_neg Bool.false_ne_true, hliteral']
    cases hliteral : literalAt? l.strings.delimiters (c :: cs) with
    | some found =>
      obtain ⟨d, r⟩ := found
      simp only [hliteral] at hstep
      obtain ⟨modes', hopen, -⟩ := openLiteral_cases d modes r
      have hline : inLine l modes c cs = !d.multiline := by
        unfold inLine
        split
        · exact absurd rfl (hcode _ _)
        · rw [hliteral]
          rfl
      obtain ⟨htaken, hsheltered⟩ := sheltered_of_literal h hline (hstep.trans hopen)
      have hd := hl.delimiters d (literalAt?_eq_some hliteral).1
      exact openLiteral_crlf hl hd hcode htaken hsheltered
    | none =>
      simp only [Option.map_none]
      split
      · have hnot := not_mem_takeAll hl.identifiers.2 cs
        rw [takeAll_crlf hl.identifiers, Cut.crlf, crlf_of_not_mem hnot]
        refine @Found.Turned.leaving l
          (.ofCut _ modes ((takeAll l.isIdentifierChar cs).prepend [c])) ?_
        simpa [Found.ofCut, Cut.prepend, Ne.symm hc] using hnot
      split
      · obtain ⟨hnumber, hnot⟩ := numberText_crlf cs
        rw [hnumber]
        exact hplain hnot
      · rw [hoperator']
        cases hoperator : operatorAt? l.operators (c :: cs) with
        | some found =>
          obtain ⟨o, r⟩ := found
          have hnot := not_mem_of_feedless (hl.operators o (operatorAt?_eq_some hoperator).1)
          exact @Found.Turned.leaving l ⟨.operator, o.toList, r, modes⟩ hnot
        | none =>
          obtain ⟨htaken, hsymbol⟩ := symbol_near modes c cs (crlf cs)
          have hrest := symbol_append modes c cs
          rw [htaken, List.singleton_append] at hrest
          have hleaving :=
            @Found.Turned.leaving l (symbol modes c cs) (by simp [htaken, Ne.symm hc])
          rw [(List.cons.inj hrest).2, ← hsymbol] at hleaving
          exact hleaving

/-- The same line comments start. -/
theorem lineAt_crlf (hl : l.Feedless) (hc : c ≠ '\n') (cs : List Char) :
    (l.comments.line.any fun m => (after? m (c :: crlf cs)).isSome) =
      l.comments.line.any fun m => (after? m (c :: cs)).isSome := by
  rw [Bool.eq_iff_iff, List.any_eq_true, List.any_eq_true]
  refine exists_congr fun m => and_congr_right fun hm => ?_
  rw [← crlf_cons hc, after?_crlf (hl.line m hm), Option.isSome_map]

/-- Blanks and comments start at the same places. -/
theorem startsToken_crlf (hl : l.Feedless) (hc : c ≠ '\n') (cs : List Char) :
    startsToken l c (crlf cs) = startsToken l c cs := by
  have hblock := blockAt?_crlf hl (c :: cs)
  rw [crlf_cons hc] at hblock
  rw [startsToken, startsToken, hblock, Option.isNone_map, lineAt_crlf hl hc]

/-- A step through code takes the same token, its line breaks turned. -/
theorem codeStep_crlf (hl : l.Feedless) (hcode : ∀ d outer, modes ≠ .literal d :: outer)
    (hc : c ≠ '\n') (h : fragile l modes c cs = false) :
    (codeStep l modes c cs).Turned l (codeStep l modes c (crlf cs)) := by
  cases hs : startsToken l c cs with
  | true =>
    have hstep := step_code (l := l) hcode c cs
    rw [codeStep_eq_codeToken hs] at hstep
    rw [codeStep_eq_codeToken hs, codeStep_eq_codeToken ((startsToken_crlf hl hc cs).trans hs)]
    exact codeToken_crlf hl hcode hc hstep h
  | false =>
    have hfront : '\n' ∉ [c] := by simpa using Ne.symm hc
    have hfeed : ¬ (c == '\n') = true := by simpa using hc
    have hblock' := blockAt?_crlf hl (c :: cs)
    rw [crlf_cons hc] at hblock'
    rw [codeStep, codeStep, if_neg hfeed, if_neg hfeed, lineAt_crlf hl hc, hblock']
    cases hblank : Text.isBlank c with
    | true => exact .trivia rfl hcode hfront (takeAll_turned (by decide) cs)
    | false =>
      rw [if_neg Bool.false_ne_true, if_neg Bool.false_ne_true]
      cases hline : l.comments.line.any fun m => (after? m (c :: cs)).isSome with
      | true => exact .trivia rfl hcode hfront (takeAll_turned (by decide) cs)
      | false =>
        rw [if_neg Bool.false_ne_true, if_neg Bool.false_ne_true]
        cases hblock : blockAt? l.comments (c :: cs) with
        | some found =>
          obtain ⟨b, r⟩ := found
          have hb := hl.block b (blockAt?_eq_some hblock).1
          have hturned := @Cut.Turned.plain (commentText b l.comments.nested 0 r)
          rw [← commentText_crlf hb] at hturned
          exact .trivia rfl hcode (not_mem_of_feedless hb.1) hturned
        | none => simp [startsToken, hc, hblank, hline, hblock] at hs

/-- The next token is found with carriage returns too, unless it is fragile. -/
theorem step_crlf (hl : l.Feedless) (hmodes : Nested l modes)
    (hfeed : (∀ d outer, modes ≠ .literal d :: outer) → c ≠ '\n')
    (h : fragile l modes c cs = false) :
    ∃ c' cs', crlf (c :: cs) = c' :: cs' ∧ (step l modes c cs).Turned l (step l modes c' cs') := by
  by_cases hlit : ∃ d outer, modes = .literal d :: outer
  · obtain ⟨d, outer, rfl⟩ := hlit
    obtain ⟨⟨hd, -⟩, houter⟩ := hmodes.around
    obtain ⟨htaken, hsheltered⟩ := resume_sheltered h
    have hcodes := ne_literal_of_codes houter
    have hturned := resume_crlf hl (hl.delimiters d hd) hcodes htaken hsheltered
    cases hcs : crlf (c :: cs) with
    | nil => cases crlf_eq_nil.mp hcs
    | cons c' cs' =>
      rw [hcs] at hturned
      exact ⟨c', cs', rfl, hturned⟩
  · have hcode : ∀ d outer, modes ≠ .literal d :: outer := fun d outer heq =>
      hlit ⟨d, outer, heq⟩
    have hc := hfeed hcode
    refine ⟨c, crlf cs, crlf_cons hc cs, ?_⟩
    rw [step_code hcode, step_code hcode]
    exact codeStep_crlf hl hcode hc h

end Steps

end Scan

end Cyclomatic
