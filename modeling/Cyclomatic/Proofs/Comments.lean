import Cyclomatic.Proofs.Builtin
import Cyclomatic.Proofs.Lines
import Cyclomatic.Proofs.Scanning

/-!
# Comments in a scan

`blankComments` replaces every comment of a source by one blank, or by a line feed if the comment
spans lines.  A scan finds the same significant tokens after the same line breaks then
(`Scan.lexemes_blanked`).

The two texts ahead of a step are `Near`: they agree up to the slash of a comment in the one and a
blank in the other.  No token but a comment has a slash at which it could go on, and none goes on
at a blank, so a step that finds no comment and no blanks finds the same in both
(`Scan.step_near`).
-/

namespace Cyclomatic

/-! ## Tables -/

/-- A marker has no blank and no line feed in it. -/
def gapless (m : String) : Bool := m.toList.all fun c => c != ' ' && c != '\n'

/-- The markers of a literal have no blanks, and code inside it is not opened by a comment. -/
structure Delimiter.Spaced (d : Delimiter) : Prop where
  opening : gapless d.opening = true
  closing : gapless d.closing = true
  interpolation : ∀ text ∈ d.interpolation, gapless text = true ∧ '/' ∉ text.toList

/-- Comments start with a slash, and nothing that the scanner looks for has a blank in it. -/
structure Language.Spaced (l : Language) : Prop where
  line : ∀ m ∈ l.comments.line, gapless m = true ∧ m.toList.head? = some '/'
  block : ∀ b ∈ l.comments.block,
    gapless b.opening = true ∧ b.opening.toList.head? = some '/'
  delimiters : ∀ d ∈ l.strings.delimiters, d.Spaced
  operators : ∀ o ∈ l.operators, gapless o = true
  identifiers : l.isIdentifierChar ' ' = false ∧ l.isIdentifierChar '\n' = false

namespace Scan

/-! ## Texts that agree up to a comment -/

/-- The texts agree up to a slash in the first and a blank in the second. -/
inductive Near : List Char → List Char → Prop where
  | nil : Near [] []
  | cons (c : Char) {xs ys : List Char} : Near xs ys → Near (c :: xs) (c :: ys)
  | cut {b : Char} {xs ys : List Char} : b = ' ' ∨ b = '\n' → Near ('/' :: xs) (b :: ys)

namespace Near

variable {xs ys : List Char}

/-- Texts that agree up to a comment agree behind a common front. -/
theorem append (t : List Char) (h : Near xs ys) : Near (t ++ xs) (t ++ ys) := by
  induction t with
  | nil => exact h
  | cons c t ih => exact .cons c ih

theorem eq_nil (h : Near [] ys) : ys = [] := by
  cases h
  rfl

/-- Texts that are near go on alike after any character but a slash. -/
theorem uncons {c : Char} (h : Near (c :: xs) ys) (hc : c ≠ '/') :
    ∃ zs, ys = c :: zs ∧ Near xs zs := by
  cases h with
  | cons _ h => exact ⟨_, rfl, h⟩
  | cut _ => exact absurd rfl hc

/-- A front without slash stands in front of both texts. -/
theorem unappend {t : List Char} (ht : '/' ∉ t) (h : Near (t ++ xs) ys) :
    ∃ zs, ys = t ++ zs ∧ Near xs zs := by
  induction t generalizing ys with
  | nil => exact ⟨ys, rfl, h⟩
  | cons c t ih =>
    obtain ⟨zs, rfl, hnext⟩ := h.uncons (fun hc => ht (hc ▸ List.mem_cons_self ..))
    obtain ⟨us, rfl, hrest⟩ := ih (fun hm => ht (List.mem_cons_of_mem _ hm)) hnext
    exact ⟨us, rfl, hrest⟩

/-- A text without blanks that starts the second text starts the first. -/
theorem isPrefixOf {m : List Char} (hm : ∀ c ∈ m, c ≠ ' ' ∧ c ≠ '\n') (h : Near xs ys)
    (hp : m.isPrefixOf ys = true) : m.isPrefixOf xs = true := by
  induction m generalizing xs ys with
  | nil => rfl
  | cons c m ih =>
    cases h with
    | nil => cases hp
    | cons d h =>
      simp only [List.isPrefixOf, Bool.and_eq_true] at hp ⊢
      exact ⟨hp.1, ih (fun c hc => hm c (List.mem_cons_of_mem _ hc)) h hp.2⟩
    | cut hb =>
      simp only [List.isPrefixOf, Bool.and_eq_true, beq_iff_eq] at hp
      obtain ⟨h1, h2⟩ := hm c (List.mem_cons_self ..)
      rw [hp.1] at h1 h2
      rcases hb with rfl | rfl
      · exact absurd rfl h1
      · exact absurd rfl h2

/-- A marker that does not stand in the first text does not stand in the second. -/
theorem after?_eq_none {m : String} (hm : gapless m = true) (h : Near xs ys)
    (hx : after? m xs = none) : after? m ys = none := by
  simp only [gapless, List.all_eq_true, Bool.and_eq_true, bne_iff_ne] at hm
  have hprefix := h.isPrefixOf hm
  unfold after? at hx ⊢
  split at hx
  · cases hx
  · rename_i hne
    rw [if_neg]
    simp only [Bool.and_eq_true] at hne ⊢
    exact fun hy => hne ⟨hy.1, hprefix hy.2⟩

/-- Texts that agree up to a comment start with the same letters, digits and operators other than a
slash. -/
theorem head?_any {p : Char → Bool} (hp : p '/' = false ∧ p ' ' = false ∧ p '\n' = false)
    (h : Near xs ys) : ys.head?.any p = xs.head?.any p := by
  cases h with
  | nil => rfl
  | cons c h => rfl
  | cut hb =>
    rcases hb with rfl | rfl
    · simp [hp]
    · simp [hp]

end Near

/-- Behind a marker stands what it was put in front of. -/
theorem after?_append {m : String} (hm : 0 < m.length) (r : List Char) :
    after? m (m.toList ++ r) = some r := by
  have hne : m.isEmpty = false := by
    cases hempty : m.isEmpty with
    | false => rfl
    | true =>
      rw [String.isEmpty_iff] at hempty
      simp [hempty] at hm
  rw [after?, if_pos, ← String.length_toList, List.drop_left]
  simp [hne]

/-! ## Pieces of text -/

/-- A run of characters to which no blank belongs ends at the same place. -/
theorem takeAll_near {p : Char → Bool} (hp : p ' ' = false ∧ p '\n' = false) {cs ys : List Char}
    (h : Near (takeAll p cs).rest ys) :
    takeAll p ((takeAll p cs).taken ++ ys) = ⟨(takeAll p cs).taken, ys⟩ := by
  induction cs with
  | nil =>
    cases h
    rfl
  | cons c cs ih =>
    cases hc : p c with
    | true =>
      simp only [takeAll, List.takeWhile_cons, List.dropWhile_cons, hc, if_true,
        List.cons_append, Cut.mk.injEq, List.cons.injEq, true_and] at h ih ⊢
      exact ih h
    | false =>
      simp only [takeAll, List.takeWhile_cons, List.dropWhile_cons, hc, Bool.false_eq_true,
        if_false, List.nil_append] at h ⊢
      cases h with
      | cons _ h => simp [hc]
      | cut hb =>
        rcases hb with rfl | rfl
        · simp [hp.1]
        · simp [hp.2]

/-- A piece ends at the first character that does not belong to it. -/
theorem takeAll_stop {p : Char → Bool} {t : List Char} {c : Char} (ht : ∀ x ∈ t, p x = true)
    (hc : p c = false) (r : List Char) : takeAll p (t ++ c :: r) = ⟨t, c :: r⟩ := by
  simp [takeAll, List.takeWhile_append_of_pos ht, List.dropWhile_append_of_pos ht, hc]

/-- A run takes the whole text or ends at a character that does not belong to it. -/
theorem takeAll_cases (p : Char → Bool) (cs : List Char) :
    takeAll p cs = ⟨cs, []⟩ ∨
      ∃ t c r, (∀ x ∈ t, p x = true) ∧ p c = false ∧ takeAll p cs = ⟨t, c :: r⟩ := by
  induction cs with
  | nil => exact .inl rfl
  | cons c cs ih =>
    cases hc : p c with
    | false => exact .inr ⟨[], c, cs, nofun, hc, by simp [takeAll, hc]⟩
    | true =>
      have hcons : takeAll p (c :: cs) = (takeAll p cs).prepend [c] := by
        simp [takeAll, Cut.prepend, hc]
      rcases ih with heq | ⟨t, x, r, ht, hx, heq⟩
      · exact .inl (by rw [hcons, heq]; rfl)
      · refine .inr ⟨c :: t, x, r, fun y hy => ?_, hx, by rw [hcons, heq]; rfl⟩
        rcases List.mem_cons.mp hy with rfl | hy
        · exact hc
        · exact ht y hy

theorem quotedText_near {quote : Char} {cs ys : List Char}
    (h : Near (quotedText quote cs).rest ys) :
    quotedText quote ((quotedText quote cs).taken ++ ys) = ⟨(quotedText quote cs).taken, ys⟩ := by
  rcases takeAll_cases (fun c => c != quote && c != '\n') cs with hcut | ⟨t, c, r, hall, hc, hcut⟩
  · have hquoted : quotedText quote cs = ⟨cs, []⟩ := by simp [quotedText, hcut]
    rw [hquoted] at h ⊢
    rw [h.eq_nil, List.append_nil, hquoted]
  · cases hquote : c == quote with
    | true =>
      have hquoted : quotedText quote cs = ⟨t ++ [c], r⟩ := by simp [quotedText, hcut, hquote]
      simp only [hquoted, List.append_assoc, List.singleton_append]
      simp [quotedText, takeAll_stop hall hc, hquote]
    | false =>
      have hquoted : quotedText quote cs = ⟨t, c :: r⟩ := by simp [quotedText, hcut, hquote]
      rw [hquoted] at h ⊢
      obtain rfl : c = '\n' := by simpa [bne, hquote] using hc
      obtain ⟨zs, rfl, -⟩ := h.uncons (by decide)
      simp [quotedText, takeAll_stop hall hc, hquote]

theorem numberText_near {cs ys : List Char} (h : Near (numberText cs).rest ys) :
    numberText ((numberText cs).taken ++ ys) = ⟨(numberText cs).taken, ys⟩ := by
  fun_induction numberText cs with
  | case1 =>
    rw [h.eq_nil]
    rfl
  | case2 c cs hc ih =>
    have hrest := ih h
    simp only [Cut.prepend, List.cons_append, List.nil_append]
    rw [numberText, if_pos hc, hrest]
    rfl
  | case3 c cs hc hpoint ih =>
    have hrest := ih h
    have hnear := Near.append (numberText cs).taken (show Near (numberText cs).rest ys from h)
    rw [numberText_append] at hnear
    have hdigit := hnear.head?_any (p := Text.isAsciiDigit) (by decide)
    simp only [Cut.prepend, List.cons_append, List.nil_append]
    rw [numberText, if_neg hc, hdigit, if_pos hpoint, hrest]
    rfl
  | case4 c cs hc hpoint =>
    dsimp only at h ⊢
    cases h with
    | cons _ h =>
      rw [List.nil_append, numberText, if_neg hc, h.head?_any (by decide), if_neg hpoint]
    | cut hb =>
      rcases hb with rfl | rfl
      · rw [List.nil_append, numberText, if_neg (by decide), if_neg (by simp)]
      · rw [List.nil_append, numberText, if_neg (by decide), if_neg (by simp)]

/-- The stops are the same, but for the code after an opener. -/
def Stop.Near : Stop → Stop → Prop
  | .opener text code, .opener text' code' => text' = text ∧ Scan.Near code code'
  | stop, stop' => stop' = stop

/-- An escape character takes the next one with it. -/
theorem literalText_escape {d : Delimiter} {c : Char} (hc : (d.escape == some c) = true) (e : Char)
    (cs : List Char) : literalText d (c :: e :: cs) = (literalText d cs).prepend [c, e] := by
  rw [literalText.eq_def]
  simp only [hc, if_true]

/-- A character that is no escape ends the literal, opens code in it, or belongs to it. -/
theorem literalText_plain {d : Delimiter} {c : Char} (hc : ¬(d.escape == some c) = true)
    (cs : List Char) :
    literalText d (c :: cs) =
      match after? d.closing (c :: cs) with
      | some r => ⟨⟨d.closing.toList, r⟩, .closed⟩
      | none =>
        match opener? d (c :: cs) with
        | some (text, code) => ⟨⟨[], c :: cs⟩, .opener text code⟩
        | none =>
          if c == '\n' && !d.multiline then ⟨⟨[], c :: cs⟩, .lineBreak⟩
          else (literalText d cs).prepend [c] := by
  rw [literalText.eq_def]
  exact if_neg hc

/-- Where a literal holds no code, it holds none up to a comment. -/
theorem Near.opener?_eq_none {d : Delimiter} (hd : d.Spaced) {xs ys : List Char} (h : Near xs ys)
    (hx : opener? d xs = none) : opener? d ys = none := by
  unfold opener? at hx ⊢
  cases ht : d.interpolation with
  | none => rfl
  | some text =>
    rw [ht, Option.bind_some, Option.map_eq_none_iff] at hx
    rw [Option.bind_some, h.after?_eq_none (hd.interpolation text ht).1 hx, Option.map_none]

/-- A literal ends at the same place. -/
theorem literalText_near {d : Delimiter} (hd : d.Spaced) {cs ys : List Char}
    (h : Near (literalText d cs).rest ys) :
    ∃ stop, literalText d ((literalText d cs).taken ++ ys) =
        ⟨⟨(literalText d cs).taken, ys⟩, stop⟩ ∧ (literalText d cs).stop.Near stop := by
  fun_induction literalText d cs with
  | case1 =>
    rw [h.eq_nil]
    exact ⟨.inputEnd, by rw [List.append_nil, literalText], rfl⟩
  | case2 c hc =>
    rw [h.eq_nil]
    exact ⟨.inputEnd, by rw [List.append_nil, literalText, if_pos hc], rfl⟩
  | case3 c hc e cs' ih =>
    obtain ⟨stop, heq, hstop⟩ := ih h
    refine ⟨stop, ?_, hstop⟩
    simp only [LiteralCut.prepend, List.cons_append, List.nil_append, literalText_escape hc, heq]
  | case4 c cs hc r hr =>
    obtain ⟨happ, hpos⟩ := after?_eq_some hr
    have hafter := after?_append hpos ys
    refine ⟨.closed, ?_, rfl⟩
    dsimp only
    cases hm : d.closing.toList with
    | nil => exact absurd hm (toList_ne_nil_of_length_pos hpos)
    | cons x m =>
      rw [hm, List.cons_append] at happ hafter
      obtain ⟨rfl, -⟩ := List.cons.inj happ
      rw [List.cons_append, literalText_plain hc, hafter, hm]
  | case5 c cs hc hclose text code hopen =>
    obtain ⟨htext, happ, hpos⟩ := opener?_eq_some hopen
    dsimp only at h
    have hnear := h
    rw [happ] at h
    obtain ⟨zs, rfl, hzs⟩ := h.unappend (hd.interpolation text htext).2
    refine ⟨.opener text zs, ?_, rfl, hzs⟩
    have hopener : opener? d (text.toList ++ zs) = some (text, zs) := by
      rw [opener?, htext, Option.bind_some, after?_append hpos, Option.map_some]
    have hnone := hnear.after?_eq_none hd.closing hclose
    cases hm : text.toList with
    | nil => exact absurd hm (toList_ne_nil_of_length_pos hpos)
    | cons x m =>
      rw [hm, List.cons_append] at happ hopener hnone
      obtain ⟨rfl, -⟩ := List.cons.inj happ
      rw [List.nil_append, List.cons_append, literalText_plain hc, hnone, hopener]
  | case6 c cs hc hclose hopen hbreak =>
    dsimp only at h
    have hfeed : c = '\n' := by
      simp only [Bool.and_eq_true, beq_iff_eq] at hbreak
      exact hbreak.1
    obtain ⟨zs, rfl, -⟩ := h.uncons (by rw [hfeed]; decide)
    refine ⟨.lineBreak, ?_, rfl⟩
    rw [List.nil_append, literalText_plain hc, h.after?_eq_none hd.closing hclose,
      h.opener?_eq_none hd hopen, if_pos hbreak]
  | case7 c cs hc hclose hopen hbreak ih =>
    obtain ⟨stop, heq, hstop⟩ := ih h
    have hnear := Near.append (literalText d cs).taken (show Near (literalText d cs).rest ys from h)
    rw [literalText_append] at hnear
    replace hnear := Near.cons c hnear
    refine ⟨stop, ?_, hstop⟩
    simp only [LiteralCut.prepend, List.cons_append, List.nil_append]
    rw [literalText_plain hc, hnear.after?_eq_none hd.closing hclose,
      hnear.opener?_eq_none hd hopen, if_neg hbreak, heq]
    rfl

/-! ## Steps -/

/-- The step with other characters left. -/
def Found.leaving (found : Found) (ys : List Char) : Found := { found with rest := ys }

/-- The first of several markers that stands in a text, with what follows it. -/
theorem findSome?_near {α : Type} {f : α → List Char → Option (α × List Char)} {m : α → String}
    (hf : ∀ x, (f x = fun _ => none) ∨ f x = fun cs => (after? (m x) cs).map fun r => (x, r))
    {xs : List α} (hm : ∀ x ∈ xs, gapless (m x) = true) {cs ys : List Char} (h : Near cs ys) :
    (xs.findSome? (f · cs) = none → xs.findSome? (f · ys) = none) ∧
      ∀ {x r r'}, xs.findSome? (f · cs) = some (x, r) → ys = (m x).toList ++ r' →
        xs.findSome? (f · ys) = some (x, r') := by
  induction xs with
  | nil => exact ⟨fun _ => rfl, nofun⟩
  | cons x xs ih =>
    obtain ⟨hnone, hsome⟩ := ih fun x hx => hm x (List.mem_cons_of_mem _ hx)
    rcases hf x with hx | hx
    · simp only [List.findSome?_cons, hx]
      exact ⟨hnone, hsome⟩
    · cases hcs : after? (m x) cs with
      | none =>
        have hys := h.after?_eq_none (hm x (List.mem_cons_self ..)) hcs
        simp only [List.findSome?_cons, hx, hcs, hys, Option.map_none]
        exact ⟨hnone, hsome⟩
      | some r =>
        simp only [List.findSome?_cons, hx, hcs, Option.map_some]
        refine ⟨nofun, ?_⟩
        rintro y r₁ r' ⟨⟩ rfl
        rw [after?_append (after?_eq_some hcs).2, Option.map_some]

/-- The same literals open. -/
theorem literalAt?_near {ds : List Delimiter} (hds : ∀ d ∈ ds, d.Spaced) {cs ys : List Char}
    (h : Near cs ys) :
    (literalAt? ds cs = none → literalAt? ds ys = none) ∧
      ∀ {d r r'}, literalAt? ds cs = some (d, r) → ys = d.opening.toList ++ r' →
        literalAt? ds ys = some (d, r') :=
  findSome?_near (m := Delimiter.opening)
    (f := fun (d : Delimiter) cs => (after? d.opening cs).map fun r => (d, r))
    (fun _ => .inr rfl) (fun d hd => (hds d hd).opening) h

/-- The same operators stand, since none has a blank in it. -/
theorem operatorAt?_near {ops : List String} (hops : ∀ o ∈ ops, gapless o = true)
    {cs ys : List Char} (h : Near cs ys) :
    (operatorAt? ops cs = none → operatorAt? ops ys = none) ∧
      ∀ {o r r'}, operatorAt? ops cs = some (o, r) → ys = o.toList ++ r' →
        operatorAt? ops ys = some (o, r') := by
  refine findSome?_near (m := id) (f := fun (o : String) cs =>
    if o.utf8ByteSize > 1 then (after? o cs).map fun r => (o, r) else none) (fun o => ?_) hops h
  by_cases ho : o.utf8ByteSize > 1
  · exact .inr (funext fun cs => if_pos ho)
  · exact .inl (funext fun cs => if_neg ho)

/-- A literal is opened alike. -/
theorem openLiteral_near {d : Delimiter} (hd : d.Spaced) {outer : List Mode} {r ys : List Char}
    (h : Near (openLiteral d outer r).rest ys) :
    ∃ r', (openLiteral d outer r).taken ++ ys = d.opening.toList ++ r' ∧
      openLiteral d outer r' = (openLiteral d outer r).leaving ys := by
  obtain ⟨modes, heq, -⟩ := openLiteral_cases d outer r
  rw [heq] at h
  obtain ⟨stop, hlit, hstop⟩ := literalText_near hd h
  refine ⟨(literalText d r).taken ++ ys, ?_, ?_⟩
  · rw [heq]
    simp [Found.ofCut, LiteralCut.prepend]
  · simp only [openLiteral, hlit, LiteralCut.prepend]
    cases hs : (literalText d r).stop with
    | opener text code =>
      rw [hs] at hstop
      cases stop with
      | opener text' code' => rfl
      | _ => cases hstop
    | _ =>
      rw [hs] at hstop
      cases hstop
      rfl

/-- A literal goes on alike behind code. -/
theorem resume_near {d : Delimiter} (hd : d.Spaced) {outer : List Mode} {cs ys : List Char}
    (h : Near (resume d outer cs).rest ys) :
    resume d outer ((resume d outer cs).taken ++ ys) = (resume d outer cs).leaving ys := by
  cases hstop : (literalText d cs).stop with
  | opener text code =>
    have hrest := (literalText_opener hstop).1
    cases hempty : (literalText d cs).taken.isEmpty with
    | true =>
      -- The opener is a token of its own, so the text that is near starts with it too.
      have heq : resume d outer cs = ⟨.interpolation, text.toList, code, .code d 0 :: outer⟩ := by
        simp only [resume, hstop, hempty, if_true]
      rw [heq] at h ⊢
      have hnear := Near.append text.toList h
      rw [← hrest] at hnear
      obtain ⟨stop, hlit, hnext⟩ := literalText_near hd hnear
      rw [List.isEmpty_iff.mp hempty, List.nil_append] at hlit
      rw [hstop] at hnext
      cases stop with
      | opener text' code' =>
        obtain ⟨rfl, -⟩ := hnext
        have hcode : (literalText d (text'.toList ++ ys)).rest = text'.toList ++ code' :=
          (literalText_opener (by rw [hlit])).1
        rw [hlit] at hcode
        obtain rfl := List.append_cancel_left hcode
        simp only [resume, hlit, List.isEmpty_nil, if_true]
        rfl
      | _ => cases hnext
    | false =>
      have heq : resume d outer cs =
          .ofCut .stringLiteral (.literal d :: outer) (literalText d cs).toCut := by
        simp only [resume, hstop, hempty, Bool.false_eq_true, if_false]
      rw [heq] at h ⊢
      obtain ⟨stop, hlit, hnext⟩ := literalText_near hd h
      rw [hstop] at hnext
      cases stop with
      | opener text' code' =>
        simp only [resume, Found.ofCut, hlit, hempty, Bool.false_eq_true, if_false]
        rfl
      | _ => cases hnext
  | _ =>
    have heq : resume d outer cs = .ofCut .stringLiteral outer (literalText d cs).toCut := by
      simp only [resume, hstop]
    rw [heq] at h ⊢
    obtain ⟨stop, hlit, hnext⟩ := literalText_near hd h
    rw [hstop] at hnext
    cases hnext
    simp only [resume, Found.ofCut, hlit]
    rfl

/-- A symbol takes one character, whatever follows. -/
theorem symbol_near (modes : List Mode) (c : Char) (cs ys : List Char) :
    (symbol modes c cs).taken = [c] ∧
      symbol modes c ys = (symbol modes c cs).leaving ys := by
  unfold symbol
  repeat' split
  all_goals exact ⟨rfl, rfl⟩

/-- The token of code that starts with `c` where no blank and no comment starts. -/
def codeToken (l : Language) (modes : List Mode) (c : Char) (cs : List Char) : Found :=
  if l.strings.quotedIdentifier == some c then
    .ofCut .identifier modes ((quotedText c cs).prepend [c])
  else
    match literalAt? l.strings.delimiters (c :: cs) with
    | some (d, r) => openLiteral d modes r
    | none =>
      if l.isIdentifierStart c then
        let cut := (takeAll l.isIdentifierChar cs).prepend [c]
        let kind := if l.isKeyword (String.ofList cut.taken) then .keyword else .identifier
        .ofCut kind modes cut
      else if Text.isAsciiDigit c then
        .ofCut .number modes ((numberText cs).prepend [c])
      else
        match operatorAt? l.operators (c :: cs) with
        | some (op, r) => ⟨.operator, op.toList, r, modes⟩
        | none => symbol modes c cs

/-- No blank and no comment starts at the front of a text. -/
def startsToken (l : Language) (c : Char) (cs : List Char) : Bool :=
  c != '\n' && !Text.isBlank c && !(l.comments.line.any fun m => (after? m (c :: cs)).isSome) &&
    (blockAt? l.comments (c :: cs)).isNone

theorem codeStep_eq_codeToken {l : Language} {c : Char} {cs : List Char}
    (h : startsToken l c cs = true) (modes : List Mode) :
    codeStep l modes c cs = codeToken l modes c cs := by
  simp only [startsToken, Bool.and_eq_true, Bool.not_eq_true', bne_iff_ne, ne_eq,
    Option.isNone_iff_eq_none] at h
  obtain ⟨⟨⟨hfeed, hblank⟩, hline⟩, hblock⟩ := h
  rw [codeStep, if_neg (by simpa using hfeed), if_neg (by simp [hblank]), if_neg (by simp [hline]),
    hblock]
  rfl

/-- Where a significant token was found, no blank and no comment starts. -/
theorem startsToken_of_codeStep {l : Language} {modes : List Mode} {c : Char} {cs : List Char}
    (hk : (codeStep l modes c cs).kind.isTrivia = false) : startsToken l c cs = true := by
  unfold codeStep at hk
  split at hk
  · cases hk
  split at hk
  · cases hk
  split at hk
  · cases hk
  split at hk
  · cases hk
  · simp_all [startsToken]

/-- Tokens start at the same places. -/
theorem startsToken_near {l : Language} (hl : l.Spaced) {c : Char} {cs cs' : List Char}
    (h : Near (c :: cs) (c :: cs')) (hs : startsToken l c cs = true) :
    startsToken l c cs' = true := by
  simp only [startsToken, Bool.and_eq_true, Bool.not_eq_true', Option.isNone_iff_eq_none,
    List.any_eq_false, Bool.not_eq_true, Option.isSome_eq_false_iff] at hs ⊢
  obtain ⟨⟨hblank, hline⟩, hblock⟩ := hs
  refine ⟨⟨hblank, fun m hm => h.after?_eq_none (hl.line m hm).1 (hline m hm)⟩, ?_⟩
  simp only [blockAt?] at hblock ⊢
  cases hb : l.comments.block with
  | none => rfl
  | some b =>
    rw [hb, Option.bind_some, Option.map_eq_none_iff] at hblock
    rw [Option.bind_some, h.after?_eq_none (hl.block b hb).1 hblock, Option.map_none]

/-- A significant token of code is the same in texts that are near. -/
theorem codeToken_near {l : Language} (hl : l.Spaced) {modes : List Mode} {c : Char}
    {cs ys : List Char} (h : Near (codeToken l modes c cs).rest ys) :
    (∃ cs', (codeToken l modes c cs).taken ++ ys = c :: cs' ∧
      (Near (c :: cs) (c :: cs') →
        codeToken l modes c cs' = (codeToken l modes c cs).leaving ys)) := by
  unfold codeToken at h ⊢
  split at h
  · rename_i hquote
    rw [if_pos hquote]
    refine ⟨(quotedText c cs).taken ++ ys, rfl, fun _ => ?_⟩
    rw [if_pos hquote, quotedText_near h]
    rfl
  rename_i hquote
  simp only [if_neg hquote]
  split at h
  · rename_i d r hd
    obtain ⟨hmem, happ, hpos⟩ := literalAt?_eq_some hd
    obtain ⟨r', htaken, hopen⟩ := openLiteral_near (hl.delimiters d hmem) h
    cases hm : d.opening.toList with
    | nil => exact absurd hm (toList_ne_nil_of_length_pos hpos)
    | cons x m =>
      rw [hm, List.cons_append] at happ
      obtain ⟨rfl, -⟩ := List.cons.inj happ
      refine ⟨m ++ r', by rw [htaken, hm]; rfl, fun hnear => ?_⟩
      rw [(literalAt?_near hl.delimiters hnear).2 hd (by rw [hm]; rfl)]
      exact hopen
  rename_i hlit
  split at h
  · rename_i hstart
    simp only [if_pos hstart]
    refine ⟨(takeAll l.isIdentifierChar cs).taken ++ ys, rfl, fun hnear => ?_⟩
    rw [(literalAt?_near hl.delimiters hnear).1 hlit, takeAll_near hl.identifiers h]
    rfl
  rename_i hstart
  simp only [if_neg hstart]
  split at h
  · rename_i hdigit
    simp only [if_pos hdigit]
    refine ⟨(numberText cs).taken ++ ys, rfl, fun hnear => ?_⟩
    rw [(literalAt?_near hl.delimiters hnear).1 hlit, numberText_near h]
    rfl
  rename_i hdigit
  simp only [if_neg hdigit]
  split at h
  · rename_i o r ho
    obtain ⟨-, happ, hpos⟩ := operatorAt?_eq_some ho
    cases hm : o.toList with
    | nil => exact absurd hm (toList_ne_nil_of_length_pos hpos)
    | cons x m =>
      rw [hm, List.cons_append] at happ
      obtain ⟨rfl, -⟩ := List.cons.inj happ
      refine ⟨m ++ ys, rfl, fun hnear => ?_⟩
      rw [(literalAt?_near hl.delimiters hnear).1 hlit,
        (operatorAt?_near hl.operators hnear).2 ho (by rw [hm]; rfl)]
      simp only [hm]
      rfl
  · rename_i hop
    refine ⟨ys, by rw [(symbol_near modes c cs ys).1]; rfl, fun hnear => ?_⟩
    rw [(literalAt?_near hl.delimiters hnear).1 hlit, (operatorAt?_near hl.operators hnear).1 hop]
    exact (symbol_near modes c cs ys).2

/-- A step through code takes the same token. -/
theorem codeStep_near {l : Language} (hl : l.Spaced) {modes : List Mode} {c : Char}
    {cs ys : List Char} (hk : (codeStep l modes c cs).kind.isTrivia = false)
    (h : Near (codeStep l modes c cs).rest ys) :
    ∃ cs', (codeStep l modes c cs).taken ++ ys = c :: cs' ∧
      codeStep l modes c cs' = (codeStep l modes c cs).leaving ys := by
  have hstarts := startsToken_of_codeStep hk
  have happ := codeStep_append l modes c cs
  have hnear := Near.append (codeStep l modes c cs).taken h
  rw [happ] at hnear
  rw [codeStep_eq_codeToken hstarts] at h hnear ⊢
  obtain ⟨cs', htaken, htoken⟩ := codeToken_near hl h
  rw [htaken] at hnear
  refine ⟨cs', htaken, ?_⟩
  rw [codeStep_eq_codeToken (startsToken_near hl hnear hstarts), htoken hnear]

/-- A significant token is the same in texts that are near. -/
theorem step_near {l : Language} (hl : l.Spaced) {modes : List Mode} (hmodes : Nested l modes)
    {c : Char} {cs ys : List Char} (hk : (step l modes c cs).kind.isTrivia = false)
    (h : Near (step l modes c cs).rest ys) :
    ∃ c' cs', (step l modes c cs).taken ++ ys = c' :: cs' ∧
      step l modes c' cs' = (step l modes c cs).leaving ys := by
  by_cases hlit : ∃ d outer, modes = .literal d :: outer
  · obtain ⟨d, outer, rfl⟩ := hlit
    have hd := hl.delimiters d hmodes.around.1.1
    have hresume : ∀ c cs, step l (.literal d :: outer) c cs = resume d outer (c :: cs) :=
      fun _ _ => rfl
    rw [hresume] at h ⊢
    have hnear := Near.append (resume d outer (c :: cs)).taken h
    rw [resume_append] at hnear
    have heq := resume_near hd h
    cases hys : (resume d outer (c :: cs)).taken ++ ys with
    | nil =>
      rw [hys] at hnear
      cases hnear
    | cons c' cs' =>
      rw [hys] at heq
      exact ⟨c', cs', rfl, heq⟩
  · have hcode : ∀ d outer, modes ≠ .literal d :: outer := fun d outer heq =>
      hlit ⟨d, outer, heq⟩
    rw [step_code hcode] at hk h ⊢
    obtain ⟨cs', htaken, heq⟩ := codeStep_near hl hk h
    exact ⟨c, cs', htaken, by rw [step_code hcode, heq]⟩

/-! ## Blanks and comments -/

/-- No token of code is a blank or a comment. -/
theorem codeToken_kind (l : Language) (modes : List Mode) (c : Char) (cs : List Char) :
    (codeToken l modes c cs).kind.isTrivia = false := by
  unfold codeToken
  split
  · rfl
  split
  · rename_i d r hd
    obtain ⟨modes', hopen, -⟩ := openLiteral_cases d modes r
    rw [hopen]
    rfl
  split
  · dsimp only
    split
    · rfl
    · rfl
  split
  · rfl
  split
  · rfl
  · rcases symbol_cases modes c cs with ⟨hkind | hkind, -⟩ | ⟨d, outer, -, hsymbol⟩
    · rw [hkind]
      rfl
    · rw [hkind]
      rfl
    · rw [hsymbol]
      rfl

/-- How a line feed, a blank or a comment is found in code. -/
theorem codeStep_of_trivia {l : Language} {modes : List Mode} {c : Char} {cs : List Char}
    (hk : (codeStep l modes c cs).kind.isTrivia = true) :
    (c = '\n' ∧ codeStep l modes c cs = ⟨.newline, [c], cs, modes⟩) ∨
      (c ≠ '\n' ∧ Text.isBlank c = true ∧ codeStep l modes c cs =
        .ofCut .whitespace modes
          ((takeAll (fun x => Text.isBlank x && x != '\n') cs).prepend [c])) ∨
      (c ≠ '\n' ∧ (∃ m ∈ l.comments.line, ∃ r, after? m (c :: cs) = some r) ∧
        codeStep l modes c cs =
          .ofCut .lineComment modes ((takeAll (· != '\n') cs).prepend [c])) ∨
      ∃ b r, blockAt? l.comments (c :: cs) = some (b, r) ∧ codeStep l modes c cs =
        .ofCut .blockComment modes
          ((commentText b l.comments.nested 0 r).prepend b.opening.toList) := by
  unfold codeStep at hk ⊢
  split
  · rename_i hfeed
    exact .inl ⟨beq_iff_eq.mp hfeed, rfl⟩
  rename_i hfeed
  have hne : c ≠ '\n' := fun heq => hfeed (beq_iff_eq.mpr heq)
  split
  · rename_i hblank
    exact .inr (.inl ⟨hne, hblank, rfl⟩)
  rename_i hblank
  split
  · rename_i hline
    obtain ⟨m, hm, hafter⟩ := List.any_eq_true.mp hline
    exact .inr (.inr (.inl ⟨hne, ⟨m, hm, Option.isSome_iff_exists.mp hafter⟩, rfl⟩))
  rename_i hline
  split
  · rename_i b r hblock
    exact .inr (.inr (.inr ⟨b, r, hblock, rfl⟩))
  · rename_i hblock
    rw [if_neg hfeed, if_neg hblank, if_neg hline, hblock] at hk
    change (codeToken l modes c cs).kind.isTrivia = true at hk
    rw [codeToken_kind] at hk
    cases hk

/-- A text that starts with a marker starts with its first character. -/
theorem head_of_after? {m : String} {c x : Char} {cs r : List Char}
    (h : after? m (c :: cs) = some r) (hm : m.toList.head? = some x) : c = x := by
  obtain ⟨happ, -⟩ := after?_eq_some h
  obtain ⟨t, ht⟩ := List.head?_eq_some_iff.mp hm
  rw [ht, List.cons_append] at happ
  exact (List.cons.inj happ).1

/-- What a token between the significant ones can be. -/
theorem codeStep_trivia {l : Language} (hl : l.Spaced) {modes : List Mode} {c : Char}
    {cs : List Char} (hk : (codeStep l modes c cs).kind.isTrivia = true) :
    (codeStep l modes c cs).modes = modes ∧
      ((codeStep l modes c cs).kind = .newline ∧ (codeStep l modes c cs).taken = ['\n'] ∨
        (codeStep l modes c cs).kind = .whitespace ∧
          (∀ x ∈ (codeStep l modes c cs).taken, Text.isBlank x = true ∧ x ≠ '\n') ∨
        ((codeStep l modes c cs).kind = .lineComment ∨
          (codeStep l modes c cs).kind = .blockComment) ∧
          ∃ t, (codeStep l modes c cs).taken = '/' :: t) := by
  rcases codeStep_of_trivia hk with ⟨rfl, heq⟩ | ⟨hfeed, hblank, heq⟩ |
      ⟨-, ⟨m, hm, r, hr⟩, heq⟩ | ⟨b, r, hb, heq⟩
  · rw [heq]
    exact ⟨rfl, .inl ⟨rfl, rfl⟩⟩
  · rw [heq]
    refine ⟨rfl, .inr (.inl ⟨rfl, fun x hx => ?_⟩)⟩
    rcases List.mem_cons.mp hx with rfl | hx
    · exact ⟨hblank, hfeed⟩
    · simpa using List.mem_takeWhile_imp hx
  · obtain rfl := head_of_after? hr (hl.line m hm).2
    rw [heq]
    exact ⟨rfl, .inr (.inr ⟨.inl rfl, _, rfl⟩)⟩
  · obtain ⟨hblock, -, -⟩ := blockAt?_eq_some hb
    obtain ⟨t, ht⟩ := List.head?_eq_some_iff.mp (hl.block b hblock).2
    rw [heq]
    refine ⟨rfl, .inr (.inr ⟨.inr rfl, t ++ (commentText b l.comments.nested 0 r).taken, ?_⟩)⟩
    simp only [Found.ofCut, Cut.prepend, ht, List.cons_append]

/-- The first lexeme comes from a step, unless the step takes a blank or a comment. -/
theorem lexemes_cons (l : Language) (modes : List Mode) (pending : Bool) (c : Char)
    (cs : List Char) :
    lexemes l modes pending (c :: cs) =
      if (step l modes c cs).token.breaksLine then
        lexemes l (step l modes c cs).modes true (step l modes c cs).rest
      else if (step l modes c cs).kind.isTrivia then
        lexemes l (step l modes c cs).modes pending (step l modes c cs).rest
      else
        ⟨(step l modes c cs).token, pending⟩ ::
          lexemes l (step l modes c cs).modes false (step l modes c cs).rest := by
  rw [lexemes, tokens_cons, lexemesFrom]
  rfl

/-- Blanks in code do nothing but break the line. -/
theorem lexemes_blanks {l : Language} {modes : List Mode}
    (hcode : ∀ d outer, modes ≠ .literal d :: outer) {t : List Char}
    (ht : ∀ x ∈ t, Text.isBlank x = true) (pending : Bool) (cs : List Char) :
    lexemes l modes pending (t ++ cs) = lexemes l modes (pending || t.contains '\n') cs := by
  rw [lexemes_eq_lined pending 0, linedLexemes_blanks hcode ht, ← lexemes_eq_lined]

end Scan

/-! ## Sources without comments -/

/-- The text of a token, or a blank in place of a comment.  A comment that spans lines gives way
to a line feed. -/
def Token.blanked (t : Token) : List Char :=
  match t.kind with
  | .lineComment => [' ']
  | .blockComment => if t.text.toList.contains '\n' then ['\n'] else [' ']
  | _ => t.text.toList

/-- The source with a blank in place of each comment. -/
def blankComments (l : Language) (source : String) : String :=
  String.ofList ((scan l source).flatMap Token.blanked)

namespace Scan

/-- The text with a blank in place of each comment. -/
def blanked (l : Language) (modes : List Mode) (cs : List Char) : List Char :=
  (tokens l modes cs).flatMap Token.blanked

theorem blanked_nil (l : Language) (modes : List Mode) : blanked l modes [] = [] := by
  rw [blanked, tokens_nil, List.flatMap_nil]

/-- A text is blanked token by token. -/
theorem blanked_cons (l : Language) (modes : List Mode) (c : Char) (cs : List Char) :
    blanked l modes (c :: cs) = (step l modes c cs).token.blanked ++
      blanked l (step l modes c cs).modes (step l modes c cs).rest := by
  rw [blanked, tokens_cons, List.flatMap_cons]
  rfl

theorem blanked_of_significant {t : Token} (h : t.kind.isTrivia = false) :
    t.blanked = t.text.toList := by
  unfold Token.blanked
  split
  · rename_i hk
    rw [hk] at h
    cases h
  · rename_i hk
    rw [hk] at h
    cases h
  · rfl

/-- Blanks and comments stand in code only. -/
theorem code_of_trivia {l : Language} {modes : List Mode} {c : Char} {cs : List Char}
    (hk : (step l modes c cs).kind.isTrivia = true) (d : Delimiter) (outer : List Mode) :
    modes ≠ .literal d :: outer := by
  rintro rfl
  change (resume d outer (c :: cs)).kind.isTrivia = true at hk
  rcases resume_cases d outer (c :: cs) with ⟨_, _, -, -, heq⟩ | ⟨_, _, -, -, heq⟩ | ⟨-, heq⟩
  all_goals
    rw [heq] at hk
    cases hk

/-- Blanks are left as they are, and a comment starts with a slash and gives way to a blank. -/
theorem blanked_trivia {l : Language} (hl : l.Spaced) {modes : List Mode} {c : Char}
    {cs : List Char} (hk : (step l modes c cs).kind.isTrivia = true) :
    (step l modes c cs).modes = modes ∧
      (∀ x ∈ (step l modes c cs).token.blanked, Text.isBlank x = true) ∧
      (step l modes c cs).token.breaksLine = (step l modes c cs).token.blanked.contains '\n' ∧
      ((step l modes c cs).token.blanked = (step l modes c cs).taken ∨
        ∃ t b, (step l modes c cs).taken = '/' :: t ∧ (b = ' ' ∨ b = '\n') ∧
          (step l modes c cs).token.blanked = [b]) := by
  have hcode := code_of_trivia hk
  rw [step_code hcode] at hk ⊢
  obtain ⟨hmodes, h⟩ := codeStep_trivia hl hk
  refine ⟨hmodes, ?_⟩
  generalize codeStep l modes c cs = found at h
  rcases h with ⟨hkind, htaken⟩ | ⟨hkind, hall⟩ | ⟨hkind, t, ht⟩
  · have hblanked : found.token.blanked = found.taken := by
      simp [Token.blanked, Found.token, hkind]
    rw [hblanked, htaken]
    refine ⟨List.forall_mem_singleton.mpr rfl, ?_, .inl rfl⟩
    simp [Token.breaksLine, Found.token, hkind]
  · have hblanked : found.token.blanked = found.taken := by
      simp [Token.blanked, Found.token, hkind]
    rw [hblanked]
    refine ⟨fun x hx => (hall x hx).1, ?_, .inl rfl⟩
    have hnot : '\n' ∉ found.taken := fun hmem => (hall _ hmem).2 rfl
    simp [Token.breaksLine, Found.token, hkind, hnot]
  · have hblanked : ∃ b, (b = ' ' ∨ b = '\n') ∧ found.token.blanked = [b] ∧
        found.token.breaksLine = (b == '\n') := by
      rcases hkind with hkind | hkind
      · refine ⟨' ', .inl rfl, ?_, ?_⟩
        · simp [Token.blanked, Found.token, hkind]
        · simp [Token.breaksLine, Found.token, hkind]
      · cases hspan : found.taken.contains '\n' with
        | true =>
          refine ⟨'\n', .inr rfl, ?_, ?_⟩
          · simp only [Token.blanked, Found.token, hkind, String.toList_ofList, hspan, if_true]
          · simp only [Token.breaksLine, Found.token, hkind, String.toList_ofList, hspan]
            rfl
        | false =>
          refine ⟨' ', .inl rfl, ?_, ?_⟩
          · simp only [Token.blanked, Found.token, hkind, String.toList_ofList, hspan,
              Bool.false_eq_true, if_false]
          · simp only [Token.breaksLine, Found.token, hkind, String.toList_ofList, hspan]
            rfl
    obtain ⟨b, hb, hblank, hbreaks⟩ := hblanked
    rw [hblank, hbreaks]
    refine ⟨?_, ?_, .inr ⟨t, b, ht, hb, rfl⟩⟩
    · rcases hb with rfl | rfl <;> exact List.forall_mem_singleton.mpr rfl
    · rcases hb with rfl | rfl <;> rfl

/-- The text without comments is near the text. -/
theorem near_blanked {l : Language} (hl : l.Spaced) (modes : List Mode) (cs : List Char) :
    Near cs (blanked l modes cs) := by
  induction modes, cs using step_induction (l := l) with
  | nil modes =>
    rw [blanked_nil]
    exact .nil
  | cons modes c cs ih =>
    have happ := step_append l modes c cs
    rw [blanked_cons]
    cases hk : (step l modes c cs).kind.isTrivia with
    | false =>
      rw [blanked_of_significant hk, Found.token, String.toList_ofList]
      have hnear := Near.append (step l modes c cs).taken ih
      rwa [happ] at hnear
    | true =>
      obtain ⟨-, -, -, hblanked | ⟨t, b, ht, hb, hblanked⟩⟩ := blanked_trivia hl hk
      · rw [hblanked]
        have hnear := Near.append (step l modes c cs).taken ih
        rwa [happ] at hnear
      · rw [hblanked]
        rw [ht, List.cons_append] at happ
        rw [← happ]
        exact .cut hb

/-- The significant tokens stay the same without comments. -/
theorem lexemes_blanked {l : Language} (hl : l.Spaced) {modes : List Mode} (hmodes : Nested l modes)
    (pending : Bool) (cs : List Char) :
    lexemes l modes pending (blanked l modes cs) = lexemes l modes pending cs := by
  induction modes, cs using step_induction (l := l) generalizing pending with
  | nil modes => rw [blanked_nil]
  | cons modes c cs ih =>
    have ih := ih (hmodes.step c cs)
    rw [blanked_cons]
    cases hk : (step l modes c cs).kind.isTrivia with
    | false =>
      obtain ⟨c', cs', htaken, hstep⟩ := step_near hl hmodes hk (near_blanked hl _ _)
      rw [blanked_of_significant hk, Found.token, String.toList_ofList, htaken, lexemes_cons,
        lexemes_cons l modes pending c cs, hstep]
      simp only [Found.leaving, ih]
      rfl
    | true =>
      obtain ⟨hsame, hblank, hbreaks, -⟩ := blanked_trivia hl hk
      rw [hsame] at ih ⊢
      rw [lexemes_blanks (code_of_trivia hk) hblank, ih, lexemes_cons, hsame, hk, ← hbreaks]
      cases (step l modes c cs).token.breaksLine with
      | true => simp
      | false => simp

end Scan

/-! ## Built-in languages -/

theorem Language.canonical_identifierChars (l : Language) :
    l.canonical.identifierChars = l.identifierChars := by
  rw [Language.canonical]

theorem Language.canonical_isIdentifierChar (l : Language) (c : Char) :
    l.canonical.isIdentifierChar c = l.isIdentifierChar c := by
  simp only [Language.isIdentifierChar, Language.canonical_identifierChars]

/-- Canonical form sorts the delimiters and the operators, which adds none. -/
theorem Language.Spaced.canonical {l : Language} (h : l.Spaced) : l.canonical.Spaced := by
  constructor
  · exact h.line
  · exact h.block
  · intro d hd
    exact h.delimiters d (mem_canonicalDelimiters.mp hd)
  · intro o ho
    exact h.operators o (mem_canonicalOperators.mp ho).1
  · rw [Language.canonical_isIdentifierChar, Language.canonical_isIdentifierChar]
    exact h.identifiers

theorem spaced_of_delimiters {ds : List Delimiter}
    (h : ∀ d ∈ ds, (gapless d.opening = true ∧ gapless d.closing = true) ∧
      ∀ text ∈ d.interpolation, gapless text = true ∧ '/' ∉ text.toList) : ∀ d ∈ ds, d.Spaced := by
  intro d hd
  exact ⟨(h d hd).1.1, (h d hd).1.2, (h d hd).2⟩

/-- No built-in language has a marker with a blank in it. -/
theorem spaced_builtin {name : String} {l : Language}
    (h : Registry.builtin.lookup? name = some l) : l.Spaced := by
  rcases Registry.builtin_cases h with rfl | rfl | rfl | rfl | rfl
  all_goals
    apply Language.Spaced.canonical
    constructor
    · decide
    · decide
    · exact spaced_of_delimiters (by decide)
    · decide
    · decide +kernel

theorem Scan.Uniform.canonical {l : Language} (h : Scan.Uniform l) : Scan.Uniform l.canonical := by
  intro d hd
  exact h d (mem_canonicalDelimiters.mp hd)

/-- All built-in languages open code in literals by the same text. -/
theorem uniform_builtin {name : String} {l : Language}
    (h : Registry.builtin.lookup? name = some l) : Scan.Uniform l := by
  rcases Registry.builtin_cases h with rfl | rfl | rfl | rfl | rfl
  all_goals
    apply Scan.Uniform.canonical
    simp only [Scan.Uniform]
    decide

/-- The words of a built-in language have no quotes. -/
theorem legible_builtin {name : String} {l : Language}
    (h : Registry.builtin.lookup? name = some l) : l.Legible := by
  rcases Registry.builtin_cases h with rfl | rfl | rfl | rfl | rfl <;> constructor <;>
    decide +kernel

end Cyclomatic
