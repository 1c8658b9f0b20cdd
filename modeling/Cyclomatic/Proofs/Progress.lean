import Cyclomatic.Proofs.Interpolations

/-!
# Progress of the scanner

Every step of the scanner takes a character, but for one case: a literal of one line that is resumed
right before a line feed gives an empty token.  So an empty token is a piece of a literal, the token
before it is the closing brace of code inside that literal, and the token after it is the line feed
(`Scan.empty_between`).

Hence no two empty tokens are adjacent, each has a closing brace of its own, and a source has at
most as many tokens as bytes and closing braces together (`scan_progress`).
-/

namespace Cyclomatic

/-! ## Empty tokens -/

/-- The token has no bytes. -/
def Token.IsEmpty (t : Token) : Prop := t.start = t.stop

instance (t : Token) : Decidable t.IsEmpty := inferInstanceAs (Decidable (_ = _))

/-- The token is the brace that closes code inside a literal. -/
def Token.ClosesCode (t : Token) : Prop := t.kind = .interpolation ∧ t.text = "\x7d"

instance (t : Token) : Decidable t.ClosesCode := inferInstanceAs (Decidable (_ ∧ _))

/-- Tokens that are not empty have a byte of their own. -/
theorem Tiles.countP_le {start stop : Nat} {ts : List Token} (h : Tiles start stop ts) :
    start + ts.countP (fun t => ¬ t.IsEmpty) ≤ stop := by
  induction ts generalizing start with
  | nil => exact Nat.le_of_eq h
  | cons t ts ih =>
    obtain ⟨rfl, hle, hrest⟩ := h
    have hbound := ih hrest
    rw [List.countP_cons]
    split
    · rename_i hfilled
      have hne : t.start ≠ t.stop := of_decide_eq_true hfilled
      omega
    · omega

/-- Behind a first token, each empty token is paid for by the token before it, if that is always a
closing brace. -/
theorem countP_isEmpty_le {t : Token} {ts : List Token}
    (h : (t :: ts).IsChain fun s t => t.IsEmpty → s.ClosesCode) :
    ts.countP (fun t => t.IsEmpty) ≤ (t :: ts).countP fun t => t.ClosesCode := by
  induction ts generalizing t with
  | nil => exact Nat.zero_le _
  | cons s ts ih =>
    obtain ⟨hst, hrest⟩ := List.isChain_cons_cons.mp h
    have hbound := ih hrest
    rw [List.countP_cons, List.countP_cons]
    split
    · rename_i hempty
      rw [if_pos (decide_eq_true (hst (of_decide_eq_true hempty)))]
      omega
    · omega

/-- If every empty token stands right behind a closing brace, there are no more empty tokens than
closing braces. -/
theorem countP_isEmpty_le_of_closed {ts : List Token}
    (h : ∀ n t, ts[n]? = some t → t.IsEmpty → ∃ m s, n = m + 1 ∧ ts[m]? = some s ∧ s.ClosesCode) :
    ts.countP (fun t => t.IsEmpty) ≤ ts.countP fun t => t.ClosesCode := by
  cases ts with
  | nil => exact Nat.le_refl 0
  | cons t ts =>
    have hfirst : ¬ t.IsEmpty := by
      intro hempty
      obtain ⟨m, -, hm, -⟩ := h 0 t rfl hempty
      cases hm
    rw [List.countP_cons, if_neg (by simpa using hfirst)]
    refine countP_isEmpty_le (List.isChain_iff_getElem.mpr fun n hn hempty => ?_)
    obtain ⟨m, s, hm, hs, hcloses⟩ := h (n + 1) _ (List.getElem?_eq_getElem hn) hempty
    obtain rfl := Nat.succ.inj hm
    rw [List.getElem?_eq_getElem (Nat.lt_of_succ_lt hn)] at hs
    exact Option.some.inj hs ▸ hcloses

/-! ## What is read before a resumed literal -/

namespace Reading

variable {l : Language} {r r' : Reading} {t : Token} {ts : List Token} {d : Delimiter} {n : Nat}

theorem behind_of_interrupt {text : String} (h : r.interrupt d text = some r') :
    r'.behind = .code := by
  unfold interrupt at h
  split at h
  · cases h
    rfl
  · cases h

theorem behind_of_punctuate {text : String} (h : r.punctuate text = some r') :
    r'.behind = .code := by
  unfold punctuate at h
  repeat' split at h
  all_goals
    cases h
    try rfl

/-- Only the closing brace of code leaves a literal to be resumed. -/
theorem closesCode_of_read (h : r.read l t = some r') (hbehind : r'.behind = .resumed d) :
    t.ClosesCode := by
  have hcode : r'.behind ≠ .code := by simp [hbehind]
  unfold read at h
  split at h
  · exact absurd (behind_of_interrupt h) hcode
  · cases h
    cases hbehind
  · cases h
  · rename_i hkind
    split at h
    · rename_i htext
      exact ⟨hkind, htext⟩
    · exact absurd (behind_of_interrupt h) hcode
  · rename_i hkind
    split at h
    · rename_i htext
      exact ⟨hkind, htext⟩
    · cases h
  · obtain ⟨e, -, rfl⟩ := Option.map_eq_some_iff.mp h
    cases hbehind
  · exact absurd (behind_of_punctuate h) hcode
  · cases h
    cases hbehind

/-- If a literal is to be resumed, the token read last is the closing brace of code. -/
theorem closesCode_of_resumed (h : ofTokens? l (ts.take n) = some r) (hn : n ≤ ts.length)
    (hbehind : r.behind = .resumed d) : ∃ m t, n = m + 1 ∧ ts[m]? = some t ∧ t.ClosesCode := by
  cases n with
  | zero =>
    cases h
    cases hbehind
  | succ m =>
    rw [← List.take_append_getElem hn, ofTokens?, List.foldlM_append] at h
    obtain ⟨r', -, hread⟩ := Option.bind_eq_some_iff.mp h
    rw [List.foldlM_cons] at hread
    obtain ⟨r'', hlast, hnil⟩ := Option.bind_eq_some_iff.mp hread
    cases hnil
    exact ⟨m, ts[m], rfl, List.getElem?_eq_getElem hn, closesCode_of_read hlast hbehind⟩

end Reading

/-! ## Steps and places -/

namespace Scan

variable {l : Language} {modes modes' : List Mode} {c : Char} {cs rest : List Char} {n : Nat}

/-- The step at a place finds the token behind it and leads to the next place. -/
theorem exists_token_of_placeAfter (h : placeAfter l n ⟨modes, cs⟩ = ⟨modes', c :: rest⟩)
    (start : Nat) :
    (∃ s, (scanFrom l modes start cs)[n]? =
      some ⟨(step l modes' c rest).kind, String.ofList (step l modes' c rest).taken, s,
        s + (String.ofList (step l modes' c rest).taken).utf8ByteSize⟩) ∧
    placeAfter l (n + 1) ⟨modes, cs⟩ =
      ⟨(step l modes' c rest).modes, (step l modes' c rest).rest⟩ := by
  induction n generalizing modes cs start with
  | zero =>
    cases h
    rw [scanFrom_cons]
    exact ⟨⟨start, rfl⟩, rfl⟩
  | succ n ih =>
    cases cs with
    | nil => cases h
    | cons x xs =>
      rw [scanFrom_cons]
      exact ih h _

/-- The scan goes on as long as there are tokens, and no longer. -/
theorem ahead_placeAfter_eq_nil_iff (start : Nat) :
    (placeAfter l n ⟨modes, cs⟩).ahead = [] ↔ (scanFrom l modes start cs).length ≤ n := by
  induction n generalizing modes cs start with
  | zero =>
    cases cs with
    | nil => simp [placeAfter, scanFrom]
    | cons x xs => simp [placeAfter, scanFrom_cons]
  | succ n ih =>
    cases cs with
    | nil => simp [placeAfter, scanFrom]
    | cons x xs =>
      rw [scanFrom_cons, List.length_cons, Nat.add_le_add_iff_right]
      exact ih _

/-- A resumed literal that takes nothing ends before a line feed. -/
theorem resume_of_taken_eq_nil {d : Delimiter} (hd : d.Sound) {outer : List Mode}
    (h : (resume d outer (c :: cs)).taken = []) :
    c = '\n' ∧ (literalText d (c :: cs)).stop = .lineBreak ∧
      resume d outer (c :: cs) = ⟨.stringLiteral, [], c :: cs, outer⟩ := by
  rcases resume_cases d outer (c :: cs) with ⟨text, code, hopener, -, heq⟩ | ⟨_, _, -, hne, heq⟩ |
      ⟨hstop, heq⟩
  · rw [heq] at h
    exact absurd h (toList_ne_nil_of_length_pos (hd.opener_length hopener))
  · rw [heq] at h
    exact absurd h hne
  · rw [heq] at h ⊢
    have htaken : (literalText d (c :: cs)).taken = [] := h
    have hrest : (literalText d (c :: cs)).rest = c :: cs := by
      have happ := literalText_append d (c :: cs)
      rwa [htaken, List.nil_append] at happ
    cases hcut : (literalText d (c :: cs)).stop with
    | closed =>
      obtain ⟨front, hfront⟩ := literalText_closed hcut
      rw [htaken] at hfront
      exact absurd (List.append_eq_nil_iff.mp hfront.symm).2
        (toList_ne_nil_of_length_pos hd.closing)
    | opener text code => exact absurd hcut (hstop text code)
    | lineBreak =>
      obtain ⟨-, r, hr⟩ := literalText_lineBreak hcut
      rw [hrest] at hr
      exact ⟨(List.cons.inj hr).1, rfl, by rw [Found.ofCut, htaken, hrest]⟩
    | inputEnd =>
      have hnil := literalText_inputEnd hcut
      rw [hrest] at hnil
      cases hnil

/-- A step that takes nothing goes on with a literal behind a closing brace.  The literal ends, and
the line feed ahead is left to the code around it. -/
theorem step_of_taken_eq_nil {r : Reading} (hsound : ∀ d ∈ l.strings.delimiters, d.Sound)
    (hnested : Nested l modes) (hfits : r.Fits ⟨modes, c :: cs⟩)
    (h : (step l modes c cs).taken = []) :
    (∃ d, r.behind = .resumed d) ∧ c = '\n' ∧
      ∃ outer, (∀ d outer', outer ≠ .literal d :: outer') ∧
        step l modes c cs = ⟨.stringLiteral, [], c :: cs, outer⟩ := by
  cases hfits with
  | code hcode =>
    have hmodes : ∀ d outer, r.opened.map Opened.mode ≠ .literal d :: outer := by
      intro d outer heq
      obtain ⟨o, os, -, hmode, -⟩ := List.map_eq_cons_iff.mp heq
      cases hmode
    rw [step_code hmodes] at h
    exact absurd h (codeStep_taken_ne_nil l _ c cs)
  | @interrupted d _ _ _ _ hahead =>
    -- An opener of code is ahead, and it has a character.
    obtain ⟨-, hstop, -⟩ := resume_of_taken_eq_nil (hsound d hnested.around.1.1) h
    rw [hahead] at hstop
    cases hstop
  | @resumed d _ hresumed =>
    obtain ⟨⟨hd, -⟩, houter⟩ := hnested.around
    obtain ⟨hc, -, heq⟩ := resume_of_taken_eq_nil (hsound d hd) h
    exact ⟨⟨d, hresumed⟩, hc, _, ne_literal_of_codes houter, heq⟩

end Scan

/-! ## Empty tokens and their neighbours -/

/-- The delimiters of a table in canonical form are those of the table as given. -/
theorem sound_of_mem_delimiters {l table : Language} (h : l.validate = .ok table) :
    ∀ d ∈ table.strings.delimiters, d.Sound := by
  rw [delimiters_of_validate h]
  intro d hd
  exact l.sound_of_validate h d (mem_canonicalDelimiters.mp hd)

section Neighbours

variable {l table : Language} {source : String} {n : Nat} {t : Token}

/-- A token is empty only if its step takes nothing. -/
theorem taken_eq_nil_of_isEmpty (ht : (scan table source)[n]? = some t) (hempty : t.IsEmpty) :
    ∃ modes c cs, Scan.placeAfter table n (.first source) = ⟨modes, c :: cs⟩ ∧
      t.kind = (Scan.step table modes c cs).kind ∧ (Scan.step table modes c cs).taken = [] := by
  obtain ⟨-, modes, c, cs, hplace, -⟩ := Scan.exists_step_of_getElem? ht
  obtain ⟨⟨s, hs⟩, -⟩ := Scan.exists_token_of_placeAfter hplace 0
  obtain rfl := Option.some.inj (ht.symm.trans hs)
  have hsize := Nat.left_eq_add.mp hempty
  rw [String.utf8ByteSize_eq_zero_iff, String.ofList_eq_empty_iff] at hsize
  exact ⟨modes, c, cs, hplace, rfl, hsize⟩

/-- A token that is found outside the text of a literal has a byte. -/
theorem not_isEmpty_of_code (ht : (scan table source)[n]? = some t)
    (hcode : ∀ d outer, (Scan.placeAfter table n (.first source)).modes ≠ .literal d :: outer) :
    ¬ t.IsEmpty := by
  intro hempty
  obtain ⟨modes, c, cs, hplace, -, hnil⟩ := taken_eq_nil_of_isEmpty ht hempty
  rw [hplace] at hcode
  rw [Scan.step_code hcode] at hnil
  exact Scan.codeStep_taken_ne_nil table modes c cs hnil

/-- An empty token is a piece of a literal between a closing brace and a line feed. -/
theorem empty_between (h : l.validate = .ok table) (ht : (scan table source)[n]? = some t)
    (hempty : t.IsEmpty) :
    t.kind = .stringLiteral ∧
      (∃ m s, n = m + 1 ∧ (scan table source)[m]? = some s ∧ s.ClosesCode) ∧
      ∃ b, (scan table source)[n + 1]? = some b ∧ b.kind = .newline := by
  have hsound := sound_of_mem_delimiters h
  obtain ⟨modes, c, cs, hplace, hkind, hnil⟩ := taken_eq_nil_of_isEmpty ht hempty
  have hstart : Reading.Fits {} (.first source) := .behind_code
  obtain ⟨r, hread, hnested, hfits⟩ := hstart.run hsound .plain 0 n
  rw [← Scan.Place.first, hplace] at hnested hfits
  obtain ⟨⟨d, hbehind⟩, rfl, outer, houter, hstep⟩ :=
    Scan.step_of_taken_eq_nil hsound hnested hfits hnil
  have hn : n ≤ (scan table source).length :=
    Nat.le_of_lt (List.getElem?_eq_some_iff.mp ht).1
  refine ⟨by rw [hkind, hstep], Reading.closesCode_of_resumed hread hn hbehind, ?_⟩
  obtain ⟨-, hnext⟩ := Scan.exists_token_of_placeAfter hplace 0
  rw [hstep] at hnext
  obtain ⟨⟨s, hs⟩, -⟩ := Scan.exists_token_of_placeAfter hnext 0
  refine ⟨_, hs, ?_⟩
  rw [Scan.step_code houter]
  rfl

end Neighbours

/-- The scanner makes progress.  For every table that is accepted, the scan of a source ends after
its last token.  An empty token is a piece of a literal right behind the closing brace of code and
right before a line feed, so no two are adjacent, and no token of code is empty.  There are at most
as many tokens as bytes of the source and closing braces of code. -/
theorem scan_progress {l table : Language} (h : l.validate = .ok table) (source : String) :
    (∀ n, (Scan.placeAfter table n (.first source)).ahead = [] ↔
        (scan table source).length ≤ n) ∧
      (∀ n t, (scan table source)[n]? = some t → t.IsEmpty →
        t.kind = .stringLiteral ∧
          (∃ m s, n = m + 1 ∧ (scan table source)[m]? = some s ∧ s.ClosesCode) ∧
          ∃ b, (scan table source)[n + 1]? = some b ∧ b.kind = .newline) ∧
      ((scan table source).IsChain fun s t => ¬ (s.IsEmpty ∧ t.IsEmpty)) ∧
      (∀ n t, (scan table source)[n]? = some t →
        (∀ d outer, (Scan.placeAfter table n (.first source)).modes ≠ .literal d :: outer) →
        ¬ t.IsEmpty) ∧
      (scan table source).length ≤
        source.utf8ByteSize + (scan table source).countP fun t => t.ClosesCode := by
  have hbetween (n : Nat) (t : Token) (ht : (scan table source)[n]? = some t)
      (hempty : t.IsEmpty) :=
    empty_between h ht hempty
  refine ⟨fun n => Scan.ahead_placeAfter_eq_nil_iff 0, hbetween, ?_,
    fun n t ht => not_isEmpty_of_code ht, ?_⟩
  · rw [List.isChain_iff_getElem]
    rintro n hn ⟨hs, ht⟩
    -- The first is followed by a line feed, which is no piece of a literal.
    obtain ⟨-, -, b, hb, hnewline⟩ := hbetween n _ (List.getElem?_eq_getElem _) hs
    obtain ⟨hliteral, -⟩ := hbetween (n + 1) _ (List.getElem?_eq_getElem hn) ht
    rw [List.getElem?_eq_getElem hn] at hb
    obtain rfl := Option.some.inj hb
    cases hnewline.symm.trans hliteral
  · have hbytes := (Scan.tiles_scanFrom table [] 0 source.toList).countP_le
    have hbraces := countP_isEmpty_le_of_closed fun n t ht hempty => (hbetween n t ht hempty).2.1
    rw [String.ofList_toList, Nat.zero_add, Nat.zero_add] at hbytes
    calc (scan table source).length
        = (scan table source).countP (fun t => t.IsEmpty) +
            (scan table source).countP fun t => ¬ t.IsEmpty := by
          rw [List.length_eq_countP_add_countP (fun t => decide t.IsEmpty)]
          simp only [decide_eq_true_eq]
      _ ≤ (scan table source).countP (fun t => t.ClosesCode) + source.utf8ByteSize :=
          Nat.add_le_add hbraces hbytes
      _ = _ := Nat.add_comm ..

/-- A table with one delimiter, whose literals hold code behind a single brace. -/
def braced : Language := { templated with
  strings := { delimiters := [.quoted "'" none false (some "\x7b")] } }

/-- The literal is resumed right before the line feed, so four bytes make five tokens. -/
theorem scan_progress_braced :
    braced.validate = .ok braced ∧
      (scan braced "'\x7b\x7d\n").map (·.text) = ["'", "\x7b", "\x7d", "", "\n"] ∧
      (∃ s, (scan braced "'\x7b\x7d\n")[2]? = some s ∧ s.ClosesCode) ∧
      (scan braced "'\x7b\x7d\n")[3]? = some ⟨.stringLiteral, "", 3, 3⟩ ∧
      (∃ b, (scan braced "'\x7b\x7d\n")[4]? = some b ∧ b.kind = .newline) ∧
      (scan braced "'\x7b\x7d\n").length ≤ 4 + 1 := by
  have hcanonical : braced.canonical = braced :=
    Language.canonical_eq (by decide +kernel) (wordSet_eq []).symm rfl (by decide +kernel)
      (by decide) rfl
  have h : braced.validate = .ok braced :=
    Language.validate_eq_ok_iff.mpr ⟨by decide +kernel, hcanonical.symm⟩
  have ht : (scan braced "'\x7b\x7d\n")[3]? = some ⟨.stringLiteral, "", 3, 3⟩ := by
    decide +kernel
  obtain ⟨-, hbetween, -, -, hlength⟩ := scan_progress h "'\x7b\x7d\n"
  obtain ⟨-, ⟨m, s, hm, hs, hcloses⟩, hnewline⟩ := hbetween 3 _ ht rfl
  obtain rfl := Nat.succ.inj hm
  refine ⟨h, by decide +kernel, ⟨s, hs, hcloses⟩, ht, hnewline, ?_⟩
  exact hlength.trans (Nat.add_le_add (by decide) (by decide +kernel))

end Cyclomatic
