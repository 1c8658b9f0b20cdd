import Cyclomatic.Proofs.CanonicalTables
import Cyclomatic.Proofs.Literals
import Cyclomatic.Proofs.Tiling
import Mathlib.Data.List.Chain

/-!
# Lines and line breaks follow the text

A code tells line breaks by the kinds of the tokens between two significant ones, and lines by a
list of offsets.  Both agree with the line feeds among the bytes of the source (`lines_faithful`).

* Only the character `\n` has a byte that is a line feed (`Text.lineFeed_mem_encode`).  So the line
  of any offset, also of one inside a character, is one more than the number of line feeds before
  it.
* A blank or a comment breaks the line if and only if it holds a line feed (`Scan.breaksLine_iff`).
  The tokens tile the source, so the tokens between two significant ones are all that stands there
  (`isChain_lexemesFrom`).
-/

namespace Cyclomatic

/-! ## Line feeds among bytes -/

namespace Text

/-- The byte of a line feed. -/
def lineFeed : UInt8 := 10

/-- No other character has a byte that is a line feed. -/
theorem lineFeed_mem_encode {c : Char} : lineFeed ∈ String.utf8EncodeChar c ↔ c = '\n' := by
  constructor
  · intro h
    apply Char.toNat_inj.mp
    change c.val.toNat = 10
    have hfeed : lineFeed.toNat = 10 := rfl
    unfold String.utf8EncodeChar at h
    have hvalid : c.val.toNat < 0x110000 := by
      rcases c.valid with hvalid | hvalid
      · omega
      · omega
    generalize c.val.toNat = v at h hvalid
    dsimp only at h
    -- The bytes of any character but the first 128 are large.
    repeat' split at h
    all_goals
      simp only [List.mem_cons, List.not_mem_nil, or_false, ← UInt8.toNat_inj, hfeed,
        UInt8.toNat_ofNat'] at h
      simp (disch := omega) only [Nat.mod_eq_of_lt (b := 2 ^ 8)] at h
      omega
  · rintro rfl
    decide

theorem count_take_encode (c : Char) (n : Nat) :
    ((String.utf8EncodeChar c).take n).count lineFeed =
      if c = '\n' ∧ c.utf8Size ≤ n then 1 else 0 := by
  split
  · rename_i h
    obtain ⟨rfl, hn⟩ := h
    rw [List.take_of_length_le hn]
    decide
  · rename_i h
    rw [List.count_eq_zero]
    intro hmem
    obtain rfl := lineFeed_mem_encode.mp (List.mem_of_mem_take hmem)
    obtain rfl : n = 0 := Nat.eq_zero_of_not_pos fun hn => h ⟨rfl, hn⟩
    cases hmem

theorem lineFeed_mem_bytes {s : String} : lineFeed ∈ bytes s ↔ '\n' ∈ s.toList := by
  simp only [bytes_eq, List.mem_flatMap, lineFeed_mem_encode, exists_eq_right]

/-- The bytes between two offsets. -/
theorem bytes_extract {s t : String} {start stop : Nat}
    (h : s.toByteArray.extract start stop = t.toByteArray) :
    ((bytes s).drop start).take (stop - start) = bytes t := by
  have hbytes (s : String) : bytes s = s.toByteArray.data.toList := toList_loop s.toByteArray 0 []
  rw [hbytes, hbytes, ← h, ByteArray.data_extract, Array.toList_extract, List.extract_eq_take_drop]

end Text

/-! ## Lines of offsets -/

/-- The line starts up to an offset follow the line feeds before it. -/
theorem countP_lineStartsFrom_le (start offset : Nat) (cs : List Char) :
    (lineStartsFrom start cs).countP (· ≤ offset) =
      ((cs.flatMap String.utf8EncodeChar).take (offset - start)).count Text.lineFeed := by
  induction cs generalizing start with
  | nil => simp [lineStartsFrom]
  | cons c cs ih =>
    rw [List.flatMap_cons, List.take_append, List.count_append, String.length_utf8EncodeChar,
      Nat.sub_sub, ← ih, Text.count_take_encode, lineStartsFrom]
    have hsize := c.utf8Size_pos
    have hle : c.utf8Size ≤ offset - start ↔ start + c.utf8Size ≤ offset := by omega
    by_cases hfeed : c = '\n'
    · simp only [hfeed, beq_self_eq_true, if_true, true_and, List.countP_cons,
        decide_eq_true_eq] at hle ⊢
      simp only [hle, Nat.add_comm]
    · simp only [hfeed, beq_iff_eq, if_false, false_and, Nat.zero_add]

/-- The line of an offset is one more than the number of line feeds before it. -/
theorem lineAt_eq_count (source : String) (offset : Nat) :
    lineAt (lineStarts source) offset =
      1 + ((Text.bytes source).take offset).count Text.lineFeed := by
  rw [lineAt, lineStarts, List.countP_cons_of_pos (by simp), countP_lineStartsFrom_le, Nat.sub_zero,
    Text.bytes_eq, Nat.add_comm]

/-- A line feed stands between two offsets of a source. -/
def FeedBetween (source : String) (start stop : Nat) : Prop :=
  ∃ k, start ≤ k ∧ k < stop ∧ (Text.bytes source)[k]? = some Text.lineFeed

namespace FeedBetween

variable {source : String} {a b c : Nat}

theorem not_self (source : String) (a : Nat) : ¬ FeedBetween source a a := by
  rintro ⟨k, hak, hka, -⟩
  omega

theorem append_iff (hab : a ≤ b) (hbc : b ≤ c) :
    FeedBetween source a c ↔ FeedBetween source a b ∨ FeedBetween source b c := by
  constructor
  · rintro ⟨k, hak, hkc, hk⟩
    rcases Nat.lt_or_ge k b with hkb | hbk
    · exact .inl ⟨k, hak, hkb, hk⟩
    · exact .inr ⟨k, hbk, hkc, hk⟩
  · rintro (⟨k, hak, hkb, hk⟩ | ⟨k, hbk, hkc, hk⟩)
    · exact ⟨k, hak, by omega, hk⟩
    · exact ⟨k, by omega, hkc, hk⟩

/-- A line feed between two offsets parts their lines. -/
theorem lineAt_lt (h : FeedBetween source a b) :
    lineAt (lineStarts source) a < lineAt (lineStarts source) b := by
  obtain ⟨k, hak, hkb, hk⟩ := h
  rw [lineAt_eq_count, lineAt_eq_count]
  have hsplit := List.take_append_drop a ((Text.bytes source).take b)
  rw [List.take_take, Nat.min_eq_left (by omega)] at hsplit
  rw [← hsplit, List.count_append]
  have hpos : 0 < (((Text.bytes source).take b).drop a).count Text.lineFeed := by
    rw [List.count_pos_iff, List.mem_iff_getElem?]
    refine ⟨k - a, ?_⟩
    rw [List.getElem?_drop, Nat.add_sub_cancel' hak, List.getElem?_take_of_lt hkb, hk]
  omega

end FeedBetween

/-- A line feed stands between the offsets of a piece if the piece holds one. -/
theorem Token.PieceOf.feedBetween_iff {source : String} {t : Token} (h : t.PieceOf source) :
    FeedBetween source t.start t.stop ↔ '\n' ∈ t.text.toList := by
  rw [← Text.lineFeed_mem_bytes, ← Text.bytes_extract h.bytes, List.mem_iff_getElem?]
  constructor
  · rintro ⟨k, hstart, hstop, hk⟩
    refine ⟨k - t.start, ?_⟩
    rw [List.getElem?_take_of_lt (by omega), List.getElem?_drop, Nat.add_sub_cancel' hstart, hk]
  · rintro ⟨k, hk⟩
    have hlt := (List.getElem?_eq_some_iff.mp hk).1
    rw [List.length_take] at hlt
    rw [List.getElem?_take_of_lt (by omega), List.getElem?_drop] at hk
    exact ⟨t.start + k, by omega, by omega, hk⟩

/-! ## Blanks and comments -/

namespace Scan

variable {l : Language} {modes : List Mode} {c : Char} {cs : List Char}

theorem contains_takeAll {p : Char → Bool} (hc : c ≠ '\n') (hp : p '\n' = false) :
    ((takeAll p cs).prepend [c]).taken.contains '\n' = false := by
  rw [← Bool.not_eq_true, List.contains_iff_mem]
  intro hmem
  rcases List.mem_cons.mp hmem with heq | hmem
  · exact hc heq.symm
  · have hfeed := List.mem_takeWhile_imp hmem
    rw [hp] at hfeed
    cases hfeed

/-- A blank or a comment breaks the line if and only if it holds a line feed. -/
theorem codeStep_breaksLine (hk : (codeStep l modes c cs).kind.isTrivia = true) :
    (codeStep l modes c cs).token.breaksLine = (codeStep l modes c cs).taken.contains '\n' := by
  rcases codeStep_of_trivia hk with ⟨rfl, heq⟩ | ⟨hfeed, -, heq⟩ | ⟨hfeed, -, heq⟩ |
      ⟨b, r, -, heq⟩
  · rw [heq]
    rfl
  · rw [heq]
    exact (contains_takeAll hfeed (Bool.and_false _)).symm
  · rw [heq]
    exact (contains_takeAll hfeed rfl).symm
  · rw [heq]
    change (String.ofList _).toList.contains '\n' = _
    rw [String.toList_ofList]

theorem breaksLine_step (hk : (step l modes c cs).kind.isTrivia = true) :
    (step l modes c cs).token.breaksLine = (step l modes c cs).taken.contains '\n' := by
  have hcode := step_code (l := l) (code_of_trivia hk) c cs
  rw [hcode] at hk ⊢
  exact codeStep_breaksLine hk

theorem breaksLine_iff (start : Nat) (cs : List Char) :
    ∀ t ∈ scanFrom l modes start cs, t.kind.isTrivia = true →
      (t.breaksLine = true ↔ '\n' ∈ t.text.toList) := by
  induction modes, cs using step_induction (l := l) generalizing start with
  | nil modes => simp [scanFrom]
  | cons modes c cs ih =>
    rw [scanFrom_cons]
    intro t ht hk
    rcases List.mem_cons.mp ht with rfl | ht
    · have hbreaks := breaksLine_step hk
      rw [← List.contains_iff_mem, String.toList_ofList, ← hbreaks]
      rfl
    · exact ih _ t ht hk

end Scan

/-! ## Line breaks before tokens -/

/-- The second token knows whether a line feed stands between the two. -/
def BreakTold (source : String) (x y : Lexeme) : Prop :=
  y.afterBreak = true ↔ FeedBetween source x.stop y.start

/-- Behind a first token, each significant token knows whether a line feed stands before it. -/
theorem isChain_lexemesFrom {source : String} {start stop : Nat} {pending : Bool} {ts : List Token}
    {x : Lexeme} (htiles : Tiles start stop ts) (hpieces : ∀ t ∈ ts, t.PieceOf source)
    (htrivia : ∀ t ∈ ts, t.kind.isTrivia = true → (t.breaksLine = true ↔ '\n' ∈ t.text.toList))
    (hx : x.stop ≤ start) (hpending : pending = true ↔ FeedBetween source x.stop start) :
    (x :: lexemesFrom pending ts).IsChain (BreakTold source) := by
  induction ts generalizing start pending x with
  | nil => exact List.isChain_singleton x
  | cons t ts ih =>
    obtain ⟨rfl, hle, hrest⟩ := htiles
    obtain ⟨hpiece, hpieces⟩ := List.forall_mem_cons.mp hpieces
    obtain ⟨htrivium, htrivia⟩ := List.forall_mem_cons.mp htrivia
    have hpast {pending' : Bool} (hk : t.kind.isTrivia = true)
        (hpending' : pending' = true ↔ pending = true ∨ t.breaksLine = true) :
        (x :: lexemesFrom pending' ts).IsChain (BreakTold source) := by
      refine ih hrest hpieces htrivia (Nat.le_trans hx hle) ?_
      rw [hpending', hpending, htrivium hk, ← hpiece.feedBetween_iff,
        FeedBetween.append_iff hx hle]
    simp only [lexemesFrom]
    split
    · rename_i hbreaks
      exact hpast (Token.isTrivia_of_breaksLine hbreaks) (by simp [hbreaks])
    split
    · rename_i hbreaks hk
      exact hpast hk (by simp [hbreaks])
    · refine List.isChain_cons_cons.mpr ⟨hpending, ih hrest hpieces htrivia (Nat.le_refl _) ?_⟩
      simp [FeedBetween.not_self]

namespace Code

/-- The offset behind the token before the given one.  Before the first it is the start. -/
def endBefore (code : Code) : Nat → Nat
  | 0 => 0
  | i + 1 => ((code.token? i).map (·.stop)).getD code.bytes

section Source

variable (l : Language) (source : String)

theorem isChain_lexemes :
    (⟨⟨.newline, "", 0, 0⟩, true⟩ :: (ofSource l source).lexemes.toList).IsChain
      (BreakTold source) := by
  obtain ⟨htiles, hpieces, -⟩ := scan_tiles l source
  exact isChain_lexemesFrom htiles hpieces (Scan.breaksLine_iff 0 source.toList) (Nat.le_refl 0)
    (iff_of_false nofun (FeedBetween.not_self source 0))

variable {i : Nat}

/-- A token knows whether a line feed stands between it and the token before. -/
theorem afterBreak_iff (hi : i < (ofSource l source).size) :
    (ofSource l source).afterBreak i = true ↔
      FeedBetween source ((ofSource l source).endBefore i) ((ofSource l source).offset i) := by
  have htold := List.isChain_iff_getElem.mp (isChain_lexemes l source) i (Nat.succ_lt_succ hi)
  have hget : (ofSource l source).lexemes[i]? = some (ofSource l source).lexemes[i] :=
    Array.getElem?_eq_getElem hi
  rw [afterBreak, offset, hget]
  cases i with
  | zero => exact htold
  | succ i =>
    have hprior : i < (ofSource l source).lexemes.size := Nat.lt_of_succ_lt hi
    have hget' : (ofSource l source).lexemes[i]? = some (ofSource l source).lexemes[i] :=
      Array.getElem?_eq_getElem hprior
    rw [endBefore, token?, hget']
    exact htold

theorem lineOf_eq_lineAt :
    (ofSource l source).lineOf i = lineAt (lineStarts source) ((ofSource l source).offset i) := rfl

/-- A token behind a line break stands in a later line than the token before. -/
theorem lineOf_lt (hi : i + 1 < (ofSource l source).size)
    (hbreak : (ofSource l source).afterBreak (i + 1) = true) :
    (ofSource l source).lineOf i < (ofSource l source).lineOf (i + 1) := by
  obtain ⟨t, ht⟩ := Laid.exists_token (Nat.lt_of_succ_lt hi)
  have hfeed := (afterBreak_iff l source hi).mp hbreak
  rw [endBefore, ht] at hfeed
  have hle : lineAt (lineStarts source) t.start ≤ lineAt (lineStarts source) t.stop :=
    Laid.lineAt_le _ ((laid_ofSource l source).bounds t (Laid.mem_tokens ht)).1
  rw [lineOf_eq_lineAt, lineOf_eq_lineAt, Laid.offset_eq ht]
  exact Nat.lt_of_le_of_lt hle hfeed.lineAt_lt

end Source

end Code

/-- Lines and line breaks follow the text.  A significant token knows whether a line feed stands
between it and the token before, or the start of the source.  The line of any offset, in the source
or behind it, is one more than the number of line feeds before it.  So the lines of the tokens never
decrease, and a token behind a line break stands in a later line than the token before. -/
theorem lines_faithful (l : Language) (source : String) :
    (∀ i < (Code.ofSource l source).size, (Code.ofSource l source).afterBreak i = true ↔
        FeedBetween source ((Code.ofSource l source).endBefore i)
          ((Code.ofSource l source).offset i)) ∧
      (∀ offset, lineAt (lineStarts source) offset =
        1 + ((Text.bytes source).take offset).count Text.lineFeed) ∧
      (∀ i, (Code.ofSource l source).lineOf i =
        lineAt (lineStarts source) ((Code.ofSource l source).offset i)) ∧
      (∀ i j, i ≤ j → (Code.ofSource l source).lineOf i ≤ (Code.ofSource l source).lineOf j) ∧
      ∀ i, i + 1 < (Code.ofSource l source).size →
        (Code.ofSource l source).afterBreak (i + 1) = true →
          (Code.ofSource l source).lineOf i < (Code.ofSource l source).lineOf (i + 1) :=
  ⟨fun _ hi => Code.afterBreak_iff l source hi, lineAt_eq_count source,
    fun _ => Code.lineOf_eq_lineAt l source,
    fun _ _ hij => (Code.laid_ofSource l source).lineOf_le hij,
    fun _ hi hbreak => Code.lineOf_lt l source hi hbreak⟩

/-- A comment that spans lines breaks the line. -/
theorem lines_faithful_comment :
    let code := Code.ofSource Language.Java.table.canonical "a /* \n */ b"
    code.afterBreak 1 = true ∧
      FeedBetween "a /* \n */ b" (code.endBefore 1) (code.offset 1) ∧
      code.lineOf 0 < code.lineOf 1 := by
  intro code
  have hbreak : 1 < code.size ∧ code.afterBreak 1 = true := by
    unfold code
    rw [Language.Java.canonical_eq]
    decide +kernel
  obtain ⟨htold, -, -, -, hlater⟩ := lines_faithful Language.Java.table.canonical "a /* \n */ b"
  exact ⟨hbreak.2, (htold 1 hbreak.1).mp hbreak.2, hlater 0 hbreak.1 hbreak.2⟩

end Cyclomatic
