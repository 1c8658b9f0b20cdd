import Cyclomatic.Registry
import Mathlib.Data.List.Basic

/-!
# Lower case is final

Names and extensions are brought into lower case when a table is stored and again when it is
looked up.  The second time changes nothing (`Text.lower_trim_lower_trim`,
`canonicalExtension_canonicalExtension`).  The reason is in the table of small letters: none of
them is a capital, a blank or a dot (`Text.capitals_misses`).  Lower case sees no difference
between the two cases of an ASCII letter (`Text.lower_trim_of_sameName`), although the form of a
sigma depends on the letters around it.
-/

namespace Cyclomatic

namespace Text

/-! ## The table of small letters -/

/-- The small letters of a row lie outside another row: below it, above it or between its
capitals. -/
def CaseRow.misses (r s : CaseRow) : Bool :=
  let low := (r.shift + r.first).toNat
  let high := (r.shift + r.last).toNat
  Nat.blt high s.first || Nat.blt s.last low ||
    (Nat.beq s.step 2 && (Nat.beq r.step 2 || Nat.beq low high) &&
      Nat.beq ((low + s.first) % 2) 1)

/-- The small letters of a row are code points. -/
def CaseRow.bounded (r : CaseRow) : Bool :=
  0 ≤ r.shift + r.first && r.shift + r.last < 0x110000

/-- If one row maps past another, what it maps to is not in the other. -/
theorem CaseRow.not_holds_of_misses {r s : CaseRow} {n : Nat} (hbound : r.bounded)
    (h : r.misses s) (hn : r.holds n) : s.holds (r.shift + n).toNat = false := by
  rw [Bool.eq_false_iff]
  intro hs
  simp only [bounded, holds, misses, Bool.and_eq_true, Bool.or_eq_true, decide_eq_true_eq,
    beq_iff_eq, Nat.blt_eq, Nat.beq_eq] at hbound h hn hs
  obtain ⟨⟨hfirst, hlast⟩, hstep⟩ := hn
  obtain ⟨⟨hfirst', hlast'⟩, hstep'⟩ := hs
  rcases h with (h | h) | ⟨⟨htwo, hgrid⟩, hodd⟩
  · omega
  · omega
  · rw [htwo] at hstep'
    rcases hgrid with hgrid | hgrid
    · rw [hgrid] at hstep
      omega
    · omega

/-- All capitals with one small letter each, ASCII included. -/
def capitals : List CaseRow := ⟨65, 90, 1, 32⟩ :: caseRows

/-- The blank characters. -/
def blankRows : List CaseRow :=
  [⟨9, 13, 1, 0⟩, ⟨32, 32, 1, 0⟩, ⟨0x85, 0x85, 1, 0⟩, ⟨0xA0, 0xA0, 1, 0⟩, ⟨0x1680, 0x1680, 1, 0⟩,
    ⟨0x2000, 0x200A, 1, 0⟩, ⟨0x2028, 0x2029, 1, 0⟩, ⟨0x202F, 0x202F, 1, 0⟩,
    ⟨0x205F, 0x205F, 1, 0⟩, ⟨0x3000, 0x3000, 1, 0⟩]

/-- What no small letter is: the dot, the dotted capital I, the capital sigma, a surrogate, a
blank. -/
def reserved : List CaseRow :=
  ⟨46, 46, 1, 0⟩ :: ⟨0x130, 0x130, 1, 0⟩ :: ⟨0x3A3, 0x3A3, 1, 0⟩ :: ⟨0xD800, 0xDFFF, 1, 0⟩ ::
    blankRows

theorem capitals_bounded : capitals.all CaseRow.bounded := by
  decide +kernel

/-- No small letter is a capital or reserved. -/
theorem capitals_misses : capitals.all fun r => (reserved ++ capitals).all r.misses := by
  decide +kernel

/-- The rows hold no ASCII character. -/
theorem caseRows_above : caseRows.all fun r => Nat.ble 128 r.first := by
  decide +kernel

theorem isBlank_eq (c : Char) : isBlank c = blankRows.any (·.holds c.toNat) := by
  rw [Bool.eq_iff_iff]
  simp only [isBlank, blankRows, CaseRow.holds, Nat.mod_one, List.any_cons, List.any_nil,
    Bool.or_eq_true, Bool.and_eq_true, decide_eq_true_eq, beq_iff_eq, Bool.or_false, and_true,
    beq_self_eq_true]
  omega

/-- The small letter of a character, by the one table. -/
theorem lowerChar_eq (c : Char) :
    lowerChar c =
      match capitals.find? (·.holds c.toNat) with
      | some r => Char.ofNat (r.shift + c.toNat).toNat
      | none => c := by
  unfold lowerChar capitals
  by_cases hascii : isAscii c
  · have hnone : caseRows.find? (·.holds c.toNat) = none := by
      rw [List.find?_eq_none]
      intro r hr hholds
      have habove := List.all_eq_true.mp caseRows_above r hr
      simp only [isAscii, CaseRow.holds, Bool.and_eq_true, decide_eq_true_eq, Nat.ble_eq]
        at hascii hholds habove
      omega
    rw [if_pos hascii, List.find?_cons, hnone]
    simp only [CaseRow.holds, Nat.mod_one, beq_self_eq_true, Bool.and_true]
    by_cases hcapital : (decide (65 ≤ c.toNat) && decide (c.toNat ≤ 90)) = true
    · rw [if_pos hcapital]
      simp only [hcapital]
      congr 1
      omega
    · rw [if_neg hcapital]
      simp only [Bool.not_eq_true] at hcapital
      simp only [hcapital]
  · have hrow : CaseRow.holds ⟨65, 90, 1, 32⟩ c.toNat = false := by
      simp only [isAscii, decide_eq_true_eq, CaseRow.holds, Bool.and_eq_false_iff,
        decide_eq_false_iff_not] at hascii ⊢
      omega
    have hfind : (⟨65, 90, 1, 32⟩ :: caseRows).find? (·.holds c.toNat) =
        caseRows.find? (·.holds c.toNat) := List.find?_cons_of_neg (by simp [hrow])
    exact (if_neg hascii).trans (hfind ▸ rfl)

/-- A character is no capital and stays as it is, or its small letter is neither a capital nor
reserved. -/
theorem lowerChar_cases (c : Char) :
    lowerChar c = c ∨ ∀ s ∈ reserved ++ capitals, s.holds (lowerChar c).toNat = false := by
  rw [lowerChar_eq]
  split
  · rename_i r hr
    have hmem := List.mem_of_find?_eq_some hr
    have hholds : r.holds c.toNat := by simpa using List.find?_some hr
    have hbound := List.all_eq_true.mp capitals_bounded r hmem
    have hmisses : ∀ s ∈ reserved ++ capitals, s.holds (r.shift + c.toNat).toNat = false := by
      intro s hs
      have hrow := List.all_eq_true.mp (List.all_eq_true.mp capitals_misses r hmem) s hs
      exact CaseRow.not_holds_of_misses hbound hrow hholds
    have hvalid : (r.shift + c.toNat).toNat.isValidChar := by
      have hsurrogate := hmisses ⟨0xD800, 0xDFFF, 1, 0⟩ (by simp [reserved])
      simp only [CaseRow.holds, CaseRow.bounded, Nat.mod_one, Bool.and_eq_true, decide_eq_true_eq,
        Bool.and_eq_false_iff, decide_eq_false_iff_not, beq_self_eq_true, Bool.true_eq_false,
        or_false] at hbound hholds hsurrogate
      unfold Nat.isValidChar
      omega
    right
    have htoNat : (Char.ofNat (r.shift + c.toNat).toNat).toNat = (r.shift + c.toNat).toNat := by
      rw [Char.ofNat, dif_pos hvalid]
      rfl
    rwa [htoNat]
  · exact .inl rfl

/-- A character that no row of capitals holds is its own small letter. -/
theorem lowerChar_of_free {c : Char} (h : ∀ s ∈ capitals, s.holds c.toNat = false) :
    lowerChar c = c := by
  have hnone : capitals.find? (·.holds c.toNat) = none := by
    rw [List.find?_eq_none]
    intro s hs
    simp [h s hs]
  rw [lowerChar_eq, hnone]

/-! ## Texts in lower case -/

/-- A character that lower case leaves as it is. -/
def Settled (c : Char) : Prop :=
  lowerChar c = c ∧ c.toNat ≠ 0x130 ∧ c.toNat ≠ 0x3A3

instance : DecidablePred Settled := fun c =>
  inferInstanceAs (Decidable (lowerChar c = c ∧ c.toNat ≠ 0x130 ∧ c.toNat ≠ 0x3A3))

/-- What stands for one character in lower case. -/
def smallForm (before : List Char) (c : Char) (cs : List Char) : List Char :=
  if c.toNat == 0x130 then ['i', Char.ofNat 0x307]
  else if c.toNat == 0x3A3 then
    [if casedNext before && !casedNext cs then Char.ofNat 0x3C2 else Char.ofNat 0x3C3]
  else [lowerChar c]

theorem lowerFrom_cons (before : List Char) (c : Char) (cs : List Char) :
    lowerFrom before (c :: cs) = smallForm before c cs ++ lowerFrom (c :: before) cs := rfl

/-- A lowered character stays as it is, but for two letters with a rule of their own. -/
theorem settled_lowerChar {c : Char} (hdotted : c.toNat ≠ 0x130) (hsigma : c.toNat ≠ 0x3A3) :
    Settled (lowerChar c) := by
  rcases lowerChar_cases c with h | h
  · rw [h]
    exact ⟨h, hdotted, hsigma⟩
  · refine ⟨lowerChar_of_free fun s hs => h s (List.mem_append_right _ hs), ?_, ?_⟩
    · intro heq
      have := h ⟨0x130, 0x130, 1, 0⟩ (by simp [reserved])
      simp [CaseRow.holds, heq] at this
    · intro heq
      have := h ⟨0x3A3, 0x3A3, 1, 0⟩ (by simp [reserved])
      simp [CaseRow.holds, heq] at this

/-- The letters that do not come from the table are settled too. -/
theorem settled_of_special {d : Char}
    (h : d ∈ ['i', Char.ofNat 0x307, Char.ofNat 0x3C2, Char.ofNat 0x3C3]) :
    Settled d ∧ ∀ s ∈ reserved, s.holds d.toNat = false := by
  simp only [List.mem_cons, List.not_mem_nil, or_false] at h
  rcases h with rfl | rfl | rfl | rfl <;> decide +kernel

/-- The characters that stand for one character: all settled, and reserved only if it stays
itself. -/
theorem mem_smallForm {before cs : List Char} {c d : Char} (h : d ∈ smallForm before c cs) :
    Settled d ∧ (d = c ∨ ∀ s ∈ reserved, s.holds d.toNat = false) := by
  unfold smallForm at h
  split at h
  · obtain ⟨hsettled, hfree⟩ := settled_of_special (d := d) (by simp at h ⊢; tauto)
    exact ⟨hsettled, .inr hfree⟩
  rename_i hdotted
  split at h
  · obtain ⟨hsettled, hfree⟩ := settled_of_special (d := d) (by split at h <;> simp_all)
    exact ⟨hsettled, .inr hfree⟩
  rename_i hsigma
  rw [List.mem_singleton] at h
  subst h
  refine ⟨settled_lowerChar (by simpa using hdotted) (by simpa using hsigma), ?_⟩
  rcases lowerChar_cases c with h | h
  · exact .inl h
  · exact .inr fun s hs => h s (List.mem_append_left _ hs)

theorem smallForm_ne_nil (before : List Char) (c : Char) (cs : List Char) :
    smallForm before c cs ≠ [] := by
  unfold smallForm
  split
  · exact List.cons_ne_nil _ _
  split <;> exact List.cons_ne_nil _ _

/-- All characters of a lowered text stay as they are. -/
theorem settled_of_mem_lowerFrom {before cs : List Char} {d : Char}
    (h : d ∈ lowerFrom before cs) : Settled d := by
  induction cs generalizing before with
  | nil => cases h
  | cons c cs ih =>
    rw [lowerFrom_cons, List.mem_append] at h
    rcases h with h | h
    · exact (mem_smallForm h).1
    · exact ih h

theorem lowerFrom_of_settled {before cs : List Char} (h : ∀ c ∈ cs, Settled c) :
    lowerFrom before cs = cs := by
  induction cs generalizing before with
  | nil => rfl
  | cons c cs ih =>
    obtain ⟨hlower, hdotted, hsigma⟩ := h c (List.mem_cons_self ..)
    have hform : smallForm before c cs = [c] := by simp [smallForm, hlower, hdotted, hsigma]
    rw [lowerFrom_cons, hform, ih fun d hd => h d (List.mem_cons_of_mem _ hd)]
    rfl

/-- Lowering twice is lowering once, whatever stands before the text. -/
theorem lowerFrom_lowerFrom (before before' cs : List Char) :
    lowerFrom before' (lowerFrom before cs) = lowerFrom before cs :=
  lowerFrom_of_settled fun _ => settled_of_mem_lowerFrom

/-! ## Ends of texts -/

/-- Neither end of a text is blank. -/
def Trimmed (cs : List Char) : Prop :=
  (∀ c ∈ cs.head?, isBlank c = false) ∧ ∀ c ∈ cs.getLast?, isBlank c = false

theorem head?_dropWhile_not {p : Char → Bool} {cs : List Char} :
    ∀ c ∈ (cs.dropWhile p).head?, p c = false := by
  intro c hc
  have := List.head?_dropWhile_not p cs
  rw [Option.mem_def] at hc
  rw [hc] at this
  simpa using this

theorem dropWhile_of_head? {p : Char → Bool} {cs : List Char} (h : ∀ c ∈ cs.head?, p c = false) :
    cs.dropWhile p = cs := by
  cases cs with
  | nil => rfl
  | cons c cs => rw [List.dropWhile_cons, if_neg (by simp [h c rfl])]

/-- A trimmed text has no blanks at its ends. -/
theorem trimmed_trimChars (cs : List Char) : Trimmed (trimChars cs) := by
  constructor
  · intro c hc
    -- Cutting the end leaves the first character, since what is left is a beginning of the text.
    have hfront : trimChars cs <+: cs.dropWhile isBlank := by
      rw [trimChars, ← List.reverse_suffix, List.reverse_reverse]
      exact List.dropWhile_suffix _
    obtain ⟨rest, hrest⟩ := hfront
    refine @head?_dropWhile_not isBlank cs c ?_
    rw [← hrest, List.head?_append, hc]
    rfl
  · intro c hc
    rw [trimChars, List.getLast?_reverse] at hc
    exact head?_dropWhile_not c hc

/-- A text without blanks at its ends is trimmed already. -/
theorem trimChars_of_trimmed {cs : List Char} (h : Trimmed cs) : trimChars cs = cs := by
  rw [trimChars, dropWhile_of_head? h.1, dropWhile_of_head?, List.reverse_reverse]
  rw [List.head?_reverse]
  exact h.2

/-- No small letter of a character is blank, unless the character is. -/
theorem isBlank_of_mem_smallForm {before cs : List Char} {c d : Char}
    (h : d ∈ smallForm before c cs) (hc : isBlank c = false) : isBlank d = false := by
  rcases (mem_smallForm h).2 with rfl | hfree
  · exact hc
  · rw [isBlank_eq, List.any_eq_false]
    intro s hs
    simp [hfree s (by simp [reserved, hs])]

/-- The first character of a text in lower case stands for the first character of the text. -/
theorem mem_smallForm_of_head? {before cs : List Char} {d : Char}
    (h : d ∈ (lowerFrom before cs).head?) :
    ∃ c cs', cs = c :: cs' ∧ d ∈ smallForm before c cs' := by
  cases cs with
  | nil => cases h
  | cons c cs =>
    rw [lowerFrom_cons, List.head?_append_of_ne_nil _ (smallForm_ne_nil _ _ _)] at h
    exact ⟨c, cs, rfl, List.mem_of_mem_head? h⟩

/-- A lowered text ends in a blank only if the text does. -/
theorem isBlank_of_getLast?_lowerFrom {before cs : List Char} {d : Char}
    (hcs : ∀ c ∈ cs.getLast?, isBlank c = false) (h : d ∈ (lowerFrom before cs).getLast?) :
    isBlank d = false := by
  induction cs generalizing before with
  | nil => cases h
  | cons c cs ih =>
    rw [lowerFrom_cons] at h
    cases cs with
    | nil =>
      rw [lowerFrom, List.append_nil] at h
      exact isBlank_of_mem_smallForm (List.mem_of_mem_getLast? h) (hcs c rfl)
    | cons c' cs =>
      have hne : lowerFrom (c :: before) (c' :: cs) ≠ [] := by
        simp [lowerFrom_cons, smallForm_ne_nil]
      rw [List.getLast?_append_of_ne_nil _ hne] at h
      exact ih (by rwa [List.getLast?_cons_cons] at hcs) h

/-- A lowered text has no blanks at its ends if the text has none. -/
theorem trimmed_lowerFrom {before cs : List Char} (h : Trimmed cs) :
    Trimmed (lowerFrom before cs) := by
  constructor
  · intro d hd
    obtain ⟨c, cs', rfl, hmem⟩ := mem_smallForm_of_head? hd
    exact isBlank_of_mem_smallForm hmem (h.1 c rfl)
  · intro d hd
    exact isBlank_of_getLast?_lowerFrom h.2 hd

/-- A name in canonical form is its own canonical form. -/
theorem lower_trim_lower_trim (s : String) : lower (trim (lower (trim s))) = lower (trim s) := by
  simp only [lower, trim, String.toList_ofList]
  rw [trimChars_of_trimmed (trimmed_lowerFrom (trimmed_trimChars _)), lowerFrom_lowerFrom]

/-! ## The two cases of ASCII letters -/

/-- Two names differ at most in the case of ASCII letters and in the blanks around them. -/
def SameName (a b : String) : Prop :=
  (trimChars a.toList).map Char.toLower = (trimChars b.toList).map Char.toLower

instance : DecidableRel SameName := fun a b =>
  inferInstanceAs (Decidable
    ((trimChars a.toList).map Char.toLower = (trimChars b.toList).map Char.toLower))

/-- What does not depend on the case of ASCII characters does not depend on `Char.toLower`, which
leaves the others alone. -/
theorem toLower_invariant {α : Type} (f : Char → α)
    (h : ∀ n < 128, f (Char.ofNat n).toLower = f (Char.ofNat n)) (c : Char) :
    f c.toLower = f c := by
  by_cases hascii : c.toNat < 128
  · simpa using h _ hascii
  · have hupper : ¬(c.val ≥ 'A'.val ∧ c.val ≤ 'Z'.val) := by
      rintro ⟨-, hle⟩
      exact hascii (Nat.lt_of_le_of_lt hle (by decide))
    exact congrArg f (dif_neg hupper)

theorem lowerChar_toLower (c : Char) : lowerChar c.toLower = lowerChar c :=
  toLower_invariant lowerChar (by decide +kernel) c

theorem isCased_toLower (c : Char) : isCased c.toLower = isCased c :=
  toLower_invariant isCased (by decide +kernel) c

theorem isCaseIgnorable_toLower (c : Char) : isCaseIgnorable c.toLower = isCaseIgnorable c :=
  toLower_invariant isCaseIgnorable (by decide +kernel) c

theorem toNat_toLower_beq {n : Nat} (hn : n = 0x130 ∨ n = 0x3A3) (c : Char) :
    (c.toLower.toNat == n) = (c.toNat == n) := by
  rcases hn with rfl | rfl
  · exact toLower_invariant (fun c => c.toNat == 0x130) (by decide +kernel) c
  · exact toLower_invariant (fun c => c.toNat == 0x3A3) (by decide +kernel) c

theorem casedNext_toLower (cs : List Char) : casedNext (cs.map Char.toLower) = casedNext cs := by
  have hignore : isCaseIgnorable ∘ Char.toLower = isCaseIgnorable := funext isCaseIgnorable_toLower
  rw [casedNext, List.dropWhile_map, hignore, casedNext]
  cases cs.dropWhile isCaseIgnorable with
  | nil => rfl
  | cons c cs => exact isCased_toLower c

/-- ASCII capitals make no difference to a lowered text. -/
theorem lowerFrom_toLower (before cs : List Char) :
    lowerFrom (before.map Char.toLower) (cs.map Char.toLower) = lowerFrom before cs := by
  induction cs generalizing before with
  | nil => rfl
  | cons c cs ih =>
    have hform : smallForm (before.map Char.toLower) c.toLower (cs.map Char.toLower) =
        smallForm before c cs := by
      simp only [smallForm, toNat_toLower_beq, casedNext_toLower, lowerChar_toLower, true_or,
        or_true]
    rw [List.map_cons, lowerFrom_cons, hform, lowerFrom_cons, ← List.map_cons, ih]

/-- Names that differ at most in ASCII case and in the blanks around them have one canonical
form. -/
theorem lower_trim_of_sameName {a b : String} (h : SameName a b) :
    lower (trim a) = lower (trim b) := by
  have hfold : ∀ s : String, lowerFrom [] (trimChars s.toList) =
      lowerFrom [] ((trimChars s.toList).map Char.toLower) := fun s =>
    (lowerFrom_toLower [] _).symm
  simp only [lower, trim, String.toList_ofList]
  rw [hfold a, hfold b, h]

end Text

/-! ## Extensions -/

/-- The canonical form of an extension is its own canonical form. -/
theorem canonicalExtension_canonicalExtension (e : String) :
    canonicalExtension (canonicalExtension e) = canonicalExtension e := by
  simp only [canonicalExtension, Text.lower, Text.dropLeading, String.toList_ofList]
  rw [Text.dropWhile_of_head?, Text.lowerFrom_lowerFrom]
  intro d hd
  obtain ⟨c, cs, hcs, hmem⟩ := Text.mem_smallForm_of_head? hd
  have hc : (c == '.') = false := @Text.head?_dropWhile_not _ e.toList c (by rw [hcs]; rfl)
  rcases (Text.mem_smallForm hmem).2 with rfl | hfree
  · exact hc
  · rw [beq_eq_false_iff_ne]
    rintro rfl
    exact absurd (hfree ⟨46, 46, 1, 0⟩ (List.mem_cons_self ..)) (by decide)

end Cyclomatic
