import Cyclomatic.Language.Canonical
import Cyclomatic.Proofs.Brackets

/-!
# Codes that read alike

Two codes are `Alike` if their tokens have the same kinds, line breaks and partners, and the same
texts but for veiled literals.  A literal is veiled if no walk over the code can tell its text
from others.

The scanner hides the text of a literal from the walks by its quotes: no word that a walk looks
for has a quote in it.  A piece of a literal between two pieces of code has no quote.  Such a
piece is `Enclosed`: a closing brace of code stands before it, and an opener of code, a line break
or nothing after it.  Most walks stop at its neighbours.  The words for which some walk does not
are the words `Language.exposed` by the language.
-/

namespace Cyclomatic

/-! ## Words -/

/-- A text has no quote in it. -/
def unquoted (s : String) : Bool := s.toList.all fun c =>
  !(['"', '\'', '\x60'].contains c)

namespace Language

variable (l : Language)

/-- Some literal holds code. -/
def interpolates : Bool := l.strings.delimiters.any (·.interpolation.isSome)

/-- Some literal that holds code ends at a line break. -/
def breaksLiterals : Bool :=
  l.strings.delimiters.any fun d => d.interpolation.isSome && !d.multiline

end Language

/-- The token of a rule and the words of its guard. -/
def DecisionRule.words (r : DecisionRule) : List String :=
  r.token :: (r.guard.precededBy ++ r.guard.notPrecededBy ++ r.guard.followedBy ++
    r.guard.notFollowedBy ++ r.guard.inBlockOf ++ r.guard.notInBlockOf ++
    r.guard.notAfterBodyOf ++ r.guard.notInStatementOf)

/-- The tokens before the start of a statement. -/
def statementBounds : List String := [";", "\x7b", "\x7d", "(", "[", ":"]

/-- The words that the guard of a rule finds in a piece of a literal, where `breaks` says whether
a line break may end it. -/
def DecisionRule.exposed (breaks : Bool) (r : DecisionRule) : List String :=
  (if r.guard.notAfterBodyOf.isEmpty then [] else [r.token]) ++
    (if r.guard.notInStatementOf.isEmpty then []
    else statementBounds ++ r.guard.notInStatementOf) ++
    if breaks then
      r.guard.precededBy ++ r.guard.notPrecededBy ++ r.guard.inBlockOf ++ r.guard.notInBlockOf ++
        r.guard.notAfterBodyOf ++ if r.guard.firstInChain then [r.token] else []
    else []

/-- The words that a guard finds in literals are bounds of statements or words of the rule. -/
theorem DecisionRule.mem_exposed {breaks : Bool} {r : DecisionRule} {w : String}
    (h : w ∈ r.exposed breaks) : w ∈ statementBounds ∨ w ∈ r.words := by
  simp only [exposed, List.mem_append] at h
  simp only [words, List.mem_cons, List.mem_append]
  grind

namespace Language

/-- The words that some walk finds in a piece of a literal. -/
def exposed (l : Language) : List String :=
  if l.interpolates then
    "<" :: ((if l.signatures.returnSeparator.isSome then ["(", "[", "\x7b", ";"] else []) ++
      (if l.signatures.freeReturn then l.signatures.typeBraces ++ l.signatures.terminators
        else []) ++
      l.decisions.flatMap (·.exposed l.breaksLiterals))
  else []

/-- The words that the walks compare with texts of any kind. -/
def compared (l : Language) : List String :=
  l.signatures.terminators ++ l.signatures.returnSeparator.toList ++
    l.signatures.introducerMarkers ++ l.signatures.arrow.toList ++
    l.signatures.allowedPredecessors ++ l.signatures.typeBraces ++
    l.decisions.flatMap DecisionRule.words

/-- The words compared have no quotes, and no marker is written like interpolation. -/
structure Legible (l : Language) : Prop where
  compared : ∀ w ∈ l.compared, unquoted w = true
  markers : "\x7d" ∉ l.signatures.introducerMarkers ∧ "$\x7b" ∉ l.signatures.introducerMarkers

variable {l : Language} {r : DecisionRule} {w : String}

theorem mem_compared_of_rule (hr : r ∈ l.decisions) (hw : w ∈ r.words) : w ∈ l.compared :=
  List.mem_append_right _ (List.mem_flatMap.mpr ⟨r, hr, hw⟩)

/-- The words that a guard of a rule finds in literals are exposed, if literals hold code. -/
theorem mem_exposed_of_rule (hl : l.interpolates = true) (hr : r ∈ l.decisions)
    (hw : w ∈ r.exposed l.breaksLiterals) : w ∈ l.exposed := by
  rw [exposed, if_pos hl]
  exact List.mem_cons_of_mem _ (List.mem_append_right _ (List.mem_flatMap.mpr ⟨r, hr, hw⟩))

/-- An exposed word is an angle bracket, or stands before statements, or is compared. -/
theorem mem_exposed (hw : w ∈ l.exposed) : w = "<" ∨ w ∈ statementBounds ∨ w ∈ l.compared := by
  have hfixed : ∀ w ∈ ["(", "[", "\x7b", ";"], w ∈ statementBounds := by decide
  simp only [exposed] at hw
  split at hw
  · simp only [List.mem_cons, List.mem_append, List.mem_flatMap] at hw
    rcases hw with rfl | (hw | hw) | ⟨r, hr, hw⟩
    · exact .inl rfl
    · grind
    · simp only [compared, List.mem_append]
      grind
    · exact .inr ((r.mem_exposed hw).imp_right (mem_compared_of_rule hr))
  · cases hw

/-- Exposed words have no quotes. -/
theorem Legible.exposed (hl : l.Legible) (hw : w ∈ l.exposed) : unquoted w = true := by
  have hbounds : ∀ w ∈ statementBounds, unquoted w = true := by decide
  rcases mem_exposed hw with rfl | hw | hw
  · decide
  · exact hbounds w hw
  · exact hl.compared w hw

end Language

namespace Code

/-! ## Kinds and texts -/

section Accessors

variable {code : Code} {i : Nat}

theorem isPunct_eq (p : String) :
    code.isPunct i p = (code.kind? i == some .punctuation && code.text i == p) := by
  cases h : code.lexemes[i]? <;> simp [isPunct, kind?, text, Token.isPunct, h]

theorem isOp_eq (o : String) :
    code.isOp i o = (code.kind? i == some .operator && code.text i == o) := by
  cases h : code.lexemes[i]? <;> simp [isOp, kind?, text, h]

theorem isWord_eq :
    code.isWord i = (code.kind? i == some .identifier || code.kind? i == some .keyword) := by
  cases h : code.lexemes[i]? <;> simp [isWord, kind?, Token.isWord, h]

theorem opensBracket_eq :
    code.opensBracket i =
      (code.isPunct i "(" || code.isPunct i "[" || code.isPunct i "\x7b") := by
  cases h : code.lexemes[i]? with
  | none => simp [opensBracket, isPunct, h]
  | some t =>
    simp only [opensBracket, isPunct, h, Option.any_some, Token.opens?, Token.isPunct]
    grind

theorem closesBracket_eq :
    code.closesBracket i =
      (code.isPunct i ")" || code.isPunct i "]" || code.isPunct i "\x7d") := by
  cases h : code.lexemes[i]? with
  | none => simp [closesBracket, isPunct, h]
  | some t =>
    simp only [closesBracket, isPunct, h, Option.any_some, Token.closes?, Token.isPunct]
    grind

theorem kind?_of_isPunct {p : String} (h : code.isPunct i p = true) :
    code.kind? i = some .punctuation := by
  simp only [isPunct_eq, Bool.and_eq_true, beq_iff_eq] at h
  exact h.1

theorem kind?_of_isOp {o : String} (h : code.isOp i o = true) :
    code.kind? i = some .operator := by
  simp only [isOp_eq, Bool.and_eq_true, beq_iff_eq] at h
  exact h.1

theorem kind?_of_isKind {k : Kind} (h : code.isKind i k = true) : code.kind? i = some k := by
  simpa only [isKind, beq_iff_eq] using h

/-- Past the last token there is no kind. -/
theorem kind?_eq_none_iff : code.kind? i = none ↔ code.size ≤ i := by
  simp [kind?, size]

end Accessors

/-! ## Veiled literals -/

/-- The token is a piece of a literal: code inside the literal ends right before it, and after it
more code starts, the line breaks or the input ends. -/
structure Enclosed (l : Language) (code : Code) (i : Nat) : Prop where
  interpolates : l.interpolates = true
  kind : code.kind? i = some .stringLiteral
  before : ∃ p, i = p + 1 ∧ code.kind? p = some .interpolation ∧ code.text p = "\x7d"
  after : code.kind? (i + 1) = some .interpolation ∨ code.kind? (i + 1) = none ∨
    l.breaksLiterals = true ∧ code.afterBreak (i + 1) = true

/-- The token is a literal whose text no walk can tell from others. -/
structure Veiled (l : Language) (code : Code) (i : Nat) : Prop where
  kind : code.kind? i = some .stringLiteral
  text : unquoted (code.text i) = true → code.Enclosed l i ∧ code.text i ∉ l.exposed

/-- The codes differ in veiled literals and in the layout only. -/
structure Alike (l : Language) (code code' : Code) : Prop where
  legible : l.Legible
  size : code'.size = code.size
  kind (i : Nat) : code'.kind? i = code.kind? i
  afterBreak (i : Nat) : code'.afterBreak i = code.afterBreak i
  partner (i : Nat) : code'.partner? i = code.partner? i
  text (i : Nat) : code'.text i = code.text i ∨ code.Veiled l i ∧ code'.Veiled l i
  paired : code.Paired
  seam {i : Nat} : code.kind? i = some .interpolation →
    code.text i = "\x7d" ∨ code.text i = "$\x7b"

/-- The token is no piece of a literal after code inside the literal. -/
def Settled (code : Code) (i : Nat) : Prop :=
  code.kind? i = some .stringLiteral → ∀ p, i = p + 1 → code.kind? p ≠ some .interpolation

namespace Alike

variable {l : Language} {code code' : Code} {i j : Nat}

/-- Alike codes have the same texts off their literals. -/
theorem text_of_kind (h : Alike l code code') (hk : code.kind? i ≠ some .stringLiteral) :
    code'.text i = code.text i := by
  rcases h.text i with heq | ⟨hv, -⟩
  · exact heq
  · exact absurd hv.kind hk

theorem isKind (h : Alike l code code') (i : Nat) (k : Kind) :
    code'.isKind i k = code.isKind i k := by
  simp only [Code.isKind, h.kind]

/-- Alike codes have the same punctuation, since no literal is one. -/
theorem isPunct (h : Alike l code code') (i : Nat) (p : String) :
    code'.isPunct i p = code.isPunct i p := by
  by_cases hk : code.kind? i = some .punctuation
  · rw [isPunct_eq, isPunct_eq, h.kind, h.text_of_kind (by simp [hk])]
  · rw [isPunct_eq, isPunct_eq, h.kind, beq_eq_false_iff_ne.mpr hk, Bool.false_and, Bool.false_and]

theorem isOp (h : Alike l code code') (i : Nat) (o : String) :
    code'.isOp i o = code.isOp i o := by
  by_cases hk : code.kind? i = some .operator
  · rw [isOp_eq, isOp_eq, h.kind, h.text_of_kind (by simp [hk])]
  · rw [isOp_eq, isOp_eq, h.kind, beq_eq_false_iff_ne.mpr hk, Bool.false_and, Bool.false_and]

theorem isWord (h : Alike l code code') (i : Nat) :
    code'.isWord i = code.isWord i := by
  simp only [isWord_eq, h.kind]

theorem text_of_isWord (h : Alike l code code') (hw : code.isWord i = true) :
    code'.text i = code.text i := by
  apply h.text_of_kind
  intro hk
  simp [isWord_eq, hk] at hw

theorem text_of_isKind (h : Alike l code code') {k : Kind} (hk : code.isKind i k = true)
    (hne : k ≠ .stringLiteral) : code'.text i = code.text i := by
  apply h.text_of_kind
  rw [kind?_of_isKind hk]
  simpa using hne

/-- A word is in a list in both codes or in neither. -/
theorem isWordIn (h : Alike l code code') (i : Nat) (words : List String) :
    code'.isWordIn i words = code.isWordIn i words := by
  cases hw : code.isWord i with
  | true => simp [Code.isWordIn, h.isWord, h.text_of_isWord hw]
  | false => simp [Code.isWordIn, h.isWord, hw]

theorem opensBracket (h : Alike l code code') (i : Nat) :
    code'.opensBracket i = code.opensBracket i := by
  simp only [opensBracket_eq, h.isPunct]

theorem closesBracket (h : Alike l code code') (i : Nat) :
    code'.closesBracket i = code.closesBracket i := by
  simp only [closesBracket_eq, h.isPunct]

theorem closesGroup (h : Alike l code code') (i : Nat) :
    code'.closesGroup i = code.closesGroup i := by
  simp only [Code.closesGroup, h.isPunct]

theorem opener (h : Alike l code code') (i : Nat) :
    code'.opener? i = code.opener? i := by
  simp only [Code.opener?, h.partner]

theorem closer (h : Alike l code code') (i : Nat) :
    code'.closer? i = code.closer? i := by
  simp only [Code.closer?, h.partner]

/-! ## Comparisons of texts -/

/-- A piece of a literal between pieces of code is one in both codes. -/
theorem enclosed (h : Alike l code code') : code'.Enclosed l i ↔ code.Enclosed l i := by
  have hbefore : ∀ p, code.kind? p = some .interpolation → code'.text p = code.text p :=
    fun p hp => h.text_of_kind (by simp [hp])
  constructor
  · rintro ⟨hl, hkind, ⟨p, rfl, hp, ht⟩, hafter⟩
    rw [h.kind] at hkind hp hafter
    rw [hbefore p hp] at ht
    rw [h.afterBreak] at hafter
    exact ⟨hl, hkind, ⟨p, rfl, hp, ht⟩, hafter⟩
  · rintro ⟨hl, hkind, ⟨p, rfl, hp, ht⟩, hafter⟩
    rw [← hbefore p hp] at ht
    rw [← h.kind] at hkind hp hafter
    rw [← h.afterBreak] at hafter
    exact ⟨hl, hkind, ⟨p, rfl, hp, ht⟩, hafter⟩

/-- A text that may differ is looked up in vain if all words that a piece of a literal may be are
exposed. -/
theorem contains_text (h : Alike l code code') {words : List String}
    (hwords : ∀ w ∈ words, unquoted w = true)
    (hexposed : code.Enclosed l i → ∀ w ∈ words, w ∈ l.exposed) :
    words.contains (code'.text i) = words.contains (code.text i) := by
  rcases h.text i with heq | ⟨hv, hv'⟩
  · rw [heq]
  · have hnot : code.text i ∉ words := fun hmem =>
      (hv.text (hwords _ hmem)).2 (hexposed (hv.text (hwords _ hmem)).1 _ hmem)
    have hnot' : code'.text i ∉ words := fun hmem =>
      (hv'.text (hwords _ hmem)).2
        (hexposed (h.enclosed.mp (hv'.text (hwords _ hmem)).1) _ hmem)
    simp [hnot, hnot']

/-- A text without quotes is that of a token in both codes or in neither.  For a piece of a literal
between pieces of code, it has to be an exposed word. -/
theorem text_eq_iff (h : Alike l code code') {w : String} (hw : unquoted w = true)
    (hexposed : code.Enclosed l i → w ∈ l.exposed) : code'.text i = w ↔ code.text i = w := by
  have hmem : [w].contains (code'.text i) = [w].contains (code.text i) :=
    h.contains_text (by simpa using hw) (by simpa using hexposed)
  simpa using hmem

theorem text_beq (h : Alike l code code') {w : String} (hw : unquoted w = true)
    (hexposed : code.Enclosed l i → w ∈ l.exposed) :
    (code'.text i == w) = (code.text i == w) := by
  rw [Bool.eq_iff_iff, beq_iff_eq, beq_iff_eq, h.text_eq_iff hw hexposed]

end Alike

/-! ## Settled tokens -/

namespace Settled

variable {l : Language} {code : Code} {i p : Nat}

/-- A settled token is no piece of a literal between pieces of code. -/
theorem not_enclosed (hs : code.Settled i) : ¬ code.Enclosed l i := by
  rintro ⟨-, hkind, ⟨p, rfl, hp, -⟩, -⟩
  exact hs hkind p rfl hp

theorem of_kind (hk : code.kind? i ≠ some .stringLiteral) : code.Settled i :=
  fun hkind => absurd hkind hk

theorem succ (hk : code.kind? p ≠ some .interpolation) : code.Settled (p + 1) := by
  rintro - q hq
  obtain rfl : p = q := Nat.succ.inj hq
  exact hk

theorem of_isWord (h : code.isWord p = true) : code.Settled (p + 1) := by
  apply succ
  intro hk
  simp [isWord_eq, hk] at h

theorem of_isKind {k : Kind} (h : code.isKind p k = true) (hne : k ≠ .interpolation) :
    code.Settled (p + 1) := by
  apply succ
  rw [kind?_of_isKind h]
  simpa using hne

theorem of_isOp {s : String} (h : code.isOp p s = true) : code.Settled (p + 1) :=
  succ (by simp [kind?_of_isOp h])

end Settled

/-- Partners are punctuation. -/
theorem Paired.kind?_partner {code : Code} (h : code.Paired) {i j : Nat}
    (hp : code.partner? i = some j) : code.kind? j = some .punctuation := by
  rcases h.partner?_iff.mp hp with hp | hp
  · obtain ⟨b, -, hb⟩ := h.shape (h.closer?_iff.mpr hp)
    exact kind?_of_isPunct hb
  · obtain ⟨b, hb, -⟩ := h.shape (h.closer?_iff.mpr hp)
    exact kind?_of_isPunct hb

namespace Alike

variable {l : Language} {code code' : Code} {i j : Nat}

/-- The texts of a token are the same, or both have quotes, or neither is exposed. -/
theorem text_cases (h : Alike l code code') (i : Nat) :
    code'.text i = code.text i ∨
      (unquoted (code.text i) = false ∧ unquoted (code'.text i) = false) ∨
      code.Enclosed l i ∧ code.text i ∉ l.exposed ∧ code'.text i ∉ l.exposed := by
  by_cases he : code.Enclosed l i
  · rcases h.text i with heq | ⟨hv, hv'⟩
    · exact .inl heq
    · exact .inr (.inr ⟨he, fun hmem => (hv.text (h.legible.exposed hmem)).2 hmem,
        fun hmem => (hv'.text (h.legible.exposed hmem)).2 hmem⟩)
  · rcases h.text i with heq | ⟨hv, hv'⟩
    · exact .inl heq
    · refine .inr (.inl ⟨Bool.eq_false_iff.mpr fun hbare => he (hv.text hbare).1,
        Bool.eq_false_iff.mpr fun hbare => he (h.enclosed.mp (hv'.text hbare).1)⟩)

/-- The texts of a settled token are the same, or both have quotes. -/
theorem text_settled (h : Alike l code code') (hs : code.Settled i) :
    code'.text i = code.text i ∨
      unquoted (code.text i) = false ∧ unquoted (code'.text i) = false := by
  rcases h.text_cases i with heq | hquoted | ⟨he, -⟩
  · exact .inl heq
  · exact .inr hquoted
  · exact absurd he hs.not_enclosed

/-- What stands behind a partner is settled, since the partner is a bracket. -/
theorem settled_partner (h : Alike l code code') (hp : code.partner? i = some j) :
    code.Settled (j + 1) :=
  .succ (by simp [h.paired.kind?_partner hp])

/-- What stands behind a closer is settled. -/
theorem settled_closer (h : Alike l code code') (hc : code.closer? i = some j) :
    code.Settled (j + 1) :=
  h.settled_partner (Option.filter_eq_some_iff.mp hc).1

end Alike

end Code

end Cyclomatic
