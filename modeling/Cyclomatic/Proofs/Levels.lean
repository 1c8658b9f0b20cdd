import Cyclomatic.Proofs.Builtin
import Cyclomatic.Proofs.Confinement

/-!
# Signatures keep their level

Two tokens are at one level if the same brackets are open before them (`Code.Level`).  The readers
of a signature step over tokens that are no brackets and over whole bracket groups.  So the brace
of a body, and what binds it to a name, are at the level of the token where the signature was found
(`Code.signatureAt_level`).

Some readers compare the text of a token with words of the table.  `SignatureRules.Bracketless`
says that no bracket is among these words.
-/

namespace Cyclomatic

/-- The texts of brackets. -/
def bracketTexts : List String := ["(", ")", "[", "]", "\x7b", "\x7d"]

/-- No word that a reader steps over is a bracket. -/
structure SignatureRules.Bracketless (rules : SignatureRules) : Prop where
  /-- A return type is not introduced by a bracket. -/
  separator : ∀ t ∈ rules.returnSeparator, t ∉ bracketTexts
  /-- An arrow is no bracket. -/
  arrow : ∀ t ∈ rules.arrow, t ∉ bracketTexts
  /-- A marker is no bracket. -/
  markers : ∀ t ∈ rules.introducerMarkers, t ∉ bracketTexts
  /-- A keyword of a type is no bracket. -/
  typeBraces : ∀ t ∈ rules.typeBraces, t ∉ bracketTexts

/-- The words of a built-in table are no brackets. -/
theorem bracketless_builtin {name : String} {l : Language}
    (h : Registry.builtin.lookup? name = some l) : l.signatures.Bracketless := by
  rcases Registry.builtin_cases h with rfl | rfl | rfl | rfl | rfl <;> constructor <;> decide

namespace Code

variable {code : Code} {rules : SignatureRules} {i j k : Nat}

/-! ## Brackets -/

/-- The token is a bracket. -/
def isBracket (code : Code) (j : Nat) : Bool := code.opensBracket j || code.closesBracket j

theorem closesBracket_of_isPunct {b : Bracket} (h : code.isPunct j b.closing = true) :
    code.closesBracket j = true := by
  obtain ⟨t, ht, hp⟩ := (Option.any_eq_true ..).mp h
  have hcloses : t.closes? = some b := Token.closes?_iff.mpr hp
  simp [closesBracket, ht, hcloses]

/-- An opening bracket is of one of the three kinds. -/
theorem exists_opening (h : code.opensBracket j = true) :
    ∃ b : Bracket, code.isPunct j b.opening = true := by
  obtain ⟨t, ht, hopens⟩ := (Option.any_eq_true ..).mp h
  obtain ⟨b, hb⟩ := Option.isSome_iff_exists.mp hopens
  exact ⟨b, (Option.any_eq_true ..).mpr ⟨t, ht, Token.opens?_iff.mp hb⟩⟩

theorem exists_closing (h : code.closesBracket j = true) :
    ∃ b : Bracket, code.isPunct j b.closing = true := by
  obtain ⟨t, ht, hcloses⟩ := (Option.any_eq_true ..).mp h
  obtain ⟨b, hb⟩ := Option.isSome_iff_exists.mp hcloses
  exact ⟨b, (Option.any_eq_true ..).mpr ⟨t, ht, Token.closes?_iff.mp hb⟩⟩

/-- A bracket is punctuation with one of six texts. -/
theorem exists_isPunct (h : code.isBracket j = true) :
    ∃ p ∈ bracketTexts, code.isPunct j p = true := by
  rcases Bool.or_eq_true_iff.mp h with h | h
  · obtain ⟨b, hb⟩ := exists_opening h
    exact ⟨_, by cases b <;> decide, hb⟩
  · obtain ⟨b, hb⟩ := exists_closing h
    exact ⟨_, by cases b <;> decide, hb⟩

theorem not_isBracket_of_text (h : code.text j ∉ bracketTexts) : code.isBracket j = false := by
  by_contra hb
  obtain ⟨p, hp, hj⟩ := exists_isPunct (Bool.eq_true_of_not_eq_false hb)
  exact h (isPunct_text hj ▸ hp)

/-- Only punctuation is a bracket. -/
theorem not_isBracket_of_isKind {kind : Kind} (h : code.isKind j kind = true)
    (hne : kind ≠ .punctuation) : code.isBracket j = false := by
  by_contra hb
  obtain ⟨p, -, hj⟩ := exists_isPunct (Bool.eq_true_of_not_eq_false hb)
  obtain ⟨t, ht, hp⟩ := (Option.any_eq_true ..).mp hj
  simp only [Token.isPunct, Bool.and_eq_true, beq_iff_eq] at hp
  simp only [isKind, kind?, ht, Option.map_some, hp.1, beq_iff_eq, Option.some.injEq] at h
  exact hne h.symm

theorem not_isBracket_of_isWord (h : code.isWord j = true) : code.isBracket j = false := by
  by_contra hb
  obtain ⟨p, -, hj⟩ := exists_isPunct (Bool.eq_true_of_not_eq_false hb)
  rw [not_isWord_of_isPunct hj] at h
  cases h

theorem not_isBracket_of_isOp {op : String} (h : code.isOp j op = true) :
    code.isBracket j = false := by
  obtain ⟨t, ht, hop⟩ := (Option.any_eq_true ..).mp h
  simp only [Bool.and_eq_true, beq_iff_eq] at hop
  have hkind : code.isKind j .operator = true := by simp [isKind, kind?, ht, hop.1]
  exact not_isBracket_of_isKind hkind (by decide)

/-- Punctuation with another text is no bracket. -/
theorem not_isBracket_of_isPunct {p : String} (h : code.isPunct j p = true)
    (hp : p ∉ bracketTexts) : code.isBracket j = false :=
  not_isBracket_of_text (by rwa [isPunct_text h])

/-- What has a closer opens a bracket. -/
theorem opensBracket_of_closer? (hp : code.Paired) {o c : Nat} (h : code.closer? o = some c) :
    code.opensBracket o = true := by
  obtain ⟨b, ho, -⟩ := hp.shape h
  exact opensBracket_of_isPunct ho

/-- What is a closer closes a bracket. -/
theorem closesBracket_of_closer? (hp : code.Paired) {o c : Nat} (h : code.closer? o = some c) :
    code.closesBracket c = true := by
  obtain ⟨b, -, hc⟩ := hp.shape h
  exact closesBracket_of_isPunct hc

/-- A token that opens a bracket closes none. -/
theorem not_closesBracket_of_opensBracket (h : code.opensBracket j = true) :
    code.closesBracket j = false := by
  by_contra hcloses
  obtain ⟨b, hb⟩ := exists_opening h
  obtain ⟨b', hb'⟩ := exists_closing (Bool.eq_true_of_not_eq_false hcloses)
  have htext := isPunct_text hb
  rw [isPunct_text hb'] at htext
  exact absurd htext (by cases b <;> cases b' <;> decide)

/-- A bracket that opens is the closer of no other. -/
theorem ne_of_opensBracket (hp : code.Paired) (hj : code.opensBracket j = true) {o c : Nat}
    (h : code.closer? o = some c) : j ≠ c := by
  rintro rfl
  have hcloses := closesBracket_of_closer? hp h
  rw [not_closesBracket_of_opensBracket hj] at hcloses
  cases hcloses

/-! ## Levels -/

/-- The second token comes after the first, and the same brackets are open before both. -/
structure Level (code : Code) (i j : Nat) : Prop where
  /-- It comes after it. -/
  le : i ≤ j
  /-- A pair that is open before one of them is open before the other. -/
  same : ∀ {o c}, code.closer? o = some c → (o < i ∧ i ≤ c ↔ o < j ∧ j ≤ c)

namespace Level

theorem refl (code : Code) (i : Nat) : code.Level i i := ⟨Nat.le_refl i, fun _ => Iff.rfl⟩

/-- Two walks on one level make a walk on that level. -/
theorem trans (h : code.Level i j) (h' : code.Level j k) : code.Level i k :=
  ⟨Nat.le_trans h.le h'.le, fun hc => (h.same hc).trans (h'.same hc)⟩

/-- A token that is no bracket may be stepped over. -/
theorem next (hp : code.Paired) (h : code.isBracket j = false) : code.Level j (j + 1) := by
  refine ⟨Nat.le_succ j, fun {o c} hc => ?_⟩
  simp only [isBracket, Bool.or_eq_false_iff] at h
  have hne : o ≠ j := by
    rintro rfl
    rw [opensBracket_of_closer? hp hc] at h
    cases h.1
  have hne' : c ≠ j := by
    rintro rfl
    rw [closesBracket_of_closer? hp hc] at h
    cases h.2
  omega

/-- A group may be stepped over as a whole. -/
theorem group (hp : code.Paired) {d : Nat} (h : code.closer? j = some d) :
    code.Level j (d + 1) := by
  have hlt := code.lt_closer? h
  refine ⟨by omega, fun {o c} hc => ?_⟩
  have hoc := code.lt_closer? hc
  have hinj : o = j → c = d := by
    rintro rfl
    exact Option.some.inj (hc.symm.trans h)
  constructor
  · rintro ⟨ho, hj⟩
    have hjc : j ≠ c := ne_of_opensBracket hp (opensBracket_of_closer? hp h) hc
    have := hp.nested hc h ho (by omega)
    omega
  · rintro ⟨ho, hd⟩
    have hod : o ≠ d := ne_of_opensBracket hp (opensBracket_of_closer? hp hc) h
    by_cases hjo : j < o
    · have := hp.nested h hc hjo (by omega)
      omega
    · omega

/-- A word is passed on one level. -/
theorem nextWord (hp : code.Paired) (h : code.isWord j = true) : code.Level j (j + 1) :=
  next hp (not_isBracket_of_isWord h)

theorem nextName (hp : code.Paired) (h : code.isKind j .identifier = true) :
    code.Level j (j + 1) :=
  next hp (not_isBracket_of_isKind h (by decide))

theorem nextText (hp : code.Paired) (h : code.text j ∉ bracketTexts) : code.Level j (j + 1) :=
  next hp (not_isBracket_of_text h)

/-- A jump over a group stays on one level. -/
theorem partner (hp : code.Paired) {b : Bracket} (hb : code.isPunct j b.opening = true)
    (h : code.partner? j = some k) : code.Level j (k + 1) :=
  group hp (hp.closer?_of_opening hb h).1

/-! ## Types and generic lists -/

/-- A generic list opens no bracket that it leaves open, since its groups are jumped over. -/
theorem anglesFrom (hp : code.Paired) {first depth r : Nat}
    (h : code.anglesFrom first depth k = .ok (some r)) : code.Level k r := by
  fun_induction code.anglesFrom first depth k with
  | case2 _ _ _ _ hop ih => exact (next hp (not_isBracket_of_isOp hop)).trans (ih h)
  | case4 _ _ _ _ hop _ =>
    cases h
    exact next hp (not_isBracket_of_isOp hop)
  | case5 _ _ _ _ _ hop _ _ ih => exact (next hp (not_isBracket_of_isOp hop)).trans (ih h)
  | case6 _ _ _ _ _ _ _ close hclose _ ih => exact (group hp hclose).trans (ih h)
  | case10 _ k _ _ _ _ hopens hcloses _ ih =>
    refine (next hp ?_).trans (ih h)
    simp only [Bool.or_eq_true, not_or, Bool.not_eq_true] at hcloses
    simp only [isBracket, hcloses.1, Bool.or_false]
    exact Bool.eq_false_of_not_eq_true hopens
  | case1 | case3 | case7 | case8 | case9 | case11 => cases h

theorem angles (hp : code.Paired) (h : code.skipAngles? j = some k) : code.Level j k :=
  anglesFrom hp (skipAngles?_eq_some.mp h).2

/-- A type stays on one level. -/
theorem skipType (hp : code.Paired) (atom : Bool) (j : Nat) :
    code.Level j (code.skipType atom j) := by
  fun_induction code.skipType atom j
  case case1 hatom ih =>
    refine (next hp ?_).trans ih
    simp only [Bool.or_eq_true] at hatom
    rcases hatom with (hword | hkind) | hkind
    · exact not_isBracket_of_isWord hword
    · exact not_isBracket_of_isKind hkind (by decide)
    · exact not_isBracket_of_isKind hkind (by decide)
  case case2 close hclose _ harrow ih =>
    refine ((group hp hclose).trans (nextText hp ?_)).trans ih
    simp only [Bool.or_eq_true, beq_iff_eq] at harrow
    rcases harrow with harrow | harrow <;> rw [harrow] <;> decide
  case case3 close hclose _ _ ih => exact (group hp hclose).trans ih
  case case5 hop ih =>
    refine (next hp ?_).trans ih
    rcases Bool.or_eq_true_iff.mp hop with hop | hop <;> exact not_isBracket_of_isOp hop
  case case7 t ht ih =>
    refine (nextText hp ?_).trans ih
    simp only [Bool.or_eq_true, beq_iff_eq] at ht
    change t ∉ bracketTexts
    rcases ht with (ht | ht) | ht <;> rw [ht] <;> decide
  case case8 after hafter _ ih => exact (angles hp hafter).trans ih
  case case10 t _ _ ht ih =>
    refine (nextText hp ?_).trans ih
    simp only [Bool.or_eq_true, beq_iff_eq] at ht
    change t ∉ bracketTexts
    rcases ht with ht | ht <;> rw [ht] <;> decide
  case case11 close hclose _ ih => exact (group hp hclose).trans ih
  all_goals exact refl code _

/-! ## What follows the parameters -/

theorem skipClause (hp : code.Paired) (j : Nat) : code.Level j (code.skipClause j) := by
  fun_induction code.skipClause j with
  | case1 j k h _ _ ih =>
    refine ((skipType hp true j).trans (nextText hp ?_)).trans ih
    rcases h with h | h <;> rw [show code.text (code.skipType true j) = _ from h] <;> decide
  | case2 j k h => exact skipType hp true j

theorem skipClauses (hp : code.Paired) (rules : SignatureRules) (j : Nat) :
    code.Level j (code.skipClauses rules j) := by
  fun_induction code.skipClauses rules j with
  | case1 j h _ _ ih =>
    exact ((nextWord hp (isWord_of_isWordIn h)).trans (skipClause hp _)).trans ih
  | case2 j h => exact refl code j

theorem returnType (hp : code.Paired) (hr : rules.Bracketless) (j : Nat) :
    code.Level j (code.skipReturnType rules j) := by
  unfold skipReturnType
  split
  · rename_i h
    have hsep : rules.returnSeparator = some (code.text j) := by simpa using h
    exact (nextText hp (hr.separator _ hsep)).trans (skipType hp true _)
  · exact refl code j

/-- A free return type keeps the level, unless an open group takes it to the end of the code. -/
theorem freeReturn (hp : code.Paired) (hr : rules.Bracketless)
    (h : code.skipFreeReturn rules j < code.size) :
    code.Level j (code.skipFreeReturn rules j) := by
  fun_induction code.skipFreeReturn rules j with
  | case1 => exact refl code _
  | case2 j _ _ hbrace close hclose _ ih =>
    simp only [Bool.and_eq_true, List.contains_iff_mem] at hbrace
    exact ((nextText hp (hr.typeBraces _ hbrace.1)).trans (group hp hclose)).trans (ih h)
  | case3 => exact absurd h (Nat.lt_irrefl _)
  | case4 j _ _ _ _ close hclose _ ih => exact (group hp hclose).trans (ih h)
  | case5 => exact absurd h (Nat.lt_irrefl _)
  | case6 => exact refl code _
  | case7 => exact refl code _
  | case8 j _ _ _ hopens hstop _ ih =>
    refine (next hp ?_).trans (ih h)
    simp only [Bool.or_eq_true, not_or, Bool.not_eq_true] at hopens hstop
    by_contra hb
    rcases Bool.or_eq_true_iff.mp (Bool.eq_true_of_not_eq_false hb) with ho | hc
    · obtain ⟨b, hb⟩ := exists_opening ho
      cases b
      · exact absurd hb (by simp [Bracket.opening, hopens.1])
      · exact absurd hb (by simp [Bracket.opening, hopens.2])
      · exact absurd hb (by simp [Bracket.opening, hstop.1.1.1])
    · rw [hstop.1.1.2] at hc
      cases hc
  | case9 => exact refl code _

/-- What stands between the parameters and the body stays on one level. -/
theorem tail (hp : code.Paired) (hr : rules.Bracketless) {brace : Nat}
    (h : code.tailAt? rules j = some (.body brace)) : code.Level j brace := by
  obtain ⟨hstart, hbrace⟩ := code.tailAt?_body rules h
  have hclauses := (returnType hp hr j).trans (skipClauses hp rules _)
  have hsize := code.lt_size_of_isPunct hbrace
  rw [hstart] at hsize ⊢
  unfold tailStart at hsize ⊢
  split
  · rename_i hfree
    rw [if_pos hfree] at hsize
    exact hclauses.trans (freeReturn hp hr hsize)
  · exact hclauses

/-! ## Names and parameters -/

theorem generics (hp : code.Paired) (rules : SignatureRules) (j : Nat) :
    code.Level j (code.skipGenerics rules j) := by
  unfold skipGenerics
  split
  · cases h : code.skipAngles? j with
    | none => exact refl code j
    | some r => exact angles hp h
  · exact refl code j

theorem afterReceiver (hp : code.Paired) (rules : SignatureRules) (name : Nat) :
    code.Level (name + 1) (code.afterReceiver rules name) := by
  have hgenerics := generics hp rules (name + 1)
  unfold Code.afterReceiver
  dsimp only
  split
  · rename_i h
    refine hgenerics.trans (nextText hp ?_)
    rw [beq_iff_eq.mp h]
    decide
  · exact hgenerics

theorem receivers (hp : code.Paired) (rules : SignatureRules) {name : Nat}
    (h : code.isKind name .identifier = true) :
    code.Level name ((code.receiverChain rules name).2 + 1) := by
  fun_induction code.receiverChain rules name with
  | case1 name n hpoint _ _ receivers last heq ih =>
    simp only [Bool.and_eq_true] at hpoint
    have hdot := next hp (not_isBracket_of_isPunct hpoint.1 (by decide))
    have hlast := ih hpoint.2
    rw [heq] at hlast
    exact (((nextName hp h).trans (afterReceiver hp rules name)).trans hdot).trans hlast
  | case2 => exact nextName hp h

theorem name (hp : code.Paired) {chain : List String}
    (h : code.nameAt? rules j = some (chain, k)) : code.Level j (k + 1) := by
  obtain ⟨hname, ⟨-, hchain⟩ | ⟨-, rfl⟩⟩ := nameAt?_cases h
  · have hlevel := receivers hp rules hname
    rw [hchain] at hlevel
    exact hlevel
  · exact nextName hp hname

theorem typeParams (hp : code.Paired) (rules : SignatureRules) (j : Nat) :
    code.Level j (code.skipTypeParams rules j) := by
  unfold skipTypeParams
  split
  · rename_i after h
    split at h
    · exact angles hp h
    · cases h
  · split
    · rename_i h
      simp only [Bool.and_eq_true] at h
      split
      · rename_i close hclose
        exact partner hp (b := .square) h.2 hclose
      · exact refl code j
    · exact refl code j

theorem params (hp : code.Paired) (h : code.params? j = some k) : code.Level j (k + 1) := by
  obtain ⟨hparen, hclose⟩ := params?_eq_some.mp h
  exact partner hp (b := .round) hparen hclose

/-- Markers stay on one level, unless one is a bracket. -/
theorem markers (hp : code.Paired) (hr : rules.Bracketless)
    (h : code.skipMarkers rules j = .ok k) : code.Level j k := by
  fun_induction code.skipMarkers rules j with
  | case1 j _ hm ih =>
    exact (nextText hp (hr.markers _ (List.contains_iff_mem.mp hm))).trans (ih h)
  | case2 => cases h; exact refl code _
  | case3 => cases h
  | case4 => cases h; exact refl code _

theorem modifiers (hp : code.Paired) (rules : SignatureRules) (j : Nat) :
    code.Level j (code.skipModifiers rules j) := by
  fun_induction code.skipModifiers rules j with
  | case1 j h _ ih =>
    exact (nextWord hp (isWord_of_isWordIn h)).trans ih
  | case2 j h => exact refl code j

theorem receiver (hp : code.Paired) {type : Option String}
    (h : code.receiverAt? rules j = some (type, k)) : code.Level j k := by
  rcases receiverAt?_cases h with ⟨-, hparen, close, hclose, rfl⟩ | ⟨-, rfl⟩
  · exact partner hp (b := .round) hparen hclose
  · exact refl code k

theorem ownName (hp : code.Paired) (k : Nat) :
    code.Level k (if code.isKind k .identifier then k + 1 else k) := by
  split
  · exact nextName hp ‹_›
  · exact refl code k

/-- From type parameters to the brace of the body. -/
theorem takes (hp : code.Paired) (hr : rules.Bracketless) {brace : Nat}
    (h : code.Takes rules j (.body brace)) : code.Level j brace := by
  obtain ⟨close, hclose, htail⟩ := h
  exact ((typeParams hp rules j).trans (params hp hclose)).trans (tail hp hr htail)

/-- From a binding keyword to the value. -/
theorem binds (hp : code.Paired) (hr : rules.Bracketless) (h : code.Binds rules i j) :
    code.Level i j := by
  have hname := (nextWord hp (isWord_of_isWordIn h.keyword)).trans (nextName hp h.name)
  have hequals := (hname.trans (returnType hp hr _)).trans (nextText hp (by rw [h.equals]; decide))
  exact h.value ▸ hequals.trans (modifiers hp rules _)

theorem arrowParams (hp : code.Paired) (hr : rules.Bracketless)
    (h : code.afterArrowParams? rules j = some k) : code.Level j k := by
  rcases afterArrowParams?_cases h with ⟨hparen, close, hclose, rfl⟩ | ⟨hname, rfl⟩
  · exact (partner hp (b := .round) hparen hclose).trans (returnType hp hr _)
  · exact nextName hp hname

end Level

/-! ## Signatures -/

/-- The brace of a signature and what binds it are at the level of a token. -/
structure LevelSignature (code : Code) (i : Nat) (s : Signature) : Prop where
  /-- The brace is. -/
  body : ∀ {brace}, s.tail = .body brace → code.Level i brace
  /-- What binds it is. -/
  binding : ∀ {b}, s.binding = some b → code.Level i b

/-- The brace of a signature, and what binds it, are at the level of the token where the signature
was found. -/
theorem signatureAt_level (hp : code.Paired) (hr : rules.Bracketless) {scopes : List Scope}
    {s : Signature} (h : code.signatureAt rules scopes i = .ok (some s)) :
    code.LevelSignature i s := by
  cases signatureAt_shape h with
  | compact hname =>
    refine ⟨?_, nofun⟩
    rintro brace ⟨⟩
    exact .nextName hp hname
  | introduced hword hmarkers hreceiver hname htakes =>
    refine ⟨?_, nofun⟩
    rintro brace rfl
    have hfirst := (Level.nextWord hp (isWord_of_isWordIn hword)).trans (.markers hp hr hmarkers)
    have hsetting := (hfirst.trans (.generics hp rules _)).trans (.receiver hp hreceiver)
    exact (hsetting.trans (.name hp hname)).trans (.takes hp hr htakes)
  | arrow hbinds htext hparams harrow =>
    have hvalue := (Level.binds hp hr hbinds).trans (.generics hp rules _)
    have hbefore := hvalue.trans (.arrowParams hp hr hparams)
    constructor
    · rintro brace ⟨⟩
      exact hbefore.trans (.nextText hp (harrow ▸ hr.arrow _ htext))
    · rintro b ⟨⟩
      exact hbefore
  | bound hbinds hintro hmarkers htakes =>
    have hvalue := Level.binds hp hr hbinds
    constructor
    · rintro brace ⟨⟩
      have hover := hvalue.trans (.nextWord hp (isWord_of_isWordIn hintro))
      have hnamed := (hover.trans (.markers hp hr hmarkers)).trans (.ownName hp _)
      exact hnamed.trans (.takes hp hr htakes)
    · rintro b ⟨⟩
      exact hvalue
  | typed _ hname _ _ htakes =>
    refine ⟨?_, nofun⟩
    rintro brace rfl
    exact (Level.nextName hp hname).trans (.takes hp hr htakes)

end Code

end Cyclomatic
