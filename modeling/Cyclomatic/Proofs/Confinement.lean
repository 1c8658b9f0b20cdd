import Cyclomatic.Function.Detect
import Cyclomatic.Proofs.Brackets
import Cyclomatic.Proofs.Shapes

/-!
# Signatures stay inside the body around them

A signature and the head of a type are read forward from their first token.  The readers step
over single tokens and over whole bracket groups.  They never step over a closing brace, and
groups are nested.  So a reader that starts inside a body does not leave it.

Some readers compare the text of a token with words of the table.  `SignatureRules.Braceless`
says that no closing brace is among these words.
-/

namespace Cyclomatic

/-- No word that a signature may hold is a closing brace, and no marker is empty. -/
structure SignatureRules.Braceless (rules : SignatureRules) : Prop where
  /-- A return type is not introduced by a closing brace. -/
  separator : rules.returnSeparator ≠ some "\x7d"
  /-- An arrow is no closing brace. -/
  arrow : rules.arrow ≠ some "\x7d"
  /-- A closing brace is no marker. -/
  markers : "\x7d" ∉ rules.introducerMarkers
  /-- The empty text is no marker. -/
  noEmptyMarker : "" ∉ rules.introducerMarkers
  /-- A closing brace is no keyword of a type. -/
  typeBraces : "\x7d" ∉ rules.typeBraces

namespace Code

/-! ## Readers move forward -/

section Forward

variable (code : Code) (rules : SignatureRules)

theorem le_skipClauses (j : Nat) : j ≤ code.skipClauses rules j := by
  fun_induction code.skipClauses rules j with
  | case1 j h hle _ ih => omega
  | case2 j h => exact Nat.le_refl j

theorem le_skipReturnType (j : Nat) : j ≤ code.skipReturnType rules j := by
  unfold skipReturnType
  split
  · exact Nat.le_of_succ_le (code.le_skipType true (j + 1))
  · exact Nat.le_refl j

theorem le_skipFreeReturn (j : Nat) : j ≤ code.skipFreeReturn rules j := by
  fun_induction code.skipFreeReturn rules j <;> omega

/-- The first token after the return type and the clauses of a signature. -/
def tailStart (j : Nat) : Nat :=
  if rules.freeReturn then
    code.skipFreeReturn rules (code.skipClauses rules (code.skipReturnType rules j))
  else code.skipClauses rules (code.skipReturnType rules j)

theorem le_tailStart (j : Nat) : j ≤ code.tailStart rules j := by
  have h1 := code.le_skipReturnType rules j
  have h2 := code.le_skipClauses rules (code.skipReturnType rules j)
  unfold tailStart
  split
  · exact Nat.le_trans (Nat.le_trans h1 h2) (code.le_skipFreeReturn rules _)
  · exact Nat.le_trans h1 h2

/-- What ends a signature is told by the token at which its tail starts. -/
theorem tailAt?_eq (j : Nat) : code.tailAt? rules j =
    let k := code.tailStart rules j
    if code.isPunct k "\x7b" then some (.body k)
    else if k < code.size && rules.terminators.contains (code.text k) then
      some (.terminated (k + 1))
    else if rules.newlineTerminates && code.afterBreak k then some (.terminated k)
    else none := rfl

/-- A body opens at the brace where the tail of its signature starts. -/
theorem tailAt?_body {j brace : Nat} (h : code.tailAt? rules j = some (.body brace)) :
    brace = code.tailStart rules j ∧ code.isPunct brace "\x7b" = true := by
  rw [tailAt?_eq] at h
  dsimp only at h
  split at h
  · rename_i hbrace
    cases h
    exact ⟨rfl, hbrace⟩
  · split at h
    · cases h
    · split at h <;> cases h

theorem le_skipTypeParams (hp : code.Paired) (j : Nat) : j ≤ code.skipTypeParams rules j := by
  unfold skipTypeParams
  split
  · rename_i r h
    split at h
    · exact Nat.le_of_lt (code.lt_skipAngles? h)
    · cases h
  · split
    · rename_i h
      simp only [Bool.and_eq_true] at h
      split
      · rename_i d hd
        have := code.lt_closer? (hp.closer?_of_opening (b := .square) h.2 hd).1
        omega
      · exact Nat.le_refl j
    · exact Nat.le_refl j

/-- Parameters close behind the token at which they open. -/
theorem params?_lt (hp : code.Paired) {j close : Nat} (h : code.params? j = some close) :
    j < close := by
  obtain ⟨hparen, hclose⟩ := params?_eq_some.mp h
  exact code.lt_closer? (hp.closer?_of_opening (b := .round) hparen hclose).1

theorem le_receiverChain (name : Nat) : name ≤ (code.receiverChain rules name).2 := by
  fun_induction code.receiverChain rules name with
  | case1 name n h hlt _ receivers last heq ih =>
    rw [heq] at ih
    simp only at ih ⊢
    omega
  | case2 => exact Nat.le_refl _

/-- A name is read from its token on. -/
theorem nameAt?_le {j name : Nat} {chain : List String}
    (h : code.nameAt? rules j = some (chain, name)) : j ≤ name := by
  obtain ⟨-, ⟨-, hchain⟩ | ⟨-, rfl⟩⟩ := nameAt?_cases h
  · have hle := code.le_receiverChain rules j
    rw [hchain] at hle
    exact hle
  · exact Nat.le_refl name

/-- The search for the end of markers goes forward. -/
theorem le_skipMarkers {j r : Nat} (h : code.skipMarkers rules j = .ok r) : j ≤ r := by
  fun_induction code.skipMarkers rules j with
  | case1 _ _ _ ih => exact Nat.le_of_succ_le (ih h)
  | case2 => cases h; exact Nat.le_refl _
  | case3 => cases h
  | case4 => cases h; exact Nat.le_refl _

theorem le_skipModifiers (j : Nat) : j ≤ code.skipModifiers rules j := by
  fun_induction code.skipModifiers rules j with
  | case1 _ _ _ ih => exact Nat.le_of_succ_le ih
  | case2 => exact Nat.le_refl _

/-- A type opens at a brace, not before the token from which it is looked for. -/
theorem containerBrace?_brace {j brace : Nat} (h : code.containerBrace? rules j = some brace) :
    j ≤ brace ∧ code.isPunct brace "\x7b" = true := by
  fun_induction code.containerBrace? rules j with
  | case1 j _ hbrace =>
    obtain rfl := Option.some.inj h
    exact ⟨Nat.le_refl _, hbrace⟩
  | case2 j _ _ _ close _ hlt ih =>
    obtain ⟨hle, hbrace⟩ := ih h
    exact ⟨by omega, hbrace⟩
  | case3 => cases h
  | case4 => cases h
  | case5 => cases h
  | case6 j _ _ _ _ _ ih =>
    obtain ⟨hle, hbrace⟩ := ih h
    exact ⟨by omega, hbrace⟩
  | case7 => cases h

end Forward

/-- A brace and the brace that closes it. -/
structure Body (code : Code) (o c : Nat) : Prop where
  /-- They are a pair. -/
  pair : code.closer? o = some c
  /-- The closer is a brace. -/
  close : code.isPunct c "\x7d" = true

namespace Body

variable {code : Code} {o c : Nat}

/-! ## The closing brace -/

theorem text_close (b : code.Body o c) : code.text c = "\x7d" := isPunct_text b.close

theorem token_close (b : code.Body o c) :
    ∃ t, code.lexemes[c]? = some t ∧ t.kind = .punctuation := by
  obtain ⟨t, ht, hp⟩ := (Option.any_eq_true ..).mp b.close
  simp only [Token.isPunct, Bool.and_eq_true, beq_iff_eq] at hp
  exact ⟨t, ht, hp.1⟩

theorem closesBracket_close (b : code.Body o c) : code.closesBracket c = true := by
  obtain ⟨t, ht, hp⟩ := (Option.any_eq_true ..).mp b.close
  have hcl : t.closes? = some .curly := Token.closes?_iff.mpr hp
  simp [closesBracket, ht, hcl]

/-- A word up to the end of a body is not the brace at the end. -/
@[grind →]
theorem lt_of_isWord (b : code.Body o c) {j : Nat} (h : code.isWord j = true) (hj : j ≤ c) :
    j < c := by
  refine Nat.lt_of_le_of_ne hj ?_
  rintro rfl
  simp [not_isWord_of_isPunct b.close] at h

@[grind →]
theorem lt_of_isOp (b : code.Body o c) {j : Nat} {op : String} (h : code.isOp j op = true)
    (hj : j ≤ c) : j < c := by
  refine Nat.lt_of_le_of_ne hj ?_
  rintro rfl
  obtain ⟨t, ht, hk⟩ := b.token_close
  simp [isOp, ht, hk] at h

@[grind →]
theorem lt_of_isKind (b : code.Body o c) {j : Nat} {k : Kind} (h : code.isKind j k = true)
    (hk : k ≠ .punctuation) (hj : j ≤ c) : j < c := by
  refine Nat.lt_of_le_of_ne hj ?_
  rintro rfl
  obtain ⟨t, ht, hkind⟩ := b.token_close
  simp only [isKind, kind?, ht, Option.map_some, hkind, beq_iff_eq, Option.some.injEq] at h
  exact hk h.symm

theorem lt_of_text (b : code.Body o c) {j : Nat} {s : String} (h : code.text j = s)
    (hs : s ≠ "\x7d") (hj : j ≤ c) : j < c := by
  refine Nat.lt_of_le_of_ne hj ?_
  rintro rfl
  exact hs (h.symm.trans b.text_close)

@[grind →]
theorem lt_of_isPunct (b : code.Body o c) {j : Nat} {p : String} (h : code.isPunct j p = true)
    (hp : p ≠ "\x7d") (hj : j ≤ c) : j < c :=
  b.lt_of_text (isPunct_text h) hp hj

/-- A group that starts inside a body ends inside it. -/
theorem closer_lt (b : code.Body o c) (hp : code.Paired) {j d : Nat} (hj : o < j) (hc : j ≤ c)
    (h : code.closer? j = some d) : d < c := by
  obtain ⟨s, hs, -⟩ := hp.shape h
  have hjc : j < c := b.lt_of_isPunct hs (by cases s <;> decide) hc
  exact hp.nested b.pair h hj hjc

/-- A bracket that opens inside a body closes inside it. -/
theorem partner_lt (b : code.Body o c) (hp : code.Paired) {s : Bracket} {j d : Nat} (hj : o < j)
    (hc : j ≤ c) (hs : code.isPunct j s.opening = true) (h : code.partner? j = some d) :
    j < d ∧ d < c := by
  obtain ⟨hd, -⟩ := hp.closer?_of_opening hs h
  exact ⟨code.lt_closer? hd, b.closer_lt hp hj hc hd⟩

/-! ## Types and generic lists -/

/-- A generic list that is looked for inside a body ends inside it, since each group in it does. -/
theorem anglesFrom_le (b : code.Body o c) (hp : code.Paired) {first depth k r : Nat}
    (hk : o < k) (hc : k ≤ c) (h : code.anglesFrom first depth k = .ok (some r)) : r ≤ c := by
  fun_induction code.anglesFrom first depth k with
  | case2 _ _ _ _ hop ih => exact ih (by omega) (b.lt_of_isOp hop hc) h
  | case4 _ _ _ _ hop _ =>
    cases h
    exact b.lt_of_isOp hop hc
  | case5 _ _ _ _ _ hop _ _ ih => exact ih (by omega) (b.lt_of_isOp hop hc) h
  | case6 _ _ _ _ _ _ _ close hclose hlt ih =>
    exact ih (by omega) (b.closer_lt hp hk hc hclose) h
  | case10 _ k _ _ _ _ _ hcloses _ ih =>
    have hne : k ≠ c := by
      rintro rfl
      simp [b.closesBracket_close] at hcloses
    exact ih (by omega) (by omega) h
  | case1 | case3 | case7 | case8 | case9 | case11 => cases h

theorem skipAngles_le (b : code.Body o c) (hp : code.Paired) {j r : Nat} (hj : o < j)
    (hc : j ≤ c) (h : code.skipAngles? j = some r) : r ≤ c :=
  b.anglesFrom_le hp hj hc (skipAngles?_eq_some.mp h).2

/-- A type inside a body ends inside it. -/
theorem skipType_le (b : code.Body o c) (hp : code.Paired) {atom : Bool} {j : Nat} (hj : o < j)
    (hc : j ≤ c) : code.skipType atom j ≤ c := by
  have hgroup : ∀ {j d : Nat}, o < j → j ≤ c → code.closer? j = some d → d < c := b.closer_lt hp
  have hangles : ∀ {j d : Nat}, o < j → j ≤ c → code.skipAngles? j = some d → d ≤ c :=
    b.skipAngles_le hp
  have hclose := b.text_close
  fun_induction code.skipType atom j <;> grind

/-! ## What follows the parameters -/

/-- A clause inside a body ends inside it. -/
theorem skipClause_le (b : code.Body o c) (hp : code.Paired) {j : Nat} (hj : o < j)
    (hc : j ≤ c) : code.skipClause j ≤ c := by
  fun_induction code.skipClause j with
  | case1 j k h hle _ ih =>
    have hk : k ≤ c := b.skipType_le hp hj hc
    have hlt : k < c := by
      rcases h with h | h
      · exact b.lt_of_text h (by decide) hk
      · exact b.lt_of_text h (by decide) hk
    exact ih (by omega) hlt
  | case2 j k h => exact b.skipType_le hp hj hc

theorem skipClauses_le (b : code.Body o c) (hp : code.Paired) (rules : SignatureRules) {j : Nat}
    (hj : o < j) (hc : j ≤ c) : code.skipClauses rules j ≤ c := by
  fun_induction code.skipClauses rules j with
  | case1 j h hle _ ih =>
    have hlt := b.lt_of_isWord (isWord_of_isWordIn h) hc
    exact ih (by omega) (b.skipClause_le hp (by omega) hlt)
  | case2 j h => exact hc

theorem skipReturnType_le (b : code.Body o c) (hp : code.Paired) {rules : SignatureRules}
    (hr : rules.Braceless) {j : Nat} (hj : o < j) (hc : j ≤ c) :
    code.skipReturnType rules j ≤ c := by
  unfold skipReturnType
  split
  · rename_i h
    have hsep : rules.returnSeparator = some (code.text j) := by simpa using h
    have hne : code.text j ≠ "\x7d" := fun he => hr.separator (he ▸ hsep)
    exact b.skipType_le hp (by omega) (b.lt_of_text rfl hne hc)
  · exact hc

/-- A free return type ends in the body, unless an open group takes it to the end of the code. -/
theorem skipFreeReturn_le (b : code.Body o c) (hp : code.Paired) {rules : SignatureRules}
    (hr : rules.Braceless) {j : Nat} (hj : o < j) (hc : j ≤ c)
    (h : code.skipFreeReturn rules j < code.size) : code.skipFreeReturn rules j ≤ c := by
  fun_induction code.skipFreeReturn rules j with
  | case1 => exact hc
  | case2 j _ _ hbrace close hclose hlt ih =>
    have hne : code.text j ≠ "\x7d" := by
      intro he
      simp only [he, Bool.and_eq_true, List.contains_iff_mem] at hbrace
      exact hr.typeBraces hbrace.1
    have hjc := b.lt_of_text rfl hne hc
    exact ih (by omega) (b.closer_lt hp (by omega) hjc hclose) h
  | case3 => exact absurd h (Nat.lt_irrefl _)
  | case4 j _ _ _ _ close hclose hlt ih =>
    exact ih (by omega) (b.closer_lt hp hj hc hclose) h
  | case5 => exact absurd h (Nat.lt_irrefl _)
  | case6 => exact hc
  | case7 => exact hc
  | case8 j _ _ _ _ hstop _ ih =>
    have hne : j ≠ c := by
      rintro rfl
      simp [b.closesBracket_close] at hstop
    exact ih (by omega) (by omega) h
  | case9 => exact hc

/-- The brace after a signature that starts in a body belongs to the body. -/
theorem tail_lt (b : code.Body o c) (hp : code.Paired) {rules : SignatureRules}
    (hr : rules.Braceless) {j brace : Nat} (hj : o < j) (hc : j ≤ c)
    (h : code.tailAt? rules j = some (.body brace)) : brace < c := by
  obtain ⟨hstart, hbrace⟩ := code.tailAt?_body rules h
  have hret := b.skipReturnType_le hp hr hj hc
  have hj' := Nat.lt_of_lt_of_le hj (code.le_skipReturnType rules j)
  have hclauses := b.skipClauses_le hp rules hj' hret
  have hj'' := Nat.lt_of_lt_of_le hj' (code.le_skipClauses rules _)
  have hle : brace ≤ c := by
    have hsize := code.lt_size_of_isPunct hbrace
    rw [hstart] at hsize ⊢
    unfold tailStart at hsize ⊢
    split
    · rename_i hfree
      rw [if_pos hfree] at hsize
      exact b.skipFreeReturn_le hp hr hj'' hclauses hsize
    · exact hclauses
  exact b.lt_of_isPunct hbrace (by decide) hle

/-! ## Names and parameters -/

/-- A generic list in a signature inside a body ends inside it. -/
theorem skipGenerics_le (b : code.Body o c) (hp : code.Paired) (rules : SignatureRules) {j : Nat}
    (hj : o < j) (hc : j ≤ c) : code.skipGenerics rules j ≤ c := by
  unfold skipGenerics
  split
  · cases h : code.skipAngles? j with
    | none => exact hc
    | some r => exact b.skipAngles_le hp hj hc h
  · exact hc

theorem afterReceiver_le (b : code.Body o c) (hp : code.Paired) (rules : SignatureRules)
    {name : Nat} (hj : o ≤ name) (hc : name < c) : code.afterReceiver rules name ≤ c := by
  have hle := b.skipGenerics_le hp rules (Nat.lt_succ_of_le hj) hc
  unfold afterReceiver
  dsimp only
  split
  · rename_i h
    exact b.lt_of_text (beq_iff_eq.mp h) (by decide) hle
  · exact hle

theorem receiverChain_lt (b : code.Body o c) (hp : code.Paired) (rules : SignatureRules)
    {name : Nat} (hj : o < name) (hc : name < c) : (code.receiverChain rules name).2 < c := by
  fun_induction code.receiverChain rules name with
  | case1 name n h hlt _ receivers last heq ih =>
    simp only [Bool.and_eq_true] at h
    have hn : n ≤ c := b.afterReceiver_le hp rules (Nat.le_of_lt hj) hc
    have hn' : n + 1 ≤ c := b.lt_of_isPunct h.1 (by decide) hn
    have hlast := ih (by omega) (b.lt_of_isKind h.2 (by decide) hn')
    rw [heq] at hlast
    exact hlast
  | case2 => exact hc

/-- A name that is read inside a body stands inside it. -/
theorem nameAt_lt (b : code.Body o c) (hp : code.Paired) {rules : SignatureRules} {j name : Nat}
    {chain : List String} (hj : o < j) (hc : j ≤ c)
    (h : code.nameAt? rules j = some (chain, name)) : name < c := by
  obtain ⟨hname, hcases⟩ := nameAt?_cases h
  have hjc := b.lt_of_isKind hname (by decide) hc
  rcases hcases with ⟨-, hchain⟩ | ⟨-, rfl⟩
  · have hlt := b.receiverChain_lt hp rules hj hjc
    rw [hchain] at hlt
    exact hlt
  · exact hjc

theorem skipTypeParams_le (b : code.Body o c) (hp : code.Paired) (rules : SignatureRules)
    {j : Nat} (hj : o < j) (hc : j ≤ c) : code.skipTypeParams rules j ≤ c := by
  unfold skipTypeParams
  split
  · rename_i r h
    split at h
    · exact b.skipAngles_le hp hj hc h
    · cases h
  · split
    · rename_i h
      simp only [Bool.and_eq_true] at h
      split
      · rename_i d hd
        exact (b.partner_lt hp (s := .square) hj hc h.2 hd).2
      · exact hc
    · exact hc

/-- Parameters that open inside a body close inside it. -/
theorem params_lt (b : code.Body o c) (hp : code.Paired) {j close : Nat} (hj : o < j)
    (hc : j ≤ c) (h : code.params? j = some close) : close < c := by
  obtain ⟨hparen, hclose⟩ := params?_eq_some.mp h
  exact (b.partner_lt hp (s := .round) hj hc hparen hclose).2

/-- Markers inside a body end inside it, unless a brace is one. -/
theorem skipMarkers_le (b : code.Body o c) {rules : SignatureRules} (hr : rules.Braceless)
    {j r : Nat} (hc : j ≤ c) (h : code.skipMarkers rules j = .ok r) : r ≤ c := by
  fun_induction code.skipMarkers rules j with
  | case1 j _ hm ih =>
    have hne : code.text j ≠ "\x7d" := fun he =>
      hr.markers (he ▸ List.contains_iff_mem.mp hm)
    exact ih (b.lt_of_text rfl hne hc) h
  | case2 => cases h; exact hc
  | case3 => cases h
  | case4 => cases h; exact hc

theorem skipModifiers_le (b : code.Body o c) {rules : SignatureRules} {j : Nat} (hc : j ≤ c) :
    code.skipModifiers rules j ≤ c := by
  fun_induction code.skipModifiers rules j with
  | case1 j h _ ih =>
    exact ih (b.lt_of_isWord (isWord_of_isWordIn h) hc)
  | case2 => exact hc

/-- The brace of a container whose head starts in a body belongs to the body. -/
theorem containerBrace_lt (b : code.Body o c) (hp : code.Paired) {rules : SignatureRules}
    {j brace : Nat} (hj : o < j) (hc : j ≤ c)
    (h : code.containerBrace? rules j = some brace) : brace < c := by
  fun_induction code.containerBrace? rules j with
  | case1 j _ hbrace =>
    obtain rfl := Option.some.inj h
    exact b.lt_of_isPunct hbrace (by decide) hc
  | case2 j _ _ _ close hclose hlt ih =>
    exact ih (by omega) (b.closer_lt hp hj hc hclose) h
  | case3 => cases h
  | case4 => cases h
  | case5 => cases h
  | case6 j _ _ _ hstop _ ih =>
    have hne : j ≠ c := by
      rintro rfl
      simp [b.closesBracket_close] at hstop
    exact ih (by omega) (by omega) h
  | case7 => cases h

end Body

/-! ## Signatures -/

/-- Token `j` comes after token `i` and lies in every body that holds token `i`, or closes it. -/
structure Ahead (code : Code) (i j : Nat) : Prop where
  /-- It comes after it. -/
  le : i ≤ j
  /-- No body that holds the first token ends before the second. -/
  inside : ∀ {o c : Nat}, code.Body o c → o < i → i ≤ c → j ≤ c

namespace Ahead

variable {code : Code} {rules : SignatureRules} {i j k : Nat}

theorem refl (i : Nat) : code.Ahead i i := ⟨Nat.le_refl i, fun _ _ hc => hc⟩

/-- One reader goes on where another ends. -/
theorem trans (h1 : code.Ahead i j) (h2 : code.Ahead j k) : code.Ahead i k :=
  ⟨Nat.le_trans h1.le h2.le, fun b ho hc =>
    h2.inside b (Nat.lt_of_lt_of_le ho h1.le) (h1.inside b ho hc)⟩

/-- A token that is no closing brace may be stepped over. -/
theorem next (h : code.text j ≠ "\x7d") : code.Ahead j (j + 1) :=
  ⟨Nat.le_succ j, fun b _ hc => b.lt_of_text rfl h hc⟩

/-- No word closes a body. -/
theorem nextWord (h : code.isWord j = true) : code.Ahead j (j + 1) :=
  ⟨Nat.le_succ j, fun b _ hc => b.lt_of_isWord h hc⟩

theorem nextKind {k : Kind} (h : code.isKind j k = true) (hk : k ≠ .punctuation) :
    code.Ahead j (j + 1) :=
  ⟨Nat.le_succ j, fun b _ hc => b.lt_of_isKind h hk hc⟩

/-- A generic list keeps a reader inside the bodies around it. -/
theorem generics (hp : code.Paired) (rules : SignatureRules) (j : Nat) :
    code.Ahead j (code.skipGenerics rules j) :=
  ⟨code.le_skipGenerics rules j, fun b ho hc => b.skipGenerics_le hp rules ho hc⟩

theorem typeParams (hp : code.Paired) (rules : SignatureRules) (j : Nat) :
    code.Ahead j (code.skipTypeParams rules j) :=
  ⟨code.le_skipTypeParams rules hp j, fun b ho hc => b.skipTypeParams_le hp rules ho hc⟩

theorem returnType (hp : code.Paired) (hr : rules.Braceless) (j : Nat) :
    code.Ahead j (code.skipReturnType rules j) :=
  ⟨code.le_skipReturnType rules j, fun b ho hc => b.skipReturnType_le hp hr ho hc⟩

theorem markers (hr : rules.Braceless) (h : code.skipMarkers rules j = .ok k) :
    code.Ahead j k :=
  ⟨code.le_skipMarkers rules h, fun b _ hc => b.skipMarkers_le hr hc h⟩

theorem modifiers (rules : SignatureRules) (j : Nat) : code.Ahead j (code.skipModifiers rules j) :=
  ⟨code.le_skipModifiers rules j, fun b _ hc => b.skipModifiers_le hc⟩

theorem partner (hp : code.Paired) {s : Bracket} (hs : code.isPunct j s.opening = true)
    (h : code.partner? j = some k) : code.Ahead j (k + 1) := by
  have hlt := code.lt_closer? (hp.closer?_of_opening hs h).1
  exact ⟨by omega, fun b ho hc => (b.partner_lt hp ho hc hs h).2⟩

theorem params (hp : code.Paired) (h : code.params? j = some k) : code.Ahead j (k + 1) := by
  have hlt := code.params?_lt hp h
  exact ⟨by omega, fun b ho hc => b.params_lt hp ho hc h⟩

theorem name (hp : code.Paired) {chain : List String}
    (h : code.nameAt? rules j = some (chain, k)) : code.Ahead j (k + 1) := by
  have hle := code.nameAt?_le rules h
  exact ⟨by omega, fun b ho hc => b.nameAt_lt hp ho hc h⟩

theorem receiver (hp : code.Paired) {type : Option String}
    (h : code.receiverAt? rules j = some (type, k)) : code.Ahead j k := by
  rcases receiverAt?_cases h with ⟨-, hparen, close, hclose, rfl⟩ | ⟨-, rfl⟩
  · exact partner hp (s := .round) hparen hclose
  · exact refl k

theorem ownName (k : Nat) :
    code.Ahead k (if code.isKind k .identifier then k + 1 else k) := by
  split
  · exact nextKind ‹_› (by decide)
  · exact refl k

/-- From type parameters to the brace of the body. -/
theorem takes (hp : code.Paired) (hr : rules.Braceless) {brace : Nat}
    (h : code.Takes rules j (.body brace)) :
    code.Ahead j brace ∧ code.isPunct brace "\x7b" = true := by
  obtain ⟨close, hclose, htail⟩ := h
  obtain ⟨hstart, hbrace⟩ := code.tailAt?_body rules htail
  have hahead : code.Ahead (close + 1) brace := by
    refine ⟨?_, fun b ho hc => Nat.le_of_lt (b.tail_lt hp hr ho hc htail)⟩
    rw [hstart]
    exact code.le_tailStart rules _
  exact ⟨((typeParams hp rules j).trans (params hp hclose)).trans hahead, hbrace⟩

/-- From the name that a keyword binds to the value. -/
theorem binds (hp : code.Paired) (hr : rules.Braceless) (h : code.Binds rules i j) :
    code.Ahead (i + 1) j := by
  have hname := (nextKind h.name (by decide)).trans (returnType hp hr (i + 2))
  have hequals := hname.trans (next (by rw [h.equals]; decide))
  exact h.value ▸ hequals.trans (modifiers rules _)

theorem arrowParams (hp : code.Paired) (hr : rules.Braceless)
    (h : code.afterArrowParams? rules j = some k) : code.Ahead j k := by
  rcases afterArrowParams?_cases h with ⟨hparen, close, hclose, rfl⟩ | ⟨hname, rfl⟩
  · exact (partner hp (s := .round) hparen hclose).trans (returnType hp hr _)
  · exact nextKind hname (by decide)

end Ahead

/-- A brace after token `i` that lies in every body that holds the token. -/
structure OpensAfter (code : Code) (i brace : Nat) : Prop where
  /-- It comes after the token. -/
  lt : i < brace
  /-- It opens a block. -/
  isBrace : code.isPunct brace "\x7b" = true
  /-- It belongs to every body that holds the token. -/
  inside : ∀ {o c : Nat}, code.Body o c → o < i → i ≤ c → brace < c

/-- The closing brace of a function that opens inside a body comes before the end of the body. -/
theorem OpensAfter.close_lt {code : Code} {i brace : Nat} (hb : code.OpensAfter i brace)
    (hp : code.Paired) {o c d : Nat} (b : code.Body o c) (ho : o < i) (hc : i ≤ c)
    (hd : code.partner? brace = some d) : d < c := by
  have hlt := hb.inside b ho hc
  have := hb.lt
  exact (b.partner_lt hp (s := .curly) (by omega) (Nat.le_of_lt hlt) hb.isBrace hd).2

/-- A brace that a reader comes to opens a body behind the word at which it started. -/
theorem Ahead.opensAfter {code : Code} {i brace : Nat} (h : code.Ahead (i + 1) brace)
    (hi : code.isWord i = true) (hb : code.isPunct brace "\x7b" = true) :
    code.OpensAfter i brace :=
  ⟨h.le, hb, fun b ho hc =>
    b.lt_of_isPunct hb (by decide) (((nextWord hi).trans h).inside b ho hc)⟩

section Shapes

variable {code : Code} {rules : SignatureRules}

/-- A signature starts where it was found, and its body belongs to every body that holds it. -/
theorem signatureAt_opens (hp : code.Paired) (hr : rules.Braceless) {scopes : List Scope}
    {i brace : Nat} {s : Signature} (h : code.signatureAt rules scopes i = .ok (some s)) :
    s.anchor = i ∧ (s.tail = .body brace → code.OpensAfter i brace) := by
  have hshape := signatureAt_shape h
  refine ⟨hshape.anchor_eq, fun htail => ?_⟩
  have hword := hshape.isWord
  cases hshape with
  | compact _ hbrace =>
    cases htail
    exact (Ahead.refl _).opensAfter hword hbrace
  | introduced _ hmarkers hreceiver hname htakes =>
    cases htail
    obtain ⟨hbody, hbrace⟩ := Ahead.takes hp hr htakes
    have hfirst := (Ahead.markers hr hmarkers).trans (.generics hp rules _)
    have hnamed := (hfirst.trans (.receiver hp hreceiver)).trans (.name hp hname)
    exact (hnamed.trans hbody).opensAfter hword hbrace
  | arrow hbinds htext hparams harrow hbrace =>
    cases htail
    have hvalue := (Ahead.binds hp hr hbinds).trans (.generics hp rules _)
    have hover : code.Ahead _ _ := .next fun he => hr.arrow (by rw [htext, ← harrow, he])
    exact ((hvalue.trans (.arrowParams hp hr hparams)).trans hover).opensAfter hword hbrace
  | bound hbinds hintro hmarkers htakes =>
    cases htail
    obtain ⟨hbody, hbrace⟩ := Ahead.takes hp hr htakes
    have hvalue := (Ahead.binds hp hr hbinds).trans (.nextWord (isWord_of_isWordIn hintro))
    have hnamed := (hvalue.trans (.markers hr hmarkers)).trans (.ownName _)
    exact (hnamed.trans hbody).opensAfter hword hbrace
  | typed _ _ _ _ htakes =>
    cases htail
    obtain ⟨hbody, hbrace⟩ := Ahead.takes hp hr htakes
    exact hbody.opensAfter hword hbrace

/-- Without an empty marker, the search for the end of markers has an answer. -/
theorem skipMarkers_isOk (code : Code) (hr : rules.Braceless) (j : Nat) :
    ∃ r, code.skipMarkers rules j = .ok r := by
  fun_induction code.skipMarkers rules j with
  | case1 _ _ _ ih => exact ih
  | case2 j => exact ⟨j, rfl⟩
  | case3 _ _ h => exact absurd (List.contains_iff_mem.mp h) hr.noEmptyMarker
  | case4 j => exact ⟨j, rfl⟩

/-- Without an empty marker, and with generic lists that stay in range, looking for a signature
always has an answer. -/
theorem signatureAt_isOk (hf : code.AnglesFit rules) (hr : rules.Braceless) (scopes : List Scope)
    (i : Nat) : ∃ s, code.signatureAt rules scopes i = .ok s := by
  rw [hf.signatureAt]
  unfold shapeAt
  split
  · exact ⟨_, rfl⟩
  · split
    · obtain ⟨r, h⟩ := code.skipMarkers_isOk hr (i + 1)
      exact ⟨_, by rw [introducedForm, h]; rfl⟩
    · split
      · unfold arrowForm
        dsimp only
        split
        · exact ⟨_, rfl⟩
        · split
          · obtain ⟨r, h⟩ := code.skipMarkers_isOk hr
              (code.skipModifiers rules (code.skipReturnType rules (i + 2) + 1) + 1)
            exact ⟨_, by rw [h]; rfl⟩
          · exact ⟨_, rfl⟩
      · split
        · exact ⟨_, rfl⟩
        · exact ⟨_, rfl⟩

end Shapes

end Code

end Cyclomatic
