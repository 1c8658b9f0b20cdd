import Cyclomatic.Proofs.Alike.Basic
import Cyclomatic.Proofs.Shapes

/-!
# Signatures of alike codes

A signature is read forward: names, generic lists, parameters, clauses, result types and markers.
In alike codes each reader has the same answer, and so the same signatures are recognised
(`Alike.shapeAt`, `Alike.signatureAt`).

A reader that compares texts could only tell one literal from another at a piece of a literal behind
code in the literal.  The tokens that readers come to are `Settled`: none of them is such a piece.
So the lemmas come in pairs.  From a settled token a reader has the same answer in both codes, and
where it ends the next token is settled again.
-/

namespace Cyclomatic

namespace Code

/-! ## Names -/

section Names

variable {code : Code} {rules : SignatureRules} {scopes : List Scope} {i j : Nat} {s : Signature}

/-- The last name of a chain is an identifier, as the first one is. -/
theorem isKind_receiverChain (rules : SignatureRules)
    (hname : code.isKind i .identifier = true) :
    code.isKind (code.receiverChain rules i).2 .identifier = true := by
  fun_induction code.receiverChain rules i with
  | case1 name n hn _ _ receivers last hrest ih =>
    simp only [Bool.and_eq_true] at hn
    have hlast := ih hn.2
    rwa [hrest] at hlast
  | case2 => exact hname

/-- What is read as a name is an identifier. -/
theorem isKind_of_nameAt? {chain : List String} {name : Nat}
    (h : code.nameAt? rules j = some (chain, name)) : code.isKind name .identifier = true := by
  obtain ⟨hname, ⟨-, hchain⟩ | ⟨-, rfl⟩⟩ := nameAt?_cases h
  · have hlast := isKind_receiverChain rules hname
    rw [hchain] at hlast
    exact hlast
  · exact hname

/-- The name of a signature is an identifier. -/
theorem isKind_name (h : code.signatureAt rules scopes i = .ok (some s)) :
    code.isKind s.name .identifier = true := by
  cases signatureAt_shape h with
  | compact hname => exact hname
  | introduced _ _ _ hname => exact isKind_of_nameAt? hname
  | arrow hbinds => exact hbinds.name
  | bound hbinds => exact hbinds.name
  | typed _ hname => exact hname

end Names

namespace Alike

variable {l : Language} {code code' : Code} {i j : Nat}

/-! ## Generic lists -/

/-- The walk over a generic list is the same, since it looks for operators, punctuation and
brackets. -/
theorem anglesFrom (h : Alike l code code') (first depth k : Nat) :
    code'.anglesFrom first depth k = code.anglesFrom first depth k := by
  fun_induction code.anglesFrom first depth k with
  | _ =>
    rw [Code.anglesFrom]
    simp only [h.size, h.isOp, h.isPunct, h.opensBracket, h.closesBracket]
    grind [h.closer]

theorem skipAngles (h : Alike l code code') (hs : code.Settled i) :
    code'.skipAngles i = code.skipAngles i := by
  simp only [Code.skipAngles, h.anglesFrom,
    h.text_beq (w := "<") (by decide) fun he => absurd he hs.not_enclosed]

theorem skipAngles? (h : Alike l code code') (hs : code.Settled i) :
    code'.skipAngles? i = code.skipAngles? i := by
  rw [Code.skipAngles?, Code.skipAngles?, h.skipAngles hs]

/-- A generic list ends behind an operator, so what stands there is settled. -/
theorem settled_anglesFrom {first depth k r : Nat}
    (hr : code.anglesFrom first depth k = .ok (some r)) : code.Settled r := by
  fun_induction code.anglesFrom first depth k with
  | case4 _ _ _ _ hop _ =>
    cases hr
    exact .of_isOp hop
  | _ => grind

theorem settled_skipAngles? {r : Nat} (hr : code.skipAngles? i = some r) : code.Settled r :=
  settled_anglesFrom (skipAngles?_eq_some.mp hr).2

/-! ## Types -/

/-- The marks of types have no quotes. -/
theorem unquoted_marks :
    unquoted "." = true ∧ unquoted "|" = true ∧ unquoted "&" = true ∧ unquoted "<" = true ∧
      unquoted "?" = true ∧ unquoted "!" = true ∧ unquoted "->" = true ∧ unquoted "=>" = true ∧
      unquoted "," = true ∧ unquoted ":" = true ∧ unquoted "=" = true := by
  decide

/-- What stands behind a word, a literal or a number is settled. -/
theorem settled_atom
    (hatom : (code.isWord j || code.isKind j .stringLiteral || code.isKind j .number) = true) :
    code.Settled (j + 1) := by
  simp only [Bool.or_eq_true] at hatom
  rcases hatom with (hword | hliteral) | hnumber
  · exact .of_isWord hword
  · exact .of_isKind hliteral (by decide)
  · exact .of_isKind hnumber (by decide)

/-- A token that is none of these is settled. -/
theorem settled_of_not_atom
    (hatom : ¬(code.isWord j || code.isKind j .stringLiteral || code.isKind j .number) = true) :
    code.Settled j := by
  apply Settled.of_kind
  intro hk
  simp [Code.isKind, hk] at hatom

/-- Interpolation is written in two ways only. -/
theorem settled_of_text (h : Alike l code code') {w : String} (ht : code.text j = w)
    (hw : w ≠ "\x7d" ∧ w ≠ "$\x7b") : code.Settled (j + 1) := by
  refine .succ fun hk => ?_
  rcases h.seam hk with heq | heq
  · exact hw.1 (ht.symm.trans heq)
  · exact hw.2 (ht.symm.trans heq)

/-- A mark behind a type is no code inside a literal, so what stands behind it is settled. -/
theorem settled_suffix (h : Alike l code code')
    (hmark : (code.text j == "?" || code.text j == "!") = true) : code.Settled (j + 1) := by
  simp only [Bool.or_eq_true, beq_iff_eq] at hmark
  rcases hmark with hmark | hmark
  · exact h.settled_of_text hmark (by decide)
  · exact h.settled_of_text hmark (by decide)

/-- A type ends at a settled token. -/
theorem settled_skipType (h : Alike l code code') {atom : Bool}
    (hs : atom = false → code.Settled j) : code.Settled (code.skipType atom j) := by
  fun_induction code.skipType atom j with
  | case1 j _ hatom ih => exact ih fun _ => settled_atom hatom
  | case2 j _ _ _ close _ _ _ ih => exact ih fun h => Bool.noConfusion h
  | case3 j _ _ _ close hclose _ _ ih => exact ih fun _ => h.settled_closer hclose
  | case4 j _ hatom => exact settled_of_not_atom hatom
  | case5 j _ _ _ _ ih => exact ih fun h => Bool.noConfusion h
  | case6 j _ hatom => exact settled_of_not_atom hatom
  | case7 atom j _ _ _ _ ih => exact ih fun h => Bool.noConfusion h
  | case8 atom j _ _ _ _ _ after hafter _ ih => exact ih fun _ => settled_skipAngles? hafter
  | case10 atom j _ _ t _ _ hmark ih => exact ih fun _ => h.settled_suffix hmark
  | case11 atom j _ _ _ _ _ _ _ close hclose _ ih => exact ih fun _ => h.settled_closer hclose
  | case9 | case12 | case13 => exact hs (by simpa using ‹¬_ = true›)
  | case14 atom j hj =>
    refine .of_kind ?_
    simp [kind?_eq_none_iff.mpr (Nat.le_of_not_lt hj)]

/-- Types end at the same tokens. -/
theorem skipType (h : Alike l code code') {atom : Bool} (hs : atom = false → code.Settled j) :
    code'.skipType atom j = code.skipType atom j := by
  have hw := unquoted_marks
  fun_induction code.skipType atom j with
  | _ =>
    rw [Code.skipType]
    simp only [h.size, h.isWord, h.isKind, h.isPunct, h.isOp]
    grind [settled_atom, h.closer, h.text_settled, h.settled_closer, h.skipAngles?,
      settled_skipAngles?, h.settled_suffix]

/-! ## What follows the parameters -/

/-- A whole type, from its first token on. -/
theorem skipType_true (h : Alike l code code') (j : Nat) :
    code'.skipType true j = code.skipType true j ∧ code.Settled (code.skipType true j) :=
  ⟨h.skipType nofun, h.settled_skipType nofun⟩

/-- A clause ends at the same token, and what stands behind it is settled. -/
theorem skipClause (h : Alike l code code') (j : Nat) :
    code'.skipClause j = code.skipClause j ∧ code.Settled (code.skipClause j) := by
  have hw := unquoted_marks
  fun_induction code.skipClause j with
  | _ j =>
    obtain ⟨htype, hsettled⟩ := h.skipType_true j
    have htext := h.text_settled hsettled
    rw [Code.skipClause]
    grind

theorem skipClauses (h : Alike l code code') (rules : SignatureRules) (j : Nat) :
    code'.skipClauses rules j = code.skipClauses rules j := by
  fun_induction code.skipClauses rules j with
  | case1 j hj _ _ ih =>
    rw [Code.skipClauses, dif_pos (by rw [h.isWordIn, hj])]
    simp only [(h.skipClause (j + 1)).1, ih]
  | case2 j hj => rw [Code.skipClauses, dif_neg (by rw [h.isWordIn]; exact hj)]

theorem settled_skipClauses (h : Alike l code code') (rules : SignatureRules)
    (hs : code.Settled j) : code.Settled (code.skipClauses rules j) := by
  fun_induction code.skipClauses rules j with
  | case1 j _ _ _ ih => exact ih (h.skipClause (j + 1)).2
  | case2 j => exact hs

theorem settled_skipReturnType (h : Alike l code code') (rules : SignatureRules)
    (hs : code.Settled j) : code.Settled (code.skipReturnType rules j) := by
  simp only [Code.skipReturnType]
  split
  · exact (h.skipType_true (j + 1)).2
  · exact hs

/-! ## Names and parameters -/

theorem skipGenerics (h : Alike l code code') (rules : SignatureRules) (hs : code.Settled j) :
    code'.skipGenerics rules j = code.skipGenerics rules j := by
  simp only [Code.skipGenerics, h.skipAngles? hs]

theorem settled_skipGenerics (rules : SignatureRules) (hs : code.Settled j) :
    code.Settled (code.skipGenerics rules j) := by
  simp only [Code.skipGenerics]
  split
  · cases hskip : code.skipAngles? j with
    | none => exact hs
    | some r => exact settled_skipAngles? hskip
  · exact hs

theorem afterReceiver (h : Alike l code code') (rules : SignatureRules)
    (hname : code.isKind i .identifier = true) :
    code'.afterReceiver rules i = code.afterReceiver rules i := by
  have hs : code.Settled (i + 1) := .of_isKind hname (by decide)
  have hend := settled_skipGenerics rules hs
  simp only [Code.afterReceiver, h.skipGenerics rules hs,
    h.text_beq (w := "?") (by decide) fun he => absurd he hend.not_enclosed]

/-- Chains of receivers are read alike. -/
theorem receiverChain (h : Alike l code code') (rules : SignatureRules)
    (hname : code.isKind i .identifier = true) :
    code'.receiverChain rules i = code.receiverChain rules i := by
  fun_induction code.receiverChain rules i with
  | case1 name n hn _ _ receivers last hrest ih =>
    simp only [Bool.and_eq_true] at hn
    have heq := ih hn.2
    rw [Code.receiverChain]
    simp only [h.afterReceiver rules hname, h.isPunct, h.isKind,
      h.text_of_isKind hname (by decide)]
    grind
  | case2 name n hn =>
    rw [Code.receiverChain]
    simp only [h.afterReceiver rules hname, h.isPunct, h.isKind]
    grind

/-- Names are read alike. -/
theorem nameAt? (h : Alike l code code') (rules : SignatureRules) (j : Nat) :
    code'.nameAt? rules j = code.nameAt? rules j := by
  simp only [Code.nameAt?, h.isKind]
  cases hname : code.isKind j .identifier with
  | true => simp only [h.receiverChain rules hname]
  | false => rfl

theorem skipTypeParams (h : Alike l code code') (rules : SignatureRules) (hs : code.Settled j) :
    code'.skipTypeParams rules j = code.skipTypeParams rules j := by
  simp only [Code.skipTypeParams, h.skipAngles? hs, h.isPunct, h.partner]

/-- Parameters close at the same tokens. -/
theorem params? (h : Alike l code code') (j : Nat) : code'.params? j = code.params? j := by
  simp only [Code.params?, h.isPunct, h.partner]

theorem settled_params? (h : Alike l code code') {close : Nat} (hc : code.params? j = some close) :
    code.Settled (close + 1) := by
  simp only [Code.params?] at hc
  split at hc
  · exact h.settled_partner hc
  · cases hc

theorem lastIdentifier? (h : Alike l code code') (close k : Nat) (last : Option String) :
    code'.lastIdentifier? close k last = code.lastIdentifier? close k last := by
  fun_induction code.lastIdentifier? close k last with
  | _ =>
    rw [Code.lastIdentifier?]
    simp only [h.isPunct, h.isKind]
    grind [h.closer, h.text_of_isKind]

/-- Receivers are read alike. -/
theorem receiverAt? (h : Alike l code code') (rules : SignatureRules) (j : Nat) :
    code'.receiverAt? rules j = code.receiverAt? rules j := by
  simp only [Code.receiverAt?, h.isPunct, h.partner, h.lastIdentifier?]

theorem skipModifiers (h : Alike l code code') (rules : SignatureRules) (j : Nat) :
    code'.skipModifiers rules j = code.skipModifiers rules j := by
  fun_induction code.skipModifiers rules j with
  | _ =>
    rw [Code.skipModifiers]
    simp only [h.isWordIn]
    grind

theorem settled_skipModifiers (rules : SignatureRules) (hs : code.Settled j) :
    code.Settled (code.skipModifiers rules j) := by
  fun_induction code.skipModifiers rules j with
  | case1 j hj _ ih =>
    exact ih (.of_isWord (isWord_of_isWordIn hj))
  | case2 j => exact hs

theorem unquoted_compared (h : Alike l code code') {words : List String}
    (hsub : words ⊆ l.compared) : ∀ w ∈ words, unquoted w = true :=
  fun w hw => h.legible.compared w (hsub hw)

/-- The text of a settled token is among some of these words in both codes or in neither. -/
theorem contains_settled (h : Alike l code code') (hs : code.Settled j) {words : List String}
    (hsub : words ⊆ l.compared) :
    words.contains (code'.text j) = words.contains (code.text j) :=
  h.contains_text (h.unquoted_compared hsub) fun he => absurd he hs.not_enclosed

/-- Result types end at the same tokens. -/
theorem skipReturnType (h : Alike l code code') (hs : code.Settled j) :
    code'.skipReturnType l.signatures j = code.skipReturnType l.signatures j := by
  simp only [Code.skipReturnType]
  cases hsep : l.signatures.returnSeparator with
  | none => rfl
  | some w =>
    have hw : unquoted w = true := h.legible.compared w (by simp [Language.compared, hsep])
    have htext := h.text_beq (i := j) hw fun he => absurd he hs.not_enclosed
    simp only [Option.some_beq_some, BEq.comm (a := w), htext, (h.skipType_true (j + 1)).1]

/-- Result types without separator end at the same tokens. -/
theorem skipFreeReturn (h : Alike l code code') (hfree : l.signatures.freeReturn = true) :
    code'.skipFreeReturn l.signatures j = code.skipFreeReturn l.signatures j := by
  have hbraces : ∀ j, l.signatures.typeBraces.contains (code'.text j) =
      l.signatures.typeBraces.contains (code.text j) := fun j =>
    h.contains_text (h.unquoted_compared (by intro w; simp [Language.compared]; grind))
      fun he w hw => by simp [Language.exposed, he.interpolates, hfree, hw]
  fun_induction code.skipFreeReturn l.signatures j with
  | _ j =>
    rw [Code.skipFreeReturn]
    simp only [h.size, h.afterBreak, h.isPunct, h.isOp, h.closesBracket, hbraces]
    grind [h.closer]

/-- Signatures have the same tails. -/
theorem tailAt? (h : Alike l code code') (hs : code.Settled j) :
    code'.tailAt? l.signatures j = code.tailAt? l.signatures j := by
  have hreturn := h.skipReturnType hs
  have hsettled := h.settled_skipClauses l.signatures (h.settled_skipReturnType l.signatures hs)
  simp only [Code.tailAt?, hreturn, h.skipClauses]
  generalize code.skipClauses l.signatures (code.skipReturnType l.signatures j) = k at hsettled
  have hsub : l.signatures.terminators ⊆ l.compared := by intro w; simp [Language.compared]; grind
  cases hfree : l.signatures.freeReturn with
  | true =>
    have hterm : ∀ j, l.signatures.terminators.contains (code'.text j) =
        l.signatures.terminators.contains (code.text j) := fun j =>
      h.contains_text (h.unquoted_compared hsub)
        fun he w hw => by simp [Language.exposed, he.interpolates, hfree, hw]
    simp only [if_true, h.skipFreeReturn hfree, h.isPunct, h.size, h.afterBreak, hterm]
  | false =>
    simp only [Bool.false_eq_true, if_false, h.isPunct, h.size, h.afterBreak,
      h.contains_settled hsettled hsub]

/-- Markers end at the same settled token, or the search for their end is endless in both. -/
theorem skipMarkers (h : Alike l code code') (hs : code.Settled j) :
    code'.skipMarkers l.signatures j = code.skipMarkers l.signatures j ∧
      ∀ {k}, code.skipMarkers l.signatures j = .ok k → code.Settled k := by
  have hsub : l.signatures.introducerMarkers ⊆ l.compared := by
    intro w
    simp [Language.compared]
    grind
  fun_induction code.skipMarkers l.signatures j with
  | case1 j hj hmark ih =>
    have hnext : code.Settled (j + 1) := by
      refine .succ fun hk => ?_
      rcases h.seam hk with heq | heq
      · exact h.legible.markers.1 (by simpa [heq] using hmark)
      · exact h.legible.markers.2 (by simpa [heq] using hmark)
    obtain ⟨heq, hsettled⟩ := ih hnext
    refine ⟨?_, hsettled⟩
    rw [Code.skipMarkers, dif_pos (by rwa [h.size]), h.contains_settled hs hsub, if_pos hmark,
      heq]
  | case2 j hj hmark =>
    refine ⟨?_, fun hk => by cases hk; exact hs⟩
    rw [Code.skipMarkers, dif_pos (by rwa [h.size]), h.contains_settled hs hsub, if_neg hmark]
  | case3 j hj hempty =>
    refine ⟨?_, fun hk => by cases hk⟩
    rw [Code.skipMarkers, dif_neg (by rwa [h.size]), if_pos hempty]
  | case4 j hj hempty =>
    refine ⟨?_, fun hk => by cases hk; exact hs⟩
    rw [Code.skipMarkers, dif_neg (by rwa [h.size]), if_neg hempty]

/-! ## Shapes -/

/-- What stands before a name.  On the line of the name it is no piece of a literal. -/
theorem predecessor (h : Alike l code code') (hname : code.isKind i .identifier = true)
    (word : String → Bool) :
    (i == 0 || code'.afterBreak i || if code'.isWord (i - 1) then word (code'.text (i - 1))
      else l.signatures.allowedPredecessors.contains (code'.text (i - 1))) =
    (i == 0 || code.afterBreak i || if code.isWord (i - 1) then word (code.text (i - 1))
      else l.signatures.allowedPredecessors.contains (code.text (i - 1))) := by
  rw [h.afterBreak, h.isWord]
  cases i with
  | zero => rfl
  | succ p =>
    cases hline : code.afterBreak (p + 1) with
    | true => simp
    | false =>
      congr 1
      split
      · rename_i hw
        rw [h.text_of_isWord hw]
      · refine h.contains_text (h.unquoted_compared ?_) fun he => absurd he.after ?_
        · intro w
          simp [Language.compared]
          grind
        · simp [kind?_of_isKind hname, hline]

/-- Compact constructors are read alike. -/
theorem compactForm? (h : Alike l code code') (scopes : List Scope) (i : Nat) :
    code'.compactForm? l.signatures scopes i = code.compactForm? l.signatures scopes i := by
  cases hname : code.isKind i .identifier with
  | false =>
    simp only [Code.compactForm?, h.isKind, hname, Bool.false_and]
    rfl
  | true =>
    simp only [Code.compactForm?, h.isKind, h.isPunct, h.text_of_isKind hname (by decide),
      h.predecessor hname]

theorem introducedFrom? (h : Alike l code code') (i : Nat) (hs : code.Settled j) :
    code'.introducedFrom? l.signatures i j = code.introducedFrom? l.signatures i j := by
  have hgenerics := settled_skipGenerics l.signatures hs
  simp only [Code.introducedFrom?, h.skipGenerics l.signatures hs, h.receiverAt?, h.nameAt?]
  refine Option.bind_congr ?_
  rintro ⟨receiver, k⟩ hreceiver
  refine Option.bind_congr ?_
  rintro ⟨chain, name⟩ hchain
  have hname := isKind_of_nameAt? hchain
  have hafter : code.Settled (name + 1) := .of_isKind hname (by decide)
  rw [h.skipTypeParams l.signatures hafter, h.params?]
  refine Option.bind_congr fun close hclose => ?_
  rw [h.tailAt? (h.settled_params? hclose)]

theorem introducedForm (h : Alike l code code')
    (hword : code.isWordIn i l.signatures.introducers = true) :
    code'.introducedForm l.signatures i = code.introducedForm l.signatures i := by
  have hs : code.Settled (i + 1) := .of_isWord (isWord_of_isWordIn hword)
  obtain ⟨hmarkers, hsettled⟩ := h.skipMarkers hs
  simp only [Code.introducedForm, hmarkers]
  cases hk : code.skipMarkers l.signatures (i + 1) with
  | error fault => rfl
  | ok k => simp only [Except.map, h.introducedFrom? i (hsettled hk)]

theorem typedForm? (h : Alike l code code') (hname : code.isKind i .identifier = true) :
    code'.typedForm? l.signatures i = code.typedForm? l.signatures i := by
  have hs : code.Settled (i + 1) := .of_isKind hname (by decide)
  have hpred := h.predecessor hname fun t => !l.signatures.excludedPredecessors.contains t
  simp only [Code.typedForm?, h.text_of_isKind hname (by decide), hpred,
    h.skipTypeParams l.signatures hs, h.params?]
  refine bind_congr fun _ => bind_congr fun _ => Option.bind_congr fun close hclose => ?_
  rw [h.tailAt? (h.settled_params? hclose)]

theorem introducedBody? (h : Alike l code code') (hs : code.Settled j) :
    code'.introducedBody? l.signatures j = code.introducedBody? l.signatures j := by
  have hk : code.Settled (if code.isKind j .identifier = true then j + 1 else j) := by
    split
    · exact .of_isKind ‹_› (by decide)
    · exact hs
  simp only [Code.introducedBody?, h.isKind, h.skipTypeParams l.signatures hk, h.params?]
  refine Option.bind_congr fun close hclose => ?_
  rw [h.tailAt? (h.settled_params? hclose)]

theorem afterArrowParams? (h : Alike l code code') (j : Nat) :
    code'.afterArrowParams? l.signatures j = code.afterArrowParams? l.signatures j ∧
      ∀ {k}, code.afterArrowParams? l.signatures j = some k → code.Settled k := by
  simp only [Code.afterArrowParams?, h.isPunct, h.partner, h.isKind]
  cases hopen : code.isPunct j "(" with
  | true =>
    cases hc : code.partner? j with
    | none => simp
    | some c =>
      have hs := h.settled_partner hc
      simp only [if_true, Option.map_some, h.skipReturnType hs, true_and]
      rintro k ⟨⟩
      exact h.settled_skipReturnType l.signatures hs
  | false =>
    refine ⟨rfl, ?_⟩
    intro k hk
    cases hname : code.isKind j .identifier with
    | true =>
      simp only [hname, Bool.false_eq_true, if_false, if_true, Option.some.injEq] at hk
      subst hk
      exact .of_isKind hname (by decide)
    | false => simp [hname] at hk

theorem arrowAt? (h : Alike l code code') (hs : code.Settled j) :
    code'.arrowAt? l.signatures j = code.arrowAt? l.signatures j := by
  simp only [Code.arrowAt?, h.skipGenerics l.signatures hs]
  refine Option.bind_congr fun arrow harrow => ?_
  obtain ⟨hparams, hsettled⟩ := h.afterArrowParams? (code.skipGenerics l.signatures j)
  rw [hparams]
  refine Option.bind_congr fun k hk => ?_
  have hw : unquoted arrow = true := h.legible.compared arrow (by simp_all [Language.compared])
  rw [h.text_beq hw fun he => absurd he (hsettled hk).not_enclosed, h.isPunct]

theorem arrowForm (h : Alike l code code') (i : Nat) :
    code'.arrowForm l.signatures i = code.arrowForm l.signatures i := by
  simp only [Code.arrowForm, h.isKind, h.skipModifiers, h.isWordIn]
  cases hname : code.isKind (i + 1) .identifier with
  | false => rfl
  | true =>
    have hs : code.Settled (i + 2) := .of_isKind hname (by decide)
    have hequals := h.settled_skipReturnType l.signatures hs
    rw [h.skipReturnType hs]
    generalize code.skipReturnType l.signatures (i + 2) = equals at hequals
    have htext : (code'.text equals == "=") = (code.text equals == "=") :=
      h.text_beq (by decide) fun he => absurd he hequals.not_enclosed
    rw [bne, htext, ← bne]
    cases heq : code.text equals != "=" with
    | true => rfl
    | false =>
      have hnext : code.Settled (equals + 1) :=
        h.settled_of_text (by simpa using heq) (by decide)
      have hj := settled_skipModifiers l.signatures hnext
      generalize code.skipModifiers l.signatures (equals + 1) = j at hj
      cases hword : code.isWordIn j l.signatures.introducers with
      | true =>
        have hw : code.Settled (j + 1) := .of_isWord (isWord_of_isWordIn hword)
        obtain ⟨hmarkers, hsettled⟩ := h.skipMarkers hw
        rw [hmarkers]
        cases hk : code.skipMarkers l.signatures (j + 1) with
        | error fault => rfl
        | ok k =>
          simp only [Except.map, h.introducedBody? (hsettled hk)]
          rfl
      | false =>
        simp only [h.arrowAt? hj]
        rfl

/-- The same shapes are recognised. -/
theorem shapeAt (h : Alike l code code') (scopes : List Scope) (i : Nat) :
    code'.shapeAt l.signatures scopes i = code.shapeAt l.signatures scopes i := by
  simp only [Code.shapeAt, h.compactForm?, h.isWordIn, h.isKind, h.arrowForm]
  cases code.compactForm? l.signatures scopes i with
  | some s => rfl
  | none =>
    cases hword : code.isWordIn i l.signatures.introducers with
    | true => simp only [if_true, h.introducedForm hword]
    | false =>
      cases hname : code.isKind i .identifier with
      | true =>
        simp only [h.typedForm? hname]
        rfl
      | false => simp only [Bool.and_false, Bool.false_eq_true, if_false]

/-- The same signatures are recognised if generic lists stay in range. -/
theorem signatureAt (h : Alike l code code') (hf : code.AnglesFit l.signatures)
    (hf' : code'.AnglesFit l.signatures) (scopes : List Scope) (i : Nat) :
    code'.signatureAt l.signatures scopes i = code.signatureAt l.signatures scopes i := by
  rw [hf.signatureAt, hf'.signatureAt, h.shapeAt]

end Alike

end Code

end Cyclomatic
