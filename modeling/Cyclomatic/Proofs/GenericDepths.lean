import Cyclomatic.Proofs.Alike.Score
import Cyclomatic.Proofs.GenericLists
import Cyclomatic.Proofs.LiteralPieces

/-!
# Generic lists in signatures and guards

From an operator on, the depth of a generic list stays in its range, and from the piece of a literal
`<` it need not.  Detection and scoring look for generic lists only at settled tokens: behind words,
brackets, operators and other texts that do not end code in a literal
(`Code.Alike.settled_signatureAngles`).  In a source of a built-in language a settled token `<` is
the operator, so neither of them ever leaves the range (`Code.inRange_builtin`).
-/

namespace Cyclomatic

namespace Code

namespace Alike

variable {l : Language} {code : Code} {i j t : Nat} (h : Alike l code code)
  (rules : SignatureRules)

/-! ## Types -/

include h

/-- The tokens at which a type is asked for a generic list are settled. -/
theorem settled_typeAngles {atom : Bool} (hs : atom = false → code.Settled j)
    (ht : t ∈ code.typeAngles atom j) : code.Settled t := by
  fun_induction code.typeAngles atom j with
  | case1 j _ hatom ih => exact ih (fun _ => settled_atom hatom) ht
  | case2 j _ _ _ close _ _ _ ih => exact ih nofun ht
  | case3 j _ _ _ close hclose _ _ ih => exact ih (fun _ => h.settled_closer hclose) ht
  | case5 j _ _ _ _ ih => exact ih nofun ht
  | case7 atom j _ _ _ _ ih => exact ih nofun ht
  | case8 atom j _ hatom _ _ _ after hafter _ ih =>
    rcases List.mem_cons.mp ht with rfl | ht
    · exact hs (by simpa using hatom)
    · exact ih (fun _ => settled_skipAngles? hafter) ht
  | case9 atom j _ hatom =>
    obtain rfl := List.mem_singleton.mp ht
    exact hs (by simpa using hatom)
  | case10 atom j _ _ t _ _ hmark ih => exact ih (fun _ => h.settled_suffix hmark) ht
  | case11 atom j _ _ _ _ _ _ _ close hclose _ ih =>
    exact ih (fun _ => h.settled_closer hclose) ht
  | case4 | case6 | case12 | case13 | case14 => cases ht

theorem settled_wholeType (ht : t ∈ code.typeAngles true j) : code.Settled t := by
  have hs : true = false → code.Settled j := nofun
  exact h.settled_typeAngles hs ht

theorem settled_clauseAngles (ht : t ∈ code.clauseAngles j) : code.Settled t := by
  fun_induction code.clauseAngles j with
  | case1 j _ _ _ _ ih =>
    rcases List.mem_append.mp ht with ht | ht
    · exact h.settled_wholeType ht
    · exact ih ht
  | case2 j => exact h.settled_wholeType ht

theorem settled_clausesAngles (ht : t ∈ code.clausesAngles rules j) : code.Settled t := by
  fun_induction code.clausesAngles rules j with
  | case1 j _ _ _ ih =>
    rcases List.mem_append.mp ht with ht | ht
    · exact h.settled_clauseAngles ht
    · exact ih ht
  | case2 => cases ht

theorem settled_returnAngles (ht : t ∈ code.returnAngles rules j) : code.Settled t := by
  unfold returnAngles at ht
  split at ht
  · exact h.settled_wholeType ht
  · cases ht

theorem settled_tailAngles (ht : t ∈ code.tailAngles rules j) : code.Settled t := by
  rcases List.mem_append.mp ht with ht | ht
  · exact h.settled_returnAngles rules ht
  · exact h.settled_clausesAngles rules ht

/-! ## Names and parameters -/

omit h in
theorem settled_genericAngles (hs : code.Settled j) (ht : t ∈ genericAngles rules j) :
    code.Settled t := by
  unfold genericAngles at ht
  split at ht
  · obtain rfl := List.mem_singleton.mp ht
    exact hs
  · cases ht

omit h in
/-- Generic lists behind the names of a chain are. -/
theorem settled_chainAngles (hname : code.isKind i .identifier = true)
    (ht : t ∈ code.chainAngles rules i) : code.Settled t := by
  fun_induction code.chainAngles rules i with
  | case1 name n hn _ _ ih =>
    simp only [Bool.and_eq_true] at hn
    rcases List.mem_append.mp ht with ht | ht
    · exact settled_genericAngles rules (.of_isKind hname (by decide)) ht
    · exact ih hn.2 ht
  | case2 name => exact settled_genericAngles rules (.of_isKind hname (by decide)) ht

omit h in
theorem settled_nameAngles (ht : t ∈ code.nameAngles rules j) : code.Settled t := by
  unfold nameAngles at ht
  split at ht
  · rename_i hname
    simp only [Bool.and_eq_true] at hname
    exact settled_chainAngles rules hname.1 ht
  · cases ht

theorem settled_parameterAngles (hs : code.Settled j) (ht : t ∈ code.parameterAngles rules j) :
    code.Settled t := by
  rcases List.mem_append.mp ht with ht | ht
  · exact settled_genericAngles rules hs ht
  · split at ht
    · exact h.settled_tailAngles rules ht
    · cases ht

/-! ## Shapes -/

theorem settled_introducedAngles (hs : code.Settled j) (ht : t ∈ code.introducedAngles rules j) :
    code.Settled t := by
  rcases List.mem_append.mp ht with ht | ht
  · exact settled_genericAngles rules hs ht
  split at ht
  · cases ht
  rcases List.mem_append.mp ht with ht | ht
  · exact settled_nameAngles rules ht
  split at ht
  · rename_i hname
    exact h.settled_parameterAngles rules
      (.of_isKind (isKind_of_nameAt? hname) (by decide)) ht
  · cases ht

theorem settled_typedAngles (hname : code.isKind i .identifier = true)
    (ht : t ∈ code.typedAngles rules i) : code.Settled t := by
  have ht := (List.mem_ite_nil_right.mp ht).2
  exact h.settled_parameterAngles rules (.of_isKind hname (by decide)) ht

theorem settled_introducedBodyAngles (hs : code.Settled j)
    (ht : t ∈ code.introducedBodyAngles rules j) : code.Settled t := by
  refine h.settled_parameterAngles rules ?_ ht
  split
  · rename_i hname
    exact .of_isKind hname (by decide)
  · exact hs

theorem settled_arrowAtAngles (hs : code.Settled j) (ht : t ∈ code.arrowAtAngles rules j) :
    code.Settled t := by
  unfold arrowAtAngles at ht
  split at ht
  · rcases List.mem_append.mp ht with ht | ht
    · exact settled_genericAngles rules hs ht
    split at ht
    · split at ht
      · exact h.settled_returnAngles rules ht
      · cases ht
    · cases ht
  · cases ht

omit rules in
theorem settled_arrowAngles (ht : t ∈ code.arrowAngles l.signatures i) : code.Settled t := by
  unfold arrowAngles at ht
  split at ht
  swap
  · cases ht
  rcases List.mem_append.mp ht with ht | ht
  · exact h.settled_returnAngles _ ht
  split at ht
  swap
  · cases ht
  rename_i hequals
  have hnext : code.Settled (code.skipReturnType l.signatures (i + 2) + 1) :=
    h.settled_of_text (beq_iff_eq.mp hequals) (by decide)
  have hvalue := settled_skipModifiers l.signatures hnext
  dsimp only at ht
  split at ht
  · rename_i hword
    split at ht
    · rename_i hmarkers
      have hs := (h.skipMarkers (.of_isWord (isWord_of_isWordIn hword))).2 hmarkers
      exact h.settled_introducedBodyAngles _ hs ht
    · cases ht
  · exact h.settled_arrowAtAngles _ hvalue ht

omit rules in
/-- The search for a signature looks for generic lists at settled tokens only. -/
theorem settled_signatureAngles {scopes : List Scope}
    (ht : t ∈ code.signatureAngles l.signatures scopes i) : code.Settled t := by
  unfold signatureAngles at ht
  split at ht
  · cases ht
  split at ht
  · rename_i hword
    split at ht
    · rename_i hmarkers
      have hs := (h.skipMarkers (.of_isWord (isWord_of_isWordIn hword))).2 hmarkers
      exact h.settled_introducedAngles _ hs ht
    · cases ht
  split at ht
  · exact h.settled_arrowAngles ht
  split at ht
  · rename_i hname
    simp only [Bool.and_eq_true] at hname
    exact h.settled_typedAngles _ hname.2 ht
  · cases ht

end Alike

/-! ## Built-in languages -/

/-- Neither the search for a signature nor a guard takes the depth of a generic list out of its
range. -/
structure InRange (code : Code) (l : Language) : Prop where
  /-- The search does not. -/
  signatures : code.AnglesFit l.signatures
  /-- The guards of the rules do not. -/
  rules : ∀ stack k, code.judgeUnderflows l stack k = false

section Builtin

variable {name : String} {l : Language} (hl : Registry.builtin.lookup? name = some l)
  (source : String)

include hl

/-- The code of a source in a built-in language is like itself. -/
theorem alike_self : Alike l (ofSource l source) (ofSource l source) :=
  alike_of_cores (List.forall₂_same.mpr fun _ _ => ⟨⟨rfl, .inl rfl⟩, rfl⟩) (legible_builtin hl)
    (uniform_builtin hl) fun _ => .inl rfl

variable {source}

/-- A settled token `<` is an operator. -/
theorem not_underflows_of_settled {i : Nat} (hs : (ofSource l source).Settled i) :
    (ofSource l source).underflows i = false := by
  by_cases htext : (ofSource l source).text i = "<"
  swap
  · exact not_underflows_of_text htext
  refine not_underflows_of_isKind hl (Bool.eq_false_iff.mpr fun hkind => ?_)
  have hk := kind?_of_isKind hkind
  rw [text_eq_cores] at htext
  rw [kind?_eq_cores] at hk
  obtain ⟨x, hx, hkx⟩ := Option.map_eq_some_iff.mp hk
  rw [hx] at htext
  have hbare : x.Bare := ⟨hkx, by rw [show x.text = "<" from htext]; decide⟩
  exact hs.not_enclosed (enclosed_of_bare (quoting_builtin hl) hx hbare)

/-- The guard on bodies behind a type keeps the depth in range, since it looks for a list behind
names only. -/
theorem not_anonymousBodyUnderflows (k : Nat) :
    (ofSource l source).anonymousBodyUnderflows k = false := by
  unfold anonymousBodyUnderflows
  cases hname : (ofSource l source).isKind (k + 1) .identifier with
  | false => rfl
  | true =>
    have hs : (ofSource l source).Settled (k + 2) := .of_isKind hname (by decide)
    exact not_underflows_of_settled hl (Alike.settled_skipQualifiers hs)

variable (source)

/-- In a built-in language generic lists always stay in range. -/
theorem inRange_builtin : (ofSource l source).InRange l where
  signatures scopes i := by
    rw [List.any_eq_false]
    intro t ht
    rw [not_underflows_of_settled hl ((alike_self hl source).settled_signatureAngles ht)]
    exact Bool.false_ne_true
  rules stack k := by
    have hrules (rs : List DecisionRule) :
        (ofSource l source).rulesUnderflow l stack k rs = false := by
      induction rs with
      | nil => rfl
      | cons r rs ih =>
        simp [rulesUnderflow, guardUnderflows, not_anonymousBodyUnderflows hl, ih]
    rw [judgeUnderflows, hrules, Bool.and_false]

end Builtin

end Code

end Cyclomatic
