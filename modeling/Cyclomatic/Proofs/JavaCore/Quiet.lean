import Cyclomatic.Proofs.Reading.Quiet

/-!
# Tokens of method bodies

For single tokens of a body, this module says what the detecting walk and the scorer do with them.

* `Still`: no type and no function starts at the token.  A name starts a method only if its
  parenthesis closes right before a brace or a `throws` clause.
* `markAt`: the decision that the token makes.
* `Passes`: the walks of the guards, back over a piece of code, come to its first token.
-/

namespace Cyclomatic

open JavaCore

/-- The rules of the table of Java. -/
abbrev javaRules : SignatureRules := Language.Java.signatures

/-- The table of Java. -/
abbrev java : Language := Language.Java.table.canonical

/-! ## Names -/

namespace JavaCore

/-- An identifier is none of the words that are no names. -/
theorem Ident.not_mem (x : Ident) {words : List String} (h : words.all (!isName ·) = true) :
    x.text ∉ words := by
  intro hmem
  have := List.all_eq_true.mp h _ hmem
  rw [x.valid] at this
  cases this

end JavaCore

namespace Code

variable {code : Code} {k : Nat}

/-! ## No function starts here -/

/-- No scope is that of a record. -/
def NoRecord (scopes : List Scope) : Prop := ∀ s ∈ scopes, s.kind ≠ .container "record"

/-- No type and no function with a body starts at a token. -/
structure Still (code : Code) (k : Nat) : Prop where
  /-- No type starts there. -/
  container : code.containerAt? javaRules k = none
  /-- A signature that starts there has no body. -/
  noBody : ∀ {scopes s brace}, NoRecord scopes →
    code.signatureAt javaRules scopes k = .ok (some s) → s.tail ≠ .body brace

/-- Nothing starts at a token, not even a signature without body. -/
structure Silent (code : Code) (k : Nat) : Prop where
  /-- No type starts there. -/
  container : code.containerAt? javaRules k = none
  /-- No signature starts there. -/
  nothing : ∀ {scopes}, NoRecord scopes → code.shapeAt javaRules scopes k = .ok none

/-- Where nothing starts, no body does. -/
theorem Silent.still (h : Silent code k) : Still code k :=
  ⟨h.container, fun hscopes hs => by
    have hshape := shapeAt_of_signatureAt hs
    rw [h.nothing hscopes] at hshape
    cases hshape⟩

theorem Quiet.still (h : Quiet code javaRules k) : Still code k := ⟨h.container, fun _ => h.noBody⟩

/-- No closing angle stands before a parenthesis. -/
def Angles (code : Code) : Prop :=
  ∀ {k}, code.face? k = some (op ">") → code.face? (k + 1) ≠ some (punct "(")

/-- Outside of records there is no compact constructor. -/
theorem compactForm?_java {scopes : List Scope} (h : NoRecord scopes) :
    code.compactForm? javaRules scopes k = none :=
  compactForm?_eq_none fun s hs keyword hkeyword => by
    rw [show keyword = "record" from List.mem_singleton.mp hkeyword]
    exact h s hs

/-- In Java, a signature is a name with parameters. -/
theorem shapeAt_java {scopes : List Scope} (h : NoRecord scopes) :
    code.shapeAt javaRules scopes k =
      .ok (if code.isKind k .identifier then code.typedForm? javaRules k else none) := by
  unfold shapeAt
  rw [compactForm?_java h]
  have hintro : code.isWordIn k javaRules.introducers = false := by
    simp [isWordIn, Language.Java.signatures]
  have harrow : code.isWordIn k javaRules.arrowBinders = false := by
    simp [isWordIn, Language.Java.signatures]
  have htyped : javaRules.typed = true := rfl
  dsimp only
  rw [hintro, harrow, htyped, Bool.true_and, if_neg Bool.false_ne_true, if_neg Bool.false_ne_true]
  split <;> rfl

/-- Keywords and symbols start no function. -/
theorem silent_of_symbol {f : Face} (h : code.face? k = some f) (hk : f.1 ≠ .identifier)
    (hf : f.2 ∉ javaRules.containerKeywords) : Silent code k := by
  refine ⟨containerAt?_of_text h hf, fun hscopes => ?_⟩
  rw [shapeAt_java hscopes, if_neg (by simp [isKind_of_face h, hk])]

/-- The end of a generic list stands after a closing angle. -/
theorem anglesFrom_angle {first depth j r : Nat}
    (h : code.anglesFrom first depth j = .ok (some r)) :
    ∃ p, r = p + 1 ∧ code.isOp p ">" = true := by
  fun_induction code.anglesFrom first depth j with
  | case2 _ _ _ _ _ ih => exact ih h
  | case4 k _ _ _ hop _ =>
    cases h
    exact ⟨k, rfl, hop⟩
  | case5 _ _ _ _ _ _ _ _ ih => exact ih h
  | case6 _ _ _ _ _ _ _ _ _ _ ih => exact ih h
  | case10 _ _ _ _ _ _ _ _ _ ih => exact ih h
  | case1 | case3 | case7 | case8 | case9 | case11 => cases h

theorem face?_of_isOp {o : String} (h : code.isOp k o = true) : code.face? k = some (op o) := by
  obtain ⟨t, ht, hk⟩ := (Option.any_eq_true ..).mp h
  simp only [Bool.and_eq_true, beq_iff_eq] at hk
  simp [face?, token?, ht, Token.face, hk.1, hk.2]

theorem face?_of_isPunct {p : String} (h : code.isPunct k p = true) :
    code.face? k = some (punct p) := by
  obtain ⟨t, ht, hk⟩ := (Option.any_eq_true ..).mp h
  simp only [Token.isPunct, Bool.and_eq_true, beq_iff_eq] at hk
  simp [face?, token?, ht, Token.face, hk.1, hk.2]

/-- Java has its type parameters in angles. -/
theorem skipTypeParams_java (j : Nat) :
    code.skipTypeParams javaRules j = (code.skipAngles? j).getD j := by
  unfold skipTypeParams
  cases h : code.skipAngles? j <;> simp [Language.Java.signatures]

/-- A name before anything but a parenthesis is no method. -/
theorem silent_of_name (ha : code.Angles) {x : Ident} (h : code.face? k = some x.face) {g : Face}
    (hg : code.face? (k + 1) = some g) (hparen : g ≠ punct "(") : Silent code k := by
  refine ⟨containerAt?_of_text h (x.not_mem (by decide)), fun hscopes => ?_⟩
  have hnone : code.isPunct (code.skipTypeParams javaRules (k + 1)) "(" = false := by
    rw [skipTypeParams_java]
    cases hr : code.skipAngles? (k + 1) with
    | none =>
      rw [Option.getD_none]
      refine Bool.eq_false_iff.mpr fun hp => hparen ?_
      have := face?_of_isPunct hp
      rw [hg] at this
      exact Option.some.inj this
    | some r =>
      rw [Option.getD_some]
      refine Bool.eq_false_iff.mpr fun hp => ?_
      obtain ⟨p, rfl, hop⟩ := anglesFrom_angle (skipAngles?_eq_some.mp hr).2
      exact ha (face?_of_isOp hop) (face?_of_isPunct hp)
  have hparams : code.params? (code.skipTypeParams javaRules (k + 1)) = none := by
    unfold params?
    rw [hnone, if_neg Bool.false_ne_true]
  rw [shapeAt_java hscopes]
  split
  · unfold typedForm?
    rw [hparams]
    simp
  · rfl

/-- After parameters come the clauses, and then a brace or a semicolon. -/
theorem tailAt?_java (j : Nat) : code.tailAt? javaRules j =
    if code.isPunct (code.skipClauses javaRules j) "\x7b" then
      some (.body (code.skipClauses javaRules j))
    else if code.skipClauses javaRules j < code.size &&
        [";"].contains (code.text (code.skipClauses javaRules j)) then
      some (.terminated (code.skipClauses javaRules j + 1))
    else none := by
  have hreturn : code.skipReturnType javaRules j = j := by
    unfold skipReturnType
    rw [if_neg (by simp [Language.Java.signatures])]
  unfold tailAt?
  rw [hreturn]
  rfl

/-- What follows is no clause. -/
theorem skipClauses_java {j : Nat} {g : Face} (h : code.face? j = some g)
    (hg : g.2 ≠ "throws") : code.skipClauses javaRules j = j := by
  unfold skipClauses
  rw [dif_neg]
  simp [isWordIn, text_of_face h, Language.Java.signatures, hg]

/-- The parameters of a call have no body behind them. -/
theorem still_of_call {x : Ident} (hp : code.Paired) {args : List Face} {g : Face}
    (h : code.Spells k (x.face :: parens args)) (hargs : Balanced args)
    (hg : code.face? (k + 1 + (parens args).length) = some g) (hbrace : g ≠ punct "\x7b")
    (hthrows : g.2 ≠ "throws") : Still code k := by
  have hintro : x.face.2 ∉ javaRules.introducers := List.not_mem_nil
  have hbind : x.face.2 ∉ javaRules.arrowBinders := List.not_mem_nil
  have hclause : g.2 ∉ javaRules.clauseKeywords := fun hmem => hthrows (List.mem_singleton.mp hmem)
  exact (quiet_of_call hp h hargs hintro hbind hg hbrace (Option.some_ne_none g.2).symm hclause
    rfl).still

/-! ## Decisions -/

/-- A token that is no decision of a table makes none. -/
theorem ruleAt?_of_absent {l : Language} {stack : List Frame} {f : Face}
    (h : code.face? k = some f) (hf : f.2 ∉ l.decisions.map (·.token)) :
    code.ruleAt? l stack k = none := by
  unfold ruleAt?
  split
  · refine List.find?_eq_none.mpr fun r hr hrule => hf ?_
    simp only [Bool.and_eq_true, beq_iff_eq] at hrule
    rw [← text_of_face h, ← hrule.1]
    exact List.mem_map_of_mem hr
  · rfl

/-- The one rule for a token decides. -/
theorem find?_token {rules : List DecisionRule} (hrules : (rules.map (·.token)).Nodup)
    {r : DecisionRule} (hr : r ∈ rules) (p : DecisionRule → Bool) :
    rules.find? (fun r' => r'.token == r.token && p r') = if p r then some r else none := by
  induction rules with
  | nil => cases hr
  | cons a rules ih =>
    rw [List.map_cons, List.nodup_cons] at hrules
    rw [List.find?_cons]
    cases List.mem_cons.mp hr with
    | inl heq =>
      subst heq
      rw [beq_self_eq_true, Bool.true_and]
      cases hp : p r with
      | true => simp
      | false =>
        simp only [Bool.false_eq_true, if_false]
        refine List.find?_eq_none.mpr fun r' hr' hrule => hrules.1 ?_
        simp only [Bool.and_eq_true, beq_iff_eq] at hrule
        rw [← hrule.1]
        exact List.mem_map_of_mem hr'
    | inr hmem =>
      have hne : (a.token == r.token) = false := by
        rw [beq_eq_false_iff_ne]
        intro heq
        exact hrules.1 (heq ▸ List.mem_map_of_mem hmem)
      rw [hne, Bool.false_and]
      exact ih hrules.2 hmem

/-- A token with one rule in a table makes a decision if the guard of the rule holds. -/
theorem ruleAt?_of_mem {l : Language} {stack : List Frame}
    (htokens : (l.decisions.map (·.token)).Nodup) {r : DecisionRule} (hr : r ∈ l.decisions)
    {kind : Kind} (h : code.face? k = some (kind, r.token))
    (hk : kind = .keyword ∨ kind = .operator) :
    code.ruleAt? l stack k = if code.guardHolds l r.guard stack k then some r else none := by
  unfold ruleAt?
  rw [if_pos (decides_of_face h hk), text_of_face h]
  exact find?_token htokens hr fun r => code.guardHolds l r.guard stack k

/-- The decision that a token makes.  No guard of Java asks for the open brackets, so none are
given. -/
def markAt (code : Code) (k : Nat) : Option Mark :=
  (code.ruleAt? java [] k).map fun r => (r.category, r.token)

/-- A token that is no decision anywhere makes none. -/
theorem markAt_eq_none {f : Face} (h : code.face? k = some f)
    (hf : f.2 ∉ java.decisions.map (·.token)) : code.markAt k = none := by
  rw [markAt, ruleAt?_of_absent h hf]
  rfl

/-- A token for which there is a rule makes a decision if the guard of the rule holds. -/
theorem markAt_eq {r : DecisionRule} (hr : r ∈ java.decisions) {kind : Kind}
    (h : code.face? k = some (kind, r.token)) (hk : kind = .keyword ∨ kind = .operator) :
    code.markAt k =
      if code.guardHolds java r.guard [] k then some (r.category, r.token) else none := by
  rw [markAt, ruleAt?_of_mem (by decide) hr h hk]
  split <;> rfl

/-- A rule without guard. -/
theorem markAt_of_rule {token : String} {category : Category} {kind : Kind}
    (h : code.face? k = some (kind, token)) (hk : kind = .keyword ∨ kind = .operator)
    (hr : { token := token, category := category } ∈ java.decisions) :
    code.markAt k = some (category, token) := by
  rw [markAt_eq hr h hk, if_pos]
  simp [guardHolds, guardFits]

/-- The word `while` is a decision unless it stands behind the body of a loop. -/
theorem markAt_while (h : code.face? k = some (word "while")) :
    code.markAt k = if code.endsBodyOf ["do"] k then none else some (.loop, "while") := by
  have hr : { token := "while", category := .loop, guard := { notAfterBodyOf := ["do"] } } ∈
      java.decisions := by decide
  rw [markAt_eq hr h (Or.inl rfl)]
  cases hend : code.endsBodyOf ["do"] k <;> simp [guardHolds, guardFits, hend]

/-- An arrow is a lambda unless it belongs to a case. -/
theorem markAt_arrow (h : code.face? k = some (op "->"))
    (hstart : code.text (code.statementStart k) ∉ ["case", "default"]) :
    code.markAt k = some (.lambda, "->") := by
  have hr : (⟨"->", .lambda, 1, { notInStatementOf := ["case", "default"] }⟩ : DecisionRule) ∈
      java.decisions := by decide
  rw [markAt_eq hr h (Or.inr rfl), if_pos]
  simpa [guardHolds, guardFits] using hstart

/-- The rule of the question mark in Java. -/
def ternaryRule : DecisionRule :=
  { token := "?", category := .ternary
    guard :=
      { notPrecededBy := ["<", ","]
        notFollowedBy := ["extends", "super", ">", ",", ")", ":"] } }

theorem ternaryRule_mem : ternaryRule ∈ java.decisions := by decide

/-- A question mark is a ternary where its neighbours make no wildcard of it. -/
theorem markAt_question (h : code.face? (k + 1) = some (op "?")) {f g : Face}
    (hf : code.face? k = some f) (hg : code.face? (k + 2) = some g) (hbefore : f.2 ∉ ["<", ","])
    (hafter : g.2 ∉ ["extends", "super", ">", ",", ")", ":"]) :
    code.markAt (k + 1) = some (.ternary, "?") := by
  have hsize : k + 2 < code.size := by
    obtain ⟨t, ht, -⟩ := face?_cases hg
    exact (Array.getElem?_eq_some_iff.mp ht).1
  rw [markAt_eq ternaryRule_mem h (Or.inr rfl), if_pos]
  · rfl
  · simp [ternaryRule, guardHolds, guardFits, neighbourFits, textBefore?, textAfter?, hsize,
      text_of_face hf, text_of_face hg]
    exact ⟨by simpa using And.intro hbefore hafter, rfl⟩

/-! ## Walking back -/

/-- A word that opens a loop with its condition at the end starts the statement before a token. -/
def opensDo (code : Code) (j : Nat) : Bool := code.statementOpensWith ["do"] "while" j

theorem closesGroup_of_face {f : Face} (h : code.face? k = some f) :
    code.closesGroup k = (f == punct ")" || f == punct "]") := by
  unfold closesGroup
  rw [isPunct_of_face h, isPunct_of_face h]
  rfl

theorem opensDo_token {f : Face} (h : code.face? k = some f)
    (hf : f.2 ∉ ["do", "while", ")", "]", ";", "\x7b", "\x7d"]) :
    code.opensDo (k + 1) = code.opensDo k := by
  simp only [List.mem_cons, List.not_mem_nil, or_false, not_or] at hf
  unfold opensDo
  rw [statementOpensWith]
  simp [isWordIn, closesGroup, isPunct_of_face h, text_of_face h, hf]

/-- No loop is left open at these tokens. -/
theorem opensDo_stop {f : Face} (h : code.face? k = some f)
    (hf : f ∈ [punct ";", punct "\x7b", punct "\x7d", word "while"]) :
    code.opensDo (k + 1) = false := by
  unfold opensDo
  rw [statementOpensWith]
  simp only [List.mem_cons, List.not_mem_nil, or_false] at hf
  rcases hf with rfl | rfl | rfl | rfl <;>
    simp [isWordIn, closesGroup, isPunct_of_face h, text_of_face h]

/-- A statement goes on over a token that ends none. -/
theorem statementStart_token {f : Face} (h : code.face? k = some f)
    (hf : f.2 ∉ [")", "]", ";", "\x7b", "\x7d", "(", "[", ":"]) :
    code.statementStart (k + 1) = code.statementStart k := by
  simp only [List.mem_cons, List.not_mem_nil, or_false, not_or] at hf
  rw [statementStart]
  simp [closesGroup, isPunct_of_face h, text_of_face h, hf]

theorem statementStart_open (h : code.face? k = some (punct "(")) :
    code.statementStart (k + 1) = k + 1 := by
  rw [statementStart]
  simp [closesGroup, isPunct_of_face h, text_of_face h]

/-- The walks of the guards pass a piece of code. -/
structure Passes (code : Code) (k : Nat) (fs : List Face) : Prop where
  /-- The search for the start of a loop passes it. -/
  opens : code.opensDo (k + fs.length) = code.opensDo k
  /-- The search for the start of the statement passes it. -/
  start : code.statementStart (k + fs.length) = code.statementStart k

/-- A group in parentheses is passed over. -/
theorem passes_parens (hp : code.Paired) {inner : List Face} (h : code.Spells k (parens inner))
    (hinner : Balanced inner) : Passes code k (parens inner) := by
  have hopener := h.opener? hp .round hinner
  have hclose : code.face? (k + 1 + inner.length) = some (punct ")") :=
    (spells_cons.mp (spells_append.mp (spells_cons.mp h).2).2).1
  have hgroup : code.closesGroup (k + 1 + inner.length) = true := by
    rw [closesGroup_of_face hclose]
    rfl
  have hlen : k + (parens inner).length = (k + 1 + inner.length) + 1 := by
    simp [parens]
    omega
  constructor
  · unfold opensDo
    rw [hlen, statementOpensWith, if_neg (by simp [isWordIn, isWord_of_face hclose]), if_pos hgroup]
    split
    · rename_i o ho
      cases hopener.symm.trans ho
      rfl
    · rename_i ho
      cases hopener.symm.trans ho
  · rw [hlen, statementStart, if_pos hgroup]
    split
    · rename_i o ho
      cases hopener.symm.trans ho
      rfl
    · rename_i ho
      cases hopener.symm.trans ho

/-- Two lists are passed one behind the other. -/
theorem Passes.append {a b : List Face} (ha : Passes code k a)
    (hb : Passes code (k + a.length) b) : Passes code k (a ++ b) := by
  have hlen : k + (a ++ b).length = k + a.length + b.length := by
    rw [List.length_append, Nat.add_assoc]
  exact ⟨by rw [hlen, hb.opens, ha.opens], by rw [hlen, hb.start, ha.start]⟩

theorem passes_token {f : Face} (h : code.face? k = some f)
    (hf : f.2 ∉ ["do", "while", ")", "]", ";", "\x7b", "\x7d", "(", "[", ":"]) :
    Passes code k [f] := by
  refine ⟨opensDo_token h fun hmem => hf ?_, statementStart_token h fun hmem => hf ?_⟩
  · revert hmem
    apply List.Subset.trans ?_ (List.Subset.refl _)
    simp
  · revert hmem
    apply List.Subset.trans ?_ (List.Subset.refl _)
    simp

end Code

end Cyclomatic
