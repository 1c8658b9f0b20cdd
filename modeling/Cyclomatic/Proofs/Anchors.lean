import Cyclomatic.Proofs.Decisions
import Cyclomatic.Proofs.Rules

/-!
# What a signature takes from the line before it

The walk finds a function at a token, its anchor (`Entity.FoundAt`).  The recorded start of the
function lies before it, at the end of a search back over the line.  The tokens between the two
are taken by the search one by one, or as a generic list (`Code.leads_or_angles`).

The function around skips them.  Every other token of its body outside the nested functions is
judged there (`analyze_absorbed`).  Among the tokens that are skipped may be a decision: the
question mark before a function in a ternary belongs to the line of its signature
(`analyze_ternary_lost`).
-/

namespace Cyclomatic

/-! ## Anchors -/

/-- The walk found the function at a token. -/
def Entity.FoundAt (code : Code) (rules : SignatureRules) (e : Entity) (a : Nat) : Prop :=
  ∃ w s, Walk.Run code rules (0, {}) (a, w) ∧ a < code.size ∧
    code.signatureAt rules (w.arrive code rules a).scopes a = .ok (some s) ∧
    s.tail = .body e.opening ∧ e.start = code.signatureStart rules a ∧ e.binding = s.binding

namespace Entity.FoundAt

variable {code : Code} {rules : SignatureRules} {e : Entity} {a a' : Nat}

theorem adopt (h : e.FoundAt code rules a) (yes : Bool) (id : Nat) :
    (e.adopt yes id).FoundAt code rules a := by
  cases yes <;> exact h

theorem start_le (h : e.FoundAt code rules a) : e.start ≤ a := by
  obtain ⟨-, -, -, -, -, -, hstart, -⟩ := h
  rw [hstart]
  exact code.signatureStart_le rules a

theorem lt_opening (h : e.FoundAt code rules a) (hp : code.Paired) : a < e.opening := by
  obtain ⟨w, s, -, -, hs, htail, -⟩ := h
  have hforward := Code.signatureAt_forward hp hs
  exact Nat.lt_of_le_of_lt hforward.le_name (hforward.body htail).1

theorem lt_binding (h : e.FoundAt code rules a) (hp : code.Paired) {b : Nat}
    (hb : e.binding = some b) : a < b := by
  obtain ⟨w, s, -, -, hs, htail, -, hbinding⟩ := h
  exact ((Code.signatureAt_forward hp hs).binding (hbinding ▸ hb) htail).1

/-- The walk goes on after the brace of a function that it found. -/
theorem not_lt (h : e.FoundAt code rules a) (h' : e.FoundAt code rules a') (hp : code.Paired) :
    ¬ a < a' := by
  intro hlt
  have hbrace := h'.lt_opening hp
  obtain ⟨w, s, hrun, hsize, hs, htail, -⟩ := h
  obtain ⟨w', -, hrun', -⟩ := h'
  rcases (Walk.Run.of_lt hrun hrun' hlt).cases_head with heq | ⟨⟨k, v⟩, hstep, hrest⟩
  · cases heq
    exact Nat.lt_irrefl _ hlt
  · obtain ⟨-, next, hnext, hk⟩ := hstep
    rw [Walk.step_body hs htail] at hnext
    cases hnext
    have hle : k ≤ a' := Walk.Run.le hrest
    simp only at hk
    omega

theorem unique (h : e.FoundAt code rules a) (h' : e.FoundAt code rules a') (hp : code.Paired) :
    a = a' :=
  Nat.le_antisymm (Nat.le_of_not_lt (h'.not_lt h hp)) (Nat.le_of_not_lt (h.not_lt h' hp))

end Entity.FoundAt

namespace Walk

variable {code : Code} {rules : SignatureRules} {w : Walk} {i id : Nat} {e : Entity}

/-- A function after a step was there before, or is found in the step. -/
theorem found_step (h : Ordered code i w) (hrun : Run code rules (0, {}) (i, w))
    (hold : ∀ {id e}, w.forest.at? id = some e → ∃ a, e.FoundAt code rules a) {j : Nat}
    {w' : Walk} (hp : code.Paired) (hstep : Next code rules (i, w) (j, w'))
    (he : w'.forest.at? id = some e) : ∃ a, e.FoundAt code rules a := by
  obtain ⟨hi, next, hstep, -⟩ := hstep
  simp only at hi hstep
  rcases step_cases hstep with ⟨rfl, -⟩ | ⟨s, brace, hs, htail, rfl, -⟩ | ⟨s, -, -, rfl⟩
  · rw [arrive_forest] at he
    exact hold he
  · rcases Forest.at?_add_cases (h.arrive.parent_lt rules s brace) he with ⟨-, rfl⟩ | ⟨y, hy, rfl⟩
    · have hanchor := (Code.signatureAt_forward hp hs).anchor
      exact ⟨i, w, s, hrun, hi, hs, htail, by rw [← hanchor]; rfl, rfl⟩
    · rw [arrive_forest] at hy
      obtain ⟨a, ha⟩ := hold hy
      exact ⟨a, ha.adopt _ _⟩
  · change (w.arrive code rules i).forest.at? id = some e at he
    rw [arrive_forest] at he
    exact hold he

/-- Every function was found somewhere. -/
theorem found_run (hp : code.Paired) {j : Nat} {w' : Walk}
    (hrun : Run code rules (0, {}) (j, w')) (he : w'.forest.at? id = some e) :
    ∃ a, e.FoundAt code rules a := by
  generalize hb : (j, w') = b at hrun
  induction hrun generalizing j w' id e with
  | refl =>
    cases hb
    cases he
  | @tail a b hrun hstep ih =>
    subst hb
    exact found_step (ordered_run hp hrun) hrun (fun he => ih he rfl) hp hstep he

end Walk

/-! ## The tokens before an anchor -/

namespace Code

variable {code : Code} {rules : SignatureRules} {l : Language}

/-- The token stands in a generic list that the search for the start of a signature takes whole. -/
def InAngles (code : Code) (x : Nat) : Prop :=
  ∃ o q, o ≤ x ∧ x ≤ q ∧ code.text q = ">" ∧ code.angleOpen? 0 q = some o

/-- A token between the start and the anchor leads the signature or stands in a generic list. -/
theorem leads_or_angles {s x : Nat} (hx : code.signatureStart rules s ≤ x) (hs : x < s) :
    code.leadsSignature rules x = true ∨ code.InAngles x := by
  fun_induction code.signatureStart rules s with
  | case1 => omega
  | case2 => omega
  | case3 p hbreak o ho hle ih =>
    by_cases hlt : x < o
    · exact ih hx hlt
    · split at ho
      · rename_i htext
        exact Or.inr ⟨o, p, by omega, by omega, beq_iff_eq.mp htext, ho⟩
      · cases ho
  | case4 p hbreak hnone hleads ih =>
    rcases Nat.lt_succ_iff_lt_or_eq.mp hs with hlt | rfl
    · exact ih hx hlt
    · exact Or.inl hleads
  | case5 => omega

/-- A token that leads a signature is a word that may stand there, or one of a few symbols. -/
theorem leadsSignature_cases {x : Nat} (h : code.leadsSignature rules x = true) :
    (code.isWord x = true ∧ code.text x ∉ rules.excludedPredecessors ∧
      code.text x ∉ rules.reserved) ∨
    code.text x ∈ ["<", ">", "[", "]", ",", ".", "?", "@", "*"] := by
  unfold leadsSignature at h
  dsimp only at h
  split at h
  · rename_i hword
    simp only [Bool.and_eq_true, Bool.not_eq_true', ← Bool.not_eq_true, List.contains_iff_mem] at h
    exact Or.inl ⟨hword, h⟩
  · simp only [Bool.and_eq_true, List.contains_iff_mem] at h
    exact Or.inr h.2

/-- Of the symbols that lead a signature, only the question mark is a decision in a built-in
language. -/
theorem symbol_builtin {name : String} (hl : Registry.builtin.lookup? name = some l)
    {r : DecisionRule} (hr : r ∈ l.decisions)
    (hsymbol : r.token ∈ ["<", ">", "[", "]", ",", ".", "?", "@", "*"]) : r.token = "?" := by
  revert r
  rcases Registry.builtin_cases hl with rfl | rfl | rfl | rfl | rfl <;> decide

/-- The token stands between the start and the anchor of a nested function. -/
def Absorbed (code : Code) (rules : SignatureRules) (forest : Forest) (e : Entity) (x : Nat) :
    Prop :=
  ∃ c ∈ nested forest e, ∃ a, c.FoundAt code rules a ∧ c.start ≤ x ∧ x < a

/-- The token stands in the body, before the anchor or after the end of each nested function. -/
structure InBody (code : Code) (rules : SignatureRules) (forest : Forest) (e : Entity) (x : Nat) :
    Prop where
  /-- It comes after the opening brace. -/
  opening : e.opening < x
  /-- It comes before the closing brace. -/
  close : x < e.close.getD code.size
  /-- It lies outside the nested functions. -/
  outside : ∀ c ∈ nested forest e, ∀ a, c.FoundAt code rules a → x < a ∨ c.last code.size < x

/-- An absorbed token to which a rule applies stands in a generic list, or is a question mark, or a
word that may stand before a name. -/
theorem Absorbed.rule_cases {name : String} (hl : Registry.builtin.lookup? name = some l)
    {forest : Forest} {e : Entity} {x : Nat} (h : code.Absorbed l.signatures forest e x)
    {stack : List Frame} {r : DecisionRule} (hr : code.ruleAt? l stack x = some r) :
    code.InAngles x ∨ r.token = "?" ∨ (code.isWord x = true ∧
      r.token ∉ l.signatures.excludedPredecessors ∧ r.token ∉ l.signatures.reserved) := by
  obtain ⟨hmem, htext⟩ := mem_of_ruleAt? hr
  obtain ⟨c, -, a, ⟨-, -, -, -, -, -, hstart, -⟩, hx, hlt⟩ := h
  rw [hstart] at hx
  rcases leads_or_angles hx hlt with hleads | hangles
  · rw [htext]
    rcases leadsSignature_cases hleads with hword | hsymbol
    · exact Or.inr (Or.inr hword)
    · rw [← htext] at hsymbol ⊢
      exact Or.inr (Or.inl (symbol_builtin hl hmem hsymbol))
  · exact Or.inl hangles

end Code

/-! ## What is judged and what is not -/

namespace Walk.Ordered

variable {code : Code} {l : Language} {rules : SignatureRules} {options : ScoringOptions}
  {i id : Nat} {w : Walk} {e : Entity} {x : Nat}

/-- A nested function that starts at a token of the body, or before it, ends after the token if its
brace does. -/
theorem le_last (h : Walk.Ordered code i w) (hp : code.Paired) (he : w.forest.at? id = some e)
    {c : Entity} (hc : c ∈ Code.nested w.forest e) (hbrace : x < c.opening)
    (hstop : x < e.close.getD code.size) : x ≤ c.last code.size := by
  obtain ⟨cid, hcid, hparent⟩ := (h.mem_nested_iff he).mp hc
  have hplaced := (h.placed hcid).1
  unfold Entity.last
  cases hd : code.partner? c.opening with
  | some d =>
    have := code.lt_closer? (hp.closer?_of_opening (b := .curly) hplaced.brace hd).1
    rw [hplaced.own hd, Option.getD_some]
    omega
  | none =>
    rw [h.close_eq he hcid hparent hd]
    cases hclose : e.close <;> simp only [hclose, Option.getD_some, Option.getD_none] at hstop ⊢ <;>
      omega

/-- An absorbed token is not judged. -/
theorem not_visited (h : Walk.Ordered code i w) (hp : code.Paired)
    (he : w.forest.at? id = some e) (hx : code.Absorbed rules w.forest e x)
    (hstop : x < e.close.getD code.size) {v : Visit}
    (hv : v ∈ code.visits l options w.forest e) : v.token ≠ x := by
  rintro rfl
  obtain ⟨c, hc, a, hfound, hstart, hlt⟩ := hx
  have hlast := h.le_last hp he hc (Nat.lt_trans hlt (hfound.lt_opening hp)) hstop
  have hlisted := Code.listed_of_mem ((h.inOrder hp he).order.imp And.left) hv
  rcases (h.countsFor he hlisted.counted).2 c hc with hbehind | hbefore | ⟨hbinding, -⟩
  · omega
  · omega
  · have := hfound.lt_binding hp hbinding
    omega

end Walk.Ordered

/-- A token of the body that is not absorbed is judged. -/
theorem Code.visited_of_not_absorbed {code : Code} {l : Language} {rules : SignatureRules}
    {forest : Forest} {e : Entity} {x : Nat}
    (hfound : ∀ c ∈ nested forest e, ∃ a, c.FoundAt code rules a)
    (hx : code.InBody rules forest e x) (hnot : ¬ code.Absorbed rules forest e x) :
    ∃ st, ⟨x, st, false⟩ ∈ code.visits l counting forest e := by
  have hout : ∀ c ∈ (nested forest e).map (childOf code.size), c.last < x ∨ x < c.start := by
    intro c hc
    obtain ⟨c, hmem, rfl⟩ := List.mem_map.mp hc
    obtain ⟨a, ha⟩ := hfound c hmem
    rcases hx.outside c hmem a ha with hlt | hlt
    · exact Or.inr (Nat.lt_of_not_le fun hle => hnot ⟨c, hmem, a, ha, hle, hlt⟩)
    · exact Or.inl hlt
  rcases visited_or_jumped hx.opening hx.close hout with hvisit | ⟨u, -, -, hlt, hjump⟩
  · exact hvisit
  · rw [afterVisit_counting] at hjump
    omega

/-- The decision of a token that is not judged is not among the decisions. -/
theorem Code.Laid.offset_ne {code : Code} (hlaid : code.Laid) {l : Language}
    {options : ScoringOptions} {forest : Forest} {e : Entity} {x : Nat}
    (hx : ∀ v ∈ code.visits l options forest e, v.token ≠ x) (hdecides : code.decides x = true)
    {d : Decision} (hd : d ∈ code.decisions l options forest e) : d.offset ≠ code.offset x := by
  rw [← filterMap_visits] at hd
  obtain ⟨v, hv, hjudge⟩ := List.mem_filterMap.mp hd
  obtain ⟨r, hr, rfl⟩ := Option.map_eq_some_iff.mp hjudge
  intro heq
  exact hx v hv (hlaid.eq_of_offset_eq (decides_of_ruleAt? hr) hdecides heq)

/-- What becomes of a token of a body that lies outside the nested functions. -/
inductive Code.Treated (code : Code) (l : Language) (forest : Forest) (e : Entity) (x : Nat)
    (decisions : List Decision) : Prop where
  /-- It is judged, and its decision counts. -/
  | judged {stack : List Frame} : ¬ code.Absorbed l.signatures forest e x →
      ⟨x, stack, false⟩ ∈ code.visits l counting forest e →
      (∀ r, code.ruleAt? l stack x = some r → code.decision x r ∈ decisions) →
      Treated code l forest e x decisions
  /-- It goes with the signature of a nested function, and no decision is counted for it.  It is no
  decision anyway unless it stands in a generic list, or is a question mark or a word that may stand
  before a name. -/
  | absorbed : code.Absorbed l.signatures forest e x →
      (code.decides x = true → ∀ d ∈ decisions, d.offset ≠ code.offset x) →
      (∀ stack r, code.ruleAt? l stack x = some r → code.InAngles x ∨ r.token = "?" ∨
        (code.isWord x = true ∧ r.token ∉ l.signatures.excludedPredecessors ∧
          r.token ∉ l.signatures.reserved)) →
      Treated code l forest e x decisions

/-- In a source of a built-in language, a token of a body outside the nested functions is judged
unless it stands between the start and the anchor of a nested function. -/
theorem analyze_absorbed (file source language : String) (r : FileResult)
    (h : Engine.analyze {} file source language = .ok r) :
    ∃ l forest, Registry.builtin.lookup? language = some l ∧
      detect l (Code.ofSource l source) = .ok forest ∧
      ∀ f ∈ r.all, ∃ e, forest.at? f.id = some e ∧ f = e.scored f.id f.decisions ∧
        (∀ c ∈ Code.nested forest e, ∃! a, c.FoundAt (Code.ofSource l source) l.signatures a) ∧
        ∀ x, (Code.ofSource l source).InBody l.signatures forest e x →
          (Code.ofSource l source).Treated l forest e x f.decisions := by
  obtain ⟨l, forest, hl, hforest, hts⟩ := Engine.analyze_ok h
  obtain ⟨j, w, hrun, -, rfl⟩ := Walk.go_run hforest
  have hp := Code.paired_ofSource l source
  have hordered := Walk.ordered_run hp hrun
  refine ⟨l, w.forest, hl, hforest, fun f hf => ?_⟩
  obtain ⟨e, he, hscored, hdecisions⟩ := scored_of_mem_preorders hordered.linked hts hf
  have hfound : ∀ c ∈ Code.nested w.forest e,
      ∃ a, c.FoundAt (Code.ofSource l source) l.signatures a := by
    intro c hc
    obtain ⟨cid, hcid, -⟩ := (hordered.mem_nested_iff he).mp hc
    exact Walk.found_run hp hrun hcid
  refine ⟨e, he, hscored, fun c hc => ?_, fun x hx => ?_⟩
  · obtain ⟨a, ha⟩ := hfound c hc
    exact ⟨a, ha, fun a' ha' => ha'.unique ha hp⟩
  rw [hdecisions]
  by_cases habsorbed : (Code.ofSource l source).Absorbed l.signatures w.forest e x
  · refine .absorbed habsorbed (fun hdecides d hd => ?_) fun stack rule hrule =>
      habsorbed.rule_cases hl hrule
    exact (Code.laid_ofSource l source).offset_ne
      (fun v hv => hordered.not_visited hp he habsorbed hx.close hv) hdecides hd
  · obtain ⟨stack, hvisit⟩ := Code.visited_of_not_absorbed hfound hx habsorbed
    refine .judged habsorbed hvisit fun rule hrule => ?_
    rw [← Code.filterMap_visits]
    exact List.mem_filterMap.mpr ⟨_, hvisit, by rw [Code.judge?, hrule]; rfl⟩

/-! ## A ternary with a function -/

/-- Without compact constructors, the scopes around a signature do not matter. -/
theorem Code.signatureAt_scopes {code : Code} {rules : SignatureRules}
    (h : rules.compactConstructors = []) (scopes : List Scope) (i : Nat) :
    code.signatureAt rules scopes i = code.signatureAt rules [] i := by
  have hnone : ∀ scopes, code.compactForm? rules scopes i = none := fun scopes =>
    compactForm?_eq_none fun s _ keyword hkeyword => by
      rw [h] at hkeyword
      cases hkeyword
  unfold signatureAt signatureAngles shapeAt
  rw [hnone, hnone]

/-- The anchor of a function has a signature with the brace of the function. -/
theorem Entity.FoundAt.signature {code : Code} {rules : SignatureRules} {e : Entity} {a : Nat}
    (h : e.FoundAt code rules a) (hr : rules.compactConstructors = []) :
    a < code.size ∧
      ∃ s ∈ (code.signatureAt rules [] a).toOption.join, s.tail = .body e.opening := by
  obtain ⟨w, s, -, hsize, hs, htail, -⟩ := h
  rw [Code.signatureAt_scopes hr] at hs
  exact ⟨hsize, s, by rw [hs]; rfl, htail⟩

/-- A function in the first branch of a ternary. -/
def ternaryFunction : String :=
  "function f(a) \x7b return a ? function g() \x7b \x7d : null; \x7d"

/-- The code of that source. -/
abbrev ternaryCode : Code := Code.ofSource Language.JavaScript.table.canonical ternaryFunction

theorem ternaryFunction_marks : ∃ r,
    Engine.analyze {} "input" ternaryFunction "javascript" = .ok r ∧
      r.marks = [("f", 53, []), ("f.g", 43, [])] := by
  have hl : Registry.builtin.lookup? "javascript" =
      some Language.JavaScript.table.canonical := rfl
  rw [Engine.analyze_of_lookup? hl, analyzeIn, Code.ofSource_eq_ofChars _ ternaryFunction rfl,
    Language.JavaScript.canonical_eq]
  exact exists_ok_of_marks (by decide +kernel)

/-- The functions of the source are found at one token each. -/
theorem analyze_absorbed_ternary : ∃ r,
    Engine.analyze {} "input" ternaryFunction "javascript" = .ok r ∧
      r.marks = [("f", 53, []), ("f.g", 43, [])] ∧ ∃ l forest, ∀ f ∈ r.all, ∃ e,
        forest.at? f.id = some e ∧ ∀ c ∈ Code.nested forest e,
          ∃! a, c.FoundAt (Code.ofSource l ternaryFunction) l.signatures a := by
  obtain ⟨r, hr, hmarks⟩ := ternaryFunction_marks
  obtain ⟨l, forest, -, -, hall⟩ := analyze_absorbed "input" ternaryFunction "javascript" r hr
  refine ⟨r, hr, hmarks, l, forest, fun f hf => ?_⟩
  obtain ⟨e, he, -, hfound, -⟩ := hall f hf
  exact ⟨e, he, hfound⟩

/-- The nested function starts at token 7, and only token 9 can be its anchor. -/
theorem ternaryCode_facts : ∃ forest e,
    detect Language.JavaScript.table.canonical ternaryCode = .ok forest ∧
      forest.at? 0 = some e ∧ e.opening = 5 ∧ e.close = some 18 ∧
      (∃ c ∈ Code.nested forest e, c.start = 7) ∧
      (∀ c ∈ Code.nested forest e, ∀ a < ternaryCode.size,
        (∃ s ∈ (ternaryCode.signatureAt Language.JavaScript.table.canonical.signatures
          [] a).toOption.join, s.tail = .body c.opening) → a = 9) ∧
      ((ternaryCode.ruleAt? Language.JavaScript.table.canonical
        [.block (ternaryCode.openerWord e.opening)] 8).map (·.category) = some .ternary) := by
  rw [ternaryCode, Code.ofSource_eq_ofChars _ ternaryFunction rfl,
    Language.JavaScript.canonical_eq]
  exact exists_of_check (by decide +kernel)

/-- The question mark of the ternary goes with the signature of the function behind it.  It is a
decision, but no decision is counted. -/
theorem analyze_ternary_lost : ∃ r forest e,
    Engine.analyze {} "input" ternaryFunction "javascript" = .ok r ∧
      r.marks = [("f", 53, []), ("f.g", 43, [])] ∧
      detect Language.JavaScript.table.canonical ternaryCode = .ok forest ∧
      forest.at? 0 = some e ∧
      ternaryCode.InBody Language.JavaScript.table.canonical.signatures forest e 8 ∧
      ternaryCode.Absorbed Language.JavaScript.table.canonical.signatures forest e 8 ∧
      (ternaryCode.ruleAt? Language.JavaScript.table.canonical
        [.block (ternaryCode.openerWord e.opening)] 8).map (·.category) = some .ternary := by
  obtain ⟨r, hr, hmarks⟩ := ternaryFunction_marks
  obtain ⟨forest, e, hforest, he, hopen, hclose, ⟨c, hc, hstart⟩, hanchor, hrule⟩ :=
    ternaryCode_facts
  have hp := Code.paired_ofSource Language.JavaScript.table.canonical ternaryFunction
  have hnine : ∀ c ∈ Code.nested forest e, ∀ a,
      c.FoundAt ternaryCode Language.JavaScript.table.canonical.signatures a → a = 9 := by
    intro c hc a hfound
    obtain ⟨hsize, hs⟩ := hfound.signature rfl
    exact hanchor c hc a hsize hs
  refine ⟨r, forest, e, hr, hmarks, hforest, he, ⟨by omega, by rw [hclose]; decide, ?_⟩, ?_, hrule⟩
  · intro c hc a hfound
    rw [hnine c hc a hfound]
    exact Or.inl (by decide)
  · obtain ⟨j, w, hrun, -, rfl⟩ := Walk.go_run hforest
    obtain ⟨cid, hcid, -⟩ := ((Walk.ordered_run hp hrun).mem_nested_iff he).mp hc
    obtain ⟨a, hfound⟩ := Walk.found_run hp hrun hcid
    obtain rfl := hnine c hc a hfound
    exact ⟨c, hc, 9, hfound, by omega, by decide⟩

end Cyclomatic
