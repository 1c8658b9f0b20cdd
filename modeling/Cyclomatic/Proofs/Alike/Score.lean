import Cyclomatic.Proofs.Alike.Walk
import Cyclomatic.Score.Body
import Mathlib.Data.List.Find
import Mathlib.Data.List.Forall2

/-!
# Scores of alike codes

The guards of a rule look back from its token, over bodies, statements, parameter lists, angles,
types and chains.  In alike codes they hold alike (`Alike.guardHolds`).  So the same rules apply to
the same tokens (`Alike.ruleAt?`), and the decisions of a body are the same apart from their places
(`Alike.decisionsFrom`).

A walk back may come to a piece of a literal between two pieces of code.  Alike codes may differ
there, but in neither has the piece an exposed word for its text.  The words for which such a walk
looks are exposed (`Alike.exposed_words`), so it finds none of them in either code.
-/

namespace Cyclomatic

/-- A decision without its place in the source. -/
def Decision.core (d : Decision) : Decision := { d with line := 0, offset := 0 }

/-- No guard can tell the words of two blocks apart. -/
def Frame.Alike (l : Language) : Frame → Frame → Prop
  | .group, .group => True
  | .block w, .block w' => ∀ r ∈ l.decisions,
    r.guard.inBlockOf.contains w' = r.guard.inBlockOf.contains w ∧
      r.guard.notInBlockOf.contains w' = r.guard.notInBlockOf.contains w
  | _, _ => False

/-- Guards for blocks hold on alike stacks alike. -/
theorem blockWord?_alike {l : Language} {stack stack' : List Frame} {r : DecisionRule}
    (hr : r ∈ l.decisions) (h : List.Forall₂ (Frame.Alike l) stack stack') :
    (blockWord? stack').any r.guard.inBlockOf.contains =
        (blockWord? stack).any r.guard.inBlockOf.contains ∧
      (blockWord? stack').any r.guard.notInBlockOf.contains =
        (blockWord? stack).any r.guard.notInBlockOf.contains := by
  cases h with
  | nil => exact ⟨rfl, rfl⟩
  | @cons f f' _ _ hf _ =>
    cases f with
    | group =>
      cases f' with
      | group => exact ⟨rfl, rfl⟩
      | block _ => cases hf
    | block w =>
      cases f' with
      | group => cases hf
      | block w' => exact hf r hr

namespace Code

/-! ## Arrows -/

/-- The parameters of an arrow with the text `own` are those of a type, judged by the token before
them. -/
def typeBefore (code : Code) (l : Language) (own : String) (before : Nat) : Bool :=
  if code.text before == "<" then true
  else if code.text before == "," then code.insideAngles 0 before
  else if code.text before == own then code.inTypePosition l before
  else
    l.signatures.returnSeparator == some (code.text before) && code.annotatesBinding l before

/-- An arrow belongs to a type only behind a parenthesis, and then what stands before the outermost
one decides. -/
theorem inTypePosition_succ (code : Code) (l : Language) (p : Nat) :
    code.inTypePosition l (p + 1) =
      (code.isPunct p ")" &&
        match code.opener? p with
        | none => false
        | some o =>
          match code.outermostParen o with
          | 0 => false
          | before + 1 => code.typeBefore l (code.text (p + 1)) before) := by
  rw [inTypePosition]
  grind [typeBefore]

/-! ## The walk over a body -/

section Body

variable {code : Code} {l : Language} {options : ScoringOptions} {stop k : Nat}
  {children rest : List Child} {c : Child} {stack : List Frame} {r : DecisionRule}

/-- At a nested function, its binding is judged and its body passed over. -/
theorem decisionsFrom_child (hk : k < stop) (hc : childAt? k children = some (c, rest)) :
    code.decisionsFrom l options stop k children stack =
      (code.bindingDecision? l stack c).toList ++
        code.decisionsFrom l options stop (c.last + 1) rest stack := by
  rw [decisionsFrom, dif_pos hk]
  split
  · rename_i heq
    obtain ⟨rfl, rfl⟩ := Prod.mk.inj (Option.some.inj (heq.symm.trans hc))
    rfl
  · rename_i heq
    rw [hc] at heq
    cases heq

/-- At a token with a rule, there is a decision. -/
theorem decisionsFrom_rule (hk : k < stop) (hc : childAt? k children = none)
    (hr : code.ruleAt? l (code.openAfter stack k) k = some r) :
    code.decisionsFrom l options stop k children stack =
      code.decision k r :: code.decisionsFrom l options stop (code.afterDecision options k r)
        children (code.openAfter stack k) := by
  rw [decisionsFrom, dif_pos hk]
  split
  · rename_i heq
    rw [hc] at heq
    cases heq
  · simp only [hr]

/-- At any other token, the walk goes on. -/
theorem decisionsFrom_pass (hk : k < stop) (hc : childAt? k children = none)
    (hr : code.ruleAt? l (code.openAfter stack k) k = none) :
    code.decisionsFrom l options stop k children stack =
      code.decisionsFrom l options stop (k + 1) children (code.openAfter stack k) := by
  rw [decisionsFrom, dif_pos hk]
  split
  · rename_i heq
    rw [hc] at heq
    cases heq
  · simp only [hr]

end Body

namespace Alike

variable {l : Language} {code code' : Code} {i j k : Nat} {r : DecisionRule}

/-! ## Bodies and statements -/

/-- A piece of a literal before anything but interpolation ends at a line break. -/
theorem breaks_of_enclosed {p : Nat} (he : code.Enclosed l p) (hsome : code.kind? (p + 1) ≠ none)
    (hne : code.kind? (p + 1) ≠ some .interpolation) : l.breaksLiterals = true := by
  rcases he.after with hafter | hafter | ⟨hbreaks, -⟩
  · exact absurd hafter hne
  · exact absurd hafter hsome
  · exact hbreaks

/-- The token in front has a given word in both codes or in neither. -/
theorem contains_before (h : Alike l code code') {p : Nat} (hsome : code.kind? (p + 1) ≠ none)
    (hne : code.kind? (p + 1) ≠ some .interpolation) {words : List String}
    (hwords : ∀ w ∈ words, unquoted w = true)
    (hexposed : l.interpolates = true → l.breaksLiterals = true → ∀ w ∈ words, w ∈ l.exposed) :
    words.contains (code'.text p) = words.contains (code.text p) :=
  h.contains_text hwords fun he => hexposed he.interpolates (breaks_of_enclosed he hsome hne)

theorem contains_openerWord (h : Alike l code code') {brace : Nat}
    (hk : code.kind? brace = some .punctuation) {words : List String}
    (hwords : ∀ w ∈ words, unquoted w = true)
    (hexposed : l.interpolates = true → l.breaksLiterals = true → ∀ w ∈ words, w ∈ l.exposed) :
    words.contains (code'.openerWord brace) = words.contains (code.openerWord brace) := by
  cases brace with
  | zero => rfl
  | succ before =>
    simp only [Code.openerWord, h.isPunct, h.partner]
    cases hclose : code.isPunct before ")" with
    | false => exact h.contains_before (by simp [hk]) (by simp [hk]) hwords hexposed
    | true =>
      cases hp : code.partner? before with
      | none =>
        have htext := h.text_of_kind (i := before) (by simp [kind?_of_isPunct hclose])
        simp only [if_true, htext]
      | some o =>
        cases o with
        | zero => rfl
        | succ o =>
          have ho := h.paired.kind?_partner hp
          exact h.contains_before (by simp [ho]) (by simp [ho]) hwords hexposed

/-- A statement opens with the same words in both, for it is asked for unquoted words. -/
theorem statementOpensWith (h : Alike l code code') (words : List String) {own : String}
    (hown : unquoted own = true) (hexposed : l.interpolates = true → own ∈ l.exposed) (j : Nat) :
    code'.statementOpensWith words own j = code.statementOpensWith words own j := by
  have htext : ∀ p, (code'.text p == own) = (code.text p == own) := fun p =>
    h.text_beq hown fun he => hexposed he.interpolates
  fun_induction code.statementOpensWith words own j with
  | case1 => rw [Code.statementOpensWith]
  | _ =>
    rw [Code.statementOpensWith]
    simp only [h.isWordIn, h.closesGroup, h.isPunct, htext]
    grind [h.opener]

theorem mem_words (r : DecisionRule) {w : String} (hw : w ∈ r.guard.notAfterBodyOf) :
    w ∈ r.words := by
  simp [DecisionRule.words, hw]

/-- A token ends the body of the same statements in both. -/
theorem endsBodyOf (h : Alike l code code') (hr : r ∈ l.decisions)
    (hguard : r.guard.notAfterBodyOf ≠ []) (ht : code.text k = r.token)
    (ht' : code'.text k = r.token) :
    code'.endsBodyOf r.guard.notAfterBodyOf k = code.endsBodyOf r.guard.notAfterBodyOf k := by
  have hwords : ∀ w ∈ r.words, unquoted w = true := fun w hw =>
    h.legible.compared w (Language.mem_compared_of_rule hr hw)
  cases k with
  | zero => rfl
  | succ p =>
    simp only [Code.endsBodyOf, h.isPunct, h.partner, ht, ht']
    have hopens := h.statementOpensWith r.guard.notAfterBodyOf
      (hwords r.token (List.mem_cons_self ..)) (fun hl => Language.mem_exposed_of_rule hl hr
        (by simp [DecisionRule.exposed, hguard])) 
    rw [hopens]
    split
    · cases hp : code.partner? p with
      | none => rfl
      | some o =>
        refine h.contains_openerWord (h.paired.kind?_partner hp)
          (fun w hw => hwords w (mem_words r hw)) fun hl hbreaks w hw =>
            Language.mem_exposed_of_rule hl hr (by simp [DecisionRule.exposed, hbreaks, hw])
    · rfl

/-- Statements start at the same tokens. -/
theorem statementStart (h : Alike l code code')
    (hexposed : l.interpolates = true → ∀ w ∈ statementBounds, w ∈ l.exposed) (j : Nat) :
    code'.statementStart j = code.statementStart j := by
  have hbounds : ∀ p, statementBounds.contains (code'.text p) =
      statementBounds.contains (code.text p) := fun p =>
    h.contains_text (by decide) fun he => hexposed he.interpolates
  simp only [statementBounds] at hbounds
  fun_induction code.statementStart j with
  | case1 => rw [Code.statementStart]
  | _ =>
    rw [Code.statementStart]
    simp only [h.closesGroup, hbounds]
    grind [h.opener]

/-! ## Types -/

/-- Tokens stand in the same parameter lists. -/
theorem inParameterList (h : Alike l code code')
    (hsep : l.signatures.returnSeparator.isSome = true) (j : Nat) :
    code'.inParameterList j = code.inParameterList j := by
  have hexposed : ∀ {p}, code.Enclosed l p → ∀ w ∈ ["(", "[", "\x7b", ";"], w ∈ l.exposed := by
    intro p he w hw
    simp only [Language.exposed, he.interpolates, hsep, if_true]
    grind
  have hopen : ∀ p, (code'.text p == "(") = (code.text p == "(") := fun p =>
    h.text_beq (by decide) fun he => hexposed he _ (by decide)
  have hstop : ∀ p, ["[", "\x7b", ";"].contains (code'.text p) =
      ["[", "\x7b", ";"].contains (code.text p) := fun p =>
    h.contains_text (by decide) fun he w hw => hexposed he w (List.mem_cons_of_mem _ hw)
  fun_induction code.inParameterList j with
  | case1 => rw [Code.inParameterList]
  | _ =>
    rw [Code.inParameterList]
    simp only [h.closesBracket, hopen, hstop]
    grind [h.opener]

/-- The brace before a piece of a literal ends the walk for angles. -/
theorem insideAngles_enclosed (he : code.Enclosed l i) (depth : Nat) :
    code.insideAngles depth i = false := by
  obtain ⟨p, rfl, hk, hbrace⟩ := he.before
  have hgroup : code.closesGroup p = false := by simp [Code.closesGroup, isPunct_eq, hk]
  rw [Code.insideAngles]
  simp [hgroup, hbrace]

/-- A piece of a literal between pieces of code is no part of a type. -/
theorem inTypePosition_enclosed (he : code.Enclosed l i) : code.inTypePosition l i = false := by
  obtain ⟨p, rfl, hk, -⟩ := he.before
  rw [Code.inTypePosition]
  simp [isPunct_eq, hk]

theorem annotatesBinding_enclosed (he : code.Enclosed l i) :
    code.annotatesBinding l i = false := by
  obtain ⟨p, rfl, hk, -⟩ := he.before
  cases p with
  | zero => rfl
  | succ p => simp [Code.annotatesBinding, Code.isKind, hk]

/-- Tokens stand in the same angles. -/
theorem insideAngles (h : Alike l code code') (depth j : Nat) :
    code'.insideAngles depth j = code.insideAngles depth j := by
  have hw := unquoted_brackets
  have hangle : ∀ {p}, code.Enclosed l p → code.text p ∉ l.exposed → code.text p ≠ "<" :=
    fun he hne ht => hne (ht ▸ lt_mem_exposed he)
  have hangle' : ∀ {p}, code.Enclosed l p → code'.text p ∉ l.exposed → code'.text p ≠ "<" :=
    fun he hne ht => hne (ht ▸ lt_mem_exposed he)
  fun_induction code.insideAngles depth j with
  | case1 => rw [Code.insideAngles]
  | _ depth p =>
    have htext := h.text_cases p
    have hstop : code.Enclosed l p → ∀ depth, code.insideAngles depth p = false :=
      fun he depth => insideAngles_enclosed he depth
    have hstop' : code.Enclosed l p → ∀ depth, code'.insideAngles depth p = false :=
      fun he depth => insideAngles_enclosed (h.enclosed.mpr he) depth
    rw [Code.insideAngles]
    simp only [h.closesGroup]
    grind [h.opener]

theorem outermostParen (h : Alike l code code') (j : Nat) :
    code'.outermostParen j = code.outermostParen j := by
  fun_induction code.outermostParen j with
  | case1 => rfl
  | _ => grind [Code.outermostParen, h.isPunct]

theorem annotatesBinding (h : Alike l code code')
    (hsep : l.signatures.returnSeparator.isSome = true) (colon : Nat) :
    code'.annotatesBinding l colon = code.annotatesBinding l colon := by
  match colon with
  | 0 | 1 => rfl
  | before + 2 =>
    simp only [Code.annotatesBinding, h.isKind, h.isWord, h.isPunct, h.inParameterList hsep]
    cases hword : code.isWord before with
    | true => simp only [h.text_of_isWord hword]
    | false => rfl

theorem typeBefore_enclosed (he : code.Enclosed l i) (hne : code.text i ∉ l.exposed)
    (own : String) : code.typeBefore l own i = false := by
  have hangle : code.text i ≠ "<" := fun ht => hne (ht ▸ lt_mem_exposed he)
  simp [typeBefore, hangle, insideAngles_enclosed he, inTypePosition_enclosed he,
    annotatesBinding_enclosed he]

/-- A token with a quote ends no type. -/
theorem typeBefore_quoted (hl : l.Legible) (hq : unquoted (code.text i) = false)
    {own : String} (hown : unquoted own = true) : code.typeBefore l own i = false := by
  have hne : ∀ {w}, unquoted w = true → code.text i ≠ w := by
    rintro w hw rfl
    rw [hw] at hq
    cases hq
  have hsep : l.signatures.returnSeparator ≠ some (code.text i) := fun hs =>
    hne (hl.compared _ (by simp [Language.compared, hs])) rfl
  simp [typeBefore, hne (w := "<") (by decide), hne (w := ",") (by decide), hne hown, hsep]

/-- Arrows belong to types alike. -/
theorem inTypePosition (h : Alike l code code') (hown : unquoted (code.text k) = true)
    (ht : code'.text k = code.text k) :
    code'.inTypePosition l k = code.inTypePosition l k := by
  induction k using Nat.strongRecOn with
  | _ k ih =>
    cases k with
    | zero => rw [Code.inTypePosition, Code.inTypePosition]
    | succ p =>
      simp only [inTypePosition_succ, h.isPunct, h.opener, ht]
      cases ho : code.opener? p with
      | none => rfl
      | some o =>
        simp only [h.outermostParen]
        cases hb : code.outermostParen o with
        | zero => rfl
        | succ before =>
          have hlt : before < p + 1 := by
            have := code.opener?_lt ho
            have := code.outermostParen_le o
            omega
          congr 1
          dsimp only
          rcases h.text_cases before with heq | ⟨hq, hq'⟩ | ⟨he, hne, hne'⟩
          · simp only [typeBefore, heq, h.insideAngles]
            split
            · rfl
            split
            · rfl
            split
            · rename_i hsame
              exact ih before hlt (by rwa [beq_iff_eq.mp hsame]) heq
            · cases hsep : l.signatures.returnSeparator with
              | none => rfl
              | some w => rw [h.annotatesBinding (by simp [hsep])]
          · rw [typeBefore_quoted h.legible hq hown, typeBefore_quoted h.legible hq' hown]
          · rw [typeBefore_enclosed he hne, typeBefore_enclosed (h.enclosed.mpr he) hne']

/-! ## What follows -/

theorem skipQualifiers (h : Alike l code code') (j : Nat) :
    code'.skipQualifiers j = code.skipQualifiers j := by
  fun_induction code.skipQualifiers j with
  | _ =>
    rw [Code.skipQualifiers]
    simp only [h.isPunct, h.isKind]
    grind

theorem settled_skipQualifiers (hs : code.Settled j) : code.Settled (code.skipQualifiers j) := by
  fun_induction code.skipQualifiers j with
  | case1 j hj _ ih =>
    simp only [Bool.and_eq_true] at hj
    exact ih (.of_isKind hj.2 (by decide))
  | case2 j => exact hs

/-- Bodies of unnamed classes follow the same tokens. -/
theorem anonymousBodyFollows (h : Alike l code code') (k : Nat) :
    code'.anonymousBodyFollows k = code.anonymousBodyFollows k := by
  simp only [Code.anonymousBodyFollows, h.isKind, h.skipQualifiers]
  cases hname : code.isKind (k + 1) .identifier with
  | false => rfl
  | true =>
    have hs := settled_skipQualifiers (Settled.of_isKind hname (by decide))
    simp only [h.skipAngles? hs, h.isPunct, h.partner]

/-! ## Chains -/

/-- The token before one that is no interpolation is the same, or a literal that is not `own`. -/
theorem text_before_cases (h : Alike l code code') {own : String} (hown : unquoted own = true)
    (hexposed : l.interpolates = true → l.breaksLiterals = true → own ∈ l.exposed) {p : Nat}
    (hsome : code.kind? (p + 1) ≠ none) (hne : code.kind? (p + 1) ≠ some .interpolation) :
    code'.text p = code.text p ∨
      code.kind? p = some .stringLiteral ∧ code.text p ≠ own ∧ code'.text p ≠ own := by
  have hmem : code.Enclosed l p → own ∈ l.exposed := fun he =>
    hexposed he.interpolates (breaks_of_enclosed he hsome hne)
  rcases h.text p with heq | ⟨hv, hv'⟩
  · exact .inl heq
  · refine .inr ⟨hv.kind, ?_, ?_⟩
    · rintro rfl
      obtain ⟨he, hnot⟩ := hv.text hown
      exact hnot (hmem he)
    · rintro rfl
      obtain ⟨he, hnot⟩ := hv'.text hown
      exact hnot (hmem (h.enclosed.mp he))

/-- The first of a chain is the same token in both. -/
theorem firstInChain (h : Alike l code code') {own : String} (hown : unquoted own = true)
    (hexposed : l.interpolates = true → l.breaksLiterals = true → own ∈ l.exposed) (atom : Bool)
    (hsome : code.kind? j ≠ none) (hne : code.kind? j ≠ some .interpolation) :
    code'.firstInChain l own atom j = code.firstInChain l own atom j := by
  have hpartner : ∀ {p o}, code.opener? p = some o → code.kind? o = some .punctuation := fun ho =>
    h.paired.kind?_partner (Option.filter_eq_some_iff.mp ho).1
  fun_induction code.firstInChain l own atom j with
  | case1 => rw [Code.firstInChain]
  | _ atom p =>
    have htext := h.text_before_cases hown hexposed hsome hne
    rw [Code.firstInChain]
    simp only [h.isWord, h.isKind, h.closesGroup, h.isPunct, h.isOp]
    grind [h.opener, isWord_eq, Code.isKind, kind?_of_isPunct, kind?_of_isOp]

/-! ## Guards -/

/-- The guards on the token in front hold alike. -/
theorem textBefore? (h : Alike l code code') (hsome : code.kind? k ≠ none)
    (hne : code.kind? k ≠ some .interpolation) {words : List String}
    (hwords : ∀ w ∈ words, unquoted w = true)
    (hexposed : l.interpolates = true → l.breaksLiterals = true → ∀ w ∈ words, w ∈ l.exposed) :
    (code'.textBefore? k).any words.contains = (code.textBefore? k).any words.contains := by
  cases k with
  | zero => rfl
  | succ p => exact h.contains_before hsome hne hwords hexposed

theorem textAfter? (h : Alike l code code') (hne : code.kind? k ≠ some .interpolation)
    {words : List String} (hwords : ∀ w ∈ words, unquoted w = true) :
    (code'.textAfter? k).any words.contains = (code.textAfter? k).any words.contains := by
  have hs : code.Settled (k + 1) := .succ hne
  simp only [Code.textAfter?, h.size]
  split
  · exact h.contains_text hwords fun he => absurd he hs.not_enclosed
  · rfl

/-- Tokens that can be decisions have the same text. -/
theorem text_of_decides (h : Alike l code code') (hd : code.decides k = true) :
    code'.text k = code.text k := by
  apply h.text_of_kind
  intro hk
  simp [Code.decides, isWord_eq, Code.isKind, hk] at hd

theorem kind?_of_decides (hd : code.decides k = true) :
    code.kind? k ≠ none ∧ code.kind? k ≠ some .interpolation := by
  constructor
  · intro hk
    simp [Code.decides, isWord_eq, Code.isKind, hk] at hd
  · intro hk
    simp [Code.decides, isWord_eq, Code.isKind, hk] at hd

/-- The words of the guards of a decision are exposed where literals end at line breaks. -/
theorem exposed_words (hr : r ∈ l.decisions) {words : List String}
    (hsub : words ⊆ r.guard.precededBy ++ r.guard.notPrecededBy ++
      (r.guard.inBlockOf ++ r.guard.notInBlockOf))
    (hl : l.interpolates = true) (hbreaks : l.breaksLiterals = true) :
    ∀ w ∈ words, w ∈ l.exposed := by
  intro w hw
  refine Language.mem_exposed_of_rule hl hr ?_
  have hmem := hsub hw
  simp only [DecisionRule.exposed, hbreaks, if_true, List.mem_append] at hmem ⊢
  grind

section Rule

variable (h : Alike l code code') (hr : r ∈ l.decisions)

include h hr

theorem unquoted_words {words : List String} (hsub : words ⊆ r.words) :
    ∀ w ∈ words, unquoted w = true :=
  fun w hw => h.legible.compared w (Language.mem_compared_of_rule hr (hsub hw))

/-- The neighbours and the block of a decision fit the same guards. -/
theorem neighbours (hd : code.decides k = true) {stack stack' : List Frame}
    (hstack : List.Forall₂ (Frame.Alike l) stack stack') :
    (neighbourFits r.guard.precededBy r.guard.notPrecededBy (code'.textBefore? k) &&
      neighbourFits r.guard.followedBy r.guard.notFollowedBy (code'.textAfter? k) &&
      neighbourFits r.guard.inBlockOf r.guard.notInBlockOf (blockWord? stack')) =
    (neighbourFits r.guard.precededBy r.guard.notPrecededBy (code.textBefore? k) &&
      neighbourFits r.guard.followedBy r.guard.notFollowedBy (code.textAfter? k) &&
      neighbourFits r.guard.inBlockOf r.guard.notInBlockOf (blockWord? stack)) := by
  obtain ⟨hsome, hne⟩ := kind?_of_decides hd
  have hwords : ∀ {words : List String}, words ⊆ r.words → ∀ w ∈ words, unquoted w = true :=
    h.unquoted_words hr
  obtain ⟨hin, hnotIn⟩ := blockWord?_alike hr hstack
  simp only [neighbourFits, hin, hnotIn]
  rw [h.textBefore? hsome hne (hwords ?_) (exposed_words hr ?_),
    h.textBefore? hsome hne (hwords ?_) (exposed_words hr ?_),
    h.textAfter? hne (hwords ?_), h.textAfter? hne (hwords ?_)]
  all_goals
    intro w hw
    simp [DecisionRule.words, hw]

/-- The guard on the body before a token holds alike. -/
theorem bodies (hd : code.decides k = true) (ht : code.text k = r.token) :
    (!r.guard.notAfterBodyOf.isEmpty && code'.endsBodyOf r.guard.notAfterBodyOf k) =
      (!r.guard.notAfterBodyOf.isEmpty && code.endsBodyOf r.guard.notAfterBodyOf k) := by
  cases hguard : r.guard.notAfterBodyOf with
  | nil => rfl
  | cons w ws =>
    rw [← hguard, h.endsBodyOf hr (by simp [hguard]) ht ((h.text_of_decides hd).trans ht)]

theorem statements (k : Nat) :
    (!r.guard.notInStatementOf.isEmpty &&
        r.guard.notInStatementOf.contains (code'.text (code'.statementStart k))) =
      (!r.guard.notInStatementOf.isEmpty &&
        r.guard.notInStatementOf.contains (code.text (code.statementStart k))) := by
  cases hguard : r.guard.notInStatementOf with
  | nil => rfl
  | cons w ws =>
    have hexposed : l.interpolates = true →
        ∀ w ∈ statementBounds ++ r.guard.notInStatementOf, w ∈ l.exposed := by
      intro hl v hv
      refine Language.mem_exposed_of_rule hl hr ?_
      simp only [DecisionRule.exposed, List.mem_append]
      simp only [hguard, List.isEmpty_cons] at hv ⊢
      grind
    rw [← hguard, h.statementStart fun hl w hw => hexposed hl w (List.mem_append_left _ hw),
      h.contains_text (h.unquoted_words hr ?_) fun he w hw =>
        hexposed he.interpolates w (List.mem_append_right _ hw)]
    intro w hw
    simp [DecisionRule.words, hw]

theorem chains (hd : code.decides k = true) (ht : code.text k = r.token) :
    (r.guard.firstInChain && !code'.firstInChain l (code'.text k) false k) =
      (r.guard.firstInChain && !code.firstInChain l (code.text k) false k) := by
  cases hguard : r.guard.firstInChain with
  | false => rfl
  | true =>
    obtain ⟨hsome, hne⟩ := kind?_of_decides hd
    have hown : unquoted (code.text k) = true := by
      rw [ht]
      exact h.unquoted_words hr (List.Subset.refl _) r.token (List.mem_cons_self ..)
    rw [h.text_of_decides hd, h.firstInChain hown (fun hl hbreaks => ?_) false hsome hne]
    refine Language.mem_exposed_of_rule hl hr ?_
    simp [DecisionRule.exposed, hguard, hbreaks, ht]

/-- A guard holds in both codes or in neither. -/
theorem guardHolds (hd : code.decides k = true) (ht : code.text k = r.token)
    {stack stack' : List Frame} (hstack : List.Forall₂ (Frame.Alike l) stack stack') :
    code'.guardHolds l r.guard stack' k = code.guardHolds l r.guard stack k := by
  have hown : unquoted (code.text k) = true := by
    rw [ht]
    exact h.unquoted_words hr (List.Subset.refl _) r.token (List.mem_cons_self ..)
  simp only [Code.guardHolds, Code.guardFits, h.neighbours hr hd hstack, h.bodies hr hd ht,
      h.statements hr,
    h.inTypePosition hown (h.text_of_decides hd), h.anonymousBodyFollows, h.chains hr hd ht]

end Rule

/-! ## Lambdas -/

theorem afterGroup (h : Alike l code code') (j : Nat) :
    code'.afterGroup j = code.afterGroup j := by
  simp only [Code.afterGroup, h.closer, h.size]

theorem endsExpression (h : Alike l code code') (j : Nat) :
    code'.endsExpression j = code.endsExpression j := by
  simp only [Code.endsExpression, h.closesBracket, h.isPunct]

/-- Expressions end at the same tokens. -/
theorem expressionEnd (h : Alike l code code') (j : Nat) :
    code'.expressionEnd j = code.expressionEnd j := by
  fun_induction code.expressionEnd j with
  | _ =>
    rw [Code.expressionEnd]
    simp only [h.size, h.opensBracket, h.endsExpression, h.afterGroup]
    grind

/-- Blocks end at the same tokens. -/
theorem blockEnd? (h : Alike l code code') (j : Nat) :
    code'.blockEnd? j = code.blockEnd? j := by
  fun_induction code.blockEnd? j with
  | _ =>
    rw [Code.blockEnd?]
    simp only [h.size, h.isPunct, h.opensBracket, h.endsExpression, h.afterGroup]
    grind

/-- After a decision, the walk goes on at the same token. -/
theorem afterDecision (h : Alike l code code') (options : ScoringOptions) (k : Nat)
    (r : DecisionRule) :
    code'.afterDecision options k r = code.afterDecision options k r := by
  simp only [Code.afterDecision, Code.lambdaEnd?, h.isKind, h.isPunct, h.afterGroup,
    h.expressionEnd, h.blockEnd?]

/-! ## Decisions -/

variable {stack stack' : List Frame}

/-- The same rules apply to the tokens. -/
theorem ruleAt? (h : Alike l code code') (hstack : List.Forall₂ (Frame.Alike l) stack stack')
    (k : Nat) : code'.ruleAt? l stack' k = code.ruleAt? l stack k := by
  have hdecides : code'.decides k = code.decides k := by
    simp only [Code.decides, h.isWord, h.isKind]
  simp only [Code.ruleAt?, hdecides]
  split
  · rename_i hd
    rw [h.text_of_decides hd]
    refine List.find?_congr fun r hr => ?_
    cases ht : r.token == code.text k with
    | false => rfl
    | true => rw [h.guardHolds hr hd (beq_iff_eq.mp ht).symm hstack]
  · rfl

theorem text_of_ruleAt? (h : Alike l code code') {r : DecisionRule}
    (hr : code.ruleAt? l stack k = some r) : code'.text k = code.text k := by
  simp only [Code.ruleAt?] at hr
  split at hr
  · rename_i hd
    exact h.text_of_decides hd
  · cases hr

/-- The rules make the same decisions, apart from their places. -/
theorem decision (h : Alike l code code') {r : DecisionRule}
    (hr : code.ruleAt? l stack k = some r) :
    (code'.decision k r).core = (code.decision k r).core := by
  simp only [Code.decision, Decision.core, h.text_of_ruleAt? hr]

theorem openerWord (h : Alike l code code') {brace : Nat}
    (hk : code.kind? brace = some .punctuation) :
    Frame.Alike l (.block (code.openerWord brace)) (.block (code'.openerWord brace)) := by
  intro r hr
  refine ⟨h.contains_openerWord hk (h.unquoted_words hr ?_) (exposed_words hr ?_),
    h.contains_openerWord hk (h.unquoted_words hr ?_) (exposed_words hr ?_)⟩
  all_goals
    intro w hw
    simp [DecisionRule.words, hw]

/-- Alike stacks stay alike over a token. -/
theorem openAfter (h : Alike l code code') (hstack : List.Forall₂ (Frame.Alike l) stack stack')
    (k : Nat) :
        List.Forall₂ (Frame.Alike l) (code.openAfter stack k) (code'.openAfter stack' k) := by
  simp only [Code.openAfter, h.isPunct, h.opensBracket, h.closesBracket]
  split
  · rename_i hp
    exact .cons (h.openerWord (kind?_of_isPunct hp)) hstack
  split
  · exact .cons trivial hstack
  split
  · cases hstack with
    | nil => exact .nil
    | cons hf hrest =>
      cases hrest with
      | nil => exact .cons hf .nil
      | cons hg hrest => exact .cons hg hrest
  · exact hstack

/-- The decisions of alike codes are the same as far as `g` shows them. -/
theorem decisionsFrom (h : Alike l code code') {g : Decision → Decision}
    (hg : ∀ {stack k r}, code.ruleAt? l stack k = some r →
      g (code'.decision k r) = g (code.decision k r))
    (options : ScoringOptions) (stop k : Nat) (children : List Child)
    (hstack : List.Forall₂ (Frame.Alike l) stack stack') :
    (code'.decisionsFrom l options stop k children stack').map g =
      (code.decisionsFrom l options stop k children stack).map g := by
  fun_induction code.decisionsFrom l options stop k children stack generalizing stack' with
  | case1 k children stack hk c rest hc _ ih =>
    have hbinding : (code'.bindingDecision? l stack' c).toList.map g =
        (code.bindingDecision? l stack c).toList.map g := by
      cases hb : c.binding with
      | none => simp only [Code.bindingDecision?, hb, Option.bind_none]
      | some b =>
        simp only [Code.bindingDecision?, hb, Option.bind_some, h.ruleAt? hstack]
        cases hr : code.ruleAt? l stack b with
        | none => rfl
        | some r => simp [hg hr]
    rw [decisionsFrom_child hk hc, List.map_append, List.map_append, hbinding, ih hstack]
  | case2 =>
    rename_i k children stack hk hc _ r hr _ ih
    have hopen := h.openAfter hstack k
    rw [decisionsFrom_rule hk hc (by rw [h.ruleAt? hopen, hr]), List.map_cons, List.map_cons,
      hg hr, h.afterDecision, ih hopen]
  | case3 =>
    rename_i k children stack hk hc _ hr ih
    have hopen := h.openAfter hstack k
    rw [decisionsFrom_pass hk hc (by rw [h.ruleAt? hopen, hr]), ih hopen]
  | case4 k children stack hk => rw [Code.decisionsFrom, dif_neg hk]

end Alike

end Code

end Cyclomatic
