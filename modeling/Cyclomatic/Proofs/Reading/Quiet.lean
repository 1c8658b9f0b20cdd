import Cyclomatic.Function.Detect
import Cyclomatic.Proofs.JavaCore.Spelling
import Cyclomatic.Proofs.Rules
import Cyclomatic.Proofs.Shapes

/-!
# Quiet tokens

No type and no function starts at a `Quiet` token.  Keywords and symbols that the table does not
mention are quiet, and so is a name whose parameters have no body behind them.

In a body without functions, every token makes the decision that it makes on its own, if no guard
asks for the blocks around it (`Code.decisionsFrom_flat`).
-/

namespace Cyclomatic

open JavaCore

namespace Code

variable {code : Code} {rules : SignatureRules} {k : Nat}

/-! ## Quiet tokens -/

/-- No type and no function with a body starts at a token, in whatever scopes. -/
structure Quiet (code : Code) (rules : SignatureRules) (k : Nat) : Prop where
  /-- No type starts there. -/
  container : code.containerAt? rules k = none
  /-- A signature that starts there has no body. -/
  noBody : ∀ {scopes s brace}, code.signatureAt rules scopes k = .ok (some s) →
    s.tail ≠ .body brace

theorem decides_of_face {f : Face} (h : code.face? k = some f)
    (hk : f.1 = .keyword ∨ f.1 = .operator) : code.decides k = true := by
  unfold decides
  rw [isWord_of_face h, isKind_of_face h, isKind_of_face h]
  rcases hk with hk | hk <;> rw [hk] <;> rfl

theorem containerAt?_of_text {f : Face} (h : code.face? k = some f)
    (hf : f.2 ∉ rules.containerKeywords) : code.containerAt? rules k = none := by
  unfold containerAt?
  rw [if_neg (by simp [isWordIn, text_of_face h, hf])]

theorem containerAt?_of_next {g : Face} (hg : code.face? (k + 1) = some g)
    (hkind : g.1 ≠ .identifier) : code.containerAt? rules k = none := by
  unfold containerAt?
  rw [if_neg (by simp [isKind_of_face hg, hkind])]

/-- A signature at a token that introduces and binds nothing is a name, before a brace or before
parameters. -/
theorem Shape.of_face {f : Face} (h : code.face? k = some f) (hi : f.2 ∉ rules.introducers)
    (hb : f.2 ∉ rules.arrowBinders) {scopes : List Scope} {s : Signature}
    (hs : code.Shape rules scopes k s) :
    code.isKind k .identifier = true ∧
      (rules.compactConstructors ≠ [] ∧ code.isPunct (k + 1) "\x7b" = true ∨
        rules.typed = true ∧ code.Takes rules (k + 1) s.tail) := by
  have hout : ∀ {words}, f.2 ∉ words → code.isWordIn k words ≠ true := fun hf => by
    simp [isWordIn, text_of_face h, hf]
  cases hs with
  | compact hname hbrace _ _ hcompact =>
    exact ⟨hname, .inl ⟨List.ne_nil_of_mem (List.contains_iff_mem.mp hcompact), hbrace⟩⟩
  | introduced hword => exact absurd hword (hout hi)
  | arrow hbinds => exact absurd hbinds.keyword (hout hb)
  | bound hbinds => exact absurd hbinds.keyword (hout hb)
  | typed htyped hname _ _ htakes => exact ⟨hname, .inr ⟨htyped, htakes⟩⟩

/-- A symbol or keyword that introduces nothing starts no function. -/
theorem quiet_of_symbol {f : Face} (h : code.face? k = some f) (hk : f.1 ≠ .identifier)
    (hi : f.2 ∉ rules.introducers) (hb : f.2 ∉ rules.arrowBinders)
    (hc : f.2 ∉ rules.containerKeywords) : Quiet code rules k := by
  refine ⟨containerAt?_of_text h hc, fun hs => ?_⟩
  have hname := ((signatureAt_shape hs).of_face h hi hb).1
  simp [isKind_of_face h, hk] at hname

/-- A name starts no function if its parameters have no body behind them. -/
theorem quiet_of_name {f g : Face} (h : code.face? k = some f)
    (hc : code.containerAt? rules k = none) (hi : f.2 ∉ rules.introducers)
    (hb : f.2 ∉ rules.arrowBinders) (hg : code.face? (k + 1) = some g) (hbrace : g ≠ punct "\x7b")
    (hbody : ∀ {close brace}, code.params? (code.skipTypeParams rules (k + 1)) = some close →
      code.tailAt? rules (close + 1) ≠ some (.body brace)) : Quiet code rules k := by
  refine ⟨hc, fun hs htail => ?_⟩
  rcases ((signatureAt_shape hs).of_face h hi hb).2 with ⟨-, hnext⟩ | ⟨-, close, hclose, htakes⟩
  · rw [isPunct_of_ne hg hbrace] at hnext
    cases hnext
  · exact hbody hclose (htail ▸ htakes)

/-- Without typed methods, a token that introduces nothing starts no signature. -/
theorem quiet_of_untyped {f : Face} (htyped : rules.typed = false)
    (hcompact : rules.compactConstructors = []) (h : code.face? k = some f)
    (hi : f.2 ∉ rules.introducers) (hb : f.2 ∉ rules.arrowBinders)
    (hc : f.2 ∉ rules.containerKeywords) : Quiet code rules k := by
  refine ⟨containerAt?_of_text h hc, fun hs => ?_⟩
  rcases ((signatureAt_shape hs).of_face h hi hb).2 with ⟨hne, -⟩ | ⟨htrue, -⟩
  · exact absurd hcompact hne
  · rw [htyped] at htrue
    cases htrue

/-- Where no type parameters start, none are skipped. -/
theorem skipTypeParams_of_face {g : Face} (hg : code.face? k = some g) (hangle : g.2 ≠ "<")
    (hsquare : g.2 ≠ "[") : code.skipTypeParams rules k = k := by
  have hskip : code.skipAngles? k = none := code.skipAngles?_of_text (by rwa [text_of_face hg])
  have hpunct : code.isPunct k "[" = false := by simp [isPunct_of_face hg, hsquare]
  unfold skipTypeParams
  rw [hskip, hpunct]
  simp

/-- A name before anything but parameters, a generic list or a body starts no function. -/
theorem quiet_of_lone {f g : Face} (h : code.face? k = some f)
    (hi : f.2 ∉ rules.introducers) (hb : f.2 ∉ rules.arrowBinders)
    (hc : code.containerAt? rules k = none) (hg : code.face? (k + 1) = some g)
    (hne : g.2 ∉ ["(", "<", "[", "\x7b"]) : Quiet code rules k := by
  simp only [List.mem_cons, List.not_mem_nil, or_false, not_or] at hne
  refine quiet_of_name h hc hi hb hg (fun heq => hne.2.2.2 (by rw [heq])) fun hparams => ?_
  rw [skipTypeParams_of_face hg hne.2.1 hne.2.2.1, params?,
    if_neg (by simp [isPunct_of_face hg, hne.1])] at hparams
  cases hparams

/-- The name of a call starts no function if what follows the call is no tail of a signature. -/
theorem quiet_of_call {f g : Face} {args : List Face} (hp : code.Paired)
    (h : code.Spells k (f :: parens args)) (hargs : Balanced args)
    (hi : f.2 ∉ rules.introducers) (hb : f.2 ∉ rules.arrowBinders)
    (hg : code.face? (k + 1 + (parens args).length) = some g) (hbrace : g ≠ punct "\x7b")
    (hreturn : rules.returnSeparator ≠ some g.2) (hclause : g.2 ∉ rules.clauseKeywords)
    (hfree : rules.freeReturn = false) : Quiet code rules k := by
  obtain ⟨hf, hspell⟩ := spells_cons.mp h
  have hopen := (spells_cons.mp hspell).1
  refine quiet_of_name hf (containerAt?_of_next hopen (by decide)) hi hb hopen (by decide)
    fun {close brace} hparams => ?_
  rw [skipTypeParams_of_face hopen (by decide) (by decide), params?,
    if_pos (by simp [isPunct_of_face hopen]), hspell.partner? hp .round hargs] at hparams
  obtain rfl := Option.some.inj hparams
  have hlen : k + 1 + 1 + args.length + 1 = k + 1 + (parens args).length := by
    rw [length_parens]
    omega
  have hskip : code.skipClauses rules (code.skipReturnType rules (k + 1 + (parens args).length)) =
      k + 1 + (parens args).length := by
    have htype : code.skipReturnType rules (k + 1 + (parens args).length) =
        k + 1 + (parens args).length := by
      unfold skipReturnType
      rw [if_neg (by simp [text_of_face hg, hreturn])]
    rw [htype, skipClauses, dif_neg (by simp [isWordIn, text_of_face hg, hclause])]
  rw [hlen, tailAt?, hskip, hfree]
  simp only [Bool.false_eq_true, if_false, isPunct_of_ne hg hbrace]
  split
  · simp
  · split <;> simp

end Code

/-! ## Brackets that no guard asks for -/

/-- The words of blocks that guards ask for. -/
def Language.blockWords (l : Language) : List String :=
  l.decisions.flatMap fun r => r.guard.inBlockOf ++ r.guard.notInBlockOf

/-- None of the open blocks is one that a guard asks for. -/
def Language.Mild (l : Language) (stack : List Frame) : Prop :=
  ∀ word, .block word ∈ stack → word ∉ l.blockWords

theorem Language.Blockless.not_mem_blockWords {l : Language} (h : l.Blockless) (word : String) :
    word ∉ l.blockWords := by
  intro hword
  obtain ⟨r, hr, hmem⟩ := List.mem_flatMap.mp hword
  rw [(h r hr).1, (h r hr).2] at hmem
  exact absurd hmem List.not_mem_nil

namespace Code

variable {code : Code} {l : Language} {stack : List Frame} {k : Nat}

theorem ruleAt?_of_mild (h : l.Mild stack) : code.ruleAt? l stack k = code.ruleAt? l [] k := by
  refine ruleAt?_of_guards fun r hr => ?_
  have hword : neighbourFits r.guard.inBlockOf r.guard.notInBlockOf (blockWord? stack) =
      neighbourFits r.guard.inBlockOf r.guard.notInBlockOf none := by
    cases hw : blockWord? stack with
    | none => rfl
    | some word =>
      have hmem : .block word ∈ stack := by
        unfold blockWord? at hw
        split at hw
        · cases hw
          exact List.mem_cons_self ..
        · cases hw
      have hout := h word hmem
      simp only [Language.blockWords, List.mem_flatMap, List.mem_append, not_exists, not_and,
        not_or] at hout
      obtain ⟨hin, hnot⟩ := hout r hr
      simp [neighbourFits, hin, hnot]
  unfold guardHolds guardFits
  rw [hword]
  rfl

theorem mild_openAfter (h : l.Mild stack)
    (hbrace : code.isPunct k "\x7b" = true → code.openerWord k ∉ l.blockWords) :
    l.Mild (code.openAfter stack k) := by
  intro word hword
  unfold openAfter at hword
  split at hword
  · rename_i hopen
    rcases List.mem_cons.mp hword with heq | hword
    · cases heq
      exact hbrace hopen
    · exact h word hword
  split at hword
  · rcases List.mem_cons.mp hword with heq | hword
    · cases heq
    · exact h word hword
  split at hword
  · split at hword
    · exact h word (List.mem_cons_of_mem _ hword)
    · exact h word hword
  · exact h word hword

/-- In a body without functions, every token makes its decision. -/
theorem decisionsFrom_flat (stop k : Nat) (hstack : l.Mild stack)
    (hbrace : ∀ x, k ≤ x → x < stop → code.isPunct x "\x7b" = true →
      code.openerWord x ∉ l.blockWords) :
    code.decisionsFrom l {} stop k [] stack =
      (List.range' k (stop - k)).filterMap fun x =>
        (code.ruleAt? l [] x).map (code.decision x) := by
  obtain ⟨n, hn⟩ : ∃ n, stop - k = n := ⟨_, rfl⟩
  induction n generalizing k stack with
  | zero =>
    rw [decisionsFrom, dif_neg (by omega), hn]
    rfl
  | succ n ih =>
    have hrange : List.range' k (stop - k) = k :: List.range' (k + 1) (stop - (k + 1)) := by
      rw [hn, List.range'_succ, show stop - (k + 1) = n by omega]
    have hmild := mild_openAfter hstack (hbrace k (Nat.le_refl k) (by omega))
    have hrest := ih (k + 1) hmild (fun x h1 h2 => hbrace x (by omega) h2) (by omega)
    rw [decisionsFrom, dif_pos (by omega), hrange, List.filterMap_cons]
    simp only [childAt?, ruleAt?_of_mild hmild]
    cases code.ruleAt? l [] k with
    | none => exact hrest
    | some r =>
      have hafter : code.afterDecision {} k r = k + 1 := by simp [afterDecision]
      simp only [hafter, Option.map_some, hrest]

end Code

end Cyclomatic
