import Cyclomatic.Function.Detect
import Mathlib.Data.Option.Basic

/-!
# The shapes of signatures

`Code.Shape` says what a signature found at a token consists of, with the searches that found its
parts.  The shape with an arrow has two constructors: what the keyword binds is an arrow function
or an introduced one.

Every signature that is found has a shape (`Code.signatureAt_shape`).  A relation between tokens
that all the searches keep is thereby shown for signatures by cases.  What a search for one part
found is stated in the same way (`Code.nameAt?_cases`, `Code.containerAt?_eq_some`).
-/

namespace Cyclomatic

namespace Code

section Shape

variable (code : Code) (rules : SignatureRules)

/-- Type parameters and parameters stand at a token, and the tail follows them. -/
def Takes (j : Nat) (tail : Tail) : Prop :=
  ∃ close, code.params? (code.skipTypeParams rules j) = some close ∧
    code.tailAt? rules (close + 1) = some tail

/-- A keyword at `i` binds a name to the value that starts at `j`, after modifiers. -/
structure Binds (i j : Nat) : Prop where
  /-- The keyword binds functions. -/
  keyword : code.isWordIn i rules.arrowBinders = true
  /-- The name follows it. -/
  name : code.isKind (i + 1) .identifier = true
  /-- An equals sign stands after the name and its type. -/
  equals : code.text (code.skipReturnType rules (i + 2)) = "="
  /-- The value comes after the modifiers. -/
  value : code.skipModifiers rules (code.skipReturnType rules (i + 2) + 1) = j

/-- The parts of a signature that starts at a token. -/
inductive Shape (scopes : List Scope) (i : Nat) : Signature → Prop
  /-- A name before a brace, directly inside a container of that name. -/
  | compact {scope : Scope} {keyword : String}
      (hname : code.isKind i .identifier = true) (hbrace : code.isPunct (i + 1) "\x7b" = true)
      (hscope : scopes.head? = some scope) (hkind : scope.kind = .container keyword)
      (hcompact : rules.compactConstructors.contains keyword = true)
      (hsame : scope.name = code.text i)
      (hbefore : (i == 0 || code.afterBreak i ||
        if code.isWord (i - 1) then rules.modifiers.contains (code.text (i - 1))
        else rules.allowedPredecessors.contains (code.text (i - 1))) = true) :
      Shape scopes i { form := .typed, anchor := i, name := i, tail := .body (i + 1) }
  /-- An introducing keyword, a name and parameters. -/
  | introduced {j k name : Nat} {type : Option String} {chain : List String} {tail : Tail}
      (hword : code.isWordIn i rules.introducers = true)
      (hmarkers : code.skipMarkers rules (i + 1) = .ok j)
      (hreceiver : code.receiverAt? rules (code.skipGenerics rules j) = some (type, k))
      (hname : code.nameAt? rules k = some (chain, name))
      (htakes : code.Takes rules (name + 1) tail) :
      Shape scopes i
        { form := .introduced, anchor := i, name, tail,
          receiver := if type.isNone && !chain.isEmpty then some (String.intercalate "." chain)
            else type }
  /-- A name bound to parameters, an arrow and a brace. -/
  | arrow {j arrow : Nat} {text : String} (hbinds : code.Binds rules i j)
      (htext : rules.arrow = some text)
      (hparams : code.afterArrowParams? rules (code.skipGenerics rules j) = some arrow)
      (harrow : code.text arrow = text) (hbrace : code.isPunct (arrow + 1) "\x7b" = true) :
      Shape scopes i
        { form := .arrow, anchor := i, name := i + 1, binding := some arrow,
          tail := .body (arrow + 1) }
  /-- A name bound to an introduced function, which may have a name of its own. -/
  | bound {j k brace : Nat} (hbinds : code.Binds rules i j)
      (hword : code.isWordIn j rules.introducers = true)
      (hmarkers : code.skipMarkers rules (j + 1) = .ok k)
      (htakes : code.Takes rules (if code.isKind k .identifier then k + 1 else k) (.body brace)) :
      Shape scopes i
        { form := .arrow, anchor := i, name := i + 1, binding := some j, tail := .body brace }
  /-- A name with parameters, where the token before allows a name. -/
  | typed {tail : Tail} (htyped : rules.typed = true) (hname : code.isKind i .identifier = true)
      (hfree : rules.reserved.contains (code.text i) = false)
      (hbefore : (i == 0 || code.afterBreak i ||
        if code.isWord (i - 1) then !rules.excludedPredecessors.contains (code.text (i - 1))
        else rules.allowedPredecessors.contains (code.text (i - 1))) = true)
      (htakes : code.Takes rules (i + 1) tail) :
      Shape scopes i { form := .typed, anchor := i, name := i, tail }

end Shape

variable {code : Code} {rules : SignatureRules} {scopes : List Scope} {i j : Nat} {s : Signature}

/-! ## Every signature has a shape -/

theorem compactForm?_shape (h : code.compactForm? rules scopes i = some s) :
    code.Shape rules scopes i s := by
  simp only [compactForm?, Option.bind_eq_bind, Option.bind_eq_some_iff, Option.guard_eq_some',
    Bool.and_eq_true] at h
  obtain ⟨-, ⟨hname, hbrace⟩, scope, hscope, h⟩ := h
  split at h
  · rename_i keyword hkind
    simp only [Option.bind_eq_some_iff, Option.guard_eq_some', beq_iff_eq] at h
    obtain ⟨-, ⟨hcompact, hsame⟩, -, hbefore, h⟩ := h
    cases h
    exact .compact hname hbrace hscope hkind hcompact hsame hbefore
  · cases h

theorem introducedForm_shape (hword : code.isWordIn i rules.introducers = true)
    (h : code.introducedForm rules i = .ok (some s)) : code.Shape rules scopes i s := by
  unfold introducedForm at h
  cases hmarkers : code.skipMarkers rules (i + 1) with
  | error e => rw [hmarkers] at h; cases h
  | ok j =>
    rw [hmarkers] at h
    have h := Except.ok.inj h
    simp only [introducedFrom?, Option.bind_eq_bind, Option.bind_eq_some_iff] at h
    obtain ⟨⟨type, k⟩, hreceiver, ⟨chain, name⟩, hname, close, hclose, tail, htail, h⟩ := h
    cases h
    exact .introduced hword hmarkers hreceiver hname ⟨close, hclose, htail⟩

theorem introducedBody?_takes {k brace : Nat} (h : code.introducedBody? rules k = some brace) :
    code.Takes rules (if code.isKind k .identifier then k + 1 else k) (.body brace) := by
  simp only [introducedBody?, Option.bind_eq_bind, Option.bind_eq_some_iff] at h
  obtain ⟨close, hclose, tail, htail, h⟩ := h
  split at h
  · cases h
    exact ⟨close, hclose, htail⟩
  · cases h

theorem arrowAt?_shape {arrow : Nat} (hbinds : code.Binds rules i j)
    (h : code.arrowAt? rules j = some arrow) :
    code.Shape rules scopes i
      { form := .arrow, anchor := i, name := i + 1, binding := some arrow,
        tail := .body (arrow + 1) } := by
  simp only [arrowAt?, Option.bind_eq_bind, Option.bind_eq_some_iff, Option.guard_eq_some',
    Bool.and_eq_true, beq_iff_eq] at h
  obtain ⟨text, htext, k, hparams, -, ⟨harrow, hbrace⟩, h⟩ := h
  cases h
  exact .arrow hbinds htext hparams harrow hbrace

theorem arrowForm_shape (hword : code.isWordIn i rules.arrowBinders = true)
    (h : code.arrowForm rules i = .ok (some s)) : code.Shape rules scopes i s := by
  unfold arrowForm at h
  dsimp only at h
  split at h
  · cases h
  · rename_i hnamed
    simp only [Bool.or_eq_true, Bool.not_eq_true', not_or, bne_iff_ne, ne_eq, not_not,
      Bool.not_eq_false] at hnamed
    have hbinds : code.Binds rules i _ := ⟨hword, hnamed.1, hnamed.2, rfl⟩
    split at h
    · rename_i hintro
      cases hmarkers : code.skipMarkers rules
          (code.skipModifiers rules (code.skipReturnType rules (i + 2) + 1) + 1) with
      | error e => rw [hmarkers] at h; cases h
      | ok k =>
        rw [hmarkers] at h
        obtain ⟨brace, hbody, rfl⟩ := Option.map_eq_some_iff.mp (Except.ok.inj h)
        exact .bound hbinds hintro hmarkers (introducedBody?_takes hbody)
    · obtain ⟨arrow, harrow, rfl⟩ := Option.map_eq_some_iff.mp (Except.ok.inj h)
      exact arrowAt?_shape hbinds harrow

theorem typedForm?_shape (htyped : rules.typed = true) (hname : code.isKind i .identifier = true)
    (h : code.typedForm? rules i = some s) : code.Shape rules scopes i s := by
  simp only [typedForm?, Option.bind_eq_bind, Option.bind_eq_some_iff, Option.guard_eq_some',
    Bool.not_eq_true'] at h
  obtain ⟨-, hfree, -, hbefore, close, hclose, tail, htail, h⟩ := h
  cases h
  exact .typed htyped hname hfree hbefore ⟨close, hclose, htail⟩

/-- A signature that is found has one of the shapes. -/
theorem signatureAt_shape (h : code.signatureAt rules scopes i = .ok (some s)) :
    code.Shape rules scopes i s := by
  replace h := shapeAt_of_signatureAt h
  unfold shapeAt at h
  split at h
  · rename_i hs
    cases h
    exact compactForm?_shape hs
  · split at h
    · exact introducedForm_shape ‹_› h
    · split at h
      · exact arrowForm_shape ‹_› h
      · split at h
        · rename_i hname
          simp only [Bool.and_eq_true] at hname
          exact typedForm?_shape hname.1 hname.2 (Except.ok.inj h)
        · cases h

/-! ## Parts of the shapes -/

theorem isWord_of_isKind (h : code.isKind i .identifier = true) : code.isWord i = true := by
  have hk : code.kind? i = some .identifier := by simpa [isKind] using h
  obtain ⟨t, ht, hkind⟩ := Option.map_eq_some_iff.mp hk
  simp [isWord, ht, Token.isWord, hkind]

theorem isWord_of_isWordIn {words : List String} (h : code.isWordIn i words = true) :
    code.isWord i = true := by
  simp only [isWordIn, Bool.and_eq_true] at h
  exact h.1

theorem Shape.anchor_eq (h : code.Shape rules scopes i s) : s.anchor = i := by cases h <;> rfl

/-- A signature starts with a word. -/
theorem Shape.isWord (h : code.Shape rules scopes i s) : code.isWord i = true := by
  cases h with
  | compact hname => exact isWord_of_isKind hname
  | introduced hword => exact isWord_of_isWordIn hword
  | arrow hbinds => exact isWord_of_isWordIn hbinds.keyword
  | bound hbinds => exact isWord_of_isWordIn hbinds.keyword
  | typed _ hname => exact isWord_of_isKind hname

theorem params?_eq_some {close : Nat} :
    code.params? j = some close ↔ code.isPunct j "(" = true ∧ code.partner? j = some close := by
  simp [params?]

/-- A receiver is a group in parentheses, or there is none. -/
theorem receiverAt?_cases {type : Option String} {k : Nat}
    (h : code.receiverAt? rules j = some (type, k)) :
    (rules.receiverGroup = true ∧ code.isPunct j "(" = true ∧
      ∃ close, code.partner? j = some close ∧ k = close + 1) ∨ (type = none ∧ k = j) := by
  unfold receiverAt? at h
  split at h
  · rename_i hgroup
    rw [Bool.and_eq_true] at hgroup
    obtain ⟨close, hclose, heq⟩ := Option.map_eq_some_iff.mp h
    exact .inl ⟨hgroup.1, hgroup.2, close, hclose, (Prod.mk.inj heq).2.symm⟩
  · cases h
    exact .inr ⟨rfl, rfl⟩

/-- A name is an identifier, behind a chain of receivers where the language has them. -/
theorem nameAt?_cases {chain : List String} {name : Nat}
    (h : code.nameAt? rules j = some (chain, name)) :
    code.isKind j .identifier = true ∧
      (rules.extensionReceivers = true ∧ code.receiverChain rules j = (chain, name) ∨
        chain = [] ∧ name = j) := by
  unfold nameAt? at h
  split at h
  · cases h
  · rename_i hname
    refine ⟨by simpa using hname, ?_⟩
    split at h
    · exact .inl ⟨‹_›, Option.some.inj h⟩
    · cases h
      exact .inr ⟨rfl, rfl⟩

/-- The parameters of an arrow function are a group with a return type, or one name. -/
theorem afterArrowParams?_cases {k : Nat} (h : code.afterArrowParams? rules j = some k) :
    (code.isPunct j "(" = true ∧ ∃ close, code.partner? j = some close ∧
      k = code.skipReturnType rules (close + 1)) ∨
    (code.isKind j .identifier = true ∧ k = j + 1) := by
  unfold afterArrowParams? at h
  split at h
  · obtain ⟨close, hclose, rfl⟩ := Option.map_eq_some_iff.mp h
    exact .inl ⟨‹_›, close, hclose, rfl⟩
  · split at h
    · cases h
      exact .inr ⟨‹_›, rfl⟩
    · cases h

/-- A name before a brace is a signature only inside a container with compact constructors. -/
theorem compactForm?_eq_none
    (h : ∀ scope ∈ scopes, ∀ keyword ∈ rules.compactConstructors,
      scope.kind ≠ .container keyword) : code.compactForm? rules scopes i = none := by
  unfold compactForm?
  cases scopes with
  | nil => simp
  | cons s rest =>
    cases hkind : s.kind with
    | function id => simp [hkind]
    | container keyword =>
      have hout : keyword ∉ rules.compactConstructors := fun hmem =>
        h s (List.mem_cons_self ..) keyword hmem hkind
      simp [hkind, hout]

/-! ## Types -/

/-- The scope of a type comes from a keyword, a name and the brace of the body. -/
theorem containerAt?_eq_some {scope : Scope} (h : code.containerAt? rules i = some scope) :
    code.isWordIn i rules.containerKeywords = true ∧ code.isKind (i + 1) .identifier = true ∧
      ∃ brace, code.containerBrace? rules (i + 2) = some brace ∧
        scope = { close := code.partner? brace, name := code.text (i + 1),
                  kind := .container (code.text i) } := by
  unfold containerAt? at h
  split at h
  · rename_i hname
    rw [Bool.and_eq_true] at hname
    obtain ⟨brace, hbrace, rfl⟩ := Option.map_eq_some_iff.mp h
    exact ⟨hname.1, hname.2, brace, hbrace, rfl⟩
  · cases h

end Code

end Cyclomatic
