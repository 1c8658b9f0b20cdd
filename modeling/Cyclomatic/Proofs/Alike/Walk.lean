import Cyclomatic.Proofs.Alike.Signature
import Cyclomatic.Proofs.Forest
import Cyclomatic.Proofs.Walk

/-!
# Detection in alike codes

Detection finds the same functions and declarations in alike codes (`detect_alike`), apart from
their places and texts in the source.
-/

namespace Cyclomatic

namespace Code

namespace Alike

variable {l : Language} {code code' : Code} {i j : Nat}

/-! ## The start of a signature -/

/-- The walk back from an angle stops at the brace before a piece of a literal. -/
theorem angleOpen?_enclosed (he : code.Enclosed l i) (ht : code.text i ≠ "<") (depth : Nat) :
    code.angleOpen? depth i = none := by
  obtain ⟨p, rfl, -, hbrace⟩ := he.before
  have hstop : ∀ depth, code.angleOpen? depth p = none := by
    intro depth
    cases p <;> simp [Code.angleOpen?, hbrace]
  simp [Code.angleOpen?, ht, hstop]

/-- Where a piece of a literal stands between pieces of code, the angle `<` is an exposed word. -/
theorem lt_mem_exposed (he : code.Enclosed l i) : "<" ∈ l.exposed := by
  simp [Language.exposed, he.interpolates]

theorem unquoted_brackets :
    unquoted "<" = true ∧ unquoted ">" = true ∧ unquoted "(" = true ∧ unquoted ")" = true ∧
      unquoted "[" = true ∧ unquoted "\x7b" = true ∧ unquoted "\x7d" = true ∧
      unquoted ";" = true ∧ unquoted "=" = true ∧ unquoted "," = true := by
  decide

/-- The walk back to an open angle comes to the same token. -/
theorem angleOpen? (h : Alike l code code') (depth j : Nat) :
    code'.angleOpen? depth j = code.angleOpen? depth j := by
  have hw := unquoted_brackets
  induction j generalizing depth with
  | zero =>
    simp only [Code.angleOpen?]
    rw [h.text_beq (by decide) lt_mem_exposed]
  | succ p ih =>
    rcases h.text_cases (p + 1) with heq | hquoted | ⟨he, hne, hne'⟩
    · simp only [Code.angleOpen?, heq, h.afterBreak, ih]
    · simp only [Code.angleOpen?, h.afterBreak, ih]
      grind
    · rw [angleOpen?_enclosed he fun ht => hne (ht ▸ lt_mem_exposed he),
        angleOpen?_enclosed (h.enclosed.mpr he) fun ht => hne' (ht ▸ lt_mem_exposed he)]

/-- The same tokens belong to the start of a signature. -/
theorem leadsSignature (h : Alike l code code') (rules : SignatureRules) (p : Nat) :
    code'.leadsSignature rules p = code.leadsSignature rules p := by
  simp only [Code.leadsSignature, h.isWord, h.isKind]
  by_cases hk : code.kind? p = some .stringLiteral
  · simp only [isWord_eq, Code.isKind, hk]
    rfl
  · rw [h.text_of_kind hk]

/-- The angles that end before a token. -/
theorem angles_before (h : Alike l code code') (p : Nat) :
    (if code'.text p == ">" then code'.angleOpen? 0 p else none) =
      if code.text p == ">" then code.angleOpen? 0 p else none := by
  have hw := unquoted_brackets
  rw [h.angleOpen?]
  rcases h.text_cases p with heq | hquoted | ⟨he, hne, -⟩
  · rw [heq]
  · grind
  · rw [angleOpen?_enclosed he fun ht => hne (ht ▸ lt_mem_exposed he), ite_self, ite_self]

/-- Signatures start at the same tokens. -/
theorem signatureStart (h : Alike l code code') (rules : SignatureRules) (s : Nat) :
    code'.signatureStart rules s = code.signatureStart rules s := by
  fun_induction code.signatureStart rules s with
  | case1 => rw [Code.signatureStart]
  | _ =>
    rw [Code.signatureStart]
    simp only [h.afterBreak, h.leadsSignature]
    grind [h.angles_before]

/-! ## Containers -/

theorem containerBrace? (h : Alike l code code') (rules : SignatureRules) (j : Nat) :
    code'.containerBrace? rules j = code.containerBrace? rules j := by
  fun_induction code.containerBrace? rules j with
  | _ =>
    rw [Code.containerBrace?]
    simp only [h.size, h.isPunct, h.closesBracket, h.isOp, h.isWordIn]
    grind [h.closer]

/-- A type starts at the same tokens. -/
theorem containerAt? (h : Alike l code code') (rules : SignatureRules) (i : Nat) :
    code'.containerAt? rules i = code.containerAt? rules i := by
  simp only [Code.containerAt?, h.isWordIn, h.isKind, h.containerBrace?, h.partner]
  split
  · rename_i hhead
    rw [Bool.and_eq_true] at hhead
    rw [h.text_of_isWord (isWord_of_isWordIn hhead.1), h.text_of_isKind hhead.2 (by decide)]
  · rfl

end Alike

end Code

/-! ## Forests without places -/

/-- A function without its place and text in the source. -/
def Entity.core (e : Entity) : Entity := { e with signature := "", span := default }

section Core

variable (e : Entity)

@[simp] theorem Entity.core_name : e.core.name = e.name := rfl

@[simp] theorem Entity.core_qualifiedName : e.core.qualifiedName = e.qualifiedName := rfl

@[simp] theorem Entity.core_parent : e.core.parent = e.parent := rfl

@[simp] theorem Entity.core_children : e.core.children = e.children := rfl

@[simp] theorem Entity.core_start : e.core.start = e.start := rfl

@[simp] theorem Entity.core_opening : e.core.opening = e.opening := rfl

@[simp] theorem Entity.core_close : e.core.close = e.close := rfl

end Core

/-- A declaration without its place in the source. -/
def Declaration.core (d : Declaration) : Declaration := { d with line := 0, offset := 0 }

/-- A forest without places in the source. -/
def Forest.core (forest : Forest) : Forest :=
  { entities := forest.entities.map Entity.core
    roots := forest.roots
    declarations := forest.declarations.map Declaration.core }

/-- Forgetting the places after adding a function is adding it without its places. -/
theorem Forest.core_add (forest : Forest) (e : Entity) :
    (forest.add e).core = forest.core.add e.core := by
  cases hp : e.parent with
  | none => simp [Forest.add, Forest.core, hp]
  | some p =>
    simp only [Forest.add, Forest.core, Entity.core_parent, hp, Array.size_map, Forest.mk.injEq,
      and_true]
    apply Array.ext
    · simp
    · intro i h1 h2
      simp only [Array.getElem_map, Array.getElem_modify, ← Array.map_push]
      split <;> rfl

/-- The declaration of the name at a token. -/
def Code.declarationAt (code : Code) (i : Nat) : Declaration :=
  ⟨code.text i, code.lineOf i, code.offset i⟩

/-- The forests hold the same functions and the declarations of the same names. -/
structure Forest.Alike (code code' : Code) (forest forest' : Forest) : Prop where
  /-- Apart from places, the forests are the same. -/
  core : forest'.core = forest.core
  /-- The names declared stand at the same tokens. -/
  declared : ∃ names : List Nat, forest.declarations = names.map code.declarationAt ∧
    forest'.declarations = names.map code'.declarationAt

/-! ## The walk -/

namespace Walk

variable {l : Language} {code code' : Code} {w w' : Walk} {i : Nat}

/-- The walks have the same scopes open and found the same functions and declarations. -/
structure Alike (code code' : Code) (w w' : Walk) : Prop where
  scopes : w'.scopes = w.scopes
  forest : w.forest.Alike code code' w'.forest

namespace Alike

theorem size (hw : Alike code code' w w') :
    w'.forest.entities.size = w.forest.entities.size := by
  have hcore := congrArg (·.entities.size) hw.forest.core
  simpa [Forest.core] using hcore

/-- The walks arrive at a token with alike scopes. -/
theorem arrive (h : Code.Alike l code code') (rules : SignatureRules)
    (hw : Alike code code' w w') (i : Nat) :
    Alike code code' (w.arrive code rules i) (w'.arrive code' rules i) := by
  simp only [Walk.arrive, Walk.enterContainer, h.containerAt?, Walk.leave, hw.scopes]
  cases code.containerAt? rules i with
  | none => exact ⟨rfl, hw.forest⟩
  | some scope => exact ⟨rfl, hw.forest⟩

/-- The walks make the same function of a signature, apart from its places. -/
theorem entity (h : Code.Alike l code code') (rules : SignatureRules)
    (hw : Alike code code' w w') {s : Signature} (hname : code.isKind s.name .identifier = true)
    (brace : Nat) :
    (w'.entity code' rules s brace).core = (w.entity code rules s brace).core := by
  simp only [Walk.entity, Entity.core, Walk.innermost?, Walk.qualify, hw.scopes, h.partner,
    h.signatureStart, h.text_of_isKind hname (by decide)]

/-- The walks enter alike functions. -/
theorem enterFunction (h : Code.Alike l code code') (rules : SignatureRules)
    (hw : Alike code code' w w') {s : Signature} (hname : code.isKind s.name .identifier = true)
    (brace : Nat) :
    Alike code code' (w.enterFunction code rules s brace)
      (w'.enterFunction code' rules s brace) := by
  have hcore := hw.entity h rules hname brace
  have hclose : (w'.entity code' rules s brace).close = (w.entity code rules s brace).close := by
    simpa only [Entity.core_close] using congrArg (·.close) hcore
  have hentity : (w'.entity code' rules s brace).name = (w.entity code rules s brace).name := by
    simpa only [Entity.core_name] using congrArg (·.name) hcore
  constructor
  · simp only [Walk.enterFunction, hclose, hentity, hw.scopes, hw.size]
  · constructor
    · simp only [Walk.enterFunction, Forest.core_add, hw.forest.core, hcore]
    · simp only [Walk.enterFunction, Forest.declarations_add]
      exact hw.forest.declared

/-- The walks note the same declarations. -/
theorem declare (h : Code.Alike l code code') (hw : Alike code code' w w') {s : Signature}
    (hname : code.isKind s.name .identifier = true) :
    Alike code code' (w.declare code s) (w'.declare code' s) := by
  have hforest := hw.forest.core
  obtain ⟨names, hdeclared, hdeclared'⟩ := hw.forest.declared
  simp only [Forest.core, Forest.mk.injEq] at hforest
  refine ⟨hw.scopes, ?_, names ++ [s.name], ?_⟩
  · simp only [Walk.declare, Forest.core, hforest, List.map_append, List.map_cons, List.map_nil,
      Declaration.core, h.text_of_isKind hname (by decide)]
  · simp only [Walk.declare, hdeclared, hdeclared', List.map_append, List.map_cons, List.map_nil,
      Code.declarationAt, and_self]

theorem declares (hw : Alike code code' w w') (form : Form) :
    w'.declares form = w.declares form := by
  simp only [Walk.declares, hw.scopes]

/-- Steps of alike walks lead to alike walks and to the same token. -/
theorem step (h : Code.Alike l code code') (hf : code.AnglesFit l.signatures)
    (hf' : code'.AnglesFit l.signatures) (hw : Alike code code' w w') {v : Walk} {next : Nat}
    (hstep : w.step code l.signatures i = .ok (v, next)) :
    ∃ v', w'.step code' l.signatures i = .ok (v', next) ∧ Alike code code' v v' := by
  have harrive := hw.arrive h l.signatures i
  cases hs : code.signatureAt l.signatures (w.arrive code l.signatures i).scopes i with
  | error e =>
    simp only [Walk.arrive] at hs
    simp only [Walk.step, hs, Except.map] at hstep
    cases hstep
  | ok found =>
    have hsig : code'.signatureAt l.signatures (w'.arrive code' l.signatures i).scopes i =
        .ok found := by
      rw [harrive.scopes, h.signatureAt hf hf', hs]
    cases found with
    | none =>
      rw [step_none hs] at hstep
      cases hstep
      exact ⟨_, step_none hsig, harrive⟩
    | some s =>
      have hname := Code.isKind_name hs
      cases htail : s.tail with
      | body brace =>
        rw [step_body hs htail] at hstep
        cases hstep
        exact ⟨_, step_body hsig htail, harrive.enterFunction h l.signatures hname brace⟩
      | terminated resume =>
        rw [step_terminated hs htail] at hstep
        rw [step_terminated hsig htail, harrive.declares]
        cases hd : (w.arrive code l.signatures i).declares s.form with
        | true =>
          rw [hd] at hstep
          cases hstep
          exact ⟨_, rfl, harrive.declare h hname⟩
        | false =>
          rw [hd] at hstep
          cases hstep
          exact ⟨_, rfl, harrive⟩

/-- Alike walks end alike. -/
theorem go (h : Code.Alike l code code') (hf : code.AnglesFit l.signatures)
    (hf' : code'.AnglesFit l.signatures) (hw : Alike code code' w w') {forest : Forest}
    (hgo : Walk.go code l.signatures i w = .ok forest) :
    ∃ forest', Walk.go code' l.signatures i w' = .ok forest' ∧
      forest.Alike code code' forest' := by
  fun_induction Walk.go code l.signatures i w generalizing w' with
  | case1 i w hi v next hstep ih =>
    obtain ⟨v', hstep', hv⟩ := hw.step h hf hf' hstep
    rw [Walk.go, dif_pos (by rwa [h.size]), hstep']
    exact ih hv hgo
  | case2 => cases hgo
  | case3 i w hi =>
    cases hgo
    rw [Walk.go, dif_neg (by rwa [h.size])]
    exact ⟨_, rfl, hw.forest⟩

end Alike

end Walk

/-- Detection finds the same functions in alike codes. -/
theorem detect_alike {l : Language} {code code' : Code} (h : Code.Alike l code code')
    (hf : code.AnglesFit l.signatures) (hf' : code'.AnglesFit l.signatures) {forest : Forest}
    (hforest : detect l code = .ok forest) :
    ∃ forest', detect l code' = .ok forest' ∧ forest.Alike code code' forest' :=
  Walk.Alike.go h hf hf' ⟨rfl, rfl, [], rfl, rfl⟩ hforest

end Cyclomatic
