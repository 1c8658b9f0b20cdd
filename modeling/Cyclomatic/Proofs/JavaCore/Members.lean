import Cyclomatic.Proofs.JavaCore.Body
import Cyclomatic.Proofs.Walk
import Mathlib.Data.List.Forall2

/-!
# Members of a class

The walk over a class of the core grammar, member by member.  Modifiers and types are passed over.
At the name of a method the signature is recognised, whatever the line breaks: what stands before
the name is a type, and a type may stand there.  A method with a body becomes a function without
children, and its body is passed over.  A method without body becomes a declaration.
-/

namespace Cyclomatic

open JavaCore

namespace Code

variable {code : Code} {i k : Nat}

/-! ## Signatures of members -/

/-- A token after which a name may be that of a method. -/
def LeadsName (f : Face) : Prop :=
  ((f.1 = .identifier ∨ f.1 = .keyword) ∧ f.2 ∉ javaRules.excludedPredecessors) ∨
    (f.1 ≠ .identifier ∧ f.1 ≠ .keyword ∧ f.2 ∈ javaRules.allowedPredecessors)

theorem leadsName_dims {array : Bool} (h : code.Spells (i + 1) (dims array)) {f : Face}
    (hf : code.face? i = some f) (hleads : LeadsName f) :
    ∃ p g, i + 1 + (dims array).length = p + 1 ∧ code.face? p = some g ∧ LeadsName g := by
  cases array with
  | false => exact ⟨i, f, rfl, hf, hleads⟩
  | true =>
    have hclose := (spells_cons.mp (spells_cons.mp h).2).1
    exact ⟨i + 1 + 1, punct "]", rfl, hclose, Or.inr ⟨by simp, by simp, by decide⟩⟩

/-- The last token of a type. -/
theorem last_type (t : Ty) (h : code.Spells i t.render) :
    ∃ p f, i + t.render.length = p + 1 ∧ code.face? p = some f ∧ LeadsName f := by
  cases t with
  | primitive p array =>
    obtain ⟨hp, hdims⟩ := spells_cons.mp h
    have hall : ∀ s ∈ primitives, s ∉ javaRules.excludedPredecessors := by decide
    obtain ⟨q, f, hlen, hf⟩ := leadsName_dims hdims hp (Or.inl ⟨Or.inr rfl, hall _ p.valid⟩)
    refine ⟨q, f, ?_, hf⟩
    rw [← hlen, Ty.render, List.length_cons]
    omega
  | name n array =>
    obtain ⟨hn, hdims⟩ := spells_cons.mp h
    have hleads : LeadsName n.face := Or.inl ⟨Or.inl rfl, n.not_mem (by decide)⟩
    obtain ⟨q, f, hlen, hf⟩ := leadsName_dims hdims hn hleads
    refine ⟨q, f, ?_, hf⟩
    rw [← hlen, Ty.render, List.length_cons]
    omega
  | generic n args array =>
    obtain ⟨-, h⟩ := spells_cons.mp h
    obtain ⟨-, h⟩ := spells_cons.mp h
    obtain ⟨-, h⟩ := spells_append.mp h
    obtain ⟨hclose, hdims⟩ := spells_cons.mp h
    have hleads : LeadsName (op ">") := Or.inr ⟨by simp, by simp, by decide⟩
    obtain ⟨q, f, hlen, hf⟩ := leadsName_dims hdims hclose hleads
    refine ⟨q, f, ?_, hf⟩
    rw [← hlen, Ty.render, List.length_cons, List.length_cons, List.length_append, List.length_cons]
    omega

/-- A name with parameters behind a type is a signature. -/
theorem typedForm?_method (hp : code.Paired) {x : Ident} {f : Face} {params : List Face}
    {tail : Tail} (hf : code.face? k = some f) (hleads : LeadsName f)
    (h : code.Spells (k + 1) (x.face :: parens params)) (hparams : Balanced params)
    (htail : code.tailAt? javaRules (k + 1 + 1 + (parens params).length) = some tail) :
    code.typedForm? javaRules (k + 1) =
      some { form := .typed, anchor := k + 1, name := k + 1, tail := tail } := by
  obtain ⟨hx, hspell⟩ := spells_cons.mp h
  have hopen := (spells_cons.mp hspell).1
  have hreserved : javaRules.reserved.contains x.text = false := by
    rw [Bool.eq_false_iff]
    exact fun hmem => x.not_mem (by decide) (List.contains_iff_mem.mp hmem)
  have hbefore : (if code.isWord k then !javaRules.excludedPredecessors.contains (code.text k)
      else javaRules.allowedPredecessors.contains (code.text k)) = true := by
    rw [isWord_of_face hf, text_of_face hf]
    rcases hleads with ⟨hk, hne⟩ | ⟨h1, h2, hmem⟩
    · rw [if_pos (by rcases hk with hk | hk <;> simp [hk])]
      simpa using hne
    · rw [if_neg (by simp [h1, h2])]
      simpa using hmem
  have hskip : code.skipTypeParams javaRules (k + 1 + 1) = k + 1 + 1 := by
    have hnone := code.skipAngles?_of_text (i := k + 1 + 1) (by simp [text_of_face hopen])
    rw [skipTypeParams_java, hnone, Option.getD_none]
  have hclose : code.params? (k + 1 + 1) = some (k + 1 + 1 + 1 + params.length) := by
    unfold params?
    rw [if_pos (by simp [isPunct_of_face hopen]), hspell.partner? hp .round hparams]
  have hlen : k + 1 + 1 + 1 + params.length + 1 = k + 1 + 1 + (parens params).length := by
    rw [length_parens]
    omega
  have hx' : code.text (k + 1) = x.text := text_of_face hx
  unfold typedForm?
  rw [hskip, hclose, hx', hreserved]
  simp only [Nat.add_sub_cancel, Bool.not_false, guard_true, Option.pure_def, Option.bind_eq_bind,
    Option.bind_some, hlen, htail]
  rw [hbefore, Bool.or_true]
  rfl

theorem lt_size_of_face {f : Face} (h : code.face? k = some f) : k < code.size := by
  obtain ⟨t, ht, -⟩ := face?_cases h
  exact (Array.getElem?_eq_some_iff.mp ht).1

/-- A name alone is a type. -/
theorem skipType_name {x : Ident} {g : Face} (hx : code.face? k = some x.face)
    (hg : code.face? (k + 1) = some g) (hne : g.2 ∉ [".", "|", "&", "<", "?", "!", "["]) :
    code.skipType true k = k + 1 := by
  simp only [List.mem_cons, List.not_mem_nil, or_false, not_or] at hne
  have hatom : code.skipType true k = code.skipType false (k + 1) := by
    rw [skipType, dif_pos (lt_size_of_face hx), if_pos rfl,
      if_pos (by simp [isWord_of_face hx, Ident.face])]
  rw [hatom, skipType, dif_pos (lt_size_of_face hg), if_neg Bool.false_ne_true]
  simp [text_of_face hg, isPunct_of_face hg, hne]

/-- The names of a clause end at the brace. -/
theorem skipClause_names {names : List Ident} (hne : names ≠ []) {i : Nat}
    (h : code.Spells i (commas (names.map fun n => [n.face])))
    (hend : code.face? (i + (commas (names.map fun n => [n.face])).length) =
      some (punct "\x7b")) :
    code.skipClause i = i + (commas (names.map fun n => [n.face])).length := by
  induction names generalizing i with
  | nil => exact absurd rfl hne
  | cons n names ih =>
    cases names with
    | nil =>
      have hn := (spells_cons.mp h).1
      have hend : code.face? (i + 1) = some (punct "\x7b") := hend
      rw [skipClause]
      dsimp only
      rw [skipType_name hn hend (by decide), dif_neg (by simp [text_of_face hend])]
      rfl
    | cons m rest =>
      obtain ⟨hn, h⟩ := spells_cons.mp h
      obtain ⟨hcomma, h⟩ := spells_cons.mp h
      have hlen : i + (commas ((n :: m :: rest).map fun n => [n.face])).length =
          i + 1 + 1 + (commas ((m :: rest).map fun n => [n.face])).length := by
        simp only [List.map_cons, commas, List.length_append, List.length_cons, List.length_nil]
        omega
      rw [hlen] at hend ⊢
      rw [skipClause]
      dsimp only
      rw [skipType_name hn hcomma (by decide), dif_pos (by simp [text_of_face hcomma])]
      exact ih (by simp) h hend

/-- A list of exceptions is skipped up to the body. -/
theorem skipClauses_throws (names : List Ident) (h : code.Spells i (renderThrows names))
    (hend : code.face? (i + (renderThrows names).length) = some (punct "\x7b")) :
    code.skipClauses javaRules i = i + (renderThrows names).length := by
  cases names with
  | nil => exact skipClauses_java hend (by decide)
  | cons n names =>
    obtain ⟨hword, hnames⟩ := spells_cons.mp h
    have hlen : i + (renderThrows (n :: names)).length =
        i + 1 + (commas ((n :: names).map fun n => [n.face])).length := by
      simp only [renderThrows, List.length_cons]
      omega
    rw [hlen] at hend ⊢
    have hclause : code.isWordIn i javaRules.clauseKeywords = true := by
      rw [isWordIn, isWord_of_face hword, text_of_face hword]
      rfl
    rw [skipClauses, dif_pos hclause]
    change code.skipClauses javaRules (code.skipClause (i + 1)) = _
    rw [skipClause_names (by simp) hnames hend]
    exact skipClauses_java hend (by decide)

end Code

/-! ## Steps of the walk -/

namespace Walk

variable {code : Code} {i j k z : Nat} {w : Walk} {S : Scope}

/-- The scope of a class up to its closing brace. -/
def classScope (name : String) (z : Nat) : Scope :=
  { close := some z, name := name, kind := .container "class" }

/-- Only the scope of the class is open at a token. -/
def Level (name : String) (z i : Nat) (w : Walk) : Prop :=
  (w.leave i).scopes = [classScope name z]

/-- Before its end, a scope is not left. -/
theorem leave_eq {s : Scope} {rest : List Scope} (h : w.scopes = s :: rest) {c : Nat}
    (hc : s.close = some c) (hi : i ≤ c) : w.leave i = w := by
  have hdrop : w.scopes.dropWhile (fun s => s.close.any (· < i)) = w.scopes := by
    rw [h, List.dropWhile_cons_of_neg]
    simp [hc]
    omega
  exact congrArg (Walk.mk w.forest) hdrop

theorem level_of_scopes {name : String} (h : w.scopes = [classScope name z]) (hi : i ≤ z) :
    Level name z i w := by
  unfold Level
  rw [leave_eq h rfl hi]
  exact h

theorem noRecord_class (name : String) (z : Nat) : Code.NoRecord [classScope name z] := by
  intro s hs
  obtain rfl := List.mem_singleton.mp hs
  simp [classScope]

/-- Where no type starts, the walk only leaves scopes. -/
theorem arrive_eq_leave (h : code.containerAt? javaRules i = none) :
    w.arrive code javaRules i = w.leave i := by
  simp only [arrive, enterContainer, h]

/-- A token where nothing starts is passed over. -/
theorem next_silent (hfit : code.AnglesFit javaRules) (h : code.Silent i) (hi : i < code.size)
    (hscopes : Code.NoRecord (w.leave i).scopes) :
    Next code javaRules (i, w) (i + 1, w.leave i) := by
  have harrive := arrive_eq_leave (w := w) h.container
  refine ⟨hi, i + 1, ?_, (Nat.max_self _).symm⟩
  rw [step_none (by rw [harrive, hfit.signatureAt]; exact h.nothing hscopes), harrive]

/-- Inside a function, a token where no body starts is passed over. -/
theorem next_still (hfit : code.AnglesFit javaRules) (h : code.Still i) (hi : i < code.size)
    {s : Scope} {rest : List Scope} {id : Nat} (hscopes : (w.leave i).scopes = s :: rest)
    (hs : s.kind = .function id) (hrecord : Code.NoRecord (s :: rest)) :
    Next code javaRules (i, w) (i + 1, w.leave i) := by
  have harrive := arrive_eq_leave (w := w) h.container
  refine ⟨hi, i + 1, ?_, (Nat.max_self _).symm⟩
  have hsig : code.signatureAt javaRules (s :: rest) i = _ :=
    (hfit.signatureAt ..).trans (Code.shapeAt_java hrecord)
  rw [← hscopes, ← harrive] at hsig
  rw [← harrive]
  generalize (if code.isKind i .identifier then code.typedForm? javaRules i else none) = found
    at hsig
  cases found with
  | none => exact step_none hsig
  | some sig =>
    cases htail : sig.tail with
    | body brace =>
      rw [harrive, hscopes] at hsig
      exact absurd htail (h.noBody hrecord hsig)
    | terminated resume =>
      rw [step_terminated hsig htail, if_neg]
      simp [declares, harrive, hscopes, hs]

/-- The walk passes over tokens where nothing starts. -/
theorem run_silent {name : String} (hfit : code.AnglesFit javaRules)
    (hlull : ∀ {k}, i ≤ k → k < j → code.Silent k) (hij : i ≤ j) (hj : j ≤ z)
    (hz : z < code.size) (hlevel : Level name z i w) :
    ∃ w', Run code javaRules (i, w) (j, w') ∧ w'.forest = w.forest ∧ Level name z j w' := by
  obtain ⟨n, rfl⟩ := Nat.exists_eq_add_of_le hij
  induction n generalizing i w with
  | zero => exact ⟨w, .refl, rfl, hlevel⟩
  | succ n ih =>
    have hstep : Next code javaRules (i, w) (i + 1, w.leave i) := by
      refine next_silent hfit (hlull (Nat.le_refl i) (by omega)) (by omega) ?_
      rw [hlevel]
      exact noRecord_class name z
    have hlevel' : Level name z (i + 1) (w.leave i) := level_of_scopes hlevel (by omega)
    rw [show i + (n + 1) = i + 1 + n by omega] at hlull hj ⊢
    obtain ⟨w', hrun, hforest, hend⟩ :=
      ih hlevel' (fun h1 h2 => hlull (by omega) h2) (by omega) hj
    exact ⟨w', .head hstep hrun, hforest, hend⟩

/-- The body of a function in which no other starts is passed over. -/
theorem run_still {s : Scope} {rest : List Scope} {id c : Nat} (hfit : code.AnglesFit javaRules)
    (hscopes : w.scopes = s :: rest)
    (hs : s.kind = .function id) (hc : s.close = some c) (hrecord : Code.NoRecord (s :: rest))
    (hstill : ∀ {k}, i ≤ k → k ≤ c → code.Still k) (hi : i ≤ c + 1) (hsize : c < code.size) :
    Run code javaRules (i, w) (c + 1, w) := by
  obtain ⟨n, hn⟩ := Nat.exists_eq_add_of_le hi
  rw [hn]
  induction n generalizing i with
  | zero => exact .refl
  | succ n ih =>
    have hleave : w.leave i = w := leave_eq hscopes hc (by omega)
    have hstep := next_still hfit (hstill (Nat.le_refl i) (by omega)) (by omega)
      (by rw [hleave]; exact hscopes) hs hrecord
    rw [hleave] at hstep
    rw [show i + (n + 1) = i + 1 + n by omega]
    exact .head hstep (ih (fun h1 h2 => hstill (by omega) h2) (by omega) (by omega))

/-! ## Members -/

/-- What is recorded of a method: its name, no functions around or inside it, and a body with the
given decisions. -/
structure Described (code : Code) (name : String) (e : Entity) (m : String × List Mark) :
    Prop where
  parent : e.parent = none
  children : e.children = []
  qualifiedName : e.qualifiedName = name ++ "." ++ m.1
  marks : ∃ c, e.close = some c ∧
    (List.range' (e.opening + 1) (c - (e.opening + 1))).filterMap code.markAt = m.2

theorem lull_modifiers : (ms : List Modifier) → {i : Nat} →
    code.Spells i (ms.map fun m => word m.text) → code.Lull i (ms.map fun m => word m.text)
  | [], _, _ => .nil
  | m :: ms, i, h => by
    obtain ⟨hm, hrest⟩ := Code.spells_cons.mp h
    have hall : ∀ s ∈ modifiers, Code.isPlain (word s) = true := by decide
    exact (lull_modifiers ms hrest).plain hm (hall _ m.valid)

/-- The walk comes to the name of a member. -/
theorem run_header {name : String} (hfit : code.AnglesFit javaRules) (ha : code.Angles)
    (h : Header) {fs : List Face} (hspell : code.Spells i (h.render ++ fs))
    (hend : i + (h.render ++ fs).length ≤ z) (hz : z < code.size) (hlevel : Level name z i w) :
    ∃ k w', i + h.render.length = k + 1 + 1 + (parens (renderParams h.params)).length ∧
      (∃ f, code.face? k = some f ∧ Code.LeadsName f) ∧
      code.Spells (k + 1) (h.name.face :: parens (renderParams h.params)) ∧
      code.Spells (i + h.render.length) fs ∧
      Run code javaRules (i, w) (k + 1, w') ∧ w'.forest = w.forest ∧ Level name z (k + 1) w' := by
  obtain ⟨hheader, hfs⟩ := Code.spells_append.mp hspell
  obtain ⟨hmods, h2⟩ := Code.spells_append.mp hheader
  obtain ⟨htyped, hparens⟩ := Code.spells_append.mp h2
  obtain ⟨htype, hname⟩ := Code.spells_append.mp htyped
  have hname := (Code.spells_cons.mp hname).1
  obtain ⟨k, f, hk, hf, hleads⟩ := Code.last_type h.type htype
  have hlull := (lull_modifiers h.modifiers hmods).append
    (Code.lull_type ha h.type htype hname (by simp [Ident.face]))
  rw [typed, List.length_append, ← Nat.add_assoc, List.length_singleton, hk] at hparens
  rw [hk] at hname
  have hlen : i + h.render.length = k + 1 + 1 + (parens (renderParams h.params)).length := by
    simp only [Header.render, typed, List.length_append, List.length_singleton, ← hk]
    omega
  rw [List.length_append] at hend
  have hsum : i + ((h.modifiers.map fun m => word m.text) ++ h.type.render).length = k + 1 := by
    rw [List.length_append, ← Nat.add_assoc, hk]
  obtain ⟨w', hrun, hforest, hlevel'⟩ := run_silent hfit
    (fun h1 h2 => hlull.silent h1 (by rw [hsum]; exact h2)) (by omega) (by omega) hz hlevel
  exact ⟨k, w', hlen, ⟨f, hf, hleads⟩, Code.spells_cons.mpr ⟨hname, hparens⟩, hfs, hrun, hforest,
    hlevel'⟩

/-- At its name, a member is recognised. -/
theorem signatureAt_member {name : String} (hp : code.Paired)
    (hfit : code.AnglesFit javaRules) {x : Ident} {f : Face}
    {params : List Face} {tail : Tail} (hlevel : Level name z (k + 1) w)
    (hf : code.face? k = some f) (hleads : Code.LeadsName f)
    (h : code.Spells (k + 1) (x.face :: parens params)) (hparams : Balanced params)
    (htail : code.tailAt? javaRules (k + 1 + 1 + (parens params).length) = some tail) :
    w.arrive code javaRules (k + 1) = w.leave (k + 1) ∧
      code.signatureAt javaRules (w.arrive code javaRules (k + 1)).scopes (k + 1) =
        .ok (some { form := .typed, anchor := k + 1, name := k + 1, tail := tail }) := by
  have hx := (Code.spells_cons.mp h).1
  have harrive : w.arrive code javaRules (k + 1) = w.leave (k + 1) :=
    arrive_eq_leave (Code.containerAt?_of_text hx (x.not_mem (by decide)))
  refine ⟨harrive, ?_⟩
  rw [harrive, hlevel, hfit.signatureAt, Code.shapeAt_java (noRecord_class name z),
    if_pos (by simp [Code.isKind_of_face hx, Ident.face]),
    Code.typedForm?_method hp hf hleads h hparams htail]

/-- A method is named by its class. -/
theorem qualify_class {name : String} (hscopes : w.scopes = [classScope name z]) (x : String) :
    w.qualify none x = name ++ "." ++ x := by
  simp only [qualify, hscopes]
  rfl

/-- The function of a method. -/
theorem described_entity {name : String} {s : Signature} {brace : Nat} {fs : List Face}
    {marks : List Mark} (hscopes : w.scopes = [classScope name z]) (hs : s.receiver = none)
    (hpartner : code.partner? brace = some (brace + 1 + fs.length))
    (hseg : code.Segment (brace + 1) fs marks) :
    Described code name (w.entity code javaRules s brace) (code.text s.name, marks) := by
  have hinner : w.innermost? = none := by
    simp only [innermost?, hscopes]
    rfl
  constructor
  · simp only [entity, hinner]
    rfl
  · rfl
  · simp only [entity, hs]
    exact qualify_class hscopes _
  · refine ⟨brace + 1 + fs.length, by simp [entity, hpartner], ?_⟩
    rw [show brace + 1 + fs.length - ((w.entity code javaRules s brace).opening + 1) = fs.length
      from Nat.add_sub_cancel_left ..]
    exact hseg.marks

theorem scopes_enterFunction (code : Code) {name : String}
    (hscopes : w.scopes = [classScope name z]) (s : Signature) (brace : Nat) :
    (w.enterFunction code javaRules s brace).scopes =
      [{ close := (w.entity code javaRules s brace).close
         name := (w.entity code javaRules s brace).name
         kind := .function w.forest.entities.size }, classScope name z] :=
  congrArg (List.cons _) hscopes

theorem noRecord_function {name f : String} {c id : Nat} :
    Code.NoRecord [{ close := some c, name := f, kind := .function id }, classScope name z] := by
  intro s hs
  simp only [List.mem_cons, List.not_mem_nil, or_false] at hs
  rcases hs with rfl | rfl <;> simp [classScope]

theorem level_after_function {name f : String} {c id : Nat}
    (h : w.scopes = [{ close := some c, name := f, kind := .function id }, classScope name z])
    (hc : c + 1 ≤ z) : Level name z (c + 1) w := by
  simp only [Level, leave, h]
  rw [List.dropWhile_cons_of_pos (by simp), List.dropWhile_cons_of_neg]
  simp [classScope]
  omega

/-- A method with a body becomes a function. -/
theorem run_method {name : String} (hp : code.Paired) (hfit : code.AnglesFit javaRules)
    (ha : code.Angles) (h : Header) (throws : List Ident) (body : Stmts)
    (hspell : code.Spells i (Member.method h throws body).render)
    (hend : i + (Member.method h throws body).render.length ≤ z) (hz : z < code.size)
    (hlevel : Level name z i w) :
    ∃ w' e, Run code javaRules (i, w) (i + (Member.method h throws body).render.length, w') ∧
      w'.forest = w.forest.add e ∧ Described code name e (h.name.text, body.marks) ∧
      Level name z (i + (Member.method h throws body).render.length) w' := by
  obtain ⟨k, w₁, hlen, ⟨f, hf, hleads⟩, hsig, hrest, hrun, hforest, hlevel₁⟩ :=
    run_header hfit ha h hspell hend hz hlevel
  obtain ⟨hthrows, hbraces⟩ := Code.spells_append.mp hrest
  obtain ⟨hopen, hinner, hclose⟩ := Code.spells_braces hbraces
  have hbalanced := body.neat_render.balanced
  have hpartner := hbraces.partner? hp .curly hbalanced
  have htail : code.tailAt? javaRules (k + 1 + 1 + (parens (renderParams h.params)).length) =
      some (.body (i + h.render.length + (renderThrows throws).length)) := by
    rw [← hlen, Code.tailAt?_java, Code.skipClauses_throws throws hthrows hopen,
      if_pos (by simp [Code.isPunct_of_face hopen])]
  obtain ⟨harrive, hsignature⟩ := signatureAt_member hp hfit hlevel₁ hf hleads hsig
    (neat_params h.params).balanced htail
  have hmember : i + (Member.method h throws body).render.length =
      i + h.render.length + (renderThrows throws).length + 1 + body.render.length + 1 := by
    simp only [Member.render, List.length_append, Code.length_braces]
    omega
  generalize hbrace : i + h.render.length + (renderThrows throws).length = brace at *
  rw [hmember] at hend ⊢
  have hname := Code.text_of_face (Code.spells_cons.mp hsig).1
  have hseg := (Code.follows_stmts hp ha body _ hinner (Code.start_after_open hopen)).1
  have hscopes : (w₁.arrive code javaRules (k + 1)).scopes = [classScope name z] := by
    rw [harrive]
    exact hlevel₁
  have hdescribed := described_entity (s := ⟨.typed, k + 1, k + 1, none, none, .body brace⟩) hscopes
    rfl hpartner hseg
  rw [hname] at hdescribed
  have hclosed : ((w₁.arrive code javaRules (k + 1)).entity code javaRules
      ⟨.typed, k + 1, k + 1, none, none, .body brace⟩ brace).close =
        some (brace + 1 + body.render.length) := by
    simp [entity, hpartner]
  -- The step at the name enters the function, and its body is passed over.
  have hstep : Next code javaRules (k + 1, w₁) (brace + 1,
      (w₁.arrive code javaRules (k + 1)).enterFunction code javaRules
        ⟨.typed, k + 1, k + 1, none, none, .body brace⟩ brace) := by
    refine ⟨by omega, brace + 1, step_body hsignature rfl, ?_⟩
    simp only
    omega
  generalize (⟨.typed, k + 1, k + 1, none, none, .body brace⟩ : Signature) = s at *
  have hscopes₃ := scopes_enterFunction code hscopes s brace
  rw [hclosed] at hscopes₃
  have hstill : ∀ {j}, brace + 1 ≤ j → j ≤ brace + 1 + body.render.length → code.Still j := by
    intro j h1 h2
    by_cases hj : j < brace + 1 + body.render.length
    · exact hseg.still h1 hj
    · obtain rfl : j = brace + 1 + body.render.length := by omega
      exact (Code.silent_of_plain hclose (Code.isPlain_of_mem (by decide))).1.still
  have hbody := run_still hfit hscopes₃ rfl rfl noRecord_function hstill (by omega) (by omega)
  refine ⟨_, _, (hrun.tail hstep).trans hbody, ?_, hdescribed, level_after_function hscopes₃ hend⟩
  change (w₁.arrive code javaRules (k + 1)).forest.add _ = _
  rw [harrive]
  exact congrArg (Forest.add · _) hforest

/-- A method without body becomes a declaration. -/
theorem run_declaration {name : String} (hp : code.Paired) (hfit : code.AnglesFit javaRules)
    (ha : code.Angles) (h : Header) (hspell : code.Spells i (Member.declaration h).render)
    (hend : i + (Member.declaration h).render.length ≤ z) (hz : z < code.size)
    (hlevel : Level name z i w) :
    ∃ w' d, Run code javaRules (i, w) (i + (Member.declaration h).render.length, w') ∧
      w'.forest = { w.forest with declarations := w.forest.declarations ++ [d] } ∧
      d.name = h.name.text ∧ Level name z (i + (Member.declaration h).render.length) w' := by
  obtain ⟨k, w₁, hlen, ⟨f, hf, hleads⟩, hsig, hrest, hrun, hforest, hlevel₁⟩ :=
    run_header hfit ha h hspell hend hz hlevel
  have hsemi := (Code.spells_cons.mp hrest).1
  have htail : code.tailAt? javaRules (k + 1 + 1 + (parens (renderParams h.params)).length) =
      some (.terminated (i + h.render.length + 1)) := by
    rw [← hlen, Code.tailAt?_java, Code.skipClauses_java hsemi (by decide), if_neg, if_pos]
    · simp [Code.lt_size_of_face hsemi, Code.text_of_face hsemi]
    · simp [Code.isPunct_of_face hsemi]
  obtain ⟨harrive, hsignature⟩ := signatureAt_member hp hfit hlevel₁ hf hleads hsig
    (neat_params h.params).balanced htail
  have hmember : i + (Member.declaration h).render.length = i + h.render.length + 1 := by
    simp only [Member.render, List.length_append, List.length_singleton]
    omega
  rw [hmember] at hend ⊢
  have hname := Code.text_of_face (Code.spells_cons.mp hsig).1
  have hdeclares : (w₁.arrive code javaRules (k + 1)).declares .typed = true := by
    rw [harrive]
    simp only [declares, show (w₁.leave (k + 1)).scopes = _ from hlevel₁, classScope]
  have hstep := step_terminated hsignature rfl
  rw [if_pos hdeclares] at hstep
  have hnext : Next code javaRules (k + 1, w₁) (i + h.render.length + 1, _) :=
    ⟨by omega, _, hstep, by simp only; omega⟩
  refine ⟨_, ⟨code.text (k + 1), code.lineOf (k + 1), code.offset (k + 1)⟩, hrun.tail hnext, ?_,
    hname, ?_⟩
  · rw [harrive]
    have hleave : (w₁.leave (k + 1)).forest = w.forest := hforest
    simp only [hleave]
  · have hscopes : ((w₁.arrive code javaRules (k + 1)).declare code
        ⟨.typed, k + 1, k + 1, none, none, .terminated (i + h.render.length + 1)⟩).scopes =
          [classScope name z] := by
      rw [harrive]
      exact hlevel₁
    exact level_of_scopes hscopes hend

/-- What the walk has found after some members of a class. -/
structure Found (code : Code) (name : String) (ms : List Member) (w : Walk) : Prop where
  /-- One function for each method with a body. -/
  methods : List.Forall₂ (Described code name) w.forest.entities.toList
    (ms.filterMap Member.method?)
  /-- None of them is inside another. -/
  roots : w.forest.roots = List.range w.forest.entities.size
  /-- One declaration for each method without body. -/
  declared : w.forest.declarations.map (·.name) = ms.filterMap Member.declared?

/-- A method that the walk enters is added to what was found. -/
theorem Found.method {name : String} {ms : List Member} {w' : Walk} {e : Entity}
    (h : Found code name ms w) {hd : Header} {throws : List Ident} {body : Stmts}
    (hforest : w'.forest = w.forest.add e)
    (he : Described code name e (hd.name.text, body.marks)) :
    Found code name (ms ++ [.method hd throws body]) w' := by
  have hadd : w'.forest = { w.forest with
      entities := w.forest.entities.push e
      roots := w.forest.roots ++ [w.forest.entities.size] } := by
    rw [hforest]
    simp only [Forest.add, he.parent]
  constructor
  · rw [hadd, List.filterMap_append, Array.toList_push]
    exact List.rel_append h.methods (.cons he .nil)
  · rw [hadd, h.roots, Array.size_push, List.range_succ]
  · rw [hadd, List.filterMap_append, ← h.declared]
    simp [Member.declared?]

theorem Found.declaration {name : String} {ms : List Member} {w' : Walk} {d : Declaration}
    (h : Found code name ms w) {hd : Header}
    (hforest : w'.forest = { w.forest with declarations := w.forest.declarations ++ [d] })
    (hname : d.name = hd.name.text) : Found code name (ms ++ [.declaration hd]) w' := by
  constructor
  · have hnone : [Member.declaration hd].filterMap Member.method? = [] := rfl
    rw [hforest, List.filterMap_append, hnone, List.append_nil]
    exact h.methods
  · rw [hforest]
    exact h.roots
  · rw [hforest, List.filterMap_append, ← h.declared]
    simp [Member.declared?, hname]

/-- The walk finds the members of a class one behind the other. -/
theorem run_members {name : String} (hp : code.Paired) (hfit : code.AnglesFit javaRules)
    (ha : code.Angles) {before : List Member} (ms : List Member)
    (hspell : code.Spells i (renderMembers ms)) (hend : i + (renderMembers ms).length ≤ z)
    (hz : z < code.size) (hlevel : Level name z i w)
    (hfound : Found code name before w) :
    ∃ w', Run code javaRules (i, w) (i + (renderMembers ms).length, w') ∧
      Found code name (before ++ ms) w' ∧ Level name z (i + (renderMembers ms).length) w' := by
  induction ms generalizing i w before with
  | nil => exact ⟨w, .refl, by simpa using hfound, hlevel⟩
  | cons m ms ih =>
    have hlen : i + (renderMembers (m :: ms)).length =
        i + m.render.length + (renderMembers ms).length := by
      simp only [renderMembers, List.flatMap_cons, List.length_append]
      omega
    rw [hlen] at hend ⊢
    obtain ⟨hm, hrest⟩ := Code.spells_append.mp hspell
    have hone : ∃ w₁, Run code javaRules (i, w) (i + m.render.length, w₁) ∧
        Found code name (before ++ [m]) w₁ ∧ Level name z (i + m.render.length) w₁ := by
      cases m with
      | method h throws body =>
        obtain ⟨w₁, e, hrun, hforest, he, hlevel₁⟩ :=
          run_method hp hfit ha h throws body hm (by omega) hz hlevel
        exact ⟨w₁, hrun, hfound.method hforest he, hlevel₁⟩
      | declaration h =>
        obtain ⟨w₁, d, hrun, hforest, hd, hlevel₁⟩ :=
          run_declaration hp hfit ha h hm (by omega) hz hlevel
        exact ⟨w₁, hrun, hfound.declaration hforest hd, hlevel₁⟩
    obtain ⟨w₁, hrun, hfound₁, hlevel₁⟩ := hone
    obtain ⟨w₂, hrun₂, hfound₂, hlevel₂⟩ := ih hrest hend hlevel₁ hfound₁
    exact ⟨w₂, hrun.trans hrun₂, by simpa using hfound₂, hlevel₂⟩

end Walk

end Cyclomatic
