import Cyclomatic.Proofs.Builtin
import Cyclomatic.Proofs.Preorder

/-!
# Qualified names

The qualified name of a function joins the names of the scopes that are open where the walk finds
it, then its receiver, then its own name (`Entity.NamedAt`).  The scope that the walk opens for the
function keeps its name and forgets its receiver.  `Walk.Labelled` says what follows for the scopes:
a function scope stands inside those that were around its function, and the scopes around a function
are those around its parent, the parent itself, and types between the two.

So the names of the scopes around a function with its own name start the qualified name of every
function inside it (`analyze_qualifiedNames`).  Where the function has a receiver, its own qualified
name does not (`analyze_receiver_lost`).
-/

namespace Cyclomatic

/-- Names joined by points. -/
def dotted (names : List String) : String := String.intercalate "." names

theorem dotted_append {xs ys : List String} (hx : xs ≠ []) (hy : ys ≠ []) :
    dotted (xs ++ ys) = dotted xs ++ "." ++ dotted ys :=
  String.intercalate_append_of_ne_nil hx hy

theorem dotted_startsWith {xs ys : List String} (hx : xs ≠ []) (hy : ys ≠ []) :
    (dotted xs ++ ".").toList <+: (dotted (xs ++ ys)).toList := by
  rw [dotted_append hx hy, String.toList_append (s := dotted xs ++ ".")]
  exact List.prefix_append ..

theorem dotted_endsWith {xs : List String} (hx : xs ≠ []) (name : String) :
    ("." ++ name).toList <:+ (dotted (xs ++ [name])).toList := by
  have hname : dotted [name] = name := by simp [dotted]
  rw [dotted_append hx (List.cons_ne_nil _ _), hname, String.append_assoc]
  rw [String.toList_append (s := dotted xs)]
  exact List.suffix_append ..

/-! ## Places of names -/

/-- Where the name of a function stands. -/
structure NamePlace where
  /-- The names of the scopes around it, outermost first. -/
  around : List String
  /-- The type that it extends or belongs to. -/
  receiver : Option String

/-- The names of scopes, outermost first. -/
def scopeNames (scopes : List Scope) : List String := (scopes.map (·.name)).reverse

theorem scopeNames_append (above below : List Scope) :
    scopeNames (above ++ below) = scopeNames below ++ scopeNames above := by
  rw [scopeNames, List.map_append, List.reverse_append]
  rfl

theorem scopeNames_cons (s : Scope) (below : List Scope) :
    scopeNames (s :: below) = scopeNames below ++ [s.name] := by
  rw [scopeNames, List.map_cons, List.reverse_cons]
  rfl

/-- The place of the function of a signature. -/
def Walk.place (w : Walk) (s : Signature) : NamePlace := ⟨scopeNames w.scopes, s.receiver⟩

/-- The walk found the function at a place, and its qualified name says so. -/
structure Entity.NamedAt (code : Code) (rules : SignatureRules) (e : Entity) (place : NamePlace) :
    Prop where
  /-- The signature has the receiver, and the scopes are open around it. -/
  found : ∃ a w s, Walk.Run code rules (0, {}) (a, w) ∧
    code.signatureAt rules (w.arrive code rules a).scopes a = .ok (some s) ∧
    s.tail = .body e.opening ∧ e.name = code.text s.name ∧
    place = (w.arrive code rules a).place s
  /-- The qualified name joins the names. -/
  qualified : e.qualifiedName = dotted (place.around ++ place.receiver.toList ++ [e.name])

theorem Entity.adopt_name (e : Entity) (yes : Bool) (id : Nat) :
    (e.adopt yes id).name = e.name := by
  cases yes <;> rfl

theorem Entity.NamedAt.adopt {code : Code} {rules : SignatureRules} {e : Entity} {place : NamePlace}
    (h : e.NamedAt code rules place) (yes : Bool) (id : Nat) :
    (e.adopt yes id).NamedAt code rules place := by
  cases yes <;> exact ⟨h.found, h.qualified⟩

/-! ## Receivers -/

/-- No function of the language has a receiver. -/
def Language.Receiverless (l : Language) : Prop :=
  l.signatures.extensionReceivers = false ∧ l.signatures.receiverGroup = false

namespace Code

variable {code : Code} {rules : SignatureRules} {i j : Nat} {s : Signature}

/-- Only an introduced signature may have a receiver, and only where the language has them. -/
theorem signatureAt_receiver {scopes : List Scope}
    (hr : rules.extensionReceivers = false ∧ rules.receiverGroup = false)
    (h : code.signatureAt rules scopes i = .ok (some s)) : s.receiver = none := by
  cases signatureAt_shape h with
  | introduced _ _ hreceiver hname =>
    have htype := receiverAt?_cases hreceiver
    have hchain := (nameAt?_cases hname).2
    simp only [hr.2, Bool.false_eq_true, false_and, false_or] at htype
    simp only [hr.1, Bool.false_eq_true, false_and, false_or] at hchain
    simp [htype.1, hchain.1]
  | _ => rfl

end Code

/-! ## What the walk keeps -/

namespace Walk

/-- What holds of the functions found so far and of the open scopes, where each function has a
place. -/
structure Labelled (code : Code) (rules : SignatureRules) (places : Nat → NamePlace) (w : Walk) :
    Prop where
  /-- The functions were found at their places. -/
  named : ∀ {id e}, w.forest.at? id = some e → e.NamedAt code rules (places id)
  /-- A function scope has the name of its function, and stands where that was found. -/
  scopes : ∀ {s below id close}, s :: below <:+ w.scopes → s.function? = some (id, close) →
    (∃ e, w.forest.at? id = some e ∧ s.name = e.name) ∧ (places id).around = scopeNames below
  /-- Around a function stand the scopes around its parent, the parent and types. -/
  inside : ∀ {p q id e}, w.forest.at? p = some q → w.forest.at? id = some e →
    e.parent = some p →
      ∃ between, (places id).around = (places p).around ++ q.name :: between

variable {code : Code} {rules : SignatureRules} {places : Nat → NamePlace} {i : Nat} {w : Walk}

theorem labelled_start (places : Nat → NamePlace) : Labelled code rules places {} := by
  constructor <;> simp [Forest.at?]

/-- The scopes of a walk that only lost some of the innermost. -/
theorem Labelled.leave (h : Labelled code rules places w) (i : Nat) :
    Labelled code rules places (w.leave i) where
  named := h.named
  scopes hs hf := h.scopes (hs.trans (List.dropWhile_suffix _)) hf
  inside := h.inside

theorem Labelled.enterContainer (h : Labelled code rules places w) (i : Nat) :
    Labelled code rules places (w.enterContainer code rules i) := by
  unfold Walk.enterContainer
  cases ht : code.containerAt? rules i with
  | none => exact h
  | some t =>
    constructor
    case named => exact h.named
    case inside => exact h.inside
    case scopes =>
      intro s below id close hs hf
      rcases List.suffix_cons_iff.mp hs with heq | hs
      · obtain ⟨rfl, rfl⟩ := List.cons.inj heq
        rw [(containerAt?_scope ht).2] at hf
        cases hf
      · exact h.scopes hs hf

theorem Labelled.declare (h : Labelled code rules places w) (s : Signature) :
    Labelled code rules places (w.declare code s) :=
  ⟨h.named, h.scopes, h.inside⟩

/-- The places after a function is found at a new one. -/
def withPlace (places : Nat → NamePlace) (id : Nat) (place : NamePlace) : Nat → NamePlace :=
  fun x => if x = id then place else places x

theorem withPlace_self (id : Nat) (place : NamePlace) : withPlace places id place id = place :=
  if_pos rfl

theorem withPlace_old {forest : Forest} {id : Nat} {e : Entity} (h : forest.at? id = some e)
    (place : NamePlace) : withPlace places forest.entities.size place id = places id :=
  if_neg (Nat.ne_of_lt (Forest.lt_size_of_at? h))

/-- The place of a new function, seen from the function around it. -/
theorem Labelled.place_inside (h : Labelled code rules places w) {p : Nat} {close : Option Nat}
    (hw : w.innermost? = some (p, close)) (s : Signature) :
    ∃ q, w.forest.at? p = some q ∧
      ∃ between, (w.place s).around = (places p).around ++ q.name :: between := by
  obtain ⟨above, t, below, hscopes, ht, -⟩ := innermost?_split hw
  have hsuffix : t :: below <:+ w.scopes := by
    rw [hscopes]
    exact List.suffix_append ..
  obtain ⟨⟨q, hq, hname⟩, haround⟩ := h.scopes hsuffix ht
  refine ⟨q, hq, scopeNames above, ?_⟩
  change scopeNames w.scopes = _
  rw [hscopes, scopeNames_append, scopeNames_cons, haround, hname, List.append_assoc,
    List.singleton_append]

theorem Labelled.enterFunction (h : Labelled code rules places w) (hordered : Ordered code i w)
    {s : Signature} {brace : Nat}
    (hfound : (w.entity code rules s brace).NamedAt code rules (w.place s)) :
    Labelled code rules (withPlace places w.forest.entities.size (w.place s))
      (w.enterFunction code rules s brace) := by
  have hparent := hordered.parent_lt rules s brace
  have hcases := fun {id x} => @Forest.at?_add_cases _ _ x id hparent
  constructor
  case named =>
    intro id x hx
    rcases hcases hx with ⟨rfl, rfl⟩ | ⟨y, hy, rfl⟩
    · rw [withPlace_self]
      exact hfound
    · rw [withPlace_old hy]
      exact (h.named hy).adopt ..
  case scopes =>
    intro t below id close ht hf
    rcases List.suffix_cons_iff.mp ht with heq | ht
    · -- The scope of the new function.
      obtain ⟨rfl, rfl⟩ := List.cons.inj heq
      cases hf
      exact ⟨⟨_, Forest.at?_add_new hparent, rfl⟩, by rw [withPlace_self]; rfl⟩
    · obtain ⟨⟨y, hy, hname⟩, haround⟩ := h.scopes ht hf
      refine ⟨⟨_, Forest.at?_add_old hy, hname.trans (Entity.adopt_name ..).symm⟩, ?_⟩
      rw [withPlace_old hy, haround]
  case inside =>
    intro p q id x hq hx hxp
    rcases hcases hx with ⟨rfl, rfl⟩ | ⟨y, hy, rfl⟩
    · obtain ⟨_, -, hw⟩ := hordered.parent_entity hxp
      obtain ⟨q', hq', hbetween⟩ := h.place_inside hw s
      obtain rfl := Option.some.inj (hq.symm.trans (Forest.at?_add_old hq'))
      rw [withPlace_self, withPlace_old hq', Entity.adopt_name]
      exact hbetween
    · rw [Entity.adopt_parent] at hxp
      obtain ⟨q', hq'⟩ := hordered.linked.exists_parent hy hxp
      obtain rfl := Option.some.inj (hq.symm.trans (Forest.at?_add_old hq'))
      rw [withPlace_old hy, withPlace_old hq', Entity.adopt_name]
      exact h.inside hq' hy hxp

/-- A step keeps the functions at their places, and may find one more. -/
theorem Labelled.step (h : Labelled code rules places w) (hp : code.Paired)
    (hrun : Run code rules (0, {}) (i, w)) {j : Nat} {w' : Walk}
    (hstep : Next code rules (i, w) (j, w')) :
    ∃ places', Labelled code rules places' w' := by
  have harrive : Labelled code rules places (w.arrive code rules i) := (h.leave i).enterContainer i
  obtain ⟨-, next, hstep, -⟩ := hstep
  simp only at hstep
  rcases step_cases hstep with ⟨rfl, -⟩ | ⟨s, brace, hs, htail, rfl, -⟩ | ⟨s, -, -, rfl⟩
  · exact ⟨_, harrive⟩
  · refine ⟨_, harrive.enterFunction (ordered_run hp hrun).arrive ?_⟩
    exact ⟨⟨i, w, s, hrun, hs, htail, rfl, rfl⟩, rfl⟩
  · exact ⟨_, harrive.declare s⟩

/-- The functions that the walk finds have places. -/
theorem labelled_run (hp : code.Paired) {j : Nat} {w' : Walk}
    (hrun : Run code rules (0, {}) (j, w')) : ∃ places, Labelled code rules places w' := by
  generalize hb : (j, w') = b at hrun
  induction hrun generalizing j w' with
  | refl =>
    cases hb
    exact ⟨fun _ => ⟨[], none⟩, labelled_start _⟩
  | @tail a b hrun hstep ih =>
    subst hb
    obtain ⟨places, h⟩ := ih rfl
    exact h.step hp hrun hstep

end Walk

/-! ## Results -/

/-- A function of the result lies inside another, at any depth. -/
inductive FileResult.Inside (r : FileResult) (p : Function) : Function → Prop where
  | child {c : Function} : c ∈ r.all → c.parent = some p.id → Inside r p c
  | deeper {q c : Function} : Inside r p q → c ∈ r.all → c.parent = some q.id → Inside r p c

/-- A function of a result is one of the forest. -/
theorem entity_of_mem_all {l : Language} {options : ScoringOptions} {code : Code} {forest : Forest}
    (hlinked : forest.Linked) {r : FileResult}
    (hts : scoredTrees l options code forest forest.entities.size forest.roots = .ok r.functions)
    {f : Function} (hf : f ∈ r.all) :
    ∃ e, forest.at? f.id = some e ∧ f = e.scored f.id f.decisions := by
  obtain ⟨e, he, hscored, -⟩ := scored_of_mem_preorders hlinked hts hf
  exact ⟨e, he, hscored⟩

/-- The scopes around a function inside another: those around the other, the other and those
between the two. -/
theorem around_of_inside {code : Code} {rules : SignatureRules} {places : Nat → NamePlace}
    {w : Walk} (h : Walk.Labelled code rules places w) {r : FileResult}
    (hall : ∀ f ∈ r.all, ∃ e, w.forest.at? f.id = some e ∧ f = e.scored f.id f.decisions)
    {p c : Function} (hp : p ∈ r.all) (hc : r.Inside p c) :
    c ∈ r.all ∧ ∃ between, (places c.id).around = (places p.id).around ++ p.name :: between := by
  have hchild : ∀ {q c : Function}, q ∈ r.all → c ∈ r.all → c.parent = some q.id →
      ∃ between, (places c.id).around = (places q.id).around ++ q.name :: between := by
    intro q c hq hc hparent
    obtain ⟨x, hx, hqx⟩ := hall q hq
    obtain ⟨y, hy, hcy⟩ := hall c hc
    have hname : q.name = x.name := congrArg (·.name) hqx
    rw [hname]
    exact h.inside hx hy ((congrArg (·.parent) hcy).symm.trans hparent)
  induction hc with
  | child hc hparent => exact ⟨hc, hchild hp hc hparent⟩
  | @deeper q c _ hc hparent ih =>
    obtain ⟨hq, between, haround⟩ := ih
    obtain ⟨further, hfurther⟩ := hchild hq hc hparent
    refine ⟨hc, between ++ q.name :: further, ?_⟩
    rw [hfurther, haround, List.append_assoc, List.cons_append]

/-- The qualified name of a function joins the names of the scopes around it, its receiver and its
own name.  The qualified name of a function inside it, at any depth, starts with the names of those
scopes and that of the outer function, without the receiver, and ends with its own name.  So the
qualified name of a function without receiver starts those of all functions inside it, and in Java,
JavaScript and TypeScript no function has a receiver. -/
theorem analyze_qualifiedNames {engine : Engine} {file source language : String} {r : FileResult}
    (h : engine.analyze file source language = .ok r) :
    (∀ l ∈ [Language.Java.table.canonical, Language.JavaScript.table.canonical,
      Language.JavaScript.typedTable.canonical], l.Receiverless) ∧
    ∃ l forest, engine.registry.lookup? language = some l ∧
      detect l (Code.ofSource l source) = .ok forest ∧
      ∀ p ∈ r.all, ∃ e place, forest.at? p.id = some e ∧ p = e.scored p.id p.decisions ∧
        e.NamedAt (Code.ofSource l source) l.signatures place ∧
        (l.Receiverless → place.receiver = none) ∧
        p.qualifiedName = dotted (place.around ++ place.receiver.toList ++ [p.name]) ∧
        ∀ c, r.Inside p c →
          (∃ between, c.qualifiedName = dotted (place.around ++ p.name :: between ++ [c.name])) ∧
          (dotted (place.around ++ [p.name]) ++ ".").toList <+: c.qualifiedName.toList ∧
          ("." ++ c.name).toList <:+ c.qualifiedName.toList ∧
          (place.receiver = none →
            (p.qualifiedName ++ ".").toList <+: c.qualifiedName.toList) := by
  refine ⟨?_, ?_⟩
  · simp only [List.mem_cons, List.not_mem_nil, or_false, forall_eq_or_imp, forall_eq]
    exact ⟨⟨rfl, rfl⟩, ⟨rfl, rfl⟩, rfl, rfl⟩
  obtain ⟨l, forest, hl, hforest, hts⟩ := Engine.analyze_ok h
  obtain ⟨j, w, hrun, -, rfl⟩ := Walk.go_run hforest
  have hpaired := Code.paired_ofSource l source
  obtain ⟨places, hlabelled⟩ := Walk.labelled_run hpaired hrun
  have hall := fun f hf => entity_of_mem_all (Walk.ordered_run hpaired hrun).linked hts (f := f) hf
  refine ⟨l, w.forest, hl, hforest, fun p hp => ?_⟩
  obtain ⟨e, he, hscored⟩ := hall p hp
  have hnamed := hlabelled.named he
  have hqualified : p.qualifiedName =
      dotted ((places p.id).around ++ (places p.id).receiver.toList ++ [p.name]) := by
    rw [show p.qualifiedName = e.qualifiedName from congrArg (·.qualifiedName) hscored,
      show p.name = e.name from congrArg (·.name) hscored]
    exact hnamed.qualified
  refine ⟨e, places p.id, he, hscored, hnamed, ?_, hqualified, ?_⟩
  · intro hreceiverless
    obtain ⟨a, v, s, -, hs, -, -, hplace⟩ := hnamed.found
    rw [hplace]
    exact Code.signatureAt_receiver hreceiverless hs
  intro c hc
  obtain ⟨hmem, between, haround⟩ := around_of_inside hlabelled hall hp hc
  obtain ⟨x, hx, hcx⟩ := hall c hmem
  have hname : c.qualifiedName = dotted ((places p.id).around ++ p.name ::
      (between ++ (places c.id).receiver.toList) ++ [c.name]) := by
    rw [show c.qualifiedName = x.qualifiedName from congrArg (·.qualifiedName) hcx,
      show c.name = x.name from congrArg (·.name) hcx, (hlabelled.named hx).qualified, haround]
    simp only [List.append_assoc, List.cons_append]
  have hprefix : (dotted ((places p.id).around ++ [p.name]) ++ ".").toList <+:
      c.qualifiedName.toList := by
    have hsplit := @dotted_startsWith ((places p.id).around ++ [p.name])
      (between ++ (places c.id).receiver.toList ++ [c.name]) (by simp) (by simp)
    rw [hname]
    simpa only [List.append_assoc, List.cons_append, List.nil_append] using hsplit
  refine ⟨⟨_, hname⟩, hprefix, ?_, fun hnone => ?_⟩
  · rw [hname]
    exact dotted_endsWith (by simp) c.name
  · rw [hqualified, hnone, Option.toList_none, List.append_nil]
    exact hprefix

/-- The qualified names of the functions of a result with the functions around them. -/
def FileResult.qualifiedNames (r : FileResult) : List (String × Option Nat) :=
  r.all.map fun f => (f.qualifiedName, f.parent)

/-- A method of a class in a method. -/
theorem analyze_qualifiedNames_nested : ∃ r, Engine.analyze {} "input"
      "class A \x7b f() \x7b class B \x7b g() \x7b \x7d \x7d \x7d \x7d" "javascript" = .ok r ∧
    r.qualifiedNames = [("A.f", none), ("A.f.B.g", some 0)] ∧
    ∀ p ∈ r.all, ∀ c, r.Inside p c →
      (p.qualifiedName ++ ".").toList <+: c.qualifiedName.toList := by
  have hlookup : Registry.builtin.lookup? "javascript" =
      some Language.JavaScript.table.canonical := rfl
  obtain ⟨r, hr, hnames⟩ : ∃ r, Engine.analyze {} "input"
      "class A \x7b f() \x7b class B \x7b g() \x7b \x7d \x7d \x7d \x7d" "javascript" = .ok r ∧
      r.qualifiedNames = [("A.f", none), ("A.f.B.g", some 0)] := by
    rw [Engine.analyze_of_lookup? hlookup, Language.JavaScript.canonical_eq]
    exact exists_ok_of_view (by decide +kernel)
  obtain ⟨htables, l, forest, hl, -, hfunctions⟩ := analyze_qualifiedNames hr
  obtain rfl := Option.some.inj (hlookup.symm.trans hl)
  refine ⟨r, hr, hnames, fun p hp c hc => ?_⟩
  obtain ⟨e, place, -, -, -, hreceiver, -, hinside⟩ := hfunctions p hp
  exact (hinside c hc).2.2.2 (hreceiver (htables _ (by simp)))

/-- The receiver of a function is lost in the names of the functions inside it. -/
theorem analyze_receiver_lost : ∃ r, Engine.analyze {} "input"
      "fun String.outer() \x7b fun inner() \x7b \x7d \x7d" "kotlin" = .ok r ∧
    ∃ p ∈ r.all, ∃ c ∈ r.all, c.parent = some p.id ∧ p.qualifiedName = "String.outer" ∧
      c.qualifiedName = "outer.inner" ∧
      ¬ (p.qualifiedName ++ ".").toList <+: c.qualifiedName.toList := by
  have hlookup : Registry.builtin.lookup? "kotlin" = some Language.Kotlin.table.canonical := rfl
  obtain ⟨r, hr, hview⟩ : ∃ r, Engine.analyze {} "input"
      "fun String.outer() \x7b fun inner() \x7b \x7d \x7d" "kotlin" = .ok r ∧
      r.all.map (fun f => (f.id, f.parent, f.qualifiedName)) =
        [(0, none, "String.outer"), (1, some 0, "outer.inner")] := by
    rw [Engine.analyze_of_lookup? hlookup, Language.Kotlin.canonical_eq]
    exact exists_ok_of_view (by decide +kernel)
  obtain ⟨p, hp, hpview⟩ := List.mem_map.mp (hview ▸ List.mem_cons_self ..)
  obtain ⟨c, hc, hcview⟩ :=
    List.mem_map.mp (hview ▸ List.mem_cons_of_mem _ (List.mem_cons_self ..))
  simp only [Prod.mk.injEq] at hpview hcview
  obtain ⟨hpid, -, hpname⟩ := hpview
  obtain ⟨-, hparent, hcname⟩ := hcview
  refine ⟨r, hr, p, hp, c, hc, hpid ▸ hparent, hpname, hcname, ?_⟩
  rw [hpname, hcname]
  decide

end Cyclomatic
