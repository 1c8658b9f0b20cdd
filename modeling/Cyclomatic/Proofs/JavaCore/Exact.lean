import Cyclomatic.Proofs.BestEffort
import Cyclomatic.Proofs.JavaCore.Members

/-!
# Exactness on the core of Java

A source whose significant tokens are those of a class of the core grammar is analysed as a reader
does (`analyze_classUnit`): one function for each method with a body, in order and without nested
functions, one declaration for each method without, and in each function the decisions of its
body, in order.
-/

namespace Cyclomatic

open JavaCore

/-! ## Decisions of a body -/

namespace Code

variable {code : Code}

/-- The kind of a decision and the text of its token. -/
def markOf (d : Decision) : Mark := (d.category, d.token)

/-- In a body without nested functions, every token makes its decision. -/
theorem decisionsFrom_java (stop k : Nat) (stack : List Frame) :
    (code.decisionsFrom java {} stop k [] stack).map markOf =
        (List.range' k (stop - k)).filterMap code.markAt ∧
      ∀ d ∈ code.decisionsFrom java {} stop k [] stack, d.increment = 1 := by
  have hout := Language.Java.blockless.not_mem_blockWords
  rw [decisionsFrom_flat stop k (fun w _ => hout w) fun x _ _ _ => hout _]
  constructor
  · rw [List.map_filterMap]
    congr 1
    funext x
    rw [markAt]
    cases hr : code.ruleAt? java [] x with
    | none => rfl
    | some r =>
      obtain ⟨-, htext⟩ := mem_of_ruleAt? hr
      simp only [Option.map_some, markOf, decision, htext]
  · intro d hd
    obtain ⟨x, -, hx⟩ := List.mem_filterMap.mp hd
    obtain ⟨r, hr, rfl⟩ := Option.map_eq_some_iff.mp hx
    have hone : ∀ r ∈ java.decisions, r.increment = 1 := by decide
    exact hone r (mem_of_ruleAt? hr).1

end Code

/-! ## The analysis -/

/-- What an analysis says of a function. -/
structure Summary where
  /-- Its qualified name. -/
  qualifiedName : String
  /-- Its score. -/
  score : UInt32
  /-- Its decisions. -/
  marks : List Mark
  /-- The number of functions directly inside it. -/
  nested : Nat
deriving DecidableEq, Repr

/-- What the result says of the function at the top of a tree. -/
def FunctionTree.summary (t : FunctionTree) : Summary :=
  { qualifiedName := t.function.qualifiedName
    score := t.function.score
    marks := t.function.decisions.map Code.markOf
    nested := t.children.length }

/-- What a reader says of a method. -/
def JavaCore.summaryOf (name : String) (m : String × List Mark) : Summary :=
  { qualifiedName := name ++ "." ++ m.1
    score := UInt32.ofNat (1 + m.2.length)
    marks := m.2
    nested := 0 }

/-- The trees of functions without nested ones. -/
theorem scoredTrees_flat {l : Language} {options : ScoringOptions} {code : Code} {forest : Forest}
    (h : ∀ {id e}, forest.at? id = some e →
      code.score l options forest e = .ok (code.decisions l options forest e) ∧ e.children = [])
    (depth : Nat) (ids : List Nat) :
    scoredTrees l options code forest (depth + 1) ids =
      .ok (ids.filterMap fun id => (forest.at? id).map fun e =>
        .node (e.scored id (code.decisions l options forest e)) []) := by
  rw [scoredTrees_succ]
  induction ids with
  | nil => rfl
  | cons id ids ih =>
    rw [List.filterMapM_cons, ih, List.filterMap_cons]
    cases he : forest.at? id with
    | none =>
      unfold scoredTree?
      rw [show forest.entities[id]? = none from he]
      rfl
    | some e =>
      obtain ⟨hscore, hchildren⟩ := h he
      have hsub : scoredTrees l options code forest depth [] = .ok [] := by
        cases depth <;> rfl
      rw [scoredTree?_of_at? he, hscore, hchildren, hsub]
      rfl

/-- Two runs from one place to the end of the code end alike. -/
theorem Walk.run_end_unique {code : Code} {rules : SignatureRules} {a b c : Nat × Walk}
    (hb : Walk.Run code rules a b) (hc : Walk.Run code rules a c) (hbs : code.size ≤ b.1)
    (hcs : code.size ≤ c.1) : b = c := by
  have hstop : ∀ {x y : Nat × Walk}, code.size ≤ x.1 → Walk.Run code rules x y → x = y := by
    intro x y hx hrun
    rcases hrun.cases_head with heq | ⟨z, hstep, -⟩
    · exact heq
    · exact absurd hstep.1 (by omega)
  rcases hb.total_of_right_unique Walk.next_unique hc with h | h
  · exact hstop hbs h
  · exact (hstop hcs h).symm

theorem angles_of_faces {code : Code} {u : ClassUnit} (h : code.faces = u.render) :
    code.Angles := by
  intro k hk hnext
  rw [Code.face?_eq, h] at hk hnext
  have hchain := List.isChain_iff_getElem.mp u.neat_render.tame.angles
  obtain ⟨hlt, hget⟩ := List.getElem?_eq_some_iff.mp hnext
  obtain ⟨hlt', hget'⟩ := List.getElem?_eq_some_iff.mp hk
  exact hchain k hlt ⟨hget', hget⟩

/-- The head of a class opens its scope. -/
theorem containerAt?_class {code : Code} {x : Ident} {z : Nat}
    (hclass : code.face? 0 = some (word "class")) (hname : code.face? 1 = some x.face)
    (hopen : code.face? 2 = some (punct "\x7b")) (hpartner : code.partner? 2 = some z) :
    code.containerAt? javaRules 0 = some (Walk.classScope x.text z) := by
  have hbrace : code.containerBrace? javaRules 2 = some 2 := by
    rw [Code.containerBrace?, dif_pos (Code.lt_size_of_face hopen),
      if_pos (by simp [Code.isPunct_of_face hopen])]
  have hword : code.isWordIn 0 javaRules.containerKeywords = true := by
    rw [Code.isWordIn, Code.isWord_of_face hclass, Code.text_of_face hclass]
    rfl
  have hident : code.isKind 1 .identifier = true := by
    rw [Code.isKind_of_face hname]
    rfl
  simp only [Code.containerAt?, Nat.zero_add, hword, hident, Bool.and_self, if_true, hbrace,
    Option.map_some, hpartner, Code.text_of_face hname, Code.text_of_face hclass]
  rfl

/-- The walk over a class finds its members. -/
theorem Walk.run_classUnit {code : Code} (hp : code.Paired) (hfit : code.AnglesFit javaRules)
    {u : ClassUnit} (h : code.faces = u.render) :
    ∃ w, Walk.Run code javaRules (0, {}) (code.size, w) ∧
      Walk.Found code u.name.text u.members w := by
  have ha : code.Angles := angles_of_faces h
  have hspell : code.Spells 0 u.render := by
    rw [← h]
    exact List.prefix_rfl
  have hsize : code.size = u.render.length := by
    rw [← h, Code.faces, List.length_map, Code.length_tokens]
  obtain ⟨hclass, hrest⟩ := Code.spells_cons.mp hspell
  obtain ⟨hname, hbraces⟩ := Code.spells_cons.mp hrest
  obtain ⟨hopen, hinner, hclose⟩ := Code.spells_braces hbraces
  have hpartner := hbraces.partner? hp .curly (neat_members u.members).balanced
  have hlen : code.size = 3 + (renderMembers u.members).length + 1 := by
    simp only [hsize, ClassUnit.render, List.length_cons, Code.length_braces]
    omega
  simp only [Nat.zero_add, Nat.reduceAdd] at hname hopen hinner hclose hpartner
  generalize hz : 3 + (renderMembers u.members).length = z at *
  have hcontainer := containerAt?_class hclass hname hopen hpartner
  have harrive : (({} : Walk).arrive code javaRules 0).scopes = [classScope u.name.text z] := by
    simp [arrive, enterContainer, hcontainer, leave]
  have hsignature : code.signatureAt javaRules (({} : Walk).arrive code javaRules 0).scopes 0 =
      .ok none := by
    rw [harrive, hfit.signatureAt, Code.shapeAt_java (noRecord_class u.name.text z),
      if_neg (by simp [Code.isKind_of_face hclass])]
  have hfirst : Next code javaRules (0, {}) (1, ({} : Walk).arrive code javaRules 0) :=
    ⟨by omega, 1, step_none hsignature, rfl⟩
  have hsilent : ∀ {k}, 1 ≤ k → k < 3 → code.Silent k := by
    intro k h1 h2
    obtain rfl | rfl : k = 1 ∨ k = 2 := by omega
    · exact Code.silent_of_name ha hname hopen (by simp)
    · exact (Code.silent_of_plain hopen (Code.isPlain_of_mem (by decide))).1
  obtain ⟨w₁, hrun₁, hforest₁, hlevel₁⟩ := run_silent hfit hsilent (by omega) (by omega) (by omega)
    (level_of_scopes harrive (by omega))
  have hfound₁ : Found code u.name.text [] w₁ := by
    rw [arrive_forest] at hforest₁
    constructor <;> simp [hforest₁]
  obtain ⟨w₂, hrun₂, hfound₂, hlevel₂⟩ :=
    run_members hp hfit ha u.members hinner (by omega) (by omega) hlevel₁ hfound₁
  rw [hz] at hrun₂ hlevel₂
  have hlast : Next code javaRules (z, w₂) (z + 1, w₂.leave z) := by
    have hsilent := (Code.silent_of_plain hclose (Code.isPlain_of_mem (by decide))).1
    refine next_silent hfit hsilent (by omega) ?_
    rw [hlevel₂]
    exact noRecord_class u.name.text z
  refine ⟨w₂.leave z, ?_, ⟨hfound₂.methods, hfound₂.roots, hfound₂.declared⟩⟩
  rw [hlen]
  exact ((Relation.ReflTransGen.head hfirst hrun₁).trans hrun₂).tail hlast

/-- The decisions of a method. -/
theorem decisions_described {code : Code} {name : String} {e : Entity} {m : String × List Mark}
    (he : Walk.Described code name e m) (forest : Forest) :
    (code.decisions java {} forest e).map Code.markOf = m.2 ∧
      incrementSum (code.decisions java {} forest e) = m.2.length := by
  obtain ⟨c, hclose, hmarks⟩ := he.marks
  have hdecisions : code.decisions java {} forest e =
      code.decisionsFrom java {} c (e.opening + 1) [] [.block (code.openerWord e.opening)] := by
    simp only [Code.decisions, Code.nested, he.children, hclose, List.filterMap_nil, List.map_nil,
      Option.getD_some]
  obtain ⟨hmap, hone⟩ := code.decisionsFrom_java c (e.opening + 1)
    [.block (code.openerWord e.opening)]
  rw [← hdecisions, hmarks] at hmap
  rw [← hdecisions] at hone
  refine ⟨hmap, ?_⟩
  rw [incrementSum_of_ones hone, ← hmap, List.length_map]

/-- The function of a method whose score fits its word. -/
theorem summary_described {code : Code} {name : String} {e : Entity} {m : String × List Mark}
    (he : Walk.Described code name e m) (hfits : 1 + m.2.length < 2 ^ 32) (forest : Forest)
    (id : Nat) :
    (FunctionTree.node (e.scored id (code.decisions java {} forest e)) []).summary =
      summaryOf name m := by
  obtain ⟨hmap, hsum⟩ := decisions_described he forest
  rw [← hsum] at hfits
  simp only [FunctionTree.summary, FunctionTree.function, FunctionTree.children, Entity.scored,
    summaryOf, scoreOf_eq hfits, hsum, hmap, he.qualifiedName, List.length_nil]

/-- What is said of the elements of a list, each with its position, may be said of the elements
related to them. -/
theorem map_range_of_forall₂ {α β γ δ : Type} {R : α → β → Prop} {g : γ → δ} {k : β → δ}
    {xs : List α} {ys : List β} (h : List.Forall₂ R xs ys) (f : Nat → α → γ)
    (hf : ∀ {i x y}, y ∈ ys → R x y → g (f i x) = k y) :
    ((List.range xs.length).filterMap fun i => xs[i]?.map (f i)).map g = ys.map k := by
  induction h generalizing f with
  | nil => rfl
  | cons hxy _ ih =>
    have htail := ih (fun i => f (i + 1)) fun hy => hf (List.mem_cons_of_mem _ hy)
    rw [List.length_cons, List.range_succ_eq_map, List.filterMap_cons, List.filterMap_map]
    simp only [List.getElem?_cons_zero, Option.map_some, Function.comp_def,
      List.getElem?_cons_succ, List.map_cons, htail, hf (List.mem_cons_self ..) hxy]

/-- Exactness: a class of the core grammar, in any layout, is analysed as a reader does.  There is
no result if a method has too many decisions for the word of a score. -/
theorem analyze_classUnit (u : ClassUnit) (file source : String)
    (h : (Code.ofSource java source).faces = u.render) :
    ((∀ m ∈ u.methods, 1 + m.2.length < 2 ^ 32) →
      ∃ r, ({} : Engine).analyze file source "java" = .ok r ∧
        r.functions.map FunctionTree.summary = u.methods.map (summaryOf u.name.text) ∧
        r.declarations.map (·.name) = u.declared) ∧
    ((∃ m ∈ u.methods, 2 ^ 32 ≤ 1 + m.2.length) →
      ({} : Engine).analyze file source "java" = .error .overflow) := by
  have hl : Registry.builtin.lookup? "java" = some java := rfl
  have hr := braceless_builtin hl
  have hp := Code.paired_ofSource java source
  have hrange := Code.inRange_builtin hl source
  obtain ⟨forest, hforest, j, w, hrun, hj, rfl⟩ := detect_run_builtin hl source
  obtain ⟨w', hrun', hfound⟩ := Walk.run_classUnit hp hrange.signatures h
  obtain ⟨-, rfl⟩ := Prod.mk.inj (Walk.run_end_unique hrun hrun' hj le_rfl)
  have hsound := Walk.sound_run hp hr hrun
  have hdescribed : ∀ {id e}, w.forest.at? id = some e →
      ∃ m ∈ u.methods, Walk.Described (Code.ofSource java source) u.name.text e m := by
    intro id e he
    obtain ⟨hlt, rfl⟩ := Array.getElem?_eq_some_iff.mp he
    have hlt' : id < u.methods.length := by
      rwa [ClassUnit.methods, ← hfound.methods.length_eq, Array.length_toList]
    exact ⟨_, List.getElem_mem hlt', hfound.methods.get (by simpa using hlt) hlt'⟩
  have hspan : ∀ e ∈ w.forest.entities,
      (Code.ofSource java source).spanFault? w.forest e = none := fun e he => by
    obtain ⟨id, hid⟩ := Forest.mem_entities.mp he
    refine hsound.spanFault?_eq_none hid fun hc hparent => ?_
    obtain ⟨m', -, hm'⟩ := hdescribed hc
    rw [hm'.parent] at hparent
    cases hparent
  rw [Engine.analyze_of_lookup? hl, analyzeIn_of_detect hforest]
  refine ⟨fun hfits => ?_, fun hlong => ?_⟩
  · have hflat : ∀ {id e}, w.forest.at? id = some e →
        (Code.ofSource java source).score java {} w.forest e =
          .ok ((Code.ofSource java source).decisions java {} w.forest e) ∧ e.children = [] := by
      intro id e he
      obtain ⟨m, hmem, hm⟩ := hdescribed he
      refine ⟨Code.score_eq_ok_iff.mpr ⟨hspan e (Forest.mem_entities.mpr ⟨id, he⟩), ?_, rfl⟩,
        hm.children⟩
      rw [hrange.overflows_eq_false_iff, (decisions_described hm _).2]
      exact hfits m hmem
    have htrees : scoredTrees java {} (Code.ofSource java source) w.forest w.forest.entities.size
        w.forest.roots = .ok ((List.range w.forest.entities.size).filterMap fun id =>
          (w.forest.at? id).map fun e =>
            .node (e.scored id ((Code.ofSource java source).decisions java {} w.forest e)) []) := by
      rw [hfound.roots]
      cases hsize : w.forest.entities.size with
      | zero => rfl
      | succ n => exact scoredTrees_flat hflat n _
    rw [htrees]
    refine ⟨_, rfl, ?_, hfound.declared⟩
    have hmap := map_range_of_forall₂ hfound.methods (fun id e => FunctionTree.node
      (e.scored id ((Code.ofSource java source).decisions java {} w.forest e)) [])
      (g := FunctionTree.summary) fun hm he => summary_described he (hfits _ hm) w.forest _
    simp only [Array.length_toList, Array.getElem?_toList] at hmap
    exact hmap
  · obtain ⟨m, hmem, hlong⟩ := hlong
    obtain ⟨i, hi, rfl⟩ := List.getElem_of_mem hmem
    have hi' : i < w.forest.entities.toList.length := by rwa [hfound.methods.length_eq]
    have hfits : ¬ (Code.ofSource java source).ScoresFit java {} w.forest := fun hfits => by
      have hlt := hfits _ (Array.mem_toList_iff.mp (List.getElem_mem hi'))
      have hmethod : Walk.Described _ _ w.forest.entities.toList[i] u.methods[i] :=
        hfound.methods.get hi' hi
      rw [(decisions_described hmethod _).2] at hlt
      exact Nat.not_lt.mpr hlong hlt
    rw [(scoredTrees_of_spans hsound.linked hrange hspan).2 hfits]
    rfl

/-- A class with a loop, a conditional and a lambda in one method and no body in the other. -/
def JavaCore.sample : ClassUnit :=
  let a : Ident := ⟨"a", by decide +kernel⟩
  let f : Ident := ⟨"f", by decide +kernel⟩
  let g : Ident := ⟨"g", by decide +kernel⟩
  let cond : Stmt := .cond (.and (.name a) (.call g (.lambda a (.name a) .nil))) .nil .nil
  { name := ⟨"A", by decide +kernel⟩
    members := [
      .method ⟨[], .primitive ⟨"int", by decide⟩ true, f, [(.name f false, a)]⟩ [g]
        (.cons (.doLoop (.cons cond .nil) (.name a)) .nil),
      .declaration ⟨[⟨"abstract", by decide⟩], .name a false, g, []⟩] }

/-- The sample in a layout with comments and line breaks. -/
def sampleLaidOut : String :=
  "class A \x7b int[] f(f a) throws g\n\x7b do /* \x7b */ \x7b if (a\n" ++
    "&& g(a -> a)) \x7b \x7d \x7d // if\nwhile (a); \x7d abstract a g(); \x7d"

/-- In this layout, the sample is analysed as a reader does. -/
theorem analyze_sample :
    ∃ r, ({} : Engine).analyze "A.java" sampleLaidOut "java" = .ok r ∧
      r.functions.map FunctionTree.summary =
        [⟨"A.f", 5, [(.loop, "do"), (.conditional, "if"), (.logical, "&&"), (.lambda, "->")], 0⟩] ∧
      r.declarations.map (·.name) = ["g"] := by
  refine (analyze_classUnit sample "A.java" _ ?_).1 (by decide)
  have hchars : sampleLaidOut = String.ofList _ := append_eq_ofList rfl rfl
  rw [Code.ofSource_eq_ofChars java _ hchars, show java = _ from Language.Java.canonical_eq]
  decide +kernel

end Cyclomatic
