import Cyclomatic.Proofs.Anchors
import Cyclomatic.Proofs.JavaCore.Exact
import Cyclomatic.Proofs.Reading.Marks

/-!
# Functions without functions inside

A function whose body is read token by token has no functions inside it (`analyze_reads`): the
walk finds a function before the body around it ends, unless the scope of a type in that body is
never left (`Walk.timely_run`), and in such a body nothing starts.  Its decisions are then the
marked ones.

`analyze_single` is about a file with a single signature.  It has a result, with one function.
-/

namespace Cyclomatic

open JavaCore

/-! ## Where a nested function was found -/

namespace Walk

variable {code : Code} {rules : SignatureRules} {w : Walk} {i : Nat}

/-- A function inside another was found before the body around it ends, unless the scope of a type
inside that body is never left. -/
def Timely (code : Code) (rules : SignatureRules) (w : Walk) : Prop :=
  ∀ {p q d}, w.forest.at? p = some q → q.close = some d →
    ∀ {id e}, w.forest.at? id = some e → e.parent = some p →
      code.TornInside rules q.opening d ∨ ∃ a, e.FoundAt code rules a ∧ a ≤ d

theorem Timely.arrive (h : Timely code rules w) (i : Nat) :
    Timely code rules (w.arrive code rules i) := by
  intro p q d hq hd id e he hp
  rw [arrive_forest] at hq he
  exact h hq hd he hp

theorem Timely.step (h : Timely code rules w) (hsound : Sound code rules i w)
    (hrun : Run code rules (0, {}) (i, w)) (hp : code.Paired) {j : Nat} {w' : Walk}
    (hstep : Next code rules (i, w) (j, w')) : Timely code rules w' := by
  obtain ⟨hi, next, hstep, -⟩ := hstep
  simp only at hi hstep
  rcases step_cases hstep with ⟨rfl, -⟩ | ⟨s, brace, hs, htail, rfl, -⟩ | ⟨s, -, -, rfl⟩
  · exact h.arrive i
  · obtain ⟨harrive, hlive⟩ := hsound.arrive hp ⟨_, hrun⟩
    intro p q d hq hd id e he hparent
    obtain ⟨q', hq', ⟨yes, n, rfl⟩, hnew | ⟨y, hy, hyp, yes', n', rfl⟩⟩ :=
      harrive.add_cases hq he hparent
    · -- The new function is found here, and the innermost scope is still open.
      obtain ⟨hw, rfl⟩ := hnew
      rw [Entity.adopt_close] at hd
      rw [Entity.adopt_opening]
      obtain ⟨above, t, below, hscopes, ht, -⟩ := innermost?_split hw
      rw [hd] at ht
      refine (hlive t (by simp [hscopes]) ht hq').imp_right fun hle => ⟨i, ?_, hle⟩
      have hanchor := (Code.signatureAt_forward hp hs).anchor
      exact ⟨w, s, hrun, hi, hs, htail, by rw [← hanchor]; rfl, rfl⟩
    · rw [Entity.adopt_close] at hd
      rw [Entity.adopt_opening]
      exact (h.arrive i hq' hd hy hyp).imp_right fun ⟨a, ha, hle⟩ => ⟨a, ha.adopt _ _, hle⟩
  · exact h.arrive i

theorem timely_run (hp : code.Paired) (hr : rules.Braceless) {j : Nat} {w' : Walk}
    (hrun : Run code rules (0, {}) (j, w')) : Timely code rules w' := by
  generalize hb : (j, w') = b at hrun
  induction hrun generalizing j w' with
  | refl =>
    cases hb
    intro p q d hq
    cases hq
  | @tail a b hrun hstep ih =>
    subst hb
    exact Timely.step (ih rfl) (sound_run hp hr hrun) hrun hp hstep

/-- Nothing is nested in a body in which nothing starts. -/
theorem nested_eq_nil (hp : code.Paired) (hr : rules.Braceless)
    (hrun : Run code rules (0, {}) (i, w)) {id d : Nat} {e : Entity}
    (he : w.forest.at? id = some e) (hd : e.close = some d)
    (hquiet : ∀ k, e.opening < k → k ≤ d → Code.Quiet code rules k) :
    Code.nested w.forest e = [] := by
  refine List.eq_nil_iff_forall_not_mem.mpr fun c hc => ?_
  have hordered := ordered_run hp hrun
  obtain ⟨cid, hcid, hparent⟩ := (hordered.mem_nested_iff he).mp hc
  rcases timely_run hp hr hrun he hd hcid hparent with ⟨k, h1, h2, -, s, hs, -⟩ | ⟨a, ha, hle⟩
  · rw [(hquiet k h1 (Nat.le_of_lt h2)).container] at hs
    cases hs
  · have hlt := Nat.lt_of_lt_of_le (hordered.after he hcid hparent) ha.start_le
    obtain ⟨v, s, -, -, hs, htail, -⟩ := ha
    exact (hquiet a hlt hle).noBody hs htail

end Walk

/-! ## Functions of a result -/

/-- A closing brace starts nothing in a built-in language. -/
theorem isQuiet_brace {language : String} {l : Language}
    (hl : Registry.builtin.lookup? language = some l) : l.isQuiet (punct "\x7d") = true := by
  rcases Registry.builtin_cases hl with rfl | rfl | rfl | rfl | rfl <;> decide

/-- A body in which nothing starts makes the decisions that are marked in it. -/
theorem Walk.decisions_reads {name : String} {l : Language} {source : String} {j id : Nat}
    {w : Walk} {e : Entity} {ms : List Marked} (hl : Registry.builtin.lookup? name = some l)
    (hrun : Walk.Run (Code.ofSource l source) l.signatures (0, {}) (j, w))
    (he : w.forest.at? id = some e)
    (hspell : (Code.ofSource l source).Spells e.opening (braces (facesOf ms)))
    (hbalanced : Balanced (facesOf ms))
    (hreads : Code.Reads (Code.ofSource l source) l (e.opening + 1) ms)
    (hmild : ∀ x, e.opening ≤ x → x ≤ e.opening + ms.length →
      (Code.ofSource l source).isPunct x "\x7b" = true →
        (Code.ofSource l source).openerWord x ∉ l.blockWords) :
    ((Code.ofSource l source).decisions l {} w.forest e).map Decision.place =
      (Code.ofSource l source).placed (e.opening + 1) ms := by
  have hp := Code.paired_ofSource l source
  have hplaced := ((Walk.ordered_run hp hrun).placed he).1
  have hclose : e.close = some (e.opening + 1 + ms.length) := by
    rw [← length_facesOf ms]
    exact hplaced.own (hspell.partner? hp .curly hbalanced)
  have hnested : Code.nested w.forest e = [] := by
    refine Walk.nested_eq_nil hp (braceless_builtin hl) hrun he hclose fun k h1 h2 => ?_
    by_cases hk : k < e.opening + 1 + ms.length
    · exact hreads.quiet h1 hk
    · obtain rfl : k = e.opening + 1 + (facesOf ms).length := by
        rw [length_facesOf]
        omega
      exact Code.quiet_of_isQuiet (Code.spells_braces hspell).2.2 (isQuiet_brace hl)
  have hstack : l.Mild [.block ((Code.ofSource l source).openerWord e.opening)] := by
    intro word hword
    cases List.mem_singleton.mp hword
    exact hmild _ (Nat.le_refl _) (Nat.le_add_right ..) hplaced.brace
  rw [Code.decisions, hnested, hclose, Option.getD_some, List.map_nil,
    Code.decisionsFrom_flat _ _ hstack fun x h1 h2 => hmild x (by omega) (by omega),
    Nat.add_sub_cancel_left, hreads.placed_eq]

/-- Functions of a result with such bodies have the decisions that are marked in them. -/
theorem analyze_reads {file source language : String} {l : Language} {r : FileResult}
    (hl : Registry.builtin.lookup? language = some l)
    (h : ({} : Engine).analyze file source language = .ok r) :
    ∃ forest, detect l (Code.ofSource l source) = .ok forest ∧ ∀ f ∈ r.all, ∃ e,
      forest.at? f.id = some e ∧ f = e.scored f.id f.decisions ∧ ∀ ms,
        (Code.ofSource l source).Spells e.opening (braces (facesOf ms)) → Balanced (facesOf ms) →
        Code.Reads (Code.ofSource l source) l (e.opening + 1) ms →
        (∀ x, e.opening ≤ x → x ≤ e.opening + ms.length →
          (Code.ofSource l source).isPunct x "\x7b" = true →
            (Code.ofSource l source).openerWord x ∉ l.blockWords) →
        f.decisions.map Decision.place = (Code.ofSource l source).placed (e.opening + 1) ms := by
  obtain ⟨l', forest, hl', hforest, hts⟩ := Engine.analyze_ok h
  obtain rfl : l = l' := Option.some.inj (hl.symm.trans hl')
  obtain ⟨j, w, hrun, -, rfl⟩ := Walk.go_run hforest
  have hordered := Walk.ordered_run (Code.paired_ofSource l source) hrun
  refine ⟨w.forest, hforest, fun f hf => ?_⟩
  obtain ⟨e, he, hscored, hdecisions⟩ := scored_of_mem_preorders hordered.linked hts hf
  refine ⟨e, he, hscored, fun ms hspell hbalanced hreads hmild => ?_⟩
  rw [hdecisions]
  exact Walk.decisions_reads hl hrun he hspell hbalanced hreads hmild

/-- The functions of a result: name, score, and the kinds and places of the decisions. -/
def FileResult.readings (r : FileResult) : List (String × Nat × List (Category × Nat)) :=
  r.all.map fun f => (f.name, f.score.toNat, f.decisions.map Decision.place)

/-! ## A file with one signature -/

/-- None of the scopes is that of a type that may hold a constructor without parameters. -/
def SignatureRules.Loose (rules : SignatureRules) (scopes : List Scope) : Prop :=
  ∀ s ∈ scopes, ∀ keyword ∈ rules.compactConstructors, s.kind ≠ .container keyword

namespace Walk

variable {code : Code} {rules : SignatureRules} {w : Walk} {i a : Nat}

theorem loose_arrive (hw : rules.Loose w.scopes)
    (hs : ∀ s, code.containerAt? rules i = some s → rules.Loose [s]) :
    rules.Loose (w.arrive code rules i).scopes := by
  have hleave : rules.Loose (w.leave i).scopes := fun s hmem =>
    hw s ((List.dropWhile_sublist _).subset hmem)
  unfold arrive enterContainer
  split
  · rename_i scope hscope
    intro s hmem
    rcases List.mem_cons.mp hmem with rfl | hmem
    · exact hs s hscope s (List.mem_singleton_self s)
    · exact hleave s hmem
  · exact hleave

/-- The walk comes to the first signature. -/
theorem run_to_first
    (hloose : ∀ k < a, ∀ s, code.containerAt? rules k = some s → rules.Loose [s])
    (hnone : ∀ k < a, ∀ scopes, rules.Loose scopes → code.signatureAt rules scopes k = .ok none)
    (ha : a ≤ code.size) :
    ∃ w, Run code rules (0, {}) (a, w) ∧ w.forest = {} ∧ rules.Loose w.scopes := by
  induction a with
  | zero => exact ⟨{}, .refl, rfl, fun s hs => nomatch hs⟩
  | succ a ih =>
    obtain ⟨w, hrun, hforest, hw⟩ := ih (fun k hk => hloose k (by omega))
      (fun k hk => hnone k (by omega)) (by omega)
    have harrive := loose_arrive hw (hloose a (by omega))
    have hstep := step_none (hnone a (by omega) _ harrive)
    refine ⟨w.arrive code rules a, hrun.tail ⟨ha, a + 1, hstep, ?_⟩, ?_, harrive⟩
    · exact (Nat.max_self _).symm
    · rw [arrive_forest, hforest]

/-- Where no function starts, none is added. -/
theorem run_after_last {j : Nat} {w' : Walk}
    (hquiet : ∀ k, i ≤ k → k < code.size → Code.Quiet code rules k)
    (hrun : Run code rules (i, w) (j, w')) :
    w'.forest.entities = w.forest.entities ∧ w'.forest.roots = w.forest.roots := by
  generalize hb : (j, w') = b at hrun
  induction hrun generalizing j w' with
  | refl =>
    cases hb
    exact ⟨rfl, rfl⟩
  | @tail a b hrun hstep ih =>
    subst hb
    obtain ⟨hentities, hroots⟩ := ih rfl
    have hle : i ≤ a.1 := Run.le hrun
    obtain ⟨hsize, next, hstep, -⟩ := hstep
    rcases step_cases hstep with ⟨rfl, -⟩ | ⟨s, brace, hs, htail, -⟩ | ⟨s, -, -, rfl⟩
    · rw [arrive_forest]
      exact ⟨hentities, hroots⟩
    · exact absurd htail ((hquiet a.1 hle hsize).noBody hs)
    · change (a.2.arrive code rules a.1).forest.entities = _ ∧
        (a.2.arrive code rules a.1).forest.roots = _
      rw [arrive_forest]
      exact ⟨hentities, hroots⟩

/-- Two places of one run, of which the second is at the end of the code. -/
theorem Run.to_end {x y z : Nat × Walk} (hy : Run code rules x y) (hz : Run code rules x z)
    (hend : code.size ≤ z.1) : Run code rules y z := by
  rcases hy.total_of_right_unique next_unique hz with h | h
  · exact h
  · rcases h.cases_head with rfl | ⟨v, hstep, -⟩
    · exact .refl
    · exact absurd hstep.1 (by omega)

/-- The forest of a file with one signature that has a body. -/
theorem forest_single {o : Nat} {s : Signature} (hp : code.Paired)
    (hloose : ∀ k ≤ a, ∀ s, code.containerAt? rules k = some s → rules.Loose [s])
    (hnone : ∀ k < a, ∀ scopes, rules.Loose scopes → code.signatureAt rules scopes k = .ok none)
    (hsize : a < code.size)
    (hs : ∀ scopes, rules.Loose scopes → code.signatureAt rules scopes a = .ok (some s))
    (htail : s.tail = .body o)
    (hquiet : ∀ k, o + 1 ≤ k → k < code.size → Code.Quiet code rules k) {j : Nat}
    (hrun : Run code rules (0, {}) (j, w)) (hend : code.size ≤ j) :
    ∃ e, w.forest.entities = #[e] ∧ w.forest.roots = [0] ∧ e.children = [] ∧ e.opening = o ∧
      e.name = code.text s.name := by
  obtain ⟨w₀, hrun₀, hforest₀, hw₀⟩ := run_to_first (fun k hk => hloose k (Nat.le_of_lt hk)) hnone
    (Nat.le_of_lt hsize)
  have hsig := hs _ (loose_arrive hw₀ (hloose a (Nat.le_refl a)))
  have hforward := Code.signatureAt_forward hp hsig
  have hlt : a < o := Nat.lt_of_le_of_lt hforward.le_name (hforward.body htail).1
  have hstep : Next code rules (a, w₀)
      (o + 1, (w₀.arrive code rules a).enterFunction code rules s o) :=
    ⟨hsize, o + 1, step_body hsig htail, by simp only; omega⟩
  obtain ⟨hentities, hroots⟩ := run_after_last hquiet (Run.to_end (hrun₀.tail hstep) hrun hend)
  have harrive : (w₀.arrive code rules a).forest = {} := by rw [arrive_forest, hforest₀]
  have hparent : ((w₀.arrive code rules a).entity code rules s o).parent = none := by
    cases hp' : ((w₀.arrive code rules a).entity code rules s o).parent with
    | none => rfl
    | some p =>
      have hlt := (ordered_run hp hrun₀).arrive.parent_lt rules s o p hp'
      rw [harrive] at hlt
      cases hlt
  have hadd : ((w₀.arrive code rules a).enterFunction code rules s o).forest =
      { entities := #[(w₀.arrive code rules a).entity code rules s o], roots := [0] } := by
    change (w₀.arrive code rules a).forest.add _ = _
    rw [harrive, Forest.add]
    simp only [hparent]
    rfl
  rw [hadd] at hentities hroots
  exact ⟨_, hentities, hroots, rfl, rfl, rfl⟩

end Walk

/-- What an analysis says of a file with one function: its name, its decisions and their number,
or that the score does not fit its word. -/
structure FindsOne (answer : Except Fault FileResult) (name : String) (ds : List Decision) :
    Prop where
  /-- A score that fits is one more than the number of decisions. -/
  found : 1 + ds.length < 2 ^ 32 → ∃ r f, answer = .ok r ∧ r.all = [f] ∧ f.name = name ∧
    f.decisions = ds ∧ f.score.toNat = 1 + ds.length
  /-- There is no result for a score that does not. -/
  overflow : 2 ^ 32 ≤ 1 + ds.length → answer = .error .overflow

/-- A function without decisions scores one. -/
theorem FindsOne.of_nil {answer : Except Fault FileResult} {name : String}
    (h : FindsOne answer name []) : ∃ r f, answer = .ok r ∧ r.all = [f] ∧ f.name = name ∧
      f.decisions = [] ∧ f.score = 1 := by
  obtain ⟨r, f, hr, hall, hname, hdecisions, hscore⟩ := h.found (by decide)
  exact ⟨r, f, hr, hall, hname, hdecisions, UInt32.toNat_inj.mp hscore⟩

/-- Decisions at marked tokens fit if the tokens do. -/
theorem FindsOne.of_marked {answer : Except Fault FileResult} {name : String} {ds : List Decision}
    {code : Code} {i : Nat} {ms : List Marked} (h : FindsOne answer name ds)
    (hds : ds.map Decision.place = code.placed i ms) (hfits : 1 + ms.length < 2 ^ 32) :
    ∃ r f, answer = .ok r ∧ r.all = [f] ∧ f.name = name ∧ f.decisions = ds ∧
      f.score.toNat = 1 + ds.length := by
  have hle := code.length_placed_le i ms
  rw [← hds, List.length_map] at hle
  exact h.found (by omega)

/-- In a file with one signature that has a body, one function is found. -/
theorem analyze_single {language : String} {l : Language}
    (hl : Registry.builtin.lookup? language = some l) (file source : String) {a o : Nat}
    {s : Signature}
    (hloose : ∀ k ≤ a, ∀ s, (Code.ofSource l source).containerAt? l.signatures k = some s →
      l.signatures.Loose [s])
    (hnone : ∀ k < a, ∀ scopes, l.signatures.Loose scopes →
      (Code.ofSource l source).shapeAt l.signatures scopes k = .ok none)
    (hsize : a < (Code.ofSource l source).size)
    (hs : ∀ scopes, l.signatures.Loose scopes →
      (Code.ofSource l source).shapeAt l.signatures scopes a = .ok (some s))
    (htail : s.tail = .body o)
    (hquiet : ∀ k, o + 1 ≤ k → k < (Code.ofSource l source).size →
      Code.Quiet (Code.ofSource l source) l.signatures k) :
    ∃ j w e, Walk.Run (Code.ofSource l source) l.signatures (0, {}) (j, w) ∧
      w.forest.at? 0 = some e ∧ e.opening = o ∧
      FindsOne (({} : Engine).analyze file source language)
        ((Code.ofSource l source).text s.name)
        ((Code.ofSource l source).decisions l {} w.forest e) := by
  have hr := braceless_builtin hl
  have hp := Code.paired_ofSource l source
  have hrange := Code.inRange_builtin hl source
  obtain ⟨forest, hforest, j, w, hrun, hj, rfl⟩ := detect_run_builtin hl source
  simp only [← hrange.signatures.signatureAt] at hnone hs
  obtain ⟨e, hentities, hroots, hchildren, hopen, hname⟩ :=
    Walk.forest_single hp hloose hnone hsize hs htail hquiet hrun hj
  have hat : ∀ {id x}, w.forest.at? id = some x → id = 0 ∧ x = e := by
    intro id x hx
    have hlt := Forest.lt_size_of_at? hx
    rw [Forest.at?, hentities] at hx
    rw [hentities] at hlt
    obtain rfl : id = 0 := Nat.lt_one_iff.mp hlt
    exact ⟨rfl, (Option.some.inj hx).symm⟩
  have he : w.forest.at? 0 = some e := by
    rw [Forest.at?, hentities]
    rfl
  have hsound := Walk.sound_run hp hr hrun
  have hspan : ∀ x ∈ w.forest.entities,
      (Code.ofSource l source).spanFault? w.forest x = none := fun x hx => by
    obtain ⟨id, hid⟩ := Forest.mem_entities.mp hx
    obtain ⟨rfl, rfl⟩ := hat hid
    refine hsound.spanFault?_eq_none hid fun hc _ => ?_
    obtain ⟨-, rfl⟩ := hat hc
    exact Nat.le_refl _
  have hsum : incrementSum ((Code.ofSource l source).decisions l {} w.forest e) =
      ((Code.ofSource l source).decisions l {} w.forest e).length :=
    incrementSum_of_ones fun d hd => Code.increment_of_builtin hl hd
  refine ⟨j, w, e, hrun, he, hopen, ?_⟩
  rw [Engine.analyze_of_lookup? hl, analyzeIn_of_detect hforest]
  constructor
  · intro hfits
    have hflat : ∀ {id x}, w.forest.at? id = some x →
        (Code.ofSource l source).score l {} w.forest x =
          .ok ((Code.ofSource l source).decisions l {} w.forest x) ∧ x.children = [] := by
      intro id x hx
      obtain ⟨rfl, rfl⟩ := hat hx
      refine ⟨Code.score_eq_ok_iff.mpr ⟨hspan x (Forest.mem_entities.mpr ⟨0, he⟩), ?_, rfl⟩,
        hchildren⟩
      rwa [hrange.overflows_eq_false_iff, hsum]
    have htrees : scoredTrees l {} (Code.ofSource l source) w.forest w.forest.entities.size
        w.forest.roots = .ok [.node (e.scored 0
          ((Code.ofSource l source).decisions l {} w.forest e)) []] := by
      rw [hroots, hentities]
      exact (scoredTrees_flat hflat 0 [0]).trans (by rw [List.filterMap_cons, he]; rfl)
    rw [htrees]
    refine ⟨_, e.scored 0 ((Code.ofSource l source).decisions l {} w.forest e), rfl, rfl, hname,
      rfl, ?_⟩
    rw [← hsum] at hfits ⊢
    exact toNat_scoreOf hfits
  · intro hlong
    rw [(scoredTrees_of_spans hsound.linked hrange hspan).2]
    · rfl
    · intro hfits
      have hlt := hfits e (Forest.mem_entities.mpr ⟨0, he⟩)
      rw [hsum] at hlt
      exact Nat.not_lt.mpr hlong hlt

/-- What a file with one signature says of a body in which nothing starts. -/
theorem analyze_single_reads {language : String} {l : Language}
    (hl : Registry.builtin.lookup? language = some l) (file source : String) {a o : Nat}
    {s : Signature} {ms : List Marked}
    (hloose : ∀ k ≤ a, ∀ s, (Code.ofSource l source).containerAt? l.signatures k = some s →
      l.signatures.Loose [s])
    (hnone : ∀ k < a, ∀ scopes, l.signatures.Loose scopes →
      (Code.ofSource l source).shapeAt l.signatures scopes k = .ok none)
    (hsize : a < (Code.ofSource l source).size)
    (hs : ∀ scopes, l.signatures.Loose scopes →
      (Code.ofSource l source).shapeAt l.signatures scopes a = .ok (some s))
    (htail : s.tail = .body o)
    (hspell : (Code.ofSource l source).Spells o (braces (facesOf ms)))
    (hbalanced : Balanced (facesOf ms))
    (hreads : Code.Reads (Code.ofSource l source) l (o + 1) ms)
    (hmild : ∀ x, o ≤ x → x ≤ o + ms.length → (Code.ofSource l source).isPunct x "\x7b" = true →
      (Code.ofSource l source).openerWord x ∉ l.blockWords)
    (hafter : ∀ k, o + 1 + ms.length ≤ k → k < (Code.ofSource l source).size →
      Code.Quiet (Code.ofSource l source) l.signatures k) :
    ∃ ds, FindsOne (({} : Engine).analyze file source language)
        ((Code.ofSource l source).text s.name) ds ∧
      ds.map Decision.place = (Code.ofSource l source).placed (o + 1) ms := by
  have hquiet : ∀ k, o + 1 ≤ k → k < (Code.ofSource l source).size →
      Code.Quiet (Code.ofSource l source) l.signatures k := fun k h1 h2 => by
    by_cases hk : k < o + 1 + ms.length
    · exact hreads.quiet h1 hk
    · exact hafter k (Nat.le_of_not_lt hk) h2
  obtain ⟨j, w, e, hrun, he, rfl, hfinds⟩ :=
    analyze_single hl file source hloose hnone hsize hs htail hquiet
  exact ⟨_, hfinds, Walk.decisions_reads hl hrun he hspell hbalanced hreads hmild⟩

theorem opening_of_single {forest : Forest} {id o : Nat} {e : Entity}
    (h : forest.entities.toList.map (·.opening) = [o]) (he : forest.at? id = some e) :
    e.opening = o := by
  have hmem : e ∈ forest.entities.toList :=
    List.mem_of_getElem? (by rw [Array.getElem?_toList]; exact he)
  have hopening : e.opening ∈ forest.entities.toList.map (·.opening) := List.mem_map_of_mem hmem
  rw [h] at hopening
  exact List.mem_singleton.mp hopening

/-! ## A file with one introduced function -/

/-- The tokens of a function that a keyword introduces, without parameters. -/
def functionUnit (keyword name : String) (body : List Face) : List Face :=
  word keyword :: (.identifier, name) :: (parens [] ++ braces body)

/-- The body of the function. -/
theorem Code.spells_functionUnit {code : Code} {keyword name : String} {body : List Face}
    (h : code.faces = functionUnit keyword name body) : code.Spells 4 (braces body) := by
  have hspell : code.Spells 0 (functionUnit keyword name body) := by
    rw [← h]
    exact List.prefix_rfl
  exact (Code.spells_append.mp (Code.spells_cons.mp (Code.spells_cons.mp hspell).2).2).2

/-- No guard asks for the block of the function if its name is no word of a guard and no block
opens in its body. -/
theorem Code.mild_functionUnit {code : Code} {l : Language} {keyword name : String}
    {body : List Face} (hp : code.Paired) (h : code.faces = functionUnit keyword name body)
    (hname : name ∉ l.blockWords) (hbody : punct "\x7b" ∉ body) (x : Nat) (hx : 4 ≤ x)
    (hend : x ≤ 4 + body.length) (hbrace : code.isPunct x "\x7b" = true) :
    code.openerWord x ∉ l.blockWords := by
  have hspell := Code.spells_functionUnit h
  rcases Nat.eq_or_lt_of_le hx with rfl | hlt
  · have hhead : code.Spells 1 ((.identifier, name) :: parens []) := by
      have hall : code.Spells 0 (functionUnit keyword name body) := by
        rw [← h]
        exact List.prefix_rfl
      obtain ⟨hn, hrest⟩ := Code.spells_cons.mp (Code.spells_cons.mp hall).2
      exact Code.spells_cons.mpr ⟨hn, (Code.spells_append.mp hrest).1⟩
    have hword : code.openerWord 4 = name := Code.openerWord_parens hp hhead .nil
    rwa [hword]
  · -- Any other brace would be a token of the body.
    obtain ⟨n, rfl⟩ := Nat.exists_eq_add_of_le (Nat.succ_le_of_lt hlt)
    exact absurd ((Code.spells_braces hspell).2.1.mem (by omega) (Code.face?_of_isPunct hbrace))
      hbody

/-- The table takes a keyword, a name and empty parentheses before a brace for a function. -/
structure SignatureRules.Introduces (rules : SignatureRules) (keyword name : String) : Prop where
  /-- The keyword introduces functions. -/
  introducer : keyword ∈ rules.introducers
  /-- It opens no type. -/
  noContainer : keyword ∉ rules.containerKeywords
  /-- The name is no marker behind the keyword. -/
  noMarker : name ∉ rules.introducerMarkers
  /-- The name is no angle. -/
  noAngle : name ≠ "<"
  /-- There is no receiver in parentheses. -/
  noReceiver : rules.receiverGroup = false
  /-- A brace is no return type. -/
  noReturn : rules.returnSeparator ≠ some "\x7b"
  /-- A brace is no clause. -/
  noClause : "\x7b" ∉ rules.clauseKeywords
  /-- Return types have a separator. -/
  noFreeReturn : rules.freeReturn = false

namespace Code

variable {code : Code} {rules : SignatureRules} {i : Nat} {keyword name : String}
  {body : List Face}

theorem tailAt?_brace (h : rules.Introduces keyword name)
    (hbrace : code.face? i = some (punct "\x7b")) : code.tailAt? rules i = some (.body i) := by
  have htype : code.skipReturnType rules i = i := by
    unfold skipReturnType
    rw [if_neg (by simp [text_of_face hbrace, h.noReturn])]
  have hclauses : code.skipClauses rules i = i := by
    rw [skipClauses, dif_neg (by simp [isWordIn, text_of_face hbrace, h.noClause])]
  rw [tailAt?, htype, hclauses, h.noFreeReturn]
  simp [isPunct_of_face hbrace]

theorem shapeAt_introduced (h : rules.Introduces keyword name) (hp : code.Paired)
    (hspell : code.Spells i (functionUnit keyword name body)) (scopes : List Scope) :
    code.shapeAt rules scopes i =
      .ok (some { form := .introduced, anchor := i, name := i + 1, tail := .body (i + 4) }) := by
  obtain ⟨hword, hrest⟩ := spells_cons.mp hspell
  obtain ⟨hname, hrest⟩ := spells_cons.mp hrest
  obtain ⟨hparens, hbraces⟩ := spells_append.mp hrest
  have hopen := (spells_cons.mp hparens).1
  have hbrace : code.face? (i + 4) = some (punct "\x7b") := (spells_cons.mp hbraces).1
  have hclose : code.partner? (i + 1 + 1) = some (i + 3) := hparens.partner? hp .round .nil
  have hcompact : code.compactForm? rules scopes i = none := by
    simp [compactForm?, isKind_of_face hword]
  have hintro : code.isWordIn i rules.introducers = true := by
    simp [isWordIn, isWord_of_face hword, text_of_face hword, h.introducer]
  have hmarkers : code.skipMarkers rules (i + 1) = .ok (i + 1) := by
    rw [skipMarkers, dif_pos (lt_size_of_face hname),
      if_neg (by simp [text_of_face hname, h.noMarker])]
  have hgenerics : ∀ {j f}, code.face? j = some f → f.2 ≠ "<" → code.skipGenerics rules j = j := by
    intro j f hf hne
    rw [skipGenerics, code.skipAngles?_of_text (by rwa [text_of_face hf])]
    split <;> rfl
  have hnameAt : code.nameAt? rules (i + 1) = some ([], i + 1) := by
    have hafter : code.afterReceiver rules (i + 1) = i + 1 + 1 := by
      unfold afterReceiver
      rw [hgenerics hopen (by decide)]
      simp [text_of_face hopen]
    have hchain : code.receiverChain rules (i + 1) = ([], i + 1) := by
      rw [receiverChain]
      simp [hafter, isPunct_of_face hopen]
    unfold nameAt?
    rw [hchain, isKind_of_face hname]
    simp
  have htype : code.skipTypeParams rules (i + 1 + 1) = i + 1 + 1 :=
    skipTypeParams_of_face hopen (by decide) (by decide)
  have hparams : code.params? (i + 1 + 1) = some (i + 3) := by
    rw [params?, if_pos (by simp [isPunct_of_face hopen]), hclose]
  unfold shapeAt
  rw [hcompact, if_pos hintro, introducedForm, hmarkers]
  simp only [Except.map, introducedFrom?, receiverAt?, hgenerics hname h.noAngle, h.noReceiver,
    Bool.false_and, Bool.false_eq_true, if_false, Option.bind_eq_bind, Option.bind_some, hnameAt,
    htype, hparams, tailAt?_brace h hbrace]
  rfl

end Code

/-- In a file with one introduced function, in whose body nothing starts, that function is found
with its marked decisions. -/
theorem analyze_functionUnit {language : String} {l : Language}
    (hl : Registry.builtin.lookup? language = some l) (file source : String)
    {keyword name : String} (h : l.signatures.Introduces keyword name) {ms : List Marked}
    (hfaces : (Code.ofSource l source).faces = functionUnit keyword name (facesOf ms))
    (hbalanced : Balanced (facesOf ms))
    (hreads : Code.Reads (Code.ofSource l source) l 5 ms)
    (hmild : ∀ x, 4 ≤ x → x ≤ 4 + ms.length → (Code.ofSource l source).isPunct x "\x7b" = true →
      (Code.ofSource l source).openerWord x ∉ l.blockWords) :
    ∃ ds, FindsOne (({} : Engine).analyze file source language) name ds ∧
      ds.map Decision.place = (Code.ofSource l source).placed 5 ms := by
  have hp := Code.paired_ofSource l source
  have hspell : (Code.ofSource l source).Spells 0 (functionUnit keyword name (facesOf ms)) := by
    rw [← hfaces]
    exact List.prefix_rfl
  obtain ⟨hword, hrest⟩ := Code.spells_cons.mp hspell
  have hname := (Code.spells_cons.mp hrest).1
  have hbraces := Code.spells_functionUnit hfaces
  have hsize : (Code.ofSource l source).size = 6 + ms.length := by
    rw [← Code.length_tokens, ← List.length_map (f := Token.face), ← Code.faces, hfaces]
    simp [functionUnit, parens, braces]
    omega
  have hloose : ∀ k ≤ 0, ∀ s, (Code.ofSource l source).containerAt? l.signatures k = some s →
      l.signatures.Loose [s] := by
    intro k hk s hs
    obtain rfl := Nat.le_zero.mp hk
    rw [Code.containerAt?_of_text hword h.noContainer] at hs
    cases hs
  have hafter : ∀ k, 5 + ms.length ≤ k → k < (Code.ofSource l source).size →
      Code.Quiet (Code.ofSource l source) l.signatures k := fun k h1 h2 => by
    obtain rfl : k = 4 + 1 + (facesOf ms).length := by
      rw [length_facesOf]
      omega
    exact Code.quiet_of_isQuiet (Code.spells_braces hbraces).2.2 (isQuiet_brace hl)
  have htext : (Code.ofSource l source).text 1 = name := Code.text_of_face hname
  rw [← htext]
  exact analyze_single_reads hl file source hloose (fun k hk => absurd hk (Nat.not_lt_zero k))
    (Code.lt_size_of_face hword) (fun scopes _ => Code.shapeAt_introduced h hp hspell scopes)
    rfl hbraces hbalanced hreads hmild hafter

/-! ## A class with one method -/

/-- The tokens of a class with one method without parameters. -/
def methodUnit (c : Ident) (type : Primitive) (m : Ident) (body : List Face) : List Face :=
  word "class" :: c.face :: punct "\x7b" :: word type.text :: m.face ::
    (parens [] ++ (braces body ++ [punct "\x7d"]))

namespace Code

variable {code : Code} {c m : Ident} {type : Primitive} {body : List Face}

theorem spells_methodUnit (h : code.faces = methodUnit c type m body) :
    code.Spells 0 (methodUnit c type m body) ∧
      code.Spells 7 (braces body ++ [punct "\x7d"]) := by
  have hspell : code.Spells 0 (methodUnit c type m body) := by
    rw [← h]
    exact List.prefix_rfl
  have hname := (spells_cons.mp (spells_cons.mp (spells_cons.mp hspell).2).2).2
  exact ⟨hspell, (spells_append.mp (spells_cons.mp (spells_cons.mp hname).2).2).2⟩

/-- No signature stands before the name of the method. -/
theorem shapeAt_methodUnit (hspell : code.Spells 0 (methodUnit c type m body)) {k : Nat}
    (hk : k < 4) {scopes : List Scope} (h : NoRecord scopes) :
    code.shapeAt javaRules scopes k = .ok none := by
  obtain ⟨hclass, hrest⟩ := spells_cons.mp hspell
  obtain ⟨hc, hrest⟩ := spells_cons.mp hrest
  obtain ⟨hopen, hrest⟩ := spells_cons.mp hrest
  obtain ⟨htype, -⟩ := spells_cons.mp hrest
  have hsymbol : ∀ {f : Face}, code.face? k = some f → f.1 ≠ .identifier →
      code.shapeAt javaRules scopes k = .ok none := fun hf hkind => by
    rw [shapeAt_java h, if_neg (by simp [isKind_of_face hf, hkind])]
  obtain rfl | rfl | rfl | rfl : k = 0 ∨ k = 1 ∨ k = 2 ∨ k = 3 := by omega
  · exact hsymbol hclass (by decide)
  · have hparams : code.params? (code.skipTypeParams javaRules (1 + 1)) = none := by
      rw [skipTypeParams_of_face hopen (by decide) (by decide), params?,
        if_neg (by simp [isPunct_of_face hopen])]
    rw [shapeAt_java h, typedForm?, hparams]
    simp
  · exact hsymbol hopen (by decide)
  · exact hsymbol htype (by simp)

/-- The signature of the method. -/
theorem shapeAt_method (hp : code.Paired) (hspell : code.Spells 0 (methodUnit c type m body))
    {scopes : List Scope} (h : NoRecord scopes) : code.shapeAt javaRules scopes 4 =
      .ok (some { form := .typed, anchor := 4, name := 4, tail := .body 7 }) := by
  obtain ⟨-, hrest⟩ := spells_cons.mp hspell
  obtain ⟨-, hrest⟩ := spells_cons.mp hrest
  obtain ⟨-, hrest⟩ := spells_cons.mp hrest
  obtain ⟨htype, hrest⟩ := spells_cons.mp hrest
  obtain ⟨hm, hafter⟩ := spells_cons.mp hrest
  obtain ⟨hparens, hafter⟩ := spells_append.mp hafter
  have hbrace : code.face? 7 = some (punct "\x7b") := (spells_cons.mp (spells_append.mp hafter).1).1
  have htail : code.tailAt? javaRules 7 = some (.body 7) := by
    rw [tailAt?_java, skipClauses_java hbrace (by decide),
      if_pos (by simp [isPunct_of_face hbrace])]
  have hprimitive : ∀ s ∈ primitives, s ∉ javaRules.excludedPredecessors := by decide
  have hleads : LeadsName (word type.text) := Or.inl ⟨Or.inr rfl, hprimitive _ type.valid⟩
  have hform :=
    typedForm?_method (k := 3) hp htype hleads (spells_cons.mpr ⟨hm, hparens⟩) .nil htail
  rw [shapeAt_java h, if_pos (by rw [isKind_of_face hm]; rfl)]
  exact congrArg Except.ok hform

end Code

/-- In a class with one method, in whose body nothing starts, that method is found with its marked
decisions. -/
theorem analyze_methodUnit (file source : String) {c m : Ident} {type : Primitive}
    {ms : List Marked}
    (hfaces : (Code.ofSource java source).faces = methodUnit c type m (facesOf ms))
    (hbalanced : Balanced (facesOf ms))
    (hreads : Code.Reads (Code.ofSource java source) java 8 ms) :
    ∃ ds, FindsOne (({} : Engine).analyze file source "java") m.text ds ∧
      ds.map Decision.place = (Code.ofSource java source).placed 8 ms := by
  have hl : Registry.builtin.lookup? "java" = some java := rfl
  have hp := Code.paired_ofSource java source
  obtain ⟨hspell, hbody⟩ := Code.spells_methodUnit hfaces
  obtain ⟨hbraces, hlast⟩ := Code.spells_append.mp hbody
  obtain ⟨hclass, hrest⟩ := Code.spells_cons.mp hspell
  obtain ⟨hc, hrest⟩ := Code.spells_cons.mp hrest
  obtain ⟨hopen, hrest⟩ := Code.spells_cons.mp hrest
  obtain ⟨htype, hrest⟩ := Code.spells_cons.mp hrest
  have hm := (Code.spells_cons.mp hrest).1
  have hsize : (Code.ofSource java source).size = 10 + ms.length := by
    rw [← Code.length_tokens, ← List.length_map (f := Token.face), ← Code.faces, hfaces]
    simp [methodUnit, parens, braces]
    omega
  have hloose : ∀ k ≤ 4, ∀ s, (Code.ofSource java source).containerAt? javaRules k = some s →
      javaRules.Loose [s] := by
    intro k hk s hs
    obtain rfl | rfl | rfl | rfl | rfl : k = 0 ∨ k = 1 ∨ k = 2 ∨ k = 3 ∨ k = 4 := by omega
    · intro t ht keyword hkeyword
      obtain rfl := List.mem_singleton.mp ht
      obtain ⟨-, -, brace, -, rfl⟩ := Code.containerAt?_eq_some hs
      obtain rfl := List.mem_singleton.mp hkeyword
      simp [Code.text_of_face hclass]
    · rw [Code.containerAt?_of_text hc (c.not_mem (by decide))] at hs
      cases hs
    · rw [Code.containerAt?_of_text hopen (by decide)] at hs
      cases hs
    · have hprimitive : ∀ s ∈ primitives, s ∉ javaRules.containerKeywords := by decide
      rw [Code.containerAt?_of_text htype (hprimitive _ type.valid)] at hs
      cases hs
    · rw [Code.containerAt?_of_text hm (m.not_mem (by decide))] at hs
      cases hs
  have hrecord : ∀ {scopes}, javaRules.Loose scopes → Code.NoRecord scopes :=
    fun h s hs => h s hs "record" (by decide)
  have hafter : ∀ k, 8 + ms.length ≤ k → k < (Code.ofSource java source).size →
      Code.Quiet (Code.ofSource java source) javaRules k := fun k h1 h2 => by
    by_cases hk : k = 8 + ms.length
    · rw [← length_facesOf] at hk
      subst hk
      exact Code.quiet_of_isQuiet (Code.spells_braces hbraces).2.2 (isQuiet_brace hl)
    · obtain rfl : k = 7 + (braces (facesOf ms)).length := by
        rw [Code.length_braces, length_facesOf]
        omega
      exact Code.quiet_of_isQuiet (Code.spells_cons.mp hlast).1 (isQuiet_brace hl)
  have htext : (Code.ofSource java source).text 4 = m.text := Code.text_of_face hm
  rw [← htext]
  exact analyze_single_reads hl file source hloose
    (fun k hk scopes h => Code.shapeAt_methodUnit hspell hk (hrecord h)) (by omega)
    (fun scopes h => Code.shapeAt_method hp hspell (hrecord h)) rfl hbraces hbalanced hreads
    (fun x _ _ _ => Language.Java.blockless.not_mem_blockWords _) hafter

end Cyclomatic
