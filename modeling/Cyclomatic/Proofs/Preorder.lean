import Cyclomatic.Proofs.Decisions
import Mathlib.Data.List.Sort

/-!
# Functions in pre-order

The walk numbers functions as it finds them.  The function around a new one has an open scope, and
the functions with open scopes are those around the last one found (`Walk.Threaded`).  So a function
with all that lies inside it is an interval of numbers (`Forest.Descends.of_le`), and numbers follow
the pre-order.

Scoring follows the links and makes trees.  No function is lost (`exists_subtree_of_scoredTrees`),
and a listing of the trees in pre-order has the numbers in order (`analyze_preorder`).
-/

namespace Cyclomatic

/-! ## Listing trees with a stack -/

namespace FunctionTree

mutual

/-- The number of functions of a tree. -/
def size : FunctionTree → Nat
  | .node _ cs => sizes cs + 1

/-- The number of functions of several trees. -/
def sizes : List FunctionTree → Nat
  | [] => 0
  | t :: ts => size t + sizes ts

end

theorem sizes_append (ts us : List FunctionTree) : sizes (ts ++ us) = sizes ts + sizes us := by
  induction ts with
  | nil => simp [sizes]
  | cons t ts ih => simp only [List.cons_append, sizes, ih, Nat.add_assoc]

/-- List the functions of a stack of trees: the top of the first tree, then those of its children,
which take its place on the stack. -/
def unstack : List FunctionTree → List Function
  | [] => []
  | .node f cs :: stack => f :: unstack (cs ++ stack)
termination_by stack => sizes stack
decreasing_by
  rw [sizes_append, sizes, size]
  omega

theorem preorders_append (ts us : List FunctionTree) :
    preorders (ts ++ us) = preorders ts ++ preorders us := by
  simp only [preorders_eq, List.flatMap_append]

/-- The stack lists trees in pre-order. -/
theorem unstack_eq (ts : List FunctionTree) : unstack ts = preorders ts := by
  fun_induction unstack ts with
  | case1 => rfl
  | case2 f cs stack ih =>
    rw [ih, preorders_append, preorders, preorder, List.cons_append]

mutual

theorem map_function_subtrees (t : FunctionTree) : (subtrees t).map function = preorder t := by
  cases t with
  | node f cs => rw [subtrees, preorder, List.map_cons, map_function_subtreesOf, function]

theorem map_function_subtreesOf (ts : List FunctionTree) :
    (subtreesOf ts).map function = preorders ts := by
  cases ts with
  | nil => rfl
  | cons t ts =>
    rw [subtreesOf, preorders, List.map_append, map_function_subtrees, map_function_subtreesOf]

end

theorem mem_subtrees_self (t : FunctionTree) : t ∈ subtrees t := by
  cases t with
  | node f cs => exact List.mem_cons_self ..

theorem mem_subtreesOf {s : FunctionTree} {ts : List FunctionTree} :
    s ∈ subtreesOf ts ↔ ∃ t ∈ ts, s ∈ subtrees t := by
  induction ts with
  | nil => simp [subtreesOf]
  | cons t ts ih => simp [subtreesOf, ih]

mutual

theorem child_mem_subtrees {s t c : FunctionTree} (ht : t ∈ subtrees s) (hc : c ∈ t.children) :
    c ∈ subtrees s := by
  cases s with
  | node f cs =>
    rw [subtrees] at ht ⊢
    rcases List.mem_cons.mp ht with rfl | ht
    · exact List.mem_cons_of_mem _ (mem_subtreesOf.mpr ⟨c, hc, mem_subtrees_self c⟩)
    · exact List.mem_cons_of_mem _ (child_mem_subtreesOf ht hc)

/-- The children of a tree below a list lie below the list. -/
theorem child_mem_subtreesOf {ts : List FunctionTree} {t c : FunctionTree}
    (ht : t ∈ subtreesOf ts) (hc : c ∈ t.children) : c ∈ subtreesOf ts := by
  cases ts with
  | nil => cases ht
  | cons s ts =>
    rw [subtreesOf, List.mem_append] at ht ⊢
    rcases ht with ht | ht
    · exact .inl (child_mem_subtrees ht hc)
    · exact .inr (child_mem_subtreesOf ht hc)

end

mutual

theorem forall_subtrees {P : FunctionTree → Prop} (hchild : ∀ t, P t → ∀ c ∈ t.children, P c)
    (t : FunctionTree) (ht : P t) : ∀ s ∈ subtrees t, P s := by
  cases t with
  | node f cs =>
    rw [subtrees]
    exact List.forall_mem_cons.mpr ⟨ht, forall_subtreesOf hchild cs (hchild _ ht)⟩

/-- What passes from trees to their children holds below them. -/
theorem forall_subtreesOf {P : FunctionTree → Prop} (hchild : ∀ t, P t → ∀ c ∈ t.children, P c)
    (ts : List FunctionTree) (hts : ∀ t ∈ ts, P t) : ∀ s ∈ subtreesOf ts, P s := by
  cases ts with
  | nil => exact nofun
  | cons t ts =>
    obtain ⟨ht, hts⟩ := List.forall_mem_cons.mp hts
    intro s hs
    rw [subtreesOf, List.mem_append] at hs
    rcases hs with hs | hs
    · exact forall_subtrees hchild t ht s hs
    · exact forall_subtreesOf hchild ts hts s hs

end

end FunctionTree

/-! ## Numbers of functions -/

namespace Forest

/-- The function around a function is the one before it or lies around that one. -/
def Threaded (forest : Forest) : Prop :=
  ∀ id e p, forest.at? (id + 1) = some e → e.parent = some p → forest.Descends p id

variable {forest : Forest}

/-- The functions inside another are an interval of numbers. -/
theorem Descends.of_le (h : forest.Threaded) {a b c : Nat} (hc : forest.Descends a c)
    (hab : a ≤ b) (hbc : b ≤ c) : forest.Descends a b := by
  induction c with
  | zero =>
    obtain rfl : b = 0 := Nat.le_zero.mp hbc
    exact hc
  | succ c ih =>
    rcases Nat.lt_or_eq_of_le hbc with hlt | rfl
    · -- The function `c + 1` lies inside `a`, and so does the one before it.
      cases hc with
      | refl => omega
      | child he hp hdesc => exact ih (hdesc.trans (h _ _ _ he hp)) (Nat.le_of_lt_succ hlt)
    · exact hc

/-- What lies inside a function comes before the next function with the same parent. -/
theorem Descends.lt_sibling (hlinked : forest.Linked) (h : forest.Threaded) {a b c : Nat}
    {x y : Entity} (hx : forest.at? a = some x) (hy : forest.at? b = some y)
    (hparent : x.parent = y.parent) (hab : a < b) (hc : forest.Descends a c) : c < b := by
  by_contra hle
  exact Descends.ne hlinked hx hy hparent hab (hc.of_le h (Nat.le_of_lt hab) (Nat.le_of_not_lt hle))
    .refl rfl

theorem Threaded.add (h : forest.Threaded) {e : Entity}
    (hparent : ∀ p, e.parent = some p → p < forest.entities.size ∧
      forest.Descends p (forest.entities.size - 1)) : (forest.add e).Threaded := by
  intro id x p hx hp
  rcases at?_add_cases (fun p hp => (hparent p hp).1) hx with ⟨hid, rfl⟩ | ⟨y, hy, rfl⟩
  · obtain ⟨-, hdesc⟩ := hparent p hp
    rw [← hid, Nat.add_sub_cancel] at hdesc
    exact hdesc.add x
  · rw [Entity.adopt_parent] at hp
    exact (h id y p hy hp).add e

end Forest

namespace Walk

variable {code : Code} {rules : SignatureRules} {i : Nat} {w : Walk}

/-- The functions with open scopes are those around the last one found, and so it was with each
function before it. -/
structure Threaded (w : Walk) : Prop where
  forest : w.forest.Threaded
  openScopes : ∀ id ∈ openIds w.scopes, w.forest.Descends id (w.forest.entities.size - 1)

theorem threaded_start : Threaded {} :=
  ⟨fun id e p h => by simp [Forest.at?] at h, nofun⟩

theorem Threaded.arrive (h : Threaded w) (code : Code) (rules : SignatureRules) (i : Nat) :
    Threaded (w.arrive code rules i) := by
  have hids : ∀ id ∈ openIds (w.arrive code rules i).scopes, id ∈ openIds w.scopes := by
    obtain ⟨gone, hsplit, -⟩ := leave_split w i
    have hstay : ∀ id ∈ openIds (w.leave i).scopes, id ∈ openIds w.scopes := by
      intro id hid
      rw [hsplit, openIds, List.filterMap_append]
      exact List.mem_append_right _ hid
    intro id hid
    unfold Walk.arrive Walk.enterContainer at hid
    split at hid
    · rename_i s hs
      rw [openIds_cons, Scope.id?, (containerAt?_scope hs).2] at hid
      exact hstay id hid
    · exact hstay id hid
  constructor
  · rw [arrive_forest]
    exact h.forest
  · rw [arrive_forest]
    exact fun id hid => h.openScopes id (hids id hid)

theorem Threaded.enterFunction (h : Threaded w) (hordered : Ordered code i w) (s : Signature)
    (brace : Nat) : Threaded (w.enterFunction code rules s brace) := by
  have hparent : ∀ p, (w.entity code rules s brace).parent = some p →
      p < w.forest.entities.size ∧ w.forest.Descends p (w.forest.entities.size - 1) := by
    intro p hp
    refine ⟨hordered.parent_lt rules s brace p hp, h.openScopes p (List.mem_of_mem_head? ?_)⟩
    rw [← innermost?_id]
    exact hp
  have hnew := Forest.at?_add_new fun p hp => (hparent p hp).1
  have hlast : (w.enterFunction code rules s brace).forest.entities.size - 1 =
      w.forest.entities.size := by
    change (w.forest.add (w.entity code rules s brace)).entities.size - 1 = _
    rw [Forest.size_add, Nat.add_sub_cancel]
  refine ⟨h.forest.add hparent, fun id hid => ?_⟩
  rw [hlast]
  rcases List.mem_cons.mp hid with rfl | hid
  · exact .refl
  · -- The innermost function is around the new one, and all open ones are around it.
    obtain ⟨p, q, hq, hinner, hle⟩ := hordered.le_innermost hid
    have hp : (w.entity code rules s brace).parent = some p := by simp [entity, hinner]
    have hdesc := (h.openScopes id hid).of_le h.forest hle
      (Nat.le_sub_one_of_lt (hparent p hp).1)
    exact .child hnew hp (hdesc.add _)

theorem Threaded.declare (h : Threaded w) (code : Code) (s : Signature) :
    Threaded (w.declare code s) := by
  have hdesc : ∀ {a b}, w.forest.Descends a b → (w.declare code s).forest.Descends a b :=
    fun hab => hab.mono fun hid => ⟨_, hid, rfl⟩
  exact ⟨fun id e p he hp => hdesc (h.forest id e p he hp),
    fun id hid => hdesc (h.openScopes id hid)⟩

theorem Threaded.step {j : Nat} {w' : Walk} (h : Threaded w)
    (hordered : Ordered code i w) (hstep : Next code rules (i, w) (j, w')) : Threaded w' := by
  obtain ⟨-, next, hstep, -⟩ := hstep
  simp only at hstep
  rcases step_cases hstep with ⟨rfl, -⟩ | ⟨s, brace, -, -, rfl, -⟩ | ⟨s, -, -, rfl⟩
  · exact h.arrive code rules i
  · exact (h.arrive code rules i).enterFunction hordered.arrive s brace
  · exact (h.arrive code rules i).declare code s

/-- The walk numbers functions in pre-order. -/
theorem threaded_run (hp : code.Paired) {j : Nat} {w' : Walk}
    (hrun : Run code rules (0, {}) (j, w')) : Threaded w' := by
  generalize hb : (j, w') = b at hrun
  induction hrun generalizing j w' with
  | refl => cases hb; exact threaded_start
  | @tail a b hrun hstep ih =>
    subst hb
    exact (ih rfl).step (ordered_run hp hrun) hstep

end Walk

/-! ## Trees of functions -/

section Trees

variable {l : Language} {options : ScoringOptions} {code : Code} {forest : Forest}

/-- Every function of a list has a tree. -/
theorem map_id_scoredTrees {depth : Nat} {ids : List Nat} {ts : List FunctionTree}
    (h : scoredTrees l options code forest (depth + 1) ids = .ok ts)
    (hids : ∀ id ∈ ids, ∃ e, forest.at? id = some e) : ts.map (·.function.id) = ids := by
  rw [scoredTrees_succ] at h
  induction ids generalizing ts with
  | nil => cases h; rfl
  | cons id ids ih =>
    obtain ⟨o, us, ho, hus, rfl⟩ := filterMapM_cons_ok h
    obtain ⟨⟨e, he⟩, hids⟩ := List.forall_mem_cons.mp hids
    obtain ⟨-, vs, -, rfl⟩ := scoredTree?_ok he ho
    rw [Option.toList_some, List.singleton_append, List.map_cons, ih hus hids]
    rfl

/-- The tree of a function of the forest.  It has as many levels below it as there may be. -/
def Grown (l : Language) (options : ScoringOptions) (code : Code) (forest : Forest)
    (t : FunctionTree) : Prop :=
  ∃ e depth us, forest.at? t.function.id = some e ∧
    forest.entities.size - 1 - t.function.id ≤ depth ∧
    scoredTrees l options code forest depth e.children = .ok us ∧
    t = .node (e.scored t.function.id (code.decisions l options forest e)) us

theorem Grown.function_scored {t : FunctionTree} (h : Grown l options code forest t) :
    ∃ e, forest.at? t.function.id = some e ∧
      t.function = e.scored t.function.id (code.decisions l options forest e) := by
  obtain ⟨e, depth, us, he, -, -, ht⟩ := h
  exact ⟨e, he, congrArg FunctionTree.function ht⟩

/-- The function of a tree is determined by its number. -/
theorem Grown.function_eq {s t : FunctionTree} (hs : Grown l options code forest s)
    (ht : Grown l options code forest t) (hid : s.function.id = t.function.id) :
    s.function = t.function := by
  obtain ⟨x, hx, hs⟩ := hs.function_scored
  obtain ⟨y, hy, ht⟩ := ht.function_scored
  rw [hid] at hx hs
  obtain rfl := Option.some.inj (hx.symm.trans hy)
  rw [hs, ← ht]

/-- The children of a tree are the trees of the functions that its function lists. -/
theorem Grown.children (hlinked : forest.Linked) {t : FunctionTree}
    (h : Grown l options code forest t) :
    (∀ c ∈ t.children, Grown l options code forest c) ∧
      ∀ id, (∃ c ∈ t.children, c.function.id = id) ↔
        ∃ e, forest.at? id = some e ∧ e.parent = some t.function.id := by
  obtain ⟨e, depth, us, he, hdepth, hus, ht⟩ := h
  have hchildren : t.children = us := by
    rw [ht]
    rfl
  rw [hchildren]
  have hlt := Forest.lt_size_of_at? he
  cases depth with
  | zero =>
    cases hus
    refine ⟨nofun, fun id => ⟨nofun, ?_⟩⟩
    -- The last function has nothing inside it.
    rintro ⟨c, hc, hparent⟩
    have := hlinked.earlier hc hparent
    have := Forest.lt_size_of_at? hc
    omega
  | succ depth =>
    have hids := map_id_scoredTrees hus fun id hid =>
      ((hlinked.children he).mp hid).imp fun _ => And.left
    have hmem : ∀ id, (∃ c ∈ us, c.function.id = id) ↔
        ∃ e, forest.at? id = some e ∧ e.parent = some t.function.id := by
      intro id
      rw [← hlinked.children he, ← hids, List.mem_map]
    refine ⟨fun c hc => ?_, hmem⟩
    obtain ⟨x, vs, hx, hvs, hnode⟩ := (scoredTrees_ok hus).2 c hc
    obtain ⟨y, hy, hparent⟩ := (hmem c.function.id).mp ⟨c, hc, rfl⟩
    have := hlinked.earlier hy hparent
    have := Forest.lt_size_of_at? hy
    exact ⟨x, depth, vs, hx, by omega, hvs, hnode⟩

variable {ts : List FunctionTree}

/-- The trees of the roots, and those below them. -/
theorem grown_of_scoredTrees (hlinked : forest.Linked)
    (h : scoredTrees l options code forest forest.entities.size forest.roots = .ok ts) :
    (∀ t ∈ FunctionTree.subtreesOf ts, Grown l options code forest t) ∧
      ∀ id, (∃ t ∈ ts, t.function.id = id) ↔ ∃ e, forest.at? id = some e ∧ e.parent = none := by
  cases hn : forest.entities.size with
  | zero =>
    rw [hn] at h
    cases h
    refine ⟨nofun, fun id => ⟨nofun, ?_⟩⟩
    rintro ⟨e, he, -⟩
    have := Forest.lt_size_of_at? he
    omega
  | succ n =>
    rw [hn] at h
    have hids := map_id_scoredTrees h fun id hid =>
      (hlinked.roots.mp hid).imp fun _ => And.left
    refine ⟨FunctionTree.forall_subtreesOf (fun t ht => (ht.children hlinked).1) ts ?_, ?_⟩
    · intro t ht
      obtain ⟨e, us, he, hus, hnode⟩ := (scoredTrees_ok h).2 t ht
      exact ⟨e, n, us, he, by omega, hus, hnode⟩
    · intro id
      rw [← hlinked.roots, ← hids, List.mem_map]

/-- No function is lost. -/
theorem exists_subtree_of_scoredTrees (hlinked : forest.Linked)
    (h : scoredTrees l options code forest forest.entities.size forest.roots = .ok ts) {id : Nat}
    (hid : id < forest.entities.size) :
    ∃ t ∈ FunctionTree.subtreesOf ts, t.function.id = id := by
  obtain ⟨hgrown, hroots⟩ := grown_of_scoredTrees hlinked h
  induction id using Nat.strongRecOn with
  | _ id ih =>
    have he : forest.at? id = some forest.entities[id] := Array.getElem?_eq_getElem hid
    cases hparent : forest.entities[id].parent with
    | none =>
      obtain ⟨t, ht, hid⟩ := (hroots id).mpr ⟨_, he, hparent⟩
      exact ⟨t, FunctionTree.mem_subtreesOf.mpr ⟨t, ht, t.mem_subtrees_self⟩, hid⟩
    | some p =>
      have hlt := hlinked.earlier he hparent
      obtain ⟨t, ht, rfl⟩ := ih p hlt (Nat.lt_trans hlt hid)
      obtain ⟨c, hc, hid⟩ := (((hgrown t ht).children hlinked).2 id).mpr ⟨_, he, hparent⟩
      exact ⟨c, FunctionTree.child_mem_subtreesOf ht hc, hid⟩

/-- The numbers of the functions in pre-order. -/
theorem map_id_preorders (hlinked : forest.Linked) (hthreaded : forest.Threaded)
    (h : scoredTrees l options code forest forest.entities.size forest.roots = .ok ts) :
    (FunctionTree.preorders ts).map (·.id) = List.range forest.entities.size := by
  have hsorted : (FunctionTree.preorders ts).Pairwise fun f g => f.id < g.id :=
    pairwise_preorders_of hlinked id
      (fun hx hy hsame hlt ha hb =>
        Nat.lt_of_lt_of_le (ha.lt_sibling hlinked hthreaded hx hy hsame hlt) (hb.le hlinked))
      h hlinked.rootOrder fun hid => hlinked.roots.mp hid
  refine List.Pairwise.eq_of_mem_iff (List.pairwise_map.mpr hsorted) List.pairwise_lt_range ?_
  intro id
  rw [← FunctionTree.map_function_subtreesOf, List.map_map, List.mem_map, List.mem_range]
  constructor
  · rintro ⟨t, ht, rfl⟩
    obtain ⟨e, he, -⟩ := ((grown_of_scoredTrees hlinked h).1 t ht).function_scored
    exact Forest.lt_size_of_at? he
  · exact fun hid => exists_subtree_of_scoredTrees hlinked h hid

end Trees

/-! ## Analyses -/

/-- The functions of a result in pre-order have the numbers `0`, `1`, … up to the number of the
functions detected.  A function refers to the one whose children hold it, or to none at the top, and
bodies open in the order of the numbers. -/
theorem analyze_preorder (engine : Engine) (file source language : String) (r : FileResult)
    (h : engine.analyze file source language = .ok r) :
    ∃ l forest, engine.registry.lookup? language = some l ∧
      detect l (Code.ofSource l source) = .ok forest ∧
      FunctionTree.unstack r.functions = r.all ∧
      r.all.map (·.id) = List.range forest.entities.size ∧
      r.total = forest.entities.size ∧
      (∀ f ∈ r.all, ∃ e, forest.at? f.id = some e ∧ f = e.scored f.id f.decisions) ∧
      (∀ f ∈ r.all, (f.parent = none ↔ ∃ t ∈ r.functions, t.function = f) ∧
        ∀ p, f.parent = some p ↔ ∃ t ∈ FunctionTree.subtreesOf r.functions,
          t.function.id = p ∧ ∃ c ∈ t.children, c.function = f) ∧
      ∀ {a b x y}, forest.at? a = some x → forest.at? b = some y → a < b →
        x.opening < y.opening := by
  obtain ⟨l, forest, hl, hforest, hts⟩ := Engine.analyze_ok h
  obtain ⟨j, w, hrun, -, rfl⟩ := Walk.go_run hforest
  have hp := Code.paired_ofSource l source
  have hordered := Walk.ordered_run hp hrun
  have hlinked := hordered.linked
  have hids := map_id_preorders hlinked (Walk.threaded_run hp hrun).forest hts
  obtain ⟨hgrown, hroots⟩ := grown_of_scoredTrees hlinked hts
  have hall : ∀ f ∈ r.all, ∃ t ∈ FunctionTree.subtreesOf r.functions, t.function = f := by
    intro f hf
    rw [FileResult.all, ← FunctionTree.map_function_subtreesOf] at hf
    exact List.mem_map.mp hf
  refine ⟨l, w.forest, hl, hforest, FunctionTree.unstack_eq _, hids, ?_, ?_, ?_,
    fun hx hy hab => hordered.opening_lt hx hy hab⟩
  · rw [FileResult.total, FileResult.all, ← List.length_map (·.id), hids, List.length_range]
  · intro f hf
    obtain ⟨t, ht, rfl⟩ := hall f hf
    obtain ⟨e, he, hscored⟩ := (hgrown t ht).function_scored
    refine ⟨e, he, hscored.trans ?_⟩
    rw [show t.function.decisions = _ from congrArg (·.decisions) hscored]
    rfl
  · intro f hf
    obtain ⟨s, hs, rfl⟩ := hall f hf
    obtain ⟨e, he, hscored⟩ := (hgrown s hs).function_scored
    have hparent : s.function.parent = e.parent := congrArg (·.parent) hscored
    refine ⟨⟨fun hnone => ?_, ?_⟩, fun p => ⟨fun hsome => ?_, ?_⟩⟩
    · obtain ⟨t, ht, hid⟩ := (hroots s.function.id).mpr ⟨e, he, hparent ▸ hnone⟩
      have hsub := FunctionTree.mem_subtreesOf.mpr ⟨t, ht, t.mem_subtrees_self⟩
      exact ⟨t, ht, (hgrown t hsub).function_eq (hgrown s hs) hid⟩
    · rintro ⟨t, ht, heq⟩
      obtain ⟨x, hx, hnone⟩ := (hroots s.function.id).mp ⟨t, ht, by rw [heq]⟩
      obtain rfl := Option.some.inj (hx.symm.trans he)
      rw [hparent, hnone]
    · rw [hparent] at hsome
      have hlt := Nat.lt_trans (hlinked.earlier he hsome) (Forest.lt_size_of_at? he)
      obtain ⟨t, ht, rfl⟩ := exists_subtree_of_scoredTrees hlinked hts hlt
      obtain ⟨hbelow, hmem⟩ := (hgrown t ht).children hlinked
      obtain ⟨c, hc, hid⟩ := (hmem s.function.id).mpr ⟨e, he, hsome⟩
      exact ⟨t, ht, rfl, c, hc, (hbelow c hc).function_eq (hgrown s hs) hid⟩
    · rintro ⟨t, ht, rfl, c, hc, heq⟩
      obtain ⟨x, hx, hsome⟩ := (((hgrown t ht).children hlinked).2 s.function.id).mp
        ⟨c, hc, by rw [heq]⟩
      obtain rfl := Option.some.inj (hx.symm.trans he)
      rw [hparent, hsome]

/-- Names and parents in pre-order, where a parenthesis cuts off the brace of the last function. -/
theorem analyze_preorder_cutOff : ∃ r, (arrowEngine ":").analyze "input"
      "function f() \x7b function g() \x7b function h() \x7b \x7d \x7d ( function k() \x7b )"
      "toy" = .ok r ∧
    r.all.map (fun f => (f.name, f.parent)) =
      [("f", none), ("g", some 0), ("h", some 1), ("k", some 0)] ∧
    r.all.map (·.id) = List.range r.total := by
  obtain ⟨r, hr, hview⟩ : ∃ r, (arrowEngine ":").analyze "input"
      "function f() \x7b function g() \x7b function h() \x7b \x7d \x7d ( function k() \x7b )"
      "toy" = .ok r ∧
      r.all.map (fun f => (f.name, f.parent)) =
        [("f", none), ("g", some 0), ("h", some 1), ("k", some 0)] :=
    exists_ok_of_view (by decide +kernel)
  obtain ⟨l, forest, -, -, -, hids, htotal, -⟩ := analyze_preorder _ _ _ _ r hr
  exact ⟨r, hr, hview, by rw [hids, htotal]⟩

end Cyclomatic
