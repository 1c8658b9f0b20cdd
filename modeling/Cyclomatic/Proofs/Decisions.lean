import Cyclomatic.Proofs.Laminar
import Cyclomatic.Proofs.Visits

/-!
# Decisions are counted once

The walk over a body moves forward.  It steps over a nested function as a whole and counts only the
token that binds it to a name, and it may jump over the body of a lambda.  So the decisions of a
function stand in the order of the source, and outside the functions nested in it
(`Code.CountsFor`).

Two functions never count the same token if what binds a function stands before its end
(`Forest.Bound`).  This is so for every table whose words hold no closing brace.  With such a word a
signature may reach over the end of the function around it, and the binding is then counted there
and in the function further out (`strayArrow_counted_twice`).
-/

namespace Cyclomatic

/-! ## The walk over a body -/

/-- Functions inside a body that ends at token `stop`, in the order of the code. -/
structure InOrder (stop : Nat) (children : List Child) : Prop where
  /-- A function and what binds it stand before the next one. -/
  order : children.Pairwise fun a b =>
    a.last < b.start ∧ ∀ x, a.binding = some x → x < b.start
  /-- What binds a function stands inside it, unless the body around it ends with it. -/
  binding : ∀ c ∈ children, ∀ x, c.binding = some x →
    c.start < x ∧ (x ≤ c.last ∨ stop ≤ c.last + 1)

theorem InOrder.sublist {stop : Nat} {children rest : List Child} (h : InOrder stop children)
    (hsub : rest.Sublist children) : InOrder stop rest :=
  ⟨h.order.sublist hsub, fun c hc => h.binding c (hsub.subset hc)⟩

/-- A token that the walk counts from token `k` on: one of the body itself, or one that binds a
nested function. -/
def Counted (stop k : Nat) (children : List Child) (x : Nat) : Prop :=
  (k ≤ x ∧ x < stop ∧ ∀ c ∈ children, c.last < x ∨ x < c.start) ∨
    ∃ c ∈ children, c.binding = some x ∧ c.start ≤ c.last ∧ k ≤ c.last

theorem Code.Listed.counted {stop k : Nat} {children : List Child} {v : Visit}
    (h : Listed stop k children v) : Counted stop k children v.token := by
  unfold Listed at h
  split at h
  · exact Or.inr h
  · exact Or.inl h

namespace Code

variable {code : Code} {l : Language} {options : ScoringOptions}

theorem decides_of_ruleAt? {stack : List Frame} {k : Nat} {r : DecisionRule}
    (h : code.ruleAt? l stack k = some r) : code.decides k = true := by
  unfold ruleAt? at h
  split at h
  · assumption
  · cases h

/-- A token that can decide is no piece of a literal. -/
theorem exists_token_of_decides {x : Nat} (h : code.decides x = true) :
    ∃ t, code.token? x = some t ∧ t.kind ≠ .stringLiteral := by
  unfold decides isWord isKind kind? at h
  unfold token?
  cases ht : code.lexemes[x]? with
  | none => simp [ht] at h
  | some t =>
    refine ⟨t.toToken, rfl, fun hk => ?_⟩
    simp [ht, Token.isWord, hk] at h

theorem Laid.offset_lt_of_decides (hl : code.Laid) {x y : Nat} (hx : code.decides x = true)
    (hxy : x < y) : code.offset x < code.offset y := by
  obtain ⟨t, ht, hk⟩ := exists_token_of_decides hx
  exact hl.offset_lt ht hk hxy

/-- Two tokens that can decide do not share an offset. -/
theorem Laid.eq_of_offset_eq (hl : code.Laid) {x y : Nat} (hx : code.decides x = true)
    (hy : code.decides y = true) (h : code.offset x = code.offset y) : x = y := by
  rcases Nat.lt_trichotomy x y with hlt | heq | hlt
  · exact absurd h (Nat.ne_of_lt (hl.offset_lt_of_decides hx hlt))
  · exact heq
  · exact absurd h (Nat.ne_of_gt (hl.offset_lt_of_decides hy hlt))

/-- Every decision is that of a counted token. -/
theorem mem_decisionsFrom {stop k : Nat} {children : List Child} {stack : List Frame}
    (horder : InOrder stop children) {d : Decision}
    (hd : d ∈ code.decisionsFrom l options stop k children stack) :
    ∃ x r, d = code.decision x r ∧ code.decides x = true ∧ Counted stop k children x := by
  rw [← filterMap_visitsFrom] at hd
  obtain ⟨v, hv, hjudge⟩ := List.mem_filterMap.mp hd
  obtain ⟨r, hr, rfl⟩ := Option.map_eq_some_iff.mp hjudge
  have hlisted := listed_of_mem (horder.order.imp And.left) hv
  exact ⟨v.token, r, rfl, decides_of_ruleAt? hr, hlisted.counted⟩

/-- Decisions stand in the order of the source. -/
theorem pairwise_decisionsFrom (hl : code.Laid) {stop k : Nat} {children : List Child}
    {stack : List Frame} (horder : InOrder stop children) :
    (code.decisionsFrom l options stop k children stack).Pairwise
      fun a b => a.offset < b.offset := by
  fun_induction code.decisionsFrom l options stop k children stack with
  | case1 k children stack hk c rest hc hlast ih =>
    obtain ⟨gone, rfl, hgone, hstart, hle⟩ := childAt?_split hc
    have hsub : (c :: rest).Sublist (gone ++ c :: rest) := List.sublist_append_right gone _
    have hrest := horder.sublist ((List.sublist_cons_self c rest).trans hsub)
    refine List.pairwise_append.mpr ⟨?_, ih hrest, fun a ha b hb => ?_⟩
    · cases code.bindingDecision? l stack c with
      | none => exact .nil
      | some d => exact List.pairwise_singleton ..
    · obtain ⟨x, hx, ha⟩ := Option.bind_eq_some_iff.mp (Option.mem_toList.mp ha)
      obtain ⟨r, hr, rfl⟩ := Option.map_eq_some_iff.mp ha
      obtain ⟨y, r', rfl, -, hcounted⟩ := mem_decisionsFrom hrest hb
      obtain ⟨-, hin⟩ := horder.binding c (by simp) x hx
      refine hl.offset_lt_of_decides (decides_of_ruleAt? hr) ?_
      rcases hcounted with ⟨h1, h2, -⟩ | ⟨c', hc', hy, -⟩
      · omega
      · have h1 := ((List.pairwise_cons.mp (horder.order.sublist hsub)).1 c' hc').2 x hx
        have h2 := (hrest.binding c' hc' y hy).1
        omega
  | case2 k children stack hk hc stack' r hr hlt ih =>
    refine List.pairwise_cons.mpr ⟨fun b hb => ?_, ih horder⟩
    obtain ⟨y, r', rfl, -, hcounted⟩ := mem_decisionsFrom horder hb
    refine hl.offset_lt_of_decides (decides_of_ruleAt? hr) ?_
    rcases hcounted with ⟨h1, -⟩ | ⟨c, hc', hy, -, h3⟩
    · omega
    · -- A jump over a lambda may land inside a function, but not before the lambda.
      have hout := childAt?_outside (horder.order.imp And.left) hc c hc'
      have := (horder.binding c hc' y hy).1
      omega
  | case3 k children stack hk hc stack' hr ih => exact ih horder
  | case4 => exact .nil

end Code

/-! ## The functions of a forest -/

/-- A token counts for a function: it stands in the body, and in a nested function only as the
token that binds it. -/
def Code.CountsFor (code : Code) (forest : Forest) (e : Entity) (x : Nat) : Prop :=
  e.opening < x ∧ ∀ c ∈ nested forest e, c.last code.size < x ∨ x < c.start ∨
    (c.binding = some x ∧ c.start < x ∧ x < c.opening)

/-- What binds a function stands before its end, unless the function starts after its end. -/
def Forest.Bound (forest : Forest) : Prop :=
  ∀ e ∈ forest.entities, ∀ x d, e.binding = some x → e.close = some d → x < d ∨ d < e.start

namespace Walk

variable {code : Code} {rules : SignatureRules} {i id : Nat} {w : Walk} {e : Entity}

/-- The nested functions of a function are those that it is around. -/
theorem Ordered.mem_nested_iff (h : Ordered code i w) (he : w.forest.at? id = some e)
    {c : Entity} :
    c ∈ Code.nested w.forest e ↔ ∃ cid, w.forest.at? cid = some c ∧ c.parent = some id := by
  rw [mem_nested]
  constructor
  · rintro ⟨cid, hmem, hc⟩
    obtain ⟨c', hc', hparent⟩ := (h.linked.children he).mp hmem
    obtain rfl := Option.some.inj (hc'.symm.trans hc)
    exact ⟨cid, hc, hparent⟩
  · rintro ⟨cid, hc, hparent⟩
    exact ⟨cid, (h.linked.children he).mpr ⟨c, hc, hparent⟩, hc⟩

/-- What binds a nested function stands before its end, unless the body around it ends with it. -/
theorem Ordered.binding_le (h : Ordered code i w) (hp : code.Paired)
    (he : w.forest.at? id = some e) {cid : Nat} {c : Entity} (hc : w.forest.at? cid = some c)
    (hparent : c.parent = some id) {x : Nat} (hx : c.binding = some x) :
    x ≤ c.last code.size ∨ e.close = c.close := by
  obtain ⟨hplaced, -⟩ := h.placed hc
  have hlt := (hplaced.binding hx).2
  cases hd : code.partner? c.opening with
  | some d =>
    left
    have := code.lt_closer? (hp.closer?_of_opening (b := .curly) hplaced.brace hd).1
    simp only [Entity.last, hplaced.own hd, Option.getD_some]
    omega
  | none =>
    right
    exact (h.close_eq he hc hparent hd).symm

theorem Ordered.inOrder (h : Ordered code i w) (hp : code.Paired) (he : w.forest.at? id = some e) :
    InOrder (e.close.getD code.size)
      ((Code.nested w.forest e).map (Code.childOf code.size)) := by
  constructor
  · refine List.pairwise_map.mpr (List.pairwise_filterMap.mpr ?_)
    have hfollow := h.follow (h.linked.childOrder he) (h.linked.children he)
    refine (hfollow.and (h.linked.childOrder he)).imp fun ⟨hab, hlt⟩ x hx y hy => ?_
    refine ⟨(hab hx hy).2, fun k hk => ?_⟩
    exact Nat.lt_trans ((h.placed hx).1.binding hk).2 (h.opens hx hy hlt)
  · intro c hc x hx
    obtain ⟨c, hmem, rfl⟩ := List.mem_map.mp hc
    obtain ⟨cid, hcid, hparent⟩ := (h.mem_nested_iff he).mp hmem
    refine ⟨((h.placed hcid).1.binding hx).1, (h.binding_le hp he hcid hparent hx).imp_right ?_⟩
    intro hclose
    simp only [hclose, Code.childOf, Entity.last]
    cases c.close <;> simp only [Option.getD_some, Option.getD_none] <;> omega

/-- A counted token counts for the function. -/
theorem Ordered.countsFor (h : Ordered code i w) (he : w.forest.at? id = some e) {stop x : Nat}
    (hx : Counted stop (e.opening + 1) ((Code.nested w.forest e).map (Code.childOf code.size)) x) :
    code.CountsFor w.forest e x := by
  rcases hx with ⟨hopen, -, hout⟩ | ⟨c₀, hc₀, hbinding, -, -⟩
  · refine ⟨hopen, fun c hc => ?_⟩
    rcases hout _ (List.mem_map_of_mem hc) with hlt | hlt
    · exact Or.inl hlt
    · exact Or.inr (Or.inl hlt)
  · obtain ⟨c₀, hmem, rfl⟩ := List.mem_map.mp hc₀
    obtain ⟨cid₀, hcid₀, hparent₀⟩ := (h.mem_nested_iff he).mp hmem
    obtain ⟨hstart, hbrace⟩ := (h.placed hcid₀).1.binding hbinding
    refine ⟨Nat.lt_trans (h.after he hcid₀ hparent₀) hstart, fun c hc => ?_⟩
    obtain ⟨cid, hcid, hparent⟩ := (h.mem_nested_iff he).mp hc
    rcases Nat.lt_trichotomy cid cid₀ with hlt | rfl | hlt
    · have := h.last_lt hcid hcid₀ hlt (hparent.trans hparent₀.symm)
      exact Or.inl (Nat.lt_trans this hstart)
    · obtain rfl := Option.some.inj (hcid₀.symm.trans hcid)
      exact Or.inr (Or.inr ⟨hbinding, hstart, hbrace⟩)
    · exact Or.inr (Or.inl (Nat.lt_trans hbrace (h.opens hcid₀ hcid hlt)))

/-- A counted token stands before the end of the function. -/
theorem Ordered.counted_lt (h : Ordered code i w) (hbound : w.forest.Bound)
    (he : w.forest.at? id = some e)
    (hin : ∀ c ∈ Code.nested w.forest e, c.last code.size ≤ e.last code.size) {k x : Nat}
    (hx : Counted (e.close.getD code.size) k
      ((Code.nested w.forest e).map (Code.childOf code.size)) x) :
    x < e.close.getD code.size := by
  rcases hx with ⟨-, hstop, -⟩ | ⟨c, hc, hbinding, hstart, -⟩
  · exact hstop
  · obtain ⟨c, hmem, rfl⟩ := List.mem_map.mp hc
    obtain ⟨cid, hcid, hparent⟩ := (h.mem_nested_iff he).mp hmem
    obtain ⟨hplaced, -⟩ := h.placed hcid
    have hsize := code.lt_size_of_isPunct hplaced.brace
    have hopen := (hplaced.binding hbinding).2
    have hle := hin c hmem
    cases hclose : c.close with
    | some d =>
      have hd := hbound c (Forest.mem_entities.mpr ⟨cid, hcid⟩) x d hbinding hclose
      simp only [Code.childOf, Entity.last, hclose, Option.getD_some] at hstart hle
      cases he' : e.close <;> simp only [he', Option.getD_some, Option.getD_none] at hle ⊢ <;> omega
    | none =>
      have hnone : e.close = none := by
        cases hd : code.partner? c.opening with
        | some d => rw [hplaced.own hd] at hclose; cases hclose
        | none => rw [← h.close_eq he hcid hparent hd, hclose]
      simp only [hnone, Option.getD_none]
      omega

/-- A token inside a later function does not count for an earlier one.  By induction on the later
function: it starts behind the earlier one, or lies inside a function for which this is known, or
directly inside the earlier one, which counts at most its binding. -/
theorem Ordered.not_countsFor (h : Ordered code i w)
    (hin : ∀ {p q}, w.forest.at? p = some q → ∀ {id e}, w.forest.at? id = some e →
      e.parent = some p → e.last code.size ≤ q.last code.size)
    {a b k : Nat} {x y : Entity} (hx : w.forest.at? a = some x) (hy : w.forest.at? b = some y)
    (hab : a < b) (hcounts : code.CountsFor w.forest x k) (hend : k < x.close.getD code.size)
    (hopen : y.opening < k) (hlast : k ≤ y.last code.size) : False := by
  induction b using Nat.strongRecOn generalizing y with
  | _ b ih =>
    have hstart := (h.placed hy).1.start_le
    rcases h.apart hx hy hab with ⟨d, hd, hlt⟩ | ⟨p, hp, hle⟩
    · simp only [hd, Option.getD_some] at hend
      omega
    · have hpb := h.linked.earlier hy hp
      rcases Nat.lt_or_eq_of_le hle with hap | rfl
      · obtain ⟨q, hq⟩ := h.linked.exists_parent hy hp
        have hafter := h.after hq hy hp
        have hwithin := hin hq hy hp
        exact ih p hpb hq hap (by omega) (by omega)
      · have hmem := (h.mem_nested_iff hx).mpr ⟨b, hy, hp⟩
        rcases hcounts.2 y hmem with hlt | hlt | ⟨-, -, hlt⟩ <;> omega

/-- No token counts for two functions. -/
theorem Ordered.eq_of_countsFor (h : Ordered code i w)
    (hin : ∀ {p q}, w.forest.at? p = some q → ∀ {id e}, w.forest.at? id = some e →
      e.parent = some p → e.last code.size ≤ q.last code.size)
    {a b k : Nat} {x y : Entity} (hx : w.forest.at? a = some x) (hy : w.forest.at? b = some y)
    (hcx : code.CountsFor w.forest x k) (hcy : code.CountsFor w.forest y k)
    (hex : k < x.close.getD code.size) (hey : k < y.close.getD code.size) : a = b := by
  have hlast : ∀ {e : Entity}, k < e.close.getD code.size → k ≤ e.last code.size := by
    intro e hk
    unfold Entity.last
    cases hc : e.close <;> simp only [hc, Option.getD_some, Option.getD_none] at hk ⊢ <;> omega
  rcases Nat.lt_trichotomy a b with hab | heq | hab
  · exact (h.not_countsFor hin hx hy hab hcx hex hcy.1 (hlast hey)).elim
  · exact heq
  · exact (h.not_countsFor hin hy hx hab hcy hey hcx.1 (hlast hex)).elim

end Walk

/-! ## The functions of a result -/

theorem FunctionTree.preorders_eq (ts : List FunctionTree) :
    FunctionTree.preorders ts = ts.flatMap FunctionTree.preorder := by
  induction ts with
  | nil => rfl
  | cons t ts ih => rw [FunctionTree.preorders, ih, List.flatMap_cons]

section Trees

variable {l : Language} {options : ScoringOptions} {code : Code} {forest : Forest}

/-- The trees of the listed functions, one for each function that there is. -/
theorem scoredTrees_ok {depth : Nat} {ids : List Nat} {ts : List FunctionTree}
    (h : scoredTrees l options code forest (depth + 1) ids = .ok ts) :
    (ts.map (·.function.id)).Sublist ids ∧
      ∀ t ∈ ts, ∃ e us, forest.at? t.function.id = some e ∧
        scoredTrees l options code forest depth e.children = .ok us ∧
        t = .node (e.scored t.function.id (code.decisions l options forest e)) us := by
  rw [scoredTrees_succ] at h
  induction ids generalizing ts with
  | nil => cases h; exact ⟨.slnil, nofun⟩
  | cons id ids ih =>
    obtain ⟨o, us, ho, hus, rfl⟩ := filterMapM_cons_ok h
    obtain ⟨hsub, hall⟩ := ih hus
    cases he : forest.at? id with
    | none =>
      rw [scoredTree?_of_none he] at ho
      cases ho
      exact ⟨hsub.cons id, hall⟩
    | some e =>
      obtain ⟨-, vs, hvs, rfl⟩ := scoredTree?_ok he ho
      exact ⟨hsub.cons_cons id, List.forall_mem_cons.mpr ⟨⟨e, vs, he, hvs, rfl⟩, hall⟩⟩

theorem scoredTrees_sublist {depth : Nat} {ids : List Nat} {ts : List FunctionTree}
    (h : scoredTrees l options code forest depth ids = .ok ts) :
    (ts.map (·.function.id)).Sublist ids := by
  cases depth with
  | zero => cases h; exact List.nil_sublist ids
  | succ depth => exact (scoredTrees_ok h).1

/-- A function in a tree is one of the forest with its decisions, and lies inside the function at
the top. -/
theorem mem_preorder_of_scoredTrees (hlinked : forest.Linked) {depth : Nat} {ids : List Nat}
    {ts : List FunctionTree} (h : scoredTrees l options code forest depth ids = .ok ts)
    {t : FunctionTree} (ht : t ∈ ts) {f : Function} (hf : f ∈ t.preorder) :
    (∃ e, forest.at? f.id = some e ∧ f = e.scored f.id (code.decisions l options forest e)) ∧
      forest.Descends t.function.id f.id := by
  induction depth generalizing ids ts t with
  | zero => cases h; cases ht
  | succ depth ih =>
    obtain ⟨e, us, he, hus, hnode⟩ := (scoredTrees_ok h).2 t ht
    rw [hnode, FunctionTree.preorder, FunctionTree.preorders_eq] at hf
    rcases List.mem_cons.mp hf with rfl | hf
    · exact ⟨⟨e, he, rfl⟩, .refl⟩
    · obtain ⟨u, hu, hf⟩ := List.mem_flatMap.mp hf
      obtain ⟨hfound, hdesc⟩ := ih hus hu hf
      have hmem := (scoredTrees_sublist hus).subset (List.mem_map_of_mem hu)
      obtain ⟨c, hc, hparent⟩ := (hlinked.children he).mp hmem
      exact ⟨hfound, (Forest.Descends.child hc hparent .refl).trans hdesc⟩

/-- A listed function is one of the forest with its decisions. -/
theorem scored_of_mem_preorders (hlinked : forest.Linked) {depth : Nat} {ids : List Nat}
    {ts : List FunctionTree} (h : scoredTrees l options code forest depth ids = .ok ts)
    {f : Function} (hf : f ∈ FunctionTree.preorders ts) :
    ∃ e, forest.at? f.id = some e ∧ f = e.scored f.id f.decisions ∧
      f.decisions = code.decisions l options forest e := by
  rw [FunctionTree.preorders_eq] at hf
  obtain ⟨t, ht, hf⟩ := List.mem_flatMap.mp hf
  obtain ⟨⟨e, he, hscored⟩, -⟩ := mem_preorder_of_scoredTrees hlinked h ht hf
  have hdecisions : f.decisions = code.decisions l options forest e :=
    congrArg (·.decisions) hscored
  exact ⟨e, he, hdecisions ▸ hscored, hdecisions⟩

/-- The functions of a listing are related one by one if a number is related to larger ones, and
what lies inside a function to what lies inside the next one with the same parent. -/
theorem pairwise_preorders_of {R : Nat → Nat → Prop} (hlinked : forest.Linked)
    (hbelow : ∀ {a b}, a < b → R a b)
    (hbeside : ∀ {a b x y c d}, forest.at? a = some x → forest.at? b = some y →
      x.parent = y.parent → a < b → forest.Descends a c → forest.Descends b d → R c d)
    {depth : Nat} {ids : List Nat} {ts : List FunctionTree}
    (h : scoredTrees l options code forest depth ids = .ok ts)
    (hids : ids.Pairwise (· < ·)) {parent : Option Nat}
    (hparent : ∀ {id}, id ∈ ids → ∃ e, forest.at? id = some e ∧ e.parent = parent) :
    (FunctionTree.preorders ts).Pairwise fun f g => R f.id g.id := by
  induction depth generalizing ids ts parent with
  | zero => cases h; exact .nil
  | succ depth ih =>
    obtain ⟨hsub, hall⟩ := scoredTrees_ok h
    rw [FunctionTree.preorders_eq]
    refine List.pairwise_flatMap.mpr ⟨fun t ht => ?_, ?_⟩
    · obtain ⟨e, us, he, hus, hnode⟩ := hall t ht
      rw [hnode, FunctionTree.preorder]
      refine List.pairwise_cons.mpr ⟨fun g hg => ?_,
        ih hus (hlinked.childOrder he) fun hid => (hlinked.children he).mp hid⟩
      -- The functions below come after the one at the top.
      rw [FunctionTree.preorders_eq] at hg
      obtain ⟨u, hu, hg⟩ := List.mem_flatMap.mp hg
      obtain ⟨-, hdesc⟩ := mem_preorder_of_scoredTrees hlinked hus hu hg
      have hmem := (scoredTrees_sublist hus).subset (List.mem_map_of_mem hu)
      obtain ⟨c, hc, hcp⟩ := (hlinked.children he).mp hmem
      exact hbelow (Nat.lt_of_lt_of_le (hlinked.earlier hc hcp) (hdesc.le hlinked))
    · refine (List.pairwise_map.mp (hids.sublist hsub)).imp_of_mem ?_
      intro t u ht hu hlt f hf g hg
      obtain ⟨-, hdesc⟩ := mem_preorder_of_scoredTrees hlinked h ht hf
      obtain ⟨-, hdesc'⟩ := mem_preorder_of_scoredTrees hlinked h hu hg
      obtain ⟨x, hx, hxp⟩ := hparent (hsub.subset (List.mem_map_of_mem ht))
      obtain ⟨y, hy, hyp⟩ := hparent (hsub.subset (List.mem_map_of_mem hu))
      exact hbeside hx hy (hxp.trans hyp.symm) hlt hdesc hdesc'

/-- No function is listed twice. -/
theorem pairwise_preorders (hlinked : forest.Linked) {depth : Nat} {ids : List Nat}
    {ts : List FunctionTree} (h : scoredTrees l options code forest depth ids = .ok ts)
    (hids : ids.Pairwise (· < ·)) {parent : Option Nat}
    (hparent : ∀ {id}, id ∈ ids → ∃ e, forest.at? id = some e ∧ e.parent = parent) :
    (FunctionTree.preorders ts).Pairwise fun f g => f.id ≠ g.id :=
  pairwise_preorders_of hlinked Nat.ne_of_lt
    (fun hx hy hsame hlt ha hb => Forest.Descends.ne hlinked hx hy hsame hlt ha hb) h hids hparent

end Trees

/-! ## Analyses -/

theorem Engine.analyze_ok {engine : Engine} {file source language : String} {r : FileResult}
    (h : engine.analyze file source language = .ok r) :
    ∃ l forest, engine.registry.lookup? language = some l ∧
      detect l (Code.ofSource l source) = .ok forest ∧
      scoredTrees l engine.options (Code.ofSource l source) forest forest.entities.size
        forest.roots = .ok r.functions := by
  unfold analyze at h
  split at h
  · rename_i l hl
    cases hd : detect l (Code.ofSource l source) with
    | error fault => simp only [analyzeIn, hd] at h; cases h
    | ok forest =>
      rw [analyzeIn_of_detect hd] at h
      cases hts : scoredTrees l engine.options (Code.ofSource l source) forest
          forest.entities.size forest.roots with
      | error fault => rw [hts] at h; cases h
      | ok ts =>
        rw [hts] at h
        cases h
        exact ⟨l, forest, hl, hd, hts⟩
  · cases h

/-- Without a closing brace among the words of the table, what binds a function stands before its
end. -/
theorem Walk.bound_run {code : Code} {rules : SignatureRules} (hp : code.Paired)
    (hr : rules.Braceless) {j : Nat} {w : Walk} (hrun : Walk.Run code rules (0, {}) (j, w)) :
    w.forest.Bound := by
  intro e he x d hx hd
  obtain ⟨id, hid⟩ := Forest.mem_entities.mp he
  have hordered := Walk.ordered_run hp hrun
  rcases (Walk.laminar_run hp hr hrun).seated hid with
    hclose | ⟨halone, p, q, c, hparent, hq, hc, hlt, -⟩
  · exact Or.inl (Nat.lt_trans ((hordered.placed hid).1.binding hx).2 (hclose hd))
  · have hclose := hordered.close_eq hq hid hparent halone
    rw [hd, hc] at hclose
    cases hclose
    exact Or.inr hlt

/-- A listed function is one of the forest, and its decisions are those of tokens that count for
it, in order. -/
theorem Walk.Ordered.exists_counts {code : Code} {l : Language} {options : ScoringOptions} {i : Nat}
    {w : Walk} (h : Walk.Ordered code i w) (hp : code.Paired) (hl : code.Laid)
    {ts : List FunctionTree}
    (hts : scoredTrees l options code w.forest w.forest.entities.size w.forest.roots = .ok ts)
    {f : Function} (hf : f ∈ FunctionTree.preorders ts) :
    ∃ e, w.forest.at? f.id = some e ∧ f = e.scored f.id f.decisions ∧
      f.decisions.Pairwise (fun a b => a.offset < b.offset) ∧
      ∀ d ∈ f.decisions, ∃ k rule, d = code.decision k rule ∧ code.decides k = true ∧
        code.CountsFor w.forest e k ∧ (w.forest.Bound → k < e.close.getD code.size) := by
  obtain ⟨e, he, hscored, hdecisions⟩ := scored_of_mem_preorders h.linked hts hf
  have horder := h.inOrder hp he
  refine ⟨e, he, hscored, ?_⟩
  rw [hdecisions, Code.decisions]
  refine ⟨Code.pairwise_decisionsFrom hl horder, fun d hd => ?_⟩
  obtain ⟨k, rule, hd, hdecides, hcounted⟩ := Code.mem_decisionsFrom horder hd
  refine ⟨k, rule, hd, hdecides, h.countsFor he hcounted, fun hbound => ?_⟩
  refine h.counted_lt hbound he (fun c hc => ?_) hcounted
  obtain ⟨cid, hcid, hparent⟩ := (h.mem_nested_iff he).mp hc
  have hscore := (scoredTrees_ok_all h.linked hts he).1
  exact h.last_le_of_spanFault? he hcid hparent (Code.score_eq_ok_iff.mp hscore).1

/-- The decisions of a function stand in the order of the source, in its own body and outside the
functions nested in it.  If what binds a function stands before its end, they also stand before the
end of the function, and no two decisions of a file have one offset. -/
theorem analyze_decisions (engine : Engine) (file source language : String) (r : FileResult)
    (h : engine.analyze file source language = .ok r) :
    ∃ l forest, engine.registry.lookup? language = some l ∧
      detect l (Code.ofSource l source) = .ok forest ∧
      (∀ f ∈ r.all, ∃ e, forest.at? f.id = some e ∧ f = e.scored f.id f.decisions ∧
        f.decisions.Pairwise (fun a b => a.offset < b.offset) ∧
        ∀ d ∈ f.decisions, ∃ k rule, d = (Code.ofSource l source).decision k rule ∧
          (Code.ofSource l source).CountsFor forest e k ∧
          (forest.Bound → k < e.close.getD (Code.ofSource l source).size ∧
            (Code.ofSource l source).offset e.opening < d.offset ∧ d.offset < f.span.endByte)) ∧
      (l.signatures.Braceless → forest.Bound) ∧
      (forest.Bound → (r.all.flatMap fun f => f.decisions.map (·.offset)).Nodup) := by
  obtain ⟨l, forest, hl, hforest, hts⟩ := Engine.analyze_ok h
  obtain ⟨j, w, hrun, -, rfl⟩ := Walk.go_run hforest
  have hp := Code.paired_ofSource l source
  have hlaid := Code.laid_ofSource l source
  have hordered := Walk.ordered_run hp hrun
  have hcounts := fun {f} hf => @Walk.Ordered.exists_counts _ _ _ _ _ hordered hp hlaid _ hts f hf
  refine ⟨l, w.forest, hl, hforest, fun f hf => ?_, fun hr => Walk.bound_run hp hr hrun,
    fun hbound => List.nodup_flatMap.mpr ⟨fun f hf => ?_, ?_⟩⟩
  · obtain ⟨e, he, hscored, hpairwise, hall⟩ := hcounts hf
    have hplaced := (hordered.placed he).1
    refine ⟨e, he, hscored, hpairwise, fun d hd => ?_⟩
    obtain ⟨k, rule, rfl, hdecides, hcounts, hend⟩ := hall d hd
    refine ⟨k, rule, rfl, hcounts, fun hbound => ⟨hend hbound, ?_, ?_⟩⟩
    · obtain ⟨t, ht, hpunct⟩ := Code.isPunct_iff_token?.mp hplaced.brace
      simp only [Token.isPunct, Bool.and_eq_true, beq_iff_eq] at hpunct
      exact hlaid.offset_lt ht (by simp [hpunct.1]) hcounts.1
    · obtain ⟨t, ht, hkind⟩ := Code.exists_token_of_decides hdecides
      rw [show f.span = e.span from congrArg (·.span) hscored]
      exact hplaced.offset_lt_endByte hlaid ht hkind (hend hbound)
  · obtain ⟨e, -, -, hpairwise, -⟩ := hcounts hf
    exact List.pairwise_map.mpr (hpairwise.imp Nat.ne_of_lt)
  · have hlisted := pairwise_preorders hordered.linked hts hordered.linked.rootOrder
      fun hid => hordered.linked.roots.mp hid
    refine hlisted.imp_of_mem fun {f g} hf hg hne => List.disjoint_left.mpr ?_
    intro offset hof hog
    obtain ⟨d, hd, rfl⟩ := List.mem_map.mp hof
    obtain ⟨d', hd', hoffset⟩ := List.mem_map.mp hog
    obtain ⟨x, hx, -, -, hallx⟩ := hcounts hf
    obtain ⟨y, hy, -, -, hally⟩ := hcounts hg
    obtain ⟨k, rule, rfl, hk, hkx, hkend⟩ := hallx d hd
    obtain ⟨k', rule', rfl, hk', hky, hkend'⟩ := hally d' hd'
    obtain rfl := hlaid.eq_of_offset_eq hk' hk hoffset
    refine hne (hordered.eq_of_countsFor (fun hq _ _ hc hparent => ?_) hx hy hkx hky
      (hkend hbound) (hkend' hbound))
    have hscore := (scoredTrees_ok_all hordered.linked hts hq).1
    exact hordered.last_le_of_spanFault? hq hc hparent (Code.score_eq_ok_iff.mp hscore).1

/-! ## Signatures that reach over a closing brace -/

/-- A small language with functions, arrow functions bound by `const`, and a separator before
return types. -/
def arrowTable (separator : String) : Language where
  id := "toy"
  comments := {}
  strings := {}
  keywords := ["const", "function"]
  operators := ["=>"]
  decisions := [{ token := "=>", category := .lambda }]
  signatures :=
    { introducers := ["function"]
      arrowBinders := ["const"]
      arrow := some "=>"
      returnSeparator := some separator }

/-- The engine that knows only this language. -/
def arrowEngine (separator : String) : Engine where
  registry := { tables := [arrowTable separator] }

/-- The table is accepted, whatever the separator is. -/
theorem register_arrowTable (separator : String) :
    Registry.empty.register (arrowTable separator) = .ok (arrowEngine separator).registry := by
  have hid : Text.lower (Text.trim "toy") = "toy" := by decide +kernel
  have hfault : (arrowTable separator).fault? = none := by
    change (arrowTable "").fault? = none
    decide +kernel
  have hcanonical : (arrowTable separator).canonical = arrowTable separator := by
    simp [Language.canonical, arrowTable, canonicalOperators, canonicalDelimiters, hid,
      List.eraseReps, List.eraseRepsBy, List.eraseRepsBy.loop]
  simp only [Registry.register, Language.validate, hfault, hcanonical]
  rfl

/-- The functions of a result: name, end and the offsets of the decisions. -/
def FileResult.marks (r : FileResult) : List (String × Nat × List Nat) :=
  r.all.map fun f => (f.qualifiedName, f.span.endByte, f.decisions.map (·.offset))

theorem exists_ok_of_view {α β : Type} {x : Except Fault α} {g : α → β} {v : β}
    (h : x.toOption.map g = some v) : ∃ r, x = .ok r ∧ g r = v := by
  cases x with
  | error fault => cases h
  | ok r => exact ⟨r, rfl, Option.some.inj h⟩

theorem exists_ok_of_marks {x : Except Fault FileResult} {marks : List (String × Nat × List Nat)}
    (h : x.toOption.map FileResult.marks = some marks) : ∃ r, x = .ok r ∧ r.marks = marks :=
  exists_ok_of_view h

/-- An arrow that binds a function and one in its body count for different functions. -/
theorem analyze_decisions_arrow : ∃ r, (arrowEngine ":").analyze "input"
      "function F() \x7b const g = x => \x7b y => z \x7d \x7d" "toy" = .ok r ∧
    r.marks = [("F", 42, [27]), ("F.g", 40, [34])] ∧
    (r.all.flatMap fun f => f.decisions.map (·.offset)).Nodup := by
  obtain ⟨r, hr, hmarks⟩ : ∃ r, (arrowEngine ":").analyze "input"
      "function F() \x7b const g = x => \x7b y => z \x7d \x7d" "toy" = .ok r ∧
      r.marks = [("F", 42, [27]), ("F.g", 40, [34])] := exists_ok_of_marks (by decide +kernel)
  obtain ⟨l, forest, hl, -, -, hbound, hnodup⟩ := analyze_decisions _ _ _ _ r hr
  have hbraceless : l.signatures.Braceless := by
    obtain rfl : arrowTable ":" = l := Option.some.inj (Eq.trans rfl hl)
    constructor <;> decide
  exact ⟨r, hr, hmarks, hnodup (hbound hbraceless)⟩

/-- A closing brace that introduces a return type takes the signature of the innermost function
over the end of the function around it.  Its arrow counts there and in the function further out. -/
theorem strayArrow_counted_twice :
    Registry.empty.register (arrowTable "\x7d") = .ok (arrowEngine "\x7d").registry ∧
      ∃ r, (arrowEngine "\x7d").analyze "input"
          "function F() \x7b function f() \x7b const g \x7d T = x => \x7b" "toy" = .ok r ∧
        r.marks = [("F", 50, [46]), ("F.f", 39, [46]), ("F.f.g", 39, [])] :=
  ⟨register_arrowTable _, exists_ok_of_marks (by decide +kernel)⟩

end Cyclomatic
