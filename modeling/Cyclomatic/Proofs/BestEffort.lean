import Cyclomatic.Analysis.File
import Cyclomatic.Proofs.Nesting
import Cyclomatic.Proofs.Sums

/-!
# Which sources are analysed

The functions that the walk finds pass the check before scoring, unless one of them lies behind
another (`Forest.Torn`).  Then the check refuses a function, and the whole file has no result.
So the analysis of a source in a built-in language fails exactly when its forest is torn
(`analyze_builtin`).

For the failure, follow the walk from the type whose scope is never left.  The scope keeps the
function scopes below it on the stack (`Walk.Held`), so every function found later descends from
them.  If all functions ended with the one around them, the last one would end with the first.
-/

namespace Cyclomatic

/-! ## Functions found below a type that is never left -/

namespace Walk

variable {code : Code} {rules : SignatureRules} {i k f : Nat} {w : Walk}

/-- A function scope lies below a scope that is never left. -/
def Held (f : Nat) (w : Walk) : Prop :=
  ∃ above s below, w.scopes = above ++ s :: below ∧ s.close = none ∧ f ∈ openIds below

theorem Held.mem (h : Held f w) : f ∈ openIds w.scopes := by
  obtain ⟨above, s, below, hscopes, -, hf⟩ := h
  rw [hscopes, openIds, List.filterMap_append, List.mem_append]
  exact Or.inr ((List.sublist_cons_self ..).filterMap _ |>.subset hf)

theorem Held.push (h : Held f w) {w' : Walk} {t : Scope} (hw : w'.scopes = t :: w.scopes) :
    Held f w' := by
  obtain ⟨above, s, below, hscopes, hs, hf⟩ := h
  exact ⟨t :: above, s, below, by rw [hw, hscopes, List.cons_append], hs, hf⟩

theorem Held.leave (h : Held f w) (i : Nat) : Held f (w.leave i) := by
  obtain ⟨above, s, below, hscopes, hs, hf⟩ := h
  unfold Walk.leave
  rw [hscopes]
  refine ⟨above.dropWhile fun s => s.close.any (· < i), s, below, ?_, hs, hf⟩
  rw [List.dropWhile_append]
  split
  · rename_i hnil
    rw [List.isEmpty_iff.mp hnil]
    simp [hs]
  · rfl

theorem Held.arrive (h : Held f w) : Held f (w.arrive code rules i) := by
  unfold Walk.arrive enterContainer
  split
  · exact (h.leave i).push rfl
  · exact h.leave i

/-- A function whose scope is open is around the innermost one. -/
theorem Sound.descends_head (h : Sound code rules i w) (hf : f ∈ openIds w.scopes) {p : Nat}
    (hp : (openIds w.scopes).head? = some p) : w.forest.Descends f p := by
  have hchain := h.chain
  generalize openIds w.scopes = ids at *
  induction ids generalizing p with
  | nil => cases hf
  | cons a rest ih =>
    obtain rfl : a = p := by simpa using hp
    cases List.mem_cons.mp hf with
    | inl heq => subst heq; exact .refl
    | inr hmem =>
      cases hrest : rest with
      | nil => rw [hrest] at hmem; cases hmem
      | cons b tail =>
        obtain ⟨hhead, hchain⟩ := List.isChain_cons.mp hchain
        have hb : rest.head? = some b := by rw [hrest]; rfl
        obtain ⟨e, he, hparent⟩ := hhead b hb
        exact .child he hparent (ih hmem hb hchain)

/-- From a type that is never left on, every new function lies inside one whose scope it holds. -/
structure Trapped (k f : Nat) (w : Walk) : Prop where
  /-- The scope of the function stays. -/
  held : Held f w
  /-- A function that opens after the type lies inside it. -/
  inside : ∀ {id e}, w.forest.at? id = some e → e.opening < k ∨ w.forest.Descends f id

/-- What a step after the arrival at a token does to the functions around which it goes on. -/
theorem Trapped.after (h : Sound code rules i (w.arrive code rules i))
    (ht : Trapped k f (w.arrive code rules i)) {w' : Walk} {next : Nat}
    (hstep : w.step code rules i = .ok (w', next)) : Trapped k f w' := by
  rcases step_cases hstep with ⟨rfl, -⟩ | ⟨s, brace, -, -, rfl, -⟩ | ⟨s, -, -, rfl⟩
  · exact ht
  · refine ⟨ht.held.push rfl, fun {id e} he => ?_⟩
    rcases Forest.at?_add_cases (h.parent_lt rules s brace) he with ⟨rfl, rfl⟩ | ⟨y, hy, rfl⟩
    · right
      have hmem := ht.held.mem
      cases hids : (openIds (w.arrive code rules i).scopes).head? with
      | none =>
        rw [List.head?_eq_none_iff.mp hids] at hmem
        cases hmem
      | some p =>
        refine .child (Forest.at?_add_new (h.parent_lt rules s brace)) ?_
          ((h.descends_head hmem hids).add _)
        change (w.arrive code rules i).innermost?.map (·.1) = some p
        rw [innermost?_id, hids]
    · rw [Entity.adopt_opening]
      exact (ht.inside hy).imp_right fun hdesc => hdesc.add _
  · exact ⟨ht.held, fun he => (ht.inside he).imp_right fun hdesc =>
      hdesc.mono fun hid => ⟨_, hid, rfl⟩⟩

theorem arrive_forest (w : Walk) (code : Code) (rules : SignatureRules) (i : Nat) :
    (w.arrive code rules i).forest = w.forest := enterContainer_forest ..

/-- A function found in a step opens after its token. -/
theorem Next.at?_cases {j : Nat} {w' : Walk} (hp : code.Paired) (hr : rules.Braceless)
    (h : Sound code rules i w) (hi : code.Reached rules i)
    (hstep : Next code rules (i, w) (j, w')) {id : Nat} {e : Entity}
    (he : w'.forest.at? id = some e) :
    i < e.opening ∨ ∃ e', w.forest.at? id = some e' ∧ e'.opening = e.opening ∧
      e'.close = e.close := by
  obtain ⟨harrive, -⟩ := h.arrive hp hi
  obtain ⟨-, next, hstep, -⟩ := hstep
  have hold : ∀ {id}, (w.arrive code rules i).forest.at? id = w.forest.at? id := by
    rw [arrive_forest]
    exact rfl
  rcases step_cases hstep with ⟨hw, -⟩ | ⟨s, brace, hs, htail, hw, -⟩ | ⟨s, -, -, hw⟩
  · simp only at hw
    subst hw
    rw [hold] at he
    exact Or.inr ⟨e, he, rfl, rfl⟩
  · simp only at hw
    subst hw
    rcases Forest.at?_add_cases (harrive.parent_lt rules s brace) he with ⟨-, rfl⟩ | ⟨y, hy, rfl⟩
    · exact Or.inl ((Code.signatureAt_opens hp hr hs).2 htail).lt
    · rw [hold] at hy
      exact Or.inr ⟨y, hy, by simp, by simp⟩
  · simp only at hw
    subst hw
    exact Or.inr ⟨e, hold.symm.trans he, rfl, rfl⟩

/-- A function found on the way opens after the token where the way starts. -/
theorem Run.at?_cases {j : Nat} {w' : Walk} (hp : code.Paired) (hr : rules.Braceless)
    (hi : Run code rules (0, {}) (i, w)) (hrun : Run code rules (i, w) (j, w')) {id : Nat}
    {e : Entity} (he : w'.forest.at? id = some e) :
    i < e.opening ∨ ∃ e', w.forest.at? id = some e' ∧ e'.opening = e.opening ∧
      e'.close = e.close := by
  generalize hb : (j, w') = b at hrun
  induction hrun generalizing j w' e with
  | refl => cases hb; exact Or.inr ⟨e, he, rfl, rfl⟩
  | @tail a b hrun hstep ih =>
    subst hb
    have hreach := hi.trans hrun
    rcases hstep.at?_cases hp hr (sound_run hp hr hreach) ⟨_, hreach⟩ he with
      hlt | ⟨e', he', h1, h2⟩
    · exact Or.inl (Nat.lt_of_le_of_lt (Run.le hrun) hlt)
    · rw [← h1, ← h2]
      exact ih he' rfl

/-- A function inside of which a type is never left holds all functions after the type. -/
theorem Trapped.run {j : Nat} {w' : Walk} (hp : code.Paired) (hr : rules.Braceless)
    (hi : Run code rules (0, {}) (i, w)) (ht : Trapped k f w)
    (hrun : Run code rules (i, w) (j, w')) : Trapped k f w' := by
  generalize hb : (j, w') = b at hrun
  induction hrun generalizing j w' with
  | refl => cases hb; exact ht
  | @tail a b hrun hstep ih =>
    subst hb
    have hreach := hi.trans hrun
    obtain ⟨harrive, -⟩ := (sound_run hp hr hreach).arrive hp ⟨_, hreach⟩
    obtain ⟨-, next, hstep, -⟩ := hstep
    obtain ⟨hheld, hinside⟩ := ih rfl
    refine Trapped.after harrive ⟨hheld.arrive, ?_⟩ hstep
    rw [arrive_forest]
    exact hinside

/-- The functions after a type that is never left lie inside every function that holds it. -/
theorem trapped_of_torn {j c : Nat} {w' : Walk} {s : Scope} {e : Entity} (hp : code.Paired)
    (hr : rules.Braceless) (hk : Run code rules (0, {}) (k, w))
    (hs : code.containerAt? rules k = some s) (hclose : s.close = none)
    (hrun : Run code rules (0, {}) (j, w')) (hj : code.size ≤ j)
    (he : w'.forest.at? f = some e) (hopen : e.opening < k) (hc : e.close = some c)
    (hkc : k < c) : Trapped k f w' := by
  obtain ⟨hword, -⟩ := containerAt?_scope hs
  have hsize := code.lt_size_of_isWord hword
  have hway := Run.of_lt hk hrun (by simp only; omega)
  have hsound := sound_run hp hr hk
  -- The scope of the function is open when the walk comes to the type.
  have hmem : f ∈ openIds (w.leave k).scopes := by
    rcases Run.at?_cases hp hr hk hway he with hlt | ⟨e', he', -, h2⟩
    · omega
    · refine (hsound.leave.settled he').resolve_right ?_
      rintro ⟨d, hd, hlt⟩
      rw [h2, hc] at hd
      cases hd
      omega
  have hscopes : (w.arrive code rules k).scopes = [] ++ s :: (w.leave k).scopes := by
    simp [Walk.arrive, enterContainer, hs]
  have hstart : Trapped k f (w.arrive code rules k) := by
    refine ⟨⟨[], s, _, hscopes, hclose, hmem⟩, fun {id x} hx => Or.inl ?_⟩
    rw [arrive_forest] at hx
    exact (hsound.placed hx).2
  rcases hway.cases_head with heq | ⟨⟨i, w₁⟩, hstep, hrest⟩
  · cases heq
    omega
  · obtain ⟨harrive, -⟩ := hsound.arrive hp ⟨_, hk⟩
    obtain ⟨hlt, next, hnext, hi⟩ := hstep
    exact (Trapped.after harrive hstart hnext).run hp hr (hk.tail ⟨hlt, next, hnext, hi⟩) hrest

/-- If every function ends with the one around it, none lies behind another. -/
theorem not_torn_of_within {j : Nat} (hp : code.Paired) (hr : rules.Braceless)
    (hrun : Run code rules (0, {}) (j, w)) (hj : code.size ≤ j)
    (hwithin : ∀ {p q}, w.forest.at? p = some q → ∀ {id e}, w.forest.at? id = some e →
      e.parent = some p → e.last code.size ≤ q.last code.size) :
    ¬ w.forest.Torn code rules := by
  rintro ⟨x, hx, y, hy, ⟨c, hc, hlt, k, hopen, hkc, ⟨wk, hk⟩, s, hs, hclose⟩, hown⟩
  obtain ⟨f, hf⟩ := Forest.mem_entities.mp hx
  obtain ⟨g, hg⟩ := Forest.mem_entities.mp hy
  have htrap := trapped_of_torn hp hr hk hs hclose hrun hj hf hopen hc hkc
  obtain ⟨hplaced, -⟩ := (sound_run hp hr hrun).placed hg
  have hstart := hplaced.start_le
  have hdesc : w.forest.Descends f g := (htrap.inside hg).resolve_left (by omega)
  have hle := hdesc.last_le hwithin hf hg
  obtain ⟨d, hd⟩ := Option.isSome_iff_exists.mp hown
  have hpair := (hp.closer?_of_opening (b := .curly) hplaced.brace hd).1
  have := code.lt_closer? hpair
  simp only [Entity.last, hc, hplaced.own hd, Option.getD_some] at hle
  omega

end Walk

/-! ## The check before scoring -/

namespace Code

variable {code : Code} {forest : Forest} {e : Entity}

/-- Nested functions that follow one another up to the end of a body are in place. -/
theorem strayChild?_eq_none {last previous : Nat} {es : List Entity}
    (hafter : ∀ c ∈ es, previous < c.start)
    (horder : es.Pairwise fun a b => a.last code.size < b.start)
    (hwithin : ∀ c ∈ es, c.last code.size ≤ last) : code.strayChild? last previous es = none := by
  induction es generalizing previous with
  | nil => rfl
  | cons e es ih =>
    have h1 := hafter e (List.mem_cons_self ..)
    have h2 := hwithin e (List.mem_cons_self ..)
    obtain ⟨horder1, horder2⟩ := List.pairwise_cons.mp horder
    unfold strayChild?
    rw [if_neg (by simp; omega)]
    exact ih horder1 horder2 fun c hc => hwithin c (List.mem_cons_of_mem _ hc)

theorem last_le_of_strayChild? {last previous : Nat} {es : List Entity}
    (h : code.strayChild? last previous es = none) : ∀ c ∈ es, c.last code.size ≤ last := by
  induction es generalizing previous with
  | nil => intro c hc; cases hc
  | cons e es ih =>
    unfold strayChild? at h
    split at h
    · cases h
    · rename_i hin
      simp only [Bool.or_eq_true, decide_eq_true_eq, not_or, Nat.not_lt, Nat.not_le] at hin
      intro c hc
      cases List.mem_cons.mp hc with
      | inl heq => subst heq; exact hin.2
      | inr hmem => exact ih h c hmem

/-- Only a nested function can be out of place. -/
theorem spanFault?_of_placed (h : e.Placed code) : code.spanFault? forest e =
    (code.strayChild? (e.last code.size) e.opening (nested forest e)).map fun c =>
      .childOutside c.qualifiedName := by
  have hclose : e.close.filter (!code.isPunct · "\x7d") = none := by
    rw [Option.filter_eq_none_iff]
    intro c hc
    obtain ⟨o, -, b⟩ := h.body hc
    simp [b.close]
  unfold spanFault?
  rw [if_neg (by simp [h.brace]), if_neg (Nat.not_lt.mpr h.start_le),
    if_neg (by simp [h.startByte]), hclose]
  dsimp only
  rw [if_neg (by simp [h.endByte])]

end Code

theorem mem_nested {forest : Forest} {e c : Entity} :
    c ∈ Code.nested forest e ↔ ∃ id ∈ e.children, forest.at? id = some c :=
  List.mem_filterMap

/-- A function with its nested functions inside its body passes the check. -/
theorem Walk.Ordered.spanFault?_eq_none {code : Code} {i id : Nat} {w : Walk} {e : Entity}
    (h : Walk.Ordered code i w) (he : w.forest.at? id = some e)
    (hwithin : ∀ {cid c}, w.forest.at? cid = some c → c.parent = some id →
      c.last code.size ≤ e.last code.size) : code.spanFault? w.forest e = none := by
  have hchild : ∀ c ∈ Code.nested w.forest e,
      ∃ cid, w.forest.at? cid = some c ∧ c.parent = some id := by
    intro c hc
    obtain ⟨cid, hmem, hat⟩ := mem_nested.mp hc
    obtain ⟨c', hc', hparent⟩ := (h.linked.children he).mp hmem
    obtain rfl : c' = c := Option.some.inj (hc'.symm.trans hat)
    exact ⟨cid, hat, hparent⟩
  rw [Code.spanFault?_of_placed (h.placed he).1, Code.strayChild?_eq_none, Option.map_none]
  · intro c hc
    obtain ⟨cid, hat, hparent⟩ := hchild c hc
    exact h.after he hat hparent
  · refine List.pairwise_filterMap.mpr ((h.siblings he).imp ?_)
    intro a b hab x hx y hy
    exact hab hx hy
  · intro c hc
    obtain ⟨cid, hat, hparent⟩ := hchild c hc
    exact hwithin hat hparent

/-- A function that passes the check ends after its nested functions. -/
theorem Walk.Ordered.last_le_of_spanFault? {code : Code} {i id cid : Nat} {w : Walk}
    {e c : Entity} (h : Walk.Ordered code i w) (he : w.forest.at? id = some e)
    (hc : w.forest.at? cid = some c) (hparent : c.parent = some id)
    (hnone : code.spanFault? w.forest e = none) : c.last code.size ≤ e.last code.size := by
  rw [Code.spanFault?_of_placed (h.placed he).1, Option.map_eq_none_iff] at hnone
  have hmem := (h.linked.children he).mpr ⟨c, hc, hparent⟩
  exact Code.last_le_of_strayChild? hnone c (mem_nested.mpr ⟨cid, hmem, hc⟩)

/-! ## Scoring the trees -/

section FilterMapM

variable {α β ε : Type} {f : α → Except ε (Option β)} {xs : List α}

theorem filterMapM_isOk (h : ∀ x ∈ xs, ∃ o, f x = .ok o) : ∃ ys, xs.filterMapM f = .ok ys := by
  induction xs with
  | nil => exact ⟨[], rfl⟩
  | cons x xs ih =>
    obtain ⟨o, ho⟩ := h x (List.mem_cons_self ..)
    obtain ⟨ys, hys⟩ := ih fun y hy => h y (List.mem_cons_of_mem _ hy)
    rw [List.filterMapM_cons, ho]
    cases o with
    | none => exact ⟨ys, hys⟩
    | some b => exact ⟨b :: ys, by simp only [hys]; rfl⟩

theorem filterMapM_cons_ok {x : α} {ys : List β} (h : (x :: xs).filterMapM f = .ok ys) :
    ∃ o zs, f x = .ok o ∧ xs.filterMapM f = .ok zs ∧ ys = o.toList ++ zs := by
  rw [List.filterMapM_cons] at h
  cases hx : f x with
  | error e => rw [hx] at h; cases h
  | ok o =>
    rw [hx] at h
    cases hxs : xs.filterMapM f with
    | error e => cases o <;> simp only [hxs] at h <;> cases h
    | ok zs =>
      refine ⟨o, zs, rfl, rfl, ?_⟩
      cases o <;> simp only [hxs] at h <;> cases h <;> rfl

theorem isOk_of_filterMapM {ys : List β} (h : xs.filterMapM f = .ok ys) :
    ∀ x ∈ xs, ∃ o, f x = .ok o := by
  induction xs generalizing ys with
  | nil => intro x hx; cases hx
  | cons x xs ih =>
    obtain ⟨o, zs, ho, hzs, -⟩ := filterMapM_cons_ok h
    intro y hy
    cases List.mem_cons.mp hy with
    | inl heq => subst heq; exact ⟨o, ho⟩
    | inr hmem => exact ih hzs y hmem

theorem filterMapM_error {e : ε} (h : xs.filterMapM f = .error e) :
    ∃ x ∈ xs, f x = .error e := by
  induction xs with
  | nil => cases h
  | cons x xs ih =>
    rw [List.filterMapM_cons] at h
    cases hx : f x with
    | error e' =>
      rw [hx] at h
      cases h
      exact ⟨x, List.mem_cons_self .., hx⟩
    | ok o =>
      have hrest : xs.filterMapM f = .error e := by
        rw [hx] at h
        cases o with
        | none => exact h
        | some b =>
          cases hxs : xs.filterMapM f with
          | ok zs => simp only [hxs] at h; cases h
          | error e' => simp only [hxs] at h; cases h; rfl
      obtain ⟨y, hy, hfy⟩ := ih hrest
      exact ⟨y, List.mem_cons_of_mem _ hy, hfy⟩

end FilterMapM

section Trees

variable {l : Language} {options : ScoringOptions} {code : Code} {forest : Forest}

/-- The tree of one function, up to `depth` levels below it. -/
def scoredTree? (l : Language) (options : ScoringOptions) (code : Code) (forest : Forest)
    (depth id : Nat) : Except Fault (Option FunctionTree) :=
  match forest.entities[id]? with
  | none => .ok none
  | some e => do
    let decisions ← code.score l options forest e
    let children ← scoredTrees l options code forest depth e.children
    return some (.node (e.scored id decisions) children)

theorem scoredTrees_succ (depth : Nat) (ids : List Nat) :
    scoredTrees l options code forest (depth + 1) ids =
      ids.filterMapM (scoredTree? l options code forest depth) := rfl

theorem scoredTree?_of_at? {depth id : Nat} {e : Entity} (he : forest.at? id = some e) :
    scoredTree? l options code forest depth id = (do
      let decisions ← code.score l options forest e
      let children ← scoredTrees l options code forest depth e.children
      return some (.node (e.scored id decisions) children)) := by
  unfold scoredTree?
  rw [show forest.entities[id]? = some e from he]

theorem scoredTree?_of_none {depth id : Nat} (he : forest.at? id = none) :
    scoredTree? l options code forest depth id = .ok none := by
  simp only [Forest.at?] at he
  simp only [scoredTree?, he]

/-- A function whose tree there is is scored, and so are those inside it. -/
theorem scoredTree?_ok {depth id : Nat} {e : Entity} {o : Option FunctionTree}
    (he : forest.at? id = some e) (h : scoredTree? l options code forest depth id = .ok o) :
    code.score l options forest e = .ok (code.decisions l options forest e) ∧
      ∃ us, scoredTrees l options code forest depth e.children = .ok us ∧
        o = some (.node (e.scored id (code.decisions l options forest e)) us) := by
  rw [scoredTree?_of_at? he] at h
  cases hscore : code.score l options forest e with
  | error fault => rw [hscore] at h; cases h
  | ok ds =>
    obtain ⟨-, -, rfl⟩ := Code.score_eq_ok_iff.mp hscore
    rw [hscore] at h
    cases hts : scoredTrees l options code forest depth e.children with
    | ok us =>
      rw [hts] at h
      cases h
      exact ⟨rfl, us, rfl, rfl⟩
    | error fault => rw [hts] at h; cases h

theorem scoredTrees_isOk (h : ∀ {id e}, forest.at? id = some e →
      ∃ ds, code.score l options forest e = .ok ds) (depth : Nat) (ids : List Nat) :
    ∃ ts, scoredTrees l options code forest depth ids = .ok ts := by
  induction depth generalizing ids with
  | zero => exact ⟨[], rfl⟩
  | succ depth ih =>
    rw [scoredTrees_succ]
    refine filterMapM_isOk fun id _ => ?_
    cases he : forest.at? id with
    | none => exact ⟨none, scoredTree?_of_none he⟩
    | some e =>
      obtain ⟨ds, hds⟩ := h he
      obtain ⟨ts, hts⟩ := ih e.children
      rw [scoredTree?_of_at? he, hds, hts]
      exact ⟨_, rfl⟩

/-- An error comes from the score of a function. -/
theorem scoredTrees_error {depth : Nat} {ids : List Nat} {fault : Fault}
    (h : scoredTrees l options code forest depth ids = .error fault) :
    ∃ id e, forest.at? id = some e ∧ code.score l options forest e = .error fault := by
  induction depth generalizing ids with
  | zero => cases h
  | succ depth ih =>
    rw [scoredTrees_succ] at h
    obtain ⟨id, -, hid⟩ := filterMapM_error h
    cases he : forest.at? id with
    | none => rw [scoredTree?_of_none he] at hid; cases hid
    | some e =>
      rw [scoredTree?_of_at? he] at hid
      cases hscore : code.score l options forest e with
      | error fault' =>
        rw [hscore] at hid
        cases hid
        exact ⟨id, e, he, hscore⟩
      | ok ds =>
        rw [hscore] at hid
        cases hts : scoredTrees l options code forest depth e.children with
        | ok ts => rw [hts] at hid; cases hid
        | error fault' =>
          rw [hts] at hid
          cases hid
          exact ih hts

/-- A function of a list whose trees there are is scored, and so are those inside it. -/
theorem scoredTrees_ok_mem {depth id : Nat} {ids : List Nat} {ts : List FunctionTree} {e : Entity}
    (h : scoredTrees l options code forest (depth + 1) ids = .ok ts) (hid : id ∈ ids)
    (he : forest.at? id = some e) :
    code.score l options forest e = .ok (code.decisions l options forest e) ∧
      ∃ us, scoredTrees l options code forest depth e.children = .ok us := by
  rw [scoredTrees_succ] at h
  obtain ⟨o, ho⟩ := isOk_of_filterMapM h id hid
  obtain ⟨hscore, us, hus, -⟩ := scoredTree?_ok he ho
  exact ⟨hscore, us, hus⟩

/-- If the roots are scored, every function is: a function `id` has at least as many levels left
below it as there are functions after it. -/
theorem scoredTrees_ok_all (hlinked : forest.Linked) {ts : List FunctionTree}
    (h : scoredTrees l options code forest forest.entities.size forest.roots = .ok ts) {id : Nat}
    {e : Entity} (he : forest.at? id = some e) :
    code.score l options forest e = .ok (code.decisions l options forest e) ∧
      ∃ depth us, forest.entities.size - 1 - id ≤ depth ∧
        scoredTrees l options code forest depth e.children = .ok us := by
  induction id using Nat.strongRecOn generalizing e with
  | _ id ih =>
    have hlt := Forest.lt_size_of_at? he
    cases hparent : e.parent with
    | none =>
      obtain ⟨n, hn⟩ : ∃ n, forest.entities.size = n + 1 := ⟨forest.entities.size - 1, by omega⟩
      rw [hn] at h
      obtain ⟨hscore, us, hus⟩ := scoredTrees_ok_mem h (hlinked.roots.mpr ⟨e, he, hparent⟩) he
      exact ⟨hscore, n, us, by omega, hus⟩
    | some p =>
      have hpid := hlinked.earlier he hparent
      have hq : forest.at? p = some forest.entities[p] :=
        Array.getElem?_eq_getElem (Nat.lt_trans hpid hlt)
      obtain ⟨-, depth, us, hdepth, hus⟩ := ih p hpid hq
      obtain ⟨n, rfl⟩ : ∃ n, depth = n + 1 := ⟨depth - 1, by omega⟩
      have hmem := (hlinked.children hq).mpr ⟨e, he, hparent⟩
      obtain ⟨hscore, vs, hvs⟩ := scoredTrees_ok_mem hus hmem he
      exact ⟨hscore, n, vs, by omega, hvs⟩

variable (l options code) in
/-- The roots of a forest are scored if and only if every function is. -/
theorem exists_scoredTrees_iff (hlinked : forest.Linked) :
    (∃ ts, scoredTrees l options code forest forest.entities.size forest.roots = .ok ts) ↔
      ∀ e ∈ forest.entities, ∃ ds, code.score l options forest e = .ok ds := by
  constructor
  · rintro ⟨ts, hts⟩ e he
    obtain ⟨id, hid⟩ := Forest.mem_entities.mp he
    exact ⟨_, (scoredTrees_ok_all hlinked hts hid).1⟩
  · exact fun h => scoredTrees_isOk (fun hid => h _ (Forest.mem_entities.mpr ⟨_, hid⟩)) _ _

/-- The scores of all functions stay in their words. -/
def Code.ScoresFit (code : Code) (l : Language) (options : ScoringOptions) (forest : Forest) :
    Prop :=
  ∀ e ∈ forest.entities, 1 + incrementSum (code.decisions l options forest e) < 2 ^ 32

/-- Functions that are all in their places have trees, unless a score leaves its word. -/
theorem scoredTrees_of_spans (hlinked : forest.Linked) (hrange : code.InRange l)
    (hspan : ∀ e ∈ forest.entities, code.spanFault? forest e = none) :
    (code.ScoresFit l options forest →
      ∃ ts, scoredTrees l options code forest forest.entities.size forest.roots = .ok ts) ∧
    (¬ code.ScoresFit l options forest →
      scoredTrees l options code forest forest.entities.size forest.roots = .error .overflow) := by
  have hiff := exists_scoredTrees_iff l options code hlinked
  refine ⟨fun hfits => hiff.mpr fun e he => ⟨_, Code.score_eq_ok_iff.mpr
    ⟨hspan e he, hrange.overflows_eq_false_iff.mpr (hfits e he), rfl⟩⟩, fun hfits => ?_⟩
  cases hts : scoredTrees l options code forest forest.entities.size forest.roots with
  | ok ts =>
    refine absurd (fun e he => ?_) hfits
    obtain ⟨ds, hds⟩ := hiff.mp ⟨ts, hts⟩ e he
    exact hrange.overflows_eq_false_iff.mp (Code.score_eq_ok_iff.mp hds).2.1
  | error fault =>
    obtain ⟨id, e, he, hscore⟩ := scoredTrees_error hts
    rcases Code.score_eq_error hscore with ⟨f, hf, -⟩ | ⟨rfl, -⟩
    · rw [hspan e (Forest.mem_entities.mpr ⟨id, he⟩)] at hf
      cases hf
    · rfl

end Trees

/-! ## Analyses -/

theorem analyzeIn_of_detect {l : Language} {options : ScoringOptions} {file source : String}
    {forest : Forest} (h : detect l (Code.ofSource l source) = .ok forest) :
    analyzeIn l options file source =
      (scoredTrees l options (Code.ofSource l source) forest forest.entities.size
        forest.roots).map fun functions =>
          { file := file, language := l.id, realLines := realLines source, functions := functions,
            declarations := forest.declarations } := by
  unfold analyzeIn
  dsimp only
  rw [h]
  change (scoredTrees l options (Code.ofSource l source) forest forest.entities.size
    forest.roots).bind _ = _
  cases scoredTrees l options (Code.ofSource l source) forest forest.entities.size forest.roots <;>
    rfl

theorem Engine.analyze_of_lookup? {name : String} {l : Language}
    (hl : Registry.builtin.lookup? name = some l) (options : ScoringOptions)
    (file source : String) :
    ({ options := options } : Engine).analyze file source name =
      analyzeIn l options file source := by
  simp only [Engine.analyze, hl]

/-- The words of a built-in table hold no closing brace. -/
theorem braceless_builtin {name : String} {l : Language}
    (h : Registry.builtin.lookup? name = some l) : l.signatures.Braceless := by
  rcases Registry.builtin_cases h with rfl | rfl | rfl | rfl | rfl <;> constructor <;> decide

/-- In a built-in language the walk comes to the end of every source. -/
theorem detect_run_builtin {name : String} {l : Language}
    (hl : Registry.builtin.lookup? name = some l) (source : String) :
    ∃ forest, detect l (Code.ofSource l source) = .ok forest ∧
      ∃ j w, Walk.Run (Code.ofSource l source) l.signatures (0, {}) (j, w) ∧
        (Code.ofSource l source).size ≤ j ∧ w.forest = forest :=
  detect_run (Code.inRange_builtin hl source).signatures (braceless_builtin hl)

/-- A function has fewer decisions than there are tokens. -/
theorem Entity.Placed.length_decisions_lt {code : Code} {e : Entity} (h : e.Placed code)
    (l : Language) (options : ScoringOptions) (forest : Forest) :
    (code.decisions l options forest e).length < code.size := by
  have hopen := code.lt_size_of_isPunct h.brace
  have hstop : e.close.getD code.size ≤ code.size := by
    cases hclose : e.close with
    | none => exact Nat.le_refl _
    | some c =>
      obtain ⟨o, -, b⟩ := h.body hclose
      exact Nat.le_of_lt (code.lt_size_of_isPunct b.close)
  have hle : (code.decisions l options forest e).length ≤
      e.close.getD code.size - (e.opening + 1) := Code.length_decisionsFrom_le
  omega

/-- A source in a built-in language has a result, and all its functions are where they are
recorded to be, unless its forest is torn or a score leaves its word.  In a torn forest a function
outside the body of the one around it is the fault of the whole file, if it is not such a score.
No score leaves its word in a source of fewer than `2 ^ 32` tokens. -/
theorem analyze_builtin (name : String) (l : Language)
    (hl : Registry.builtin.lookup? name = some l) (options : ScoringOptions)
    (file source : String) :
    ∃ forest, detect l (Code.ofSource l source) = .ok forest ∧
      (¬ forest.Torn (Code.ofSource l source) l.signatures →
        (∀ e ∈ forest.entities, (Code.ofSource l source).spanFault? forest e = none) ∧
        ((Code.ofSource l source).ScoresFit l options forest →
          ∃ r, ({ options := options } : Engine).analyze file source name = .ok r) ∧
        (¬ (Code.ofSource l source).ScoresFit l options forest →
          ({ options := options } : Engine).analyze file source name = .error .overflow)) ∧
      (forest.Torn (Code.ofSource l source) l.signatures →
        (∃ f child, ({ options := options } : Engine).analyze file source name =
          .error (.malformedSpan f (.childOutside child))) ∨
        ({ options := options } : Engine).analyze file source name = .error .overflow ∧
          ¬ (Code.ofSource l source).ScoresFit l options forest) ∧
      ((Code.ofSource l source).size < 2 ^ 32 →
        (Code.ofSource l source).ScoresFit l options forest) := by
  have hr := braceless_builtin hl
  have hp := Code.paired_ofSource l source
  have hrange := Code.inRange_builtin hl source
  obtain ⟨forest, hforest, j, w, hrun, hj, rfl⟩ := detect_run_builtin hl source
  have hsound := Walk.sound_run hp hr hrun
  rw [Engine.analyze_of_lookup? hl, analyzeIn_of_detect hforest]
  refine ⟨w.forest, hforest, fun htorn => ?_, fun htorn => ?_, fun hsize e he => ?_⟩
  · have hspan : ∀ e ∈ w.forest.entities,
        (Code.ofSource l source).spanFault? w.forest e = none := fun e he => by
      obtain ⟨id, hid⟩ := Forest.mem_entities.mp he
      exact hsound.spanFault?_eq_none hid fun hc hparent =>
        (hsound.within hid hc hparent).resolve_right htorn
    obtain ⟨hok, herror⟩ := scoredTrees_of_spans (l := l) hsound.linked hrange hspan
    refine ⟨hspan, fun hfits => ?_, fun hfits => ?_⟩
    · obtain ⟨ts, hts⟩ := hok hfits
      exact ⟨_, by rw [hts]; rfl⟩
    · rw [herror hfits]
      rfl
  · cases hts : scoredTrees l options (Code.ofSource l source) w.forest w.forest.entities.size
        w.forest.roots with
    | ok ts =>
      refine absurd htorn (Walk.not_torn_of_within hp hr hrun hj fun hq _ _ hc hparent => ?_)
      have hscore := (scoredTrees_ok_all hsound.linked hts hq).1
      exact hsound.last_le_of_spanFault? hq hc hparent (Code.score_eq_ok_iff.mp hscore).1
    | error fault =>
      obtain ⟨id, e, he, hscore⟩ := scoredTrees_error hts
      rcases Code.score_eq_error hscore with ⟨f, hf, rfl⟩ | ⟨rfl, hover⟩
      · rw [Code.spanFault?_of_placed (hsound.placed he).1] at hf
        obtain ⟨c, -, rfl⟩ := Option.map_eq_some_iff.mp hf
        exact .inl ⟨_, _, rfl⟩
      · exact .inr ⟨rfl, fun hfits => Nat.not_lt.mpr (hrange.overflows_iff.mp hover)
          (hfits e (Forest.mem_entities.mpr ⟨id, he⟩))⟩
  · obtain ⟨id, hid⟩ := Forest.mem_entities.mp he
    have hlt := (hsound.placed hid).1.length_decisions_lt l options w.forest
    rw [incrementSum_of_ones fun d hd => Code.increment_of_builtin hl hd]
    omega

/-- Braces that are never closed are no fault: no body ends, so nothing lies behind another. -/
theorem analyze_unclosed_java :
    ∃ r, ({} : Engine).analyze "A.java" "class A \x7b void f() \x7b if (a" "java" = .ok r := by
  obtain ⟨forest, hforest, hok, -, hfits⟩ := analyze_builtin "java" Language.Java.table.canonical
    rfl {} "A.java" "class A \x7b void f() \x7b if (a"
  have hall : (detect Language.Java.table.canonical (Code.ofSource Language.Java.table.canonical
      "class A \x7b void f() \x7b if (a")).toOption.any
        (fun found => found.entities.all (·.close.isNone)) = true := by
    rw [Code.ofSource_eq_ofChars _ _ rfl, Language.Java.canonical_eq]
    decide +kernel
  have hsize : (Code.ofSource Language.Java.table.canonical
      "class A \x7b void f() \x7b if (a").size = 11 := by
    rw [Code.ofSource_eq_ofChars _ _ rfl, Language.Java.canonical_eq]
    decide +kernel
  rw [hforest] at hall
  refine (hok ?_).2.1 (hfits (by rw [hsize]; decide))
  rintro ⟨f, hf, -, -, ⟨c, hc, -⟩, -⟩
  have hnone := Array.all_eq_true_iff_forall_mem.mp hall f hf
  rw [hc] at hnone
  cases hnone

/-- The fault of an analysis, if it has one. -/
def faultOf? {α : Type} : Except Fault α → Option Fault
  | .ok _ => none
  | .error fault => some fault

theorem eq_error_of_faultOf? {α : Type} {x : Except Fault α} {fault : Fault}
    (h : faultOf? x = some fault) : x = .error fault := by
  cases x with
  | ok a => cases h
  | error e => cases h; rfl

/-- A closing parenthesis cuts off the brace of a class inside a method.  The next method is
taken for one of that class and thus for one inside the first method. -/
theorem analyze_cutOff_class :
    ({} : Engine).analyze "A.java"
        "class A \x7b void f() \x7b x = ( class C \x7b ) \x7d void g() \x7b \x7d \x7d" "java" =
      .error (.malformedSpan "A.f" (.childOutside "A.f.C.g")) := by
  have hengine : ∀ file source, ({} : Engine).analyze file source "java" =
      analyzeIn Language.Java.table.canonical {} file source := fun _ _ => rfl
  rw [hengine, analyzeIn, Code.ofSource_eq_ofChars _ _ rfl, Language.Java.canonical_eq]
  exact eq_error_of_faultOf? (by decide +kernel)

end Cyclomatic
