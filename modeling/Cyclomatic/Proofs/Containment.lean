import Cyclomatic.Proofs.Alike.Signature
import Cyclomatic.Proofs.BestEffort
import Cyclomatic.Proofs.Tiling

/-!
# Functions where brackets match

Where every bracket has a partner, the function around another is the innermost one whose body
holds it (`detect_containment`).  The walk never compares places to find it.  It takes the function
on top of the scopes.  A later function is separate from an earlier one or inside a function that
is not before it (`Walk.Ordered.apart`), so no function between the two on the stack is missed.

Declarations are listed in the order of the source, since the walk goes on after the name of each
(`Walk.Declared`).
-/

namespace Cyclomatic

/-! ## Matching brackets -/

/-- Every bracket has a partner. -/
def Code.Matched (code : Code) : Prop :=
  ∀ i < code.size, (code.opensBracket i || code.closesBracket i) = true →
    (code.partner? i).isSome = true

instance (code : Code) : Decidable code.Matched :=
  inferInstanceAs (Decidable (∀ i < code.size, _ → _))

namespace Code

variable {code : Code} {rules : SignatureRules}

/-- A brace that opens a block is closed. -/
theorem Matched.partner (h : code.Matched) {i : Nat} (hi : code.isPunct i "\x7b" = true) :
    ∃ c, code.partner? i = some c := by
  have hopens : code.opensBracket i = true := opensBracket_of_isPunct (b := .curly) hi
  have hsome := h i (code.lt_size_of_isPunct hi) (by rw [hopens, Bool.true_or])
  exact Option.isSome_iff_exists.mp hsome

/-- The scope of every type is left. -/
theorem Matched.not_tornInside (h : code.Matched) (a c : Nat) :
    ¬ code.TornInside rules a c := by
  rintro ⟨k, -, -, -, s, hs, hnone⟩
  obtain ⟨-, -, brace, hbrace, rfl⟩ := containerAt?_eq_some hs
  obtain ⟨c, hc⟩ := h.partner (code.containerBrace?_brace rules hbrace).2
  rw [show code.partner? brace = none from hnone] at hc
  cases hc

theorem Matched.not_torn (h : code.Matched) (forest : Forest) : ¬ forest.Torn code rules := by
  rintro ⟨f, -, g, -, ⟨c, -, -, htorn⟩, -⟩
  exact h.not_tornInside _ _ htorn

end Code

/-! ## Containment -/

/-- The body of a function holds another function. -/
def Entity.Encloses (p e : Entity) : Prop :=
  p.opening < e.start ∧ ∃ d c, e.close = some d ∧ p.close = some c ∧ d < c

namespace Walk

variable {code : Code} {rules : SignatureRules} {i : Nat} {w : Walk}

/-- The closing brace of a function is its own. -/
theorem Ordered.exists_close (h : Ordered code i w) (hp : code.Paired) (hb : code.Matched)
    {id : Nat} {e : Entity} (he : w.forest.at? id = some e) :
    ∃ d, e.close = some d ∧ code.partner? e.opening = some d ∧
      code.closer? e.opening = some d := by
  obtain ⟨hplaced, -⟩ := h.placed he
  obtain ⟨d, hd⟩ := hb.partner hplaced.brace
  obtain ⟨hpair, -⟩ := hp.closer?_of_opening (b := .curly) hplaced.brace hd
  exact ⟨d, hplaced.own hd, hd, hpair⟩

/-- The function around another encloses it. -/
theorem Sound.encloses (h : Sound code rules i w) (hp : code.Paired) (hb : code.Matched)
    {p id : Nat} {q e : Entity} (hq : w.forest.at? p = some q) (he : w.forest.at? id = some e)
    (hparent : e.parent = some p) : q.Encloses e := by
  have hafter := h.after hq he hparent
  have hstart := (h.placed he).1.start_le
  have hwithin := (h.within hq he hparent).resolve_right (hb.not_torn w.forest)
  obtain ⟨d, hd, -, hpair⟩ := h.exists_close hp hb he
  obtain ⟨c, hc, -, hpair'⟩ := h.exists_close hp hb hq
  have hlt := code.lt_closer? hpair
  simp only [Entity.last, hd, hc, Option.getD_some] at hwithin
  exact ⟨hafter, d, c, hd, hc, hp.nested hpair' hpair (by omega) (by omega)⟩

/-- A function that encloses another is the one around it or an earlier one. -/
theorem Ordered.le_parent (h : Ordered code i w) (hp : code.Paired) (hb : code.Matched)
    {r id : Nat} {x e : Entity} (hx : w.forest.at? r = some x) (he : w.forest.at? id = some e)
    (hencloses : x.Encloses e) : ∃ p, e.parent = some p ∧ r ≤ p := by
  obtain ⟨hopen, d, c, hd, hc, hdc⟩ := hencloses
  have hstart := (h.placed he).1.start_le
  have hlt : r < id := by
    rcases Nat.lt_trichotomy r id with hlt | rfl | hlt
    · exact hlt
    · obtain rfl : x = e := Option.some.inj (hx.symm.trans he)
      omega
    · have := h.opening_lt he hx hlt
      omega
  rcases h.apart hx he hlt with ⟨c', hc', hbefore⟩ | hparent
  · -- The earlier function would end before the later one starts.
    obtain ⟨d', hd', -, hpair⟩ := h.exists_close hp hb he
    have := code.lt_closer? hpair
    rw [hc] at hc'
    rw [hd] at hd'
    cases hc'
    cases hd'
    omega
  · exact hparent

/-- The function around another is the innermost that encloses it. -/
theorem Sound.parent_iff (h : Sound code rules i w) (hp : code.Paired) (hb : code.Matched)
    {id p : Nat} {e : Entity} (he : w.forest.at? id = some e) :
    e.parent = some p ↔ ∃ q, w.forest.at? p = some q ∧ q.Encloses e ∧
      ∀ x ∈ w.forest.entities, x.Encloses e → x.opening ≤ q.opening := by
  constructor
  · intro hparent
    obtain ⟨q, hq⟩ := h.linked.exists_parent he hparent
    refine ⟨q, hq, h.encloses hp hb hq he hparent, fun x hx hencloses => ?_⟩
    obtain ⟨r, hr⟩ := Forest.mem_entities.mp hx
    obtain ⟨p', hp', hle⟩ := h.le_parent hp hb hr he hencloses
    obtain rfl : p = p' := Option.some.inj (hparent.symm.trans hp')
    rcases Nat.lt_or_eq_of_le hle with hlt | rfl
    · exact Nat.le_of_lt (h.opening_lt hr hq hlt)
    · obtain rfl : x = q := Option.some.inj (hr.symm.trans hq)
      exact Nat.le_refl _
  · rintro ⟨q, hq, hencloses, hmost⟩
    obtain ⟨p', hp', hle⟩ := h.le_parent hp hb hq he hencloses
    obtain ⟨q', hq'⟩ := h.linked.exists_parent he hp'
    rcases Nat.lt_or_eq_of_le hle with hlt | rfl
    · have h1 := h.opening_lt hq hq' hlt
      have h2 := hmost q' (Forest.mem_entities.mpr ⟨p', hq'⟩) (h.encloses hp hb hq' he hp')
      omega
    · exact hp'

theorem Sound.parent_none_iff (h : Sound code rules i w) (hp : code.Paired) (hb : code.Matched)
    {id : Nat} {e : Entity} (he : w.forest.at? id = some e) :
    e.parent = none ↔ ∀ x ∈ w.forest.entities, ¬ x.Encloses e := by
  constructor
  · intro hnone x hx hencloses
    obtain ⟨r, hr⟩ := Forest.mem_entities.mp hx
    obtain ⟨p, hparent, -⟩ := h.le_parent hp hb hr he hencloses
    rw [hnone] at hparent
    cases hparent
  · intro hnot
    cases hparent : e.parent with
    | none => rfl
    | some p =>
      obtain ⟨q, hq, hencloses, -⟩ := (h.parent_iff hp hb he).mp hparent
      exact absurd hencloses (hnot q (Forest.mem_entities.mpr ⟨p, hq⟩))

/-! ## Declarations -/

/-- The declarations found before token `i` stand in order. -/
structure Declared (code : Code) (i : Nat) (w : Walk) : Prop where
  /-- Later ones have greater offsets. -/
  order : w.forest.declarations.Pairwise fun a b => a.offset < b.offset
  /-- They stand before the token. -/
  before : ∀ d ∈ w.forest.declarations, d.offset < code.offset i

theorem Declared.mono (h : Declared code i w) (hl : code.Laid) {j : Nat} (hij : i ≤ j)
    {w' : Walk} (hw : w'.forest.declarations = w.forest.declarations) : Declared code j w' := by
  constructor <;> rw [hw]
  · exact h.order
  · exact fun d hd => Nat.lt_of_lt_of_le (h.before d hd) (hl.offset_le hij)

/-- The name of a declaration stands after the earlier ones and before the token to go on at. -/
theorem Declared.declare (h : Declared code i w) (hl : code.Laid) {s : Signature} {resume : Nat}
    (hs : s.Forward code i) (hname : code.isKind s.name .identifier = true)
    (ht : s.tail = .terminated resume) : Declared code resume (w.declare code s) := by
  have hafter : code.offset s.name < code.offset resume := by
    obtain ⟨t, ht', hkind⟩ := Option.map_eq_some_iff.mp (beq_iff_eq.mp hname)
    have htoken : code.token? s.name = some t.toToken := by simp [Code.token?, ht']
    exact hl.offset_lt htoken (by rw [hkind]; decide) (hs.terminated ht)
  have hbefore : ∀ d ∈ w.forest.declarations, d.offset < code.offset s.name := fun d hd =>
    Nat.lt_of_lt_of_le (h.before d hd) (hl.offset_le hs.le_name)
  constructor
  · refine List.pairwise_append.mpr ⟨h.order, List.pairwise_singleton .., ?_⟩
    intro d hd e he
    obtain rfl := List.mem_singleton.mp he
    exact hbefore d hd
  · intro d hd
    rcases List.mem_append.mp hd with hd | hd
    · exact Nat.lt_trans (hbefore d hd) hafter
    · obtain rfl := List.mem_singleton.mp hd
      exact hafter

/-- A step keeps the declarations in order. -/
theorem Declared.step (h : Declared code i w) (hp : code.Paired) (hl : code.Laid) {j : Nat}
    {w' : Walk} (hstep : Next code rules (i, w) (j, w')) : Declared code j w' := by
  have harrive : Declared code i (w.arrive code rules i) :=
    h.mono hl (Nat.le_refl i) (by rw [arrive_forest])
  obtain ⟨-, next, hstep, hj⟩ := hstep
  simp only at hstep hj
  rcases step_cases hstep with ⟨rfl, -⟩ | ⟨s, brace, -, -, rfl, -⟩ | ⟨s, hs, htail, rfl⟩
  · exact harrive.mono hl (by omega) rfl
  · exact harrive.mono hl (by omega) (Forest.declarations_add ..)
  · exact (harrive.declare hl (Code.signatureAt_forward hp hs) (Code.isKind_name hs) htail).mono hl
      (by omega) rfl

/-- The walk keeps the declarations in order. -/
theorem declared_run (hp : code.Paired) (hl : code.Laid) {j : Nat} {w' : Walk}
    (hrun : Run code rules (0, {}) (j, w')) : Declared code j w' := by
  generalize hb : (j, w') = b at hrun
  induction hrun generalizing j w' with
  | refl => cases hb; exact ⟨.nil, nofun⟩
  | @tail a b hrun hstep ih =>
    subst hb
    exact (ih rfl).step hp hl hstep

end Walk

/-- In a source of a built-in language whose brackets all have partners, a function ends at the
partner of its opening brace, the function around it is the innermost that encloses it, lists of
functions hold those with one parent in order, and so do the declarations. -/
theorem detect_containment (name : String) (l : Language)
    (hl : Registry.builtin.lookup? name = some l) (source : String)
    (hb : (Code.ofSource l source).Matched) :
    ∃ forest, detect l (Code.ofSource l source) = .ok forest ∧
      (∀ e ∈ forest.entities, e.close.isSome = true ∧
        e.close = (Code.ofSource l source).partner? e.opening ∧
        (∀ p, e.parent = some p ↔ ∃ q, forest.at? p = some q ∧ q.Encloses e ∧
          ∀ x ∈ forest.entities, x.Encloses e → x.opening ≤ q.opening) ∧
        (e.parent = none ↔ ∀ x ∈ forest.entities, ¬ x.Encloses e)) ∧
      (∀ p q, forest.at? p = some q →
        (∀ id, id ∈ q.children ↔ ∃ e, forest.at? id = some e ∧ e.parent = some p) ∧
        q.children.Pairwise (forest.Follow (Code.ofSource l source).size)) ∧
      (∀ id, id ∈ forest.roots ↔ ∃ e, forest.at? id = some e ∧ e.parent = none) ∧
      forest.roots.Pairwise (forest.Follow (Code.ofSource l source).size) ∧
      forest.declarations.Pairwise fun a b => a.offset < b.offset := by
  have hr := braceless_builtin hl
  have hp := Code.paired_ofSource l source
  obtain ⟨forest, hforest, j, w, hrun, -, rfl⟩ := detect_run_builtin hl source
  have hsound := Walk.sound_run hp hr hrun
  refine ⟨w.forest, hforest, fun e he => ?_, fun p q hq => ?_, fun id => hsound.linked.roots,
    hsound.follow hsound.linked.rootOrder hsound.linked.roots,
    (Walk.declared_run hp (Code.laid_ofSource l source) hrun).order⟩
  · obtain ⟨id, hid⟩ := Forest.mem_entities.mp he
    obtain ⟨d, hd, hpartner, -⟩ := hsound.exists_close hp hb hid
    exact ⟨by rw [hd]; rfl, hd.trans hpartner.symm, fun p => hsound.parent_iff hp hb hid,
      hsound.parent_none_iff hp hb hid⟩
  · exact ⟨fun id => hsound.linked.children hq,
      hsound.follow (hsound.linked.childOrder hq) (hsound.linked.children hq)⟩

/-- A class with a method, a class inside it with another method, and two declarations. -/
def nestedMethods : String :=
  "class A \x7b void f() \x7b class B \x7b void g() \x7b h(x[0]); \x7d \x7d \x7d " ++
    "int h(); int k(); \x7d"

theorem nestedMethods_parent :
    (Code.ofSource Language.Java.table.canonical nestedMethods).Matched ∧
      (detect Language.Java.table.canonical
        (Code.ofSource Language.Java.table.canonical nestedMethods)).toOption.any (fun forest =>
          (forest.at? 1).any (·.parent == some 0)) = true := by
  rw [Code.ofSource_eq_ofChars _ nestedMethods (append_eq_ofList rfl rfl),
    Language.Java.canonical_eq]
  decide +kernel

/-- The inner method is inside the outer one, so the outer one encloses it. -/
theorem detect_containment_nestedMethods :
    (Code.ofSource Language.Java.table.canonical nestedMethods).Matched ∧
      ∃ forest, detect Language.Java.table.canonical
        (Code.ofSource Language.Java.table.canonical nestedMethods) = .ok forest ∧
        ∃ q e, forest.at? 0 = some q ∧ forest.at? 1 = some e ∧ q.Encloses e := by
  obtain ⟨hb, hparent⟩ := nestedMethods_parent
  obtain ⟨forest, hforest, hall, -⟩ :=
    detect_containment "java" Language.Java.table.canonical rfl nestedMethods hb
  rw [hforest] at hparent
  change (forest.at? 1).any _ = true at hparent
  obtain ⟨e, he, hp⟩ := (Option.any_eq_true ..).mp hparent
  obtain ⟨-, -, hinnermost, -⟩ := hall e (Forest.mem_entities.mpr ⟨1, he⟩)
  obtain ⟨q, hq, hencloses, -⟩ := (hinnermost 0).mp (beq_iff_eq.mp hp)
  exact ⟨hb, forest, hforest, q, e, hq, he, hencloses⟩

end Cyclomatic
