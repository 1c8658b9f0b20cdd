import Cyclomatic.Proofs.Order

/-!
# Where functions nest

The walk attaches a function to the innermost function scope.  `Walk.Sound` adds to the order of
the functions (`Walk.Ordered`) that open scopes are closed from the top down, and that a function
lies in the body of the function around it.

The last point has one exception.  The scope of a type whose brace has no partner is never left,
so the function scopes below it stay on the stack after their closing brace.  A function found
there is attached to a function that it lies behind (`Entity.Behind`).  `Code.TornInside` says
that the walk meets such a type between two tokens.
-/

namespace Cyclomatic

/-! ## Types that are never left -/

/-- The walk comes to a token. -/
def Code.Reached (code : Code) (rules : SignatureRules) (k : Nat) : Prop :=
  ∃ w, Walk.Run code rules (0, {}) (k, w)

/-- The walk comes to a type between two tokens whose opening brace has no partner.  The scope of
such a type is never left. -/
def Code.TornInside (code : Code) (rules : SignatureRules) (a c : Nat) : Prop :=
  ∃ k, a < k ∧ k < c ∧ code.Reached rules k ∧
    ∃ s, code.containerAt? rules k = some s ∧ s.close = none

/-- A function starts behind the body of another in which the scope of a type is never left. -/
structure Entity.Behind (code : Code) (rules : SignatureRules) (f g : Entity) : Prop where
  /-- The earlier body ends before the later signature, and holds the type. -/
  torn : ∃ c, f.close = some c ∧ c < g.start ∧ code.TornInside rules f.opening c
  /-- The later body has a closing brace of its own. -/
  own : (code.partner? g.opening).isSome = true

theorem Entity.Behind.adopt_left {code : Code} {rules : SignatureRules} {f g : Entity}
    (h : f.Behind code rules g) (yes : Bool) (id : Nat) : (f.adopt yes id).Behind code rules g := by
  cases yes <;> exact ⟨h.torn, h.own⟩

theorem Entity.Behind.adopt_right {code : Code} {rules : SignatureRules} {f g : Entity}
    (h : f.Behind code rules g) (yes : Bool) (id : Nat) : f.Behind code rules (g.adopt yes id) := by
  cases yes <;> exact ⟨h.torn, h.own⟩

/-- Some function of the forest lies behind another. -/
def Forest.Torn (code : Code) (rules : SignatureRules) (forest : Forest) : Prop :=
  ∃ f ∈ forest.entities, ∃ g ∈ forest.entities, f.Behind code rules g

/-- Adding a function keeps those that lie behind another. -/
theorem Forest.Torn.add {code : Code} {rules : SignatureRules} {forest : Forest}
    (h : forest.Torn code rules) (e : Entity) : (forest.add e).Torn code rules := by
  obtain ⟨f, hf, g, hg, hbehind⟩ := h
  obtain ⟨a, ha⟩ := Forest.mem_entities.mp hf
  obtain ⟨b, hb⟩ := Forest.mem_entities.mp hg
  exact ⟨_, Forest.mem_entities.mpr ⟨a, Forest.at?_add_old ha⟩, _,
    Forest.mem_entities.mpr ⟨b, Forest.at?_add_old hb⟩, (hbehind.adopt_left ..).adopt_right ..⟩

/-! ## What the walk keeps -/

namespace Walk

/-- A scope that lies above a function scope is closed first, unless the scope of a type inside
the function is never left. -/
def Covers (code : Code) (rules : SignatureRules) (forest : Forest) (t s : Scope) : Prop :=
  ∀ {id c e}, s.function? = some (id, some c) → forest.at? id = some e →
    code.TornInside rules e.opening c ∨ ∃ d, t.close = some d ∧ d ≤ c

/-- What holds when the walk comes to token `i`. -/
structure Sound (code : Code) (rules : SignatureRules) (i : Nat) (w : Walk) : Prop
    extends Ordered code i w where
  /-- Scopes are closed from the top down. -/
  cover : w.scopes.Pairwise (Covers code rules w.forest)
  /-- A function ends with the one around it, or some function lies behind another. -/
  within : ∀ {p q}, w.forest.at? p = some q →
    ∀ {id e}, w.forest.at? id = some e → e.parent = some p →
      e.last code.size ≤ q.last code.size ∨ w.forest.Torn code rules

/-- Every function scope closes at the token or after it, unless the scope of a type inside the
function is never left. -/
def Live (code : Code) (rules : SignatureRules) (i : Nat) (w : Walk) : Prop :=
  ∀ s ∈ w.scopes, ∀ {id c e}, s.function? = some (id, some c) → w.forest.at? id = some e →
    code.TornInside rules e.opening c ∨ i ≤ c

variable {code : Code} {rules : SignatureRules} {i : Nat} {w : Walk}

theorem sound_start : Sound code rules 0 {} where
  toOrdered := ordered_start
  cover := .nil
  within h := by simp [Forest.at?] at h

/-- The body of a function scope was opened before the token. -/
theorem Ordered.body_of_scope (h : Ordered code i w) {s : Scope} (hs : s ∈ w.scopes) {id c : Nat}
    {e : Entity} (hf : s.function? = some (id, some c)) (he : w.forest.at? id = some e) :
    e.opening < i ∧ ∃ o, o ≤ e.opening ∧ code.Body o c := by
  obtain ⟨hplaced, hopen⟩ := h.placed he
  obtain ⟨e', he', hclose⟩ := h.known s hs hf
  obtain rfl : e' = e := Option.some.inj (he'.symm.trans he)
  exact ⟨hopen, hplaced.body hclose⟩

/-! ## Leaving scopes and entering types -/

theorem Sound.mono (h : Sound code rules i w) {j : Nat} (hij : i ≤ j) : Sound code rules j w :=
  { h.toOrdered.mono hij with
    cover := h.cover
    within := h.within }

theorem Sound.leave (h : Sound code rules i w) : Sound code rules i (w.leave i) := by
  obtain ⟨gone, hsplit, -⟩ := leave_split w i
  have hsub : (w.leave i).scopes.Sublist w.scopes := by
    rw [hsplit]
    exact List.sublist_append_right ..
  exact { h.toOrdered.leave with
    cover := h.cover.sublist hsub
    within := h.within }

theorem Sound.live_leave (h : Sound code rules i w) : Live code rules i (w.leave i) := by
  have hcover := h.leave.cover
  intro s hs id c e hf he
  cases hscopes : (w.leave i).scopes with
  | nil => simp [hscopes] at hs
  | cons t rest =>
    rw [hscopes] at hcover hs
    have hhead : (w.leave i).scopes.head? = some t := by simp [hscopes]
    cases List.mem_cons.mp hs with
    | inl heq =>
      subst heq
      exact Or.inr (leave_head hhead (Scope.function?_close hf))
    | inr hrest =>
      -- The innermost scope lies above this one and is still open.
      cases (List.pairwise_cons.mp hcover).1 s hrest hf he with
      | inl htorn => exact Or.inl htorn
      | inr hd =>
        obtain ⟨d, hd, hle⟩ := hd
        exact Or.inr (Nat.le_trans (leave_head hhead hd) hle)

/-- The scope of a type closes inside every body that holds its keyword. -/
theorem containerAt?_close (hp : code.Paired) {s : Scope} {o c d : Nat} (b : code.Body o c)
    (ho : o < i) (hc : i ≤ c) (h : code.containerAt? rules i = some s) (hd : s.close = some d) :
    d < c := by
  obtain ⟨hword, hname, brace, hbrace, rfl⟩ := Code.containerAt?_eq_some h
  have h1 : i + 1 ≤ c := b.lt_of_isWord (Code.isWord_of_isWordIn hword) hc
  have h2 : i + 1 + 1 ≤ c := b.lt_of_isKind hname (by decide) h1
  have hlt := b.containerBrace_lt hp (by omega) h2 hbrace
  obtain ⟨hle, hopen⟩ := code.containerBrace?_brace rules hbrace
  exact (b.partner_lt hp (s := .curly) (by omega) (Nat.le_of_lt hlt) hopen hd).2

theorem Sound.enterContainer (h : Sound code rules i w) (hlive : Live code rules i w)
    (hp : code.Paired) (hi : code.Reached rules i) :
    Sound code rules i (w.enterContainer code rules i) ∧
      Live code rules i (w.enterContainer code rules i) := by
  have hordered : Ordered code i (w.enterContainer code rules i) := h.toOrdered.enterContainer
  unfold Walk.enterContainer at hordered ⊢
  cases hs : code.containerAt? rules i with
  | none => exact ⟨h, hlive⟩
  | some s =>
    rw [hs] at hordered
    obtain ⟨hword, hnone⟩ := containerAt?_scope hs
    refine ⟨{ hordered with cover := ?_, within := h.within }, ?_⟩
    · refine List.pairwise_cons.mpr ⟨fun t ht id c e hf he => ?_, h.cover⟩
      refine (hlive t ht hf he).elim Or.inl fun hle => ?_
      obtain ⟨hopen, o, ho, b⟩ := h.body_of_scope ht hf he
      -- The type ends inside the function, or its scope is one that is never left.
      cases hd : s.close with
      | some d =>
        have hlt := containerAt?_close hp b (Nat.lt_of_le_of_lt ho hopen) hle hs hd
        exact Or.inr ⟨d, rfl, Nat.le_of_lt hlt⟩
      | none => exact Or.inl ⟨i, hopen, b.lt_of_isWord hword hle, hi, s, hs, hd⟩
    · intro t ht id c e hf he
      cases List.mem_cons.mp ht with
      | inl heq => subst heq; rw [hnone] at hf; cases hf
      | inr hmem => exact hlive t hmem hf he

/-! ## Entering functions -/

section Enter

variable {s : Signature} {brace : Nat}

/-- A new function ends with the function around it, or lies behind it. -/
theorem Sound.entity_within (h : Sound code rules i w) (hlive : Live code rules i w)
    (hp : code.Paired) (hs : s.Forward code i) (ht : s.tail = .body brace)
    (hb : code.OpensAfter i brace) {p : Nat} {q : Entity} (hq : w.forest.at? p = some q)
    (hw : w.innermost? = some (p, q.close)) :
    (w.entity code rules s brace).last code.size ≤ q.last code.size ∨
      q.Behind code rules (w.entity code rules s brace) := by
  obtain ⟨hplaced, hopen⟩ := h.placed hq
  cases hclose : q.close with
  | none =>
    left
    have hentity : (w.entity code rules s brace).Placed code := h.placed_entity hp hs ht
    simpa [Entity.last, hclose] using hentity.last_le
  | some c =>
    unfold Entity.last
    rw [hclose, Option.getD_some]
    cases hd : code.partner? brace with
    | none =>
      left
      rw [entity_close_of_alone hd, hw, hclose]
      exact Nat.le_refl c
    | some d =>
      rw [entity_close_of_partner hd, Option.getD_some]
      obtain ⟨o, ho, b⟩ := hplaced.body hclose
      by_cases hc : i ≤ c
      · left
        exact Nat.le_of_lt (hb.close_lt hp b (Nat.lt_of_le_of_lt ho hopen) hc hd)
      · right
        -- The body around is over, so a type in it was never left.
        obtain ⟨above, t, below, hscopes, ht, -⟩ := innermost?_split hw
        rw [hclose] at ht
        have htorn : code.TornInside rules q.opening c :=
          (hlive t (by simp [hscopes]) ht hq).resolve_right hc
        refine ⟨⟨c, hclose, ?_, htorn⟩, by simp [entity, hd]⟩
        change c < code.signatureStart rules s.anchor
        exact Code.lt_signatureStart (Or.inr rfl) b.close (by rw [hs.anchor]; omega)

/-- The scope of a new function is closed before those below it. -/
theorem Sound.entity_covers (h : Sound code rules i w) (hlive : Live code rules i w)
    (hp : code.Paired) (hb : code.OpensAfter i brace) {t u : Scope} (ht : t ∈ w.scopes)
    (hu : u.close = (w.entity code rules s brace).close) : Covers code rules w.forest u t := by
  intro id c e hf he
  refine (hlive t ht hf he).elim Or.inl fun hle => ?_
  obtain ⟨hopen, o, ho, b⟩ := h.body_of_scope ht hf he
  cases hd : code.partner? brace with
  | some d =>
    have hlt := hb.close_lt hp b (Nat.lt_of_le_of_lt ho hopen) hle hd
    exact Or.inr ⟨d, hu.trans (entity_close_of_partner hd), Nat.le_of_lt hlt⟩
  | none =>
    rw [entity_close_of_alone hd] at hu
    cases hw : w.innermost? with
    | none =>
      have := List.findSome?_eq_none_iff.mp hw t ht
      rw [hf] at this
      cases this
    | some inner =>
      obtain ⟨p, close⟩ := inner
      obtain ⟨above, v, below, hscopes, hv, habove⟩ := innermost?_split hw
      rw [hw] at hu
      have huv : u.close = v.close := hu.trans (Scope.function?_close hv).symm
      rw [hscopes, List.mem_append, List.mem_cons] at ht
      rcases ht with ht | rfl | ht
      · rw [habove t ht] at hf
        cases hf
      · exact Or.inr ⟨c, by rw [huv, Scope.function?_close hf], Nat.le_refl c⟩
      · have hcover := h.cover
        rw [hscopes] at hcover
        have := (List.pairwise_cons.mp (List.pairwise_append.mp hcover).2.1).1 t ht hf he
        rwa [huv]

theorem Sound.enterFunction (h : Sound code rules i w) (hlive : Live code rules i w)
    (hp : code.Paired) (hs : s.Forward code i) (ht : s.tail = .body brace)
    (hb : code.OpensAfter i brace) :
    Sound code rules (brace + 1) (w.enterFunction code rules s brace) := by
  refine { h.toOrdered.enterFunction hp hs ht with cover := ?_, within := ?_ }
  · have hmono : ∀ {t u}, u ∈ w.scopes → Covers code rules w.forest t u →
        Covers code rules (w.enterFunction code rules s brace).forest t u := by
      intro t u hu hcover id c x hf hx
      obtain ⟨y, hy, -⟩ := h.known u hu hf
      obtain rfl := Option.some.inj (hx.symm.trans (Forest.at?_add_old hy))
      rw [Entity.adopt_opening]
      exact hcover hf hy
    refine List.pairwise_cons.mpr ⟨fun u hu => hmono hu ?_, ?_⟩
    · exact h.entity_covers (s := s) hlive hp hb hu rfl
    · exact h.cover.imp_of_mem fun _ hu => hmono hu
  · intro p q hq id x hx hxp
    obtain ⟨q, hq', ⟨_, _, rfl⟩, ⟨hw, rfl⟩ | ⟨y, hy, hyp, _, _, rfl⟩⟩ := h.add_cases hq hx hxp
    · rw [Entity.last_adopt]
      refine (h.entity_within hlive hp hs ht hb hq' hw).imp_right fun hbehind => ?_
      exact ⟨_, Forest.mem_entities.mpr ⟨p, hq⟩, _, Forest.mem_entities.mpr ⟨id, hx⟩,
        hbehind.adopt_left ..⟩
    · rw [Entity.last_adopt, Entity.last_adopt]
      exact (h.within hq' hy hyp).imp_right fun htorn => htorn.add _

end Enter

/-! ## Steps -/

theorem Sound.arrive (h : Sound code rules i w) (hp : code.Paired) (hi : code.Reached rules i) :
    Sound code rules i (w.arrive code rules i) ∧ Live code rules i (w.arrive code rules i) :=
  h.leave.enterContainer h.live_leave hp hi

theorem Sound.declare (h : Sound code rules i w) (s : Signature) :
    Sound code rules i (w.declare code s) :=
  { h.toOrdered.declare s with
    cover := h.cover
    within := h.within }

/-- A step keeps the functions nested. -/
theorem Sound.step (hp : code.Paired) (hr : rules.Braceless) {j : Nat} {w' : Walk}
    (hi : code.Reached rules i) (h : Sound code rules i w)
    (hstep : Next code rules (i, w) (j, w')) : Sound code rules j w' := by
  obtain ⟨harrive, hlive⟩ := h.arrive hp hi
  obtain ⟨-, next, hstep, hj⟩ := hstep
  simp only at hstep hj
  rcases step_cases hstep with ⟨rfl, rfl⟩ | ⟨s, brace, hs, htail, rfl, rfl⟩ | ⟨s, -, -, rfl⟩
  · exact harrive.mono (by omega)
  · have hforward := Code.signatureAt_forward hp hs
    have hopens := (Code.signatureAt_opens hp hr hs).2 htail
    exact (harrive.enterFunction hlive hp hforward htail hopens).mono (by omega)
  · exact (harrive.declare s).mono (by omega)

/-- The walk keeps the functions nested. -/
theorem sound_run (hp : code.Paired) (hr : rules.Braceless) {j : Nat} {w' : Walk}
    (hrun : Run code rules (0, {}) (j, w')) : Sound code rules j w' := by
  generalize hb : (j, w') = b at hrun
  induction hrun generalizing j w' with
  | refl => cases hb; exact sound_start
  | @tail a b hrun hstep ih =>
    subst hb
    exact (ih rfl).step hp hr ⟨_, hrun⟩ hstep

end Walk

end Cyclomatic
