import Cyclomatic.Proofs.BestEffort
import Cyclomatic.Proofs.Tiling

/-!
# Places of functions are laminar

The tokens of two functions are apart, or those of one lie among those of the other
(`detect_laminar`).  This holds for every source in a built-in language, whether its brackets are
paired or not.

The place of a single function is well formed (`Entity.WellFormed`) with one exception.  A body
without a closing brace of its own ends with the function around it.  If the scope of a type was
never left, that function may have ended before the signature starts, and then the recorded end
lies before the start (`Entity.Stranded`).
-/

namespace Cyclomatic

/-! ## Single functions -/

/-- The recorded place of a function has its end after its start. -/
structure Entity.WellFormed (e : Entity) : Prop where
  /-- The body is closed after it was opened. -/
  closes : ∀ {c}, e.close = some c → e.opening < c
  /-- There is a byte between the ends. -/
  bytes : e.span.startByte < e.span.endByte
  /-- The last line is not before the first. -/
  lines : e.span.startLine ≤ e.span.endLine

/-- The body of a function has no closing brace of its own, and the function around it ended
before the signature starts. -/
def Entity.Stranded (code : Code) (rules : SignatureRules) (forest : Forest) (e : Entity) : Prop :=
  code.partner? e.opening = none ∧ ∃ p q c, e.parent = some p ∧ forest.at? p = some q ∧
    q.close = some c ∧ c < e.start ∧ code.TornInside rules q.opening c

theorem Entity.Stranded.add {code : Code} {rules : SignatureRules} {forest : Forest} {e : Entity}
    (h : e.Stranded code rules forest) (x : Entity) (yes : Bool) (n : Nat) :
    (e.adopt yes n).Stranded code rules (forest.add x) := by
  obtain ⟨hd, p, q, c, hparent, hq, hc, hlt, htorn⟩ := h
  refine ⟨by rwa [Entity.adopt_opening], p, _, c, by rwa [Entity.adopt_parent],
    Forest.at?_add_old hq, by rwa [Entity.adopt_close], by rwa [Entity.adopt_start], ?_⟩
  rwa [Entity.adopt_opening]

namespace Entity.Placed

variable {code : Code} {e : Entity}

theorem endByte_le (h : e.Placed code) (hl : code.Laid) : e.span.endByte ≤ code.bytes := by
  rw [h.endByte]
  cases ht : e.close.bind code.token? with
  | none => exact Nat.le_refl _
  | some t =>
    obtain ⟨c, -, hc⟩ := Option.bind_eq_some_iff.mp ht
    exact (hl.bounds t (Code.Laid.mem_tokens hc)).2

theorem opening_le_last (h : e.Placed code) (hc : e.close = none) :
    e.opening ≤ e.last code.size := by
  have := code.lt_size_of_isPunct h.brace
  simp only [Entity.last, hc, Option.getD_none]
  omega

/-- A token before the end starts before the last byte, if it is no piece of a literal. -/
theorem offset_lt_endByte (h : e.Placed code) (hl : code.Laid) {k : Nat} {t : Token}
    (ht : code.token? k = some t) (hkind : t.kind ≠ .stringLiteral)
    (hk : k < e.close.getD code.size) : code.offset k < e.span.endByte := by
  have hlt := hl.offset_lt ht hkind hk
  rw [h.endByte]
  cases hc : e.close with
  | none =>
    rw [hc, Option.getD_none, Code.Laid.offset_of_size_le (Nat.le_refl _)] at hlt
    exact hlt
  | some c =>
    obtain ⟨o, -, b⟩ := h.body hc
    obtain ⟨u, hu⟩ := Code.Laid.exists_token (code.lt_size_of_isPunct b.close)
    rw [hc, Option.getD_some, Code.Laid.offset_eq hu] at hlt
    simp only [Option.bind_some, hu, Option.map_some, Option.getD_some]
    exact Nat.lt_of_lt_of_le hlt (hl.bounds u (Code.Laid.mem_tokens hu)).1

/-- A body that is closed after it was opened has a well-formed place. -/
theorem wellFormed (h : e.Placed code) (hl : code.Laid)
    (hclose : ∀ {c}, e.close = some c → e.opening < c) : e.WellFormed where
  closes := hclose
  bytes := by
    obtain ⟨t, ht, hpunct⟩ := Code.isPunct_iff_token?.mp h.brace
    simp only [Token.isPunct, Bool.and_eq_true, beq_iff_eq] at hpunct
    have hlt : e.opening < e.close.getD code.size := by
      cases hc : e.close with
      | none => exact code.lt_size_of_isPunct h.brace
      | some c => exact hclose hc
    rw [h.startByte]
    exact Nat.lt_of_le_of_lt (hl.offset_le h.start_le)
      (h.offset_lt_endByte hl ht (by simp [hpunct.1]) hlt)
  lines := by
    rw [h.startLine, h.endLine]
    cases hc : e.close with
    | none => exact hl.lineOf_le_lastLine e.start
    | some c => exact hl.lineOf_le (Nat.le_trans h.start_le (Nat.le_of_lt (hclose hc)))

end Entity.Placed

/-! ## What the walk keeps -/

/-- A function ends before a later one starts, or holds its tokens. -/
def Entity.Leads (size : Nat) (x y : Entity) : Prop :=
  x.last size < y.start ∨ (x.start ≤ y.start ∧ y.last size ≤ x.last size)

namespace Walk

variable {code : Code} {rules : SignatureRules} {i : Nat} {w : Walk}

/-- What the walk keeps of the places of functions. -/
structure Laminar (code : Code) (rules : SignatureRules) (w : Walk) : Prop where
  /-- Every function leads the later ones. -/
  leads : ∀ {a b x y}, w.forest.at? a = some x → w.forest.at? b = some y → a < b →
    x.Leads code.size y
  /-- A body is closed after it was opened, or its function is stranded. -/
  seated : ∀ {id e}, w.forest.at? id = some e →
    (∀ {c}, e.close = some c → e.opening < c) ∨ e.Stranded code rules w.forest

section Enter

variable {s : Signature} {brace : Nat}

/-- A new function ends with every function that is still open.  Without a closing brace of its own
it ends with the innermost one, which an earlier one leads already. -/
theorem Laminar.entity_last_le (hw : Laminar code rules w) (h : Ordered code i w)
    (hp : code.Paired) (hs : s.Forward code i) (ht : s.tail = .body brace)
    (hb : code.OpensAfter i brace) {a : Nat} {x : Entity} (hx : w.forest.at? a = some x)
    (hopen : ∀ c, x.close = some c → i ≤ c) :
    (w.entity code rules s brace).last code.size ≤ x.last code.size := by
  obtain ⟨hplaced, hlt⟩ := h.placed hx
  cases hc : x.close with
  | none =>
    have hentity : (w.entity code rules s brace).Placed code := h.placed_entity hp hs ht
    simpa [Entity.last, hc] using hentity.last_le
  | some c =>
    have hci := hopen c hc
    have hlast : x.last code.size = c := by simp [Entity.last, hc]
    cases hd : code.partner? brace with
    | some d =>
      obtain ⟨o, ho, b⟩ := hplaced.body hc
      have hdc := hb.close_lt hp b (Nat.lt_of_le_of_lt ho hlt) hci hd
      rw [hlast]
      simpa [Entity.last, entity_close_of_partner hd] using Nat.le_of_lt hdc
    | none =>
      have hid : a ∈ openIds w.scopes := by
        refine (h.settled hx).resolve_right ?_
        rintro ⟨d, hd, hdi⟩
        exact absurd (hopen d hd) (Nat.not_le_of_lt hdi)
      obtain ⟨p, q, hq, hinner, hle⟩ := h.le_innermost hid
      have hborrow : (w.entity code rules s brace).last code.size = q.last code.size := by
        simp [Entity.last, entity_close_of_alone hd, hinner]
      rw [hborrow]
      rcases Nat.lt_or_eq_of_le hle with hap | rfl
      · rcases hw.leads hx hq hap with hbefore | ⟨-, hin⟩
        · obtain ⟨hq1, hq2⟩ := h.placed hq
          have := hq1.start_le
          omega
        · exact hin
      · obtain rfl : x = q := Option.some.inj (hx.symm.trans hq)
        exact Nat.le_refl _

/-- Every function leads a new one. -/
theorem Laminar.entity_leads (hw : Laminar code rules w) (h : Ordered code i w) (hp : code.Paired)
    (hs : s.Forward code i) (ht : s.tail = .body brace) (hb : code.OpensAfter i brace) {a : Nat}
    {x : Entity} (hx : w.forest.at? a = some x) :
    x.Leads code.size (w.entity code rules s brace) := by
  obtain ⟨hplaced, hlt⟩ := h.placed hx
  by_cases hopen : ∀ c, x.close = some c → i ≤ c
  · right
    have hstart : x.opening < (w.entity code rules s brace).start :=
      Code.lt_signatureStart (Or.inl rfl) hplaced.brace (by rw [hs.anchor]; exact hlt)
    exact ⟨Nat.le_trans hplaced.start_le (Nat.le_of_lt hstart),
      hw.entity_last_le h hp hs ht hb hx hopen⟩
  · left
    simp only [not_forall, Nat.not_le] at hopen
    obtain ⟨c, hc, hci⟩ := hopen
    obtain ⟨o, -, b⟩ := hplaced.body hc
    simp only [Entity.last, hc, Option.getD_some]
    exact Code.lt_signatureStart (Or.inr rfl) b.close (by rw [hs.anchor]; exact hci)

/-- The body of a new function is closed after it was opened, or the function is stranded. -/
theorem Sound.entity_seated (h : Sound code rules i w) (hlive : Live code rules i w)
    (hp : code.Paired) (hs : s.Forward code i) (hb : code.OpensAfter i brace) :
    (∀ {c}, (w.entity code rules s brace).close = some c → brace < c) ∨
      (w.entity code rules s brace).Stranded code rules w.forest := by
  cases hd : code.partner? brace with
  | some d =>
    left
    intro c hc
    rw [entity_close_of_partner hd] at hc
    cases hc
    exact code.lt_closer? (hp.closer?_of_opening (b := .curly) hb.isBrace hd).1
  | none =>
    rw [entity_close_of_alone hd]
    cases hw : w.innermost? with
    | none => exact Or.inl nofun
    | some inner =>
      obtain ⟨p, close⟩ := inner
      obtain ⟨q, hq, rfl⟩ := h.innermost hw
      obtain ⟨hplaced, hopen⟩ := h.placed hq
      cases hc : q.close with
      | none => exact Or.inl nofun
      | some c =>
        obtain ⟨o, ho, b⟩ := hplaced.body hc
        by_cases hci : i ≤ c
        · left
          rintro c' ⟨⟩
          exact hb.inside b (Nat.lt_of_le_of_lt ho hopen) hci
        · right
          obtain ⟨above, t, below, hscopes, ht, -⟩ := innermost?_split hw
          rw [hc] at ht hw
          have htorn := (hlive t (by simp [hscopes]) ht hq).resolve_right hci
          refine ⟨hd, p, q, c, by simp [entity, hw], hq, hc, ?_, htorn⟩
          exact Code.lt_signatureStart (Or.inr rfl) b.close (by rw [hs.anchor]; omega)

theorem Laminar.enterFunction (hw : Laminar code rules w) (h : Sound code rules i w)
    (hlive : Live code rules i w) (hp : code.Paired) (hs : s.Forward code i)
    (ht : s.tail = .body brace) (hb : code.OpensAfter i brace) :
    Laminar code rules (w.enterFunction code rules s brace) := by
  constructor
  case leads =>
    intro a b x y hx hy hab
    obtain ⟨x, hx', ⟨_, _, rfl⟩, rfl | ⟨y, hy', _, _, rfl⟩⟩ := h.add_pair hx hy hab
    · have := hw.entity_leads h.toOrdered hp hs ht hb hx'
      simpa [Entity.Leads] using this
    · simpa [Entity.Leads] using hw.leads hx' hy' hab
  case seated =>
    intro id x hx
    rcases Forest.at?_add_cases (h.parent_lt rules s brace) hx with ⟨rfl, rfl⟩ | ⟨y, hy, rfl⟩
    · exact (h.entity_seated hlive hp hs hb).imp_right fun hstranded =>
        hstranded.add _ false 0
    · rw [Entity.adopt_close, Entity.adopt_opening]
      exact (hw.seated hy).imp_right fun hstranded => hstranded.add ..

end Enter

/-- A step keeps the places laminar. -/
theorem Laminar.step (hp : code.Paired) (hr : rules.Braceless) {j : Nat} {w' : Walk}
    (hi : code.Reached rules i) (h : Sound code rules i w) (hw : Laminar code rules w)
    (hstep : Next code rules (i, w) (j, w')) : Laminar code rules w' := by
  obtain ⟨harrive, hlive⟩ := h.arrive hp hi
  have hw : Laminar code rules (w.arrive code rules i) := by
    constructor <;> rw [arrive_forest]
    · exact hw.leads
    · exact hw.seated
  obtain ⟨-, next, hstep, -⟩ := hstep
  simp only at hstep
  rcases step_cases hstep with ⟨rfl, -⟩ | ⟨s, brace, hs, htail, rfl, -⟩ | ⟨s, -, -, rfl⟩
  · exact hw
  · exact hw.enterFunction harrive hlive hp (Code.signatureAt_forward hp hs) htail
      ((Code.signatureAt_opens hp hr hs).2 htail)
  · exact ⟨hw.leads, hw.seated⟩

/-- The walk keeps the places laminar. -/
theorem laminar_run (hp : code.Paired) (hr : rules.Braceless) {j : Nat} {w' : Walk}
    (hrun : Run code rules (0, {}) (j, w')) : Laminar code rules w' := by
  generalize hb : (j, w') = b at hrun
  induction hrun generalizing j w' with
  | refl =>
    cases hb
    constructor <;> simp [Forest.at?]
  | @tail a b hrun hstep ih =>
    subst hb
    exact (ih rfl).step hp hr ⟨_, hrun⟩ (sound_run hp hr hrun) hstep

/-- A stranded function ends before it starts. -/
theorem Ordered.not_wellFormed (h : Ordered code i w) {id : Nat} {e : Entity}
    (he : w.forest.at? id = some e) (hs : e.Stranded code rules w.forest) : ¬ e.WellFormed := by
  intro hwell
  obtain ⟨hd, p, q, c, hparent, hq, hc, hlt, -⟩ := hs
  have hclose : e.close = some c := (h.close_eq hq he hparent hd).trans hc
  have := hwell.closes hclose
  have := (h.placed he).1.start_le
  omega

end Walk

/-- The places of functions in a source of a built-in language are well formed, apart from stranded
ones, and laminar. -/
theorem detect_laminar (name : String) (l : Language)
    (hl : Registry.builtin.lookup? name = some l) (source : String) :
    ∃ forest, detect l (Code.ofSource l source) = .ok forest ∧
      (∀ e ∈ forest.entities, e.start ≤ e.opening ∧
        (e.close = none → e.opening ≤ e.last (Code.ofSource l source).size) ∧
        e.span.endByte ≤ source.utf8ByteSize ∧
        (e.WellFormed ↔ ¬ e.Stranded (Code.ofSource l source) l.signatures forest)) ∧
      ∀ x ∈ forest.entities, ∀ y ∈ forest.entities,
        x.last (Code.ofSource l source).size < y.start ∨
        y.last (Code.ofSource l source).size < x.start ∨
        (x.start ≤ y.start ∧
          y.last (Code.ofSource l source).size ≤ x.last (Code.ofSource l source).size) ∨
        (y.start ≤ x.start ∧
          x.last (Code.ofSource l source).size ≤ y.last (Code.ofSource l source).size) := by
  have hr := braceless_builtin hl
  have hp := Code.paired_ofSource l source
  have hlaid := Code.laid_ofSource l source
  obtain ⟨forest, hforest, j, w, hrun, -, rfl⟩ := detect_run_builtin hl source
  have hordered := Walk.ordered_run hp hrun
  have hlaminar := Walk.laminar_run hp hr hrun
  refine ⟨w.forest, hforest, fun e he => ?_, fun x hx y hy => ?_⟩
  · obtain ⟨id, hid⟩ := Forest.mem_entities.mp he
    have hplaced := (hordered.placed hid).1
    refine ⟨hplaced.start_le, hplaced.opening_le_last, hplaced.endByte_le hlaid, ?_, ?_⟩
    · intro hwell hstranded
      exact hordered.not_wellFormed hid hstranded hwell
    · intro hseated
      exact hplaced.wellFormed hlaid ((hlaminar.seated hid).resolve_right hseated)
  · obtain ⟨a, ha⟩ := Forest.mem_entities.mp hx
    obtain ⟨b, hb⟩ := Forest.mem_entities.mp hy
    rcases Nat.lt_trichotomy a b with hab | rfl | hab
    · rcases hlaminar.leads ha hb hab with h | h
      · exact Or.inl h
      · exact Or.inr (Or.inr (Or.inl h))
    · obtain rfl : x = y := Option.some.inj (ha.symm.trans hb)
      exact Or.inr (Or.inr (Or.inl ⟨Nat.le_refl _, Nat.le_refl _⟩))
    · rcases hlaminar.leads hb ha hab with h | h
      · exact Or.inr (Or.inl h)
      · exact Or.inr (Or.inr (Or.inr h))

/-! ## A stranded function -/

/-- A closing parenthesis cuts off the brace of a class inside a method, and the body of the next
method is never closed. -/
def cutOffBody : String :=
  "class A \x7b void f() \x7b x = ( class C \x7b ) \x7d void g() \x7b"

/-- The second function ends with the first one, before its own start. -/
theorem cutOffBody_places : (detect Language.Java.table.canonical
    (Code.ofSource Language.Java.table.canonical cutOffBody)).toOption.any (fun forest =>
      (forest.at? 1).any fun g => g.opening == 20 && g.close == some 15 &&
        g.span.startByte == 41 && g.span.endByte == 40) = true := by
  rw [Code.ofSource_eq_ofChars _ cutOffBody rfl, Language.Java.canonical_eq]
  decide +kernel

theorem exists_cutOffBody {forest : Forest} (h : detect Language.Java.table.canonical
    (Code.ofSource Language.Java.table.canonical cutOffBody) = .ok forest) :
    ∃ g ∈ forest.entities, g.opening = 20 ∧ g.close = some 15 ∧ g.span.startByte = 41 ∧
      g.span.endByte = 40 := by
  have hplaces := cutOffBody_places
  rw [h] at hplaces
  change (forest.at? 1).any _ = true at hplaces
  obtain ⟨g, hg, hfound⟩ := (Option.any_eq_true ..).mp hplaces
  simp only [Bool.and_eq_true, beq_iff_eq] at hfound
  obtain ⟨⟨⟨h1, h2⟩, h3⟩, h4⟩ := hfound
  exact ⟨g, Forest.mem_entities.mpr ⟨1, hg⟩, h1, h2, h3, h4⟩

/-- The place of a function can end before it starts. -/
theorem detect_cutOffBody : ∃ forest, detect Language.Java.table.canonical
    (Code.ofSource Language.Java.table.canonical cutOffBody) = .ok forest ∧
      ∃ g ∈ forest.entities, (∃ c, g.close = some c ∧ c < g.opening) ∧
        g.span.endByte < g.span.startByte := by
  have hl : Registry.builtin.lookup? "java" = some Language.Java.table.canonical := rfl
  obtain ⟨forest, hforest, -⟩ := detect_run_builtin hl cutOffBody
  obtain ⟨g, hg, h1, h2, h3, h4⟩ := exists_cutOffBody hforest
  exact ⟨forest, hforest, g, hg, ⟨15, h2, by omega⟩, by omega⟩

/-- The only cause is a type that is never left. -/
theorem detect_laminar_cutOffBody : ∃ forest, detect Language.Java.table.canonical
    (Code.ofSource Language.Java.table.canonical cutOffBody) = .ok forest ∧
      ∃ g ∈ forest.entities, g.Stranded (Code.ofSource Language.Java.table.canonical cutOffBody)
        Language.Java.table.canonical.signatures forest := by
  obtain ⟨forest, hforest, hplaces, -⟩ :=
    detect_laminar "java" Language.Java.table.canonical rfl cutOffBody
  obtain ⟨g, hg, h1, h2, -⟩ := exists_cutOffBody hforest
  refine ⟨forest, hforest, g, hg, Classical.byContradiction fun hnot => ?_⟩
  have hlt := ((hplaces g hg).2.2.2.mpr hnot).closes h2
  omega

end Cyclomatic
