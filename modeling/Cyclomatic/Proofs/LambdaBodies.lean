import Cyclomatic.Proofs.Decisions
import Cyclomatic.Proofs.Rules

/-!
# Leaving out the bodies of lambdas

Scoring may leave out what stands in the bodies of lambdas.  The walk then jumps over them, and it
may come out with other brackets open, so that another rule applies to a later token.  If no guard
asks for the innermost bracket, leaving the bodies out only removes decisions
(`detect_withoutLambdaBodies`): those that stay keep their order, and each one that goes stands in
a body that was jumped over.

The last part needs `Forest.Bound`.  What binds a function may otherwise stand behind the body that
was jumped over, although the function starts inside it (`detect_arrow_leftOut`).
-/

namespace Cyclomatic

/-- The options that leave out the bodies of lambdas. -/
abbrev skipping : ScoringOptions := { countLambdaInterior := false }

namespace Code

variable {code : Code} {l : Language}

/-! ## The bodies left out -/

/-- The token stands in the body of a lambda that the walk over the body of a function jumps
over. -/
def LeftOut (code : Code) (l : Language) (forest : Forest) (e : Entity) (x : Nat) : Prop :=
  ∃ u ∈ code.visits l skipping forest e, u.binds = false ∧ u.token < x ∧
    (∃ r ∈ code.ruleAt? l u.stack u.token, r.category = .lambda) ∧
    ∃ stop ∈ code.lambdaEnd? u.token, x < stop

instance (forest : Forest) (e : Entity) (x : Nat) : Decidable (code.LeftOut l forest e x) :=
  List.decidableBEx ..

/-- What is jumped over is the body of a lambda. -/
theorem leftOut_of_jump {forest : Forest} {e : Entity} {u : Visit} {x : Nat}
    (hu : u ∈ code.visits l skipping forest e) (hown : u.binds = false) (hlt : u.token < x)
    (hx : x < code.afterVisit l skipping u.stack u.token) : code.LeftOut l forest e x := by
  unfold afterVisit at hx
  split at hx
  · rename_i r hr
    unfold afterDecision at hx
    split at hx
    · rename_i hlambda
      cases hend : code.lambdaEnd? u.token with
      | none =>
        rw [hend, Option.getD_none] at hx
        omega
      | some stop =>
        rw [hend, Option.getD_some] at hx
        exact ⟨u, hu, hown, hlt, ⟨r, hr, by simpa using hlambda⟩, stop, hend, hx⟩
    · omega
  · omega

/-! ## The decisions that stay -/

/-- Without guards for blocks, the judgement of a token does not depend on the open brackets. -/
theorem judge?_of_blockless (hl : l.Blockless) (v : Visit) :
    code.judge? l v = (code.ruleAt? l [] v.token).map (code.decision v.token) := by
  rw [judge?, ruleAt?_of_blockless hl v.stack []]

theorem decisions_of_blockless (hl : l.Blockless) (options : ScoringOptions) (forest : Forest)
    (e : Entity) : code.decisions l options forest e =
      ((code.visits l options forest e).map (·.token)).filterMap fun k =>
        (code.ruleAt? l [] k).map (code.decision k) := by
  rw [← filterMap_visits, List.filterMap_map]
  exact List.filterMap_congr fun v _ => judge?_of_blockless hl v

theorem decisions_sublist (code : Code) (hl : l.Blockless) (forest : Forest) (e : Entity) :
    (code.decisions l skipping forest e).Sublist (code.decisions l counting forest e) := by
  rw [decisions_of_blockless hl, decisions_of_blockless hl]
  exact (tokens_sublist (Nat.le_refl _)).filterMap _

theorem mem_decisions_of_mem_visits (hl : l.Blockless) {options : ScoringOptions} {forest : Forest}
    {e : Entity} {u v : Visit} {d : Decision} (hd : code.judge? l v = some d)
    (hu : u ∈ code.visits l options forest e) (htoken : u.token = v.token) :
    d ∈ code.decisions l options forest e := by
  rw [← filterMap_visits]
  refine List.mem_filterMap.mpr ⟨u, hu, ?_⟩
  rw [judge?_of_blockless hl, htoken, ← judge?_of_blockless hl, hd]

end Code

/-! ## The decisions that go -/

/-- A decision that is left out stands in a body that is left out. -/
theorem Walk.Ordered.mem_or_leftOut {code : Code} {l : Language} {i id : Nat} {w : Walk}
    {e : Entity} (h : Walk.Ordered code i w) (hp : code.Paired) (hl : l.Blockless)
    (he : w.forest.at? id = some e) (hnone : code.spanFault? w.forest e = none) {v : Visit}
    (hv : v ∈ code.visits l counting w.forest e) (hbound : v.binds = true → w.forest.Bound)
    {d : Decision} (hd : code.judge? l v = some d) :
    d ∈ code.decisions l skipping w.forest e ∨ code.LeftOut l w.forest e v.token := by
  have horder := h.inOrder hp he
  have hlisted := Code.listed_of_mem (horder.order.imp And.left) hv
  cases hbinds : v.binds with
  | false =>
    rw [Code.Listed, if_neg (by simp [hbinds])] at hlisted
    obtain ⟨hopen, hstop, hout⟩ := hlisted
    rcases Code.visited_or_jumped hopen hstop hout with ⟨st, hmem⟩ | ⟨u, hu, hown, hlt, hjump⟩
    · exact Or.inl (Code.mem_decisions_of_mem_visits hl hd hmem rfl)
    · exact Or.inr (Code.leftOut_of_jump hu hown hlt hjump)
  | true =>
    rw [Code.Listed, if_pos hbinds] at hlisted
    obtain ⟨c, hc, hbinding, hstart, hopen⟩ := hlisted
    have hlt : v.token < e.close.getD code.size := by
      refine h.counted_lt (hbound hbinds) he (fun c hc => ?_)
        (Or.inr ⟨c, hc, hbinding, hstart, hopen⟩)
      obtain ⟨cid, hcid, hparent⟩ := (h.mem_nested_iff he).mp hc
      exact h.last_le_of_spanFault? he hcid hparent hnone
    obtain ⟨hfirst, hlast⟩ := horder.binding c hc v.token hbinding
    have hbody : e.opening + 1 < e.close.getD code.size := by
      obtain ⟨c, hmem, rfl⟩ := List.mem_map.mp hc
      obtain ⟨cid, hcid, hparent⟩ := (h.mem_nested_iff he).mp hmem
      have hafter : e.opening < c.start := h.after he hcid hparent
      have hfirst : c.start < v.token := hfirst
      omega
    rcases Code.bound_or_jumped (horder.order.imp And.left) hc hbinding hstart hopen
        (Nat.max_lt.mpr ⟨hbody, Nat.lt_trans hfirst hlt⟩) with
      ⟨st, hmem⟩ | ⟨u, hu, hown, hbefore, hjump⟩
    · exact Or.inl (Code.mem_decisions_of_mem_visits hl hd hmem rfl)
    · -- The jump passes the function or leaves the body, so it passes the binding.
      exact Or.inr (Code.leftOut_of_jump hu hown (by omega) (by omega))

/-- Without guards for blocks, leaving out the bodies of lambdas removes decisions and changes none.
A decision is removed only if it stands in a body that is left out, or binds a function in code
where a binding may stand behind the end of the function.  Of the built-in tables, all but that of
Kotlin have no guards for blocks. -/
theorem detect_withoutLambdaBodies (l : Language) (hl : l.Blockless) (source : String)
    (forest : Forest) (hforest : detect l (Code.ofSource l source) = .ok forest) (id : Nat)
    (e : Entity) (he : forest.at? id = some e)
    (hspan : (Code.ofSource l source).spanFault? forest e = none) :
    ((Code.ofSource l source).decisions l skipping forest e).Sublist
        ((Code.ofSource l source).decisions l counting forest e) ∧
      (1 + incrementSum ((Code.ofSource l source).decisions l counting forest e) < 2 ^ 32 →
        scoreOf ((Code.ofSource l source).decisions l skipping forest e) ≤
          scoreOf ((Code.ofSource l source).decisions l counting forest e)) ∧
      (∀ v ∈ (Code.ofSource l source).visits l counting forest e, ∀ d,
        (Code.ofSource l source).judge? l v = some d → (v.binds = true → forest.Bound) →
        ¬ (Code.ofSource l source).LeftOut l forest e v.token →
        d ∈ (Code.ofSource l source).decisions l skipping forest e) ∧
      (l.signatures.Braceless → forest.Bound) ∧
      ∀ name t, Registry.builtin.lookup? name = some t →
        (t.Blockless ↔ t ≠ Language.Kotlin.table.canonical) := by
  have hp := Code.paired_ofSource l source
  obtain ⟨j, w, hrun, -, rfl⟩ := Walk.go_run hforest
  have hordered := Walk.ordered_run hp hrun
  have hsub := (Code.ofSource l source).decisions_sublist hl w.forest e
  refine ⟨hsub, fun hsum => scoreOf_le_of_sublist hsub hsum, fun v hv d hd hbound hleft => ?_,
    fun hr => Walk.bound_run hp hr hrun, fun _ _ => blockless_builtin_iff⟩
  exact (hordered.mem_or_leftOut hp hl he hspan hv hbound hd).resolve_right hleft

/-! ## A lambda in Java -/

/-- A method with a condition in the body of a lambda. -/
def lambdaCondition : String := "class A \x7b void f() \x7b run(x -> a && b); \x7d \x7d"

/-- The condition goes, the lambda stays. -/
theorem detect_lambdaCondition : ∃ forest e,
    detect Language.Java.table.canonical
      (Code.ofSource Language.Java.table.canonical lambdaCondition) = .ok forest ∧
    forest.at? 0 = some e ∧
    ((Code.ofSource Language.Java.table.canonical lambdaCondition).decisions
      Language.Java.table.canonical counting forest e).map (·.offset) = [27, 32] ∧
    ((Code.ofSource Language.Java.table.canonical lambdaCondition).decisions
      Language.Java.table.canonical skipping forest e).map (·.offset) = [27] ∧
    ((Code.ofSource Language.Java.table.canonical lambdaCondition).decisions
      Language.Java.table.canonical skipping forest e).Sublist
        ((Code.ofSource Language.Java.table.canonical lambdaCondition).decisions
          Language.Java.table.canonical counting forest e) ∧ forest.Bound := by
  obtain ⟨forest, e, hforest, he, hspan, hall, hfew⟩ : ∃ forest e,
      detect Language.Java.table.canonical
        (Code.ofSource Language.Java.table.canonical lambdaCondition) = .ok forest ∧
      forest.at? 0 = some e ∧
      (Code.ofSource Language.Java.table.canonical lambdaCondition).spanFault? forest e = none ∧
      ((Code.ofSource Language.Java.table.canonical lambdaCondition).decisions
        Language.Java.table.canonical counting forest e).map (·.offset) = [27, 32] ∧
      ((Code.ofSource Language.Java.table.canonical lambdaCondition).decisions
        Language.Java.table.canonical skipping forest e).map (·.offset) = [27] := by
    rw [Code.ofSource_eq_ofChars _ lambdaCondition rfl, Language.Java.canonical_eq]
    exact exists_of_check (by decide +kernel)
  obtain ⟨hsub, -, -, hbound, -⟩ := detect_withoutLambdaBodies Language.Java.table.canonical
    Language.Java.blockless lambdaCondition forest hforest 0 e he hspan
  have hl : Registry.builtin.lookup? "java" = some Language.Java.table.canonical := rfl
  exact ⟨forest, e, hforest, he, hall, hfew, hsub, hbound (braceless_builtin hl)⟩

/-! ## A binding behind the body left out -/

/-- A function bound by an arrow behind the end of the function around it.  It starts in the body
of a lambda. -/
def boundBehind : String :=
  "function F() \x7b function f() \x7b y => const g \x7d T = x => \x7b"

/-- The arrow that binds a function goes with the body of a lambda that does not hold it. -/
theorem detect_arrow_leftOut :
    Registry.empty.register (arrowTable "\x7d") = .ok (arrowEngine "\x7d").registry ∧
    (arrowTable "\x7d").Blockless ∧ ∃ forest e,
      detect (arrowTable "\x7d") (Code.ofSource (arrowTable "\x7d") boundBehind) = .ok forest ∧
      forest.at? 1 = some e ∧
      (Code.ofSource (arrowTable "\x7d") boundBehind).spanFault? forest e = none ∧
      ∃ v ∈ (Code.ofSource (arrowTable "\x7d") boundBehind).visits (arrowTable "\x7d") counting
          forest e,
        ∃ d ∈ (Code.ofSource (arrowTable "\x7d") boundBehind).judge? (arrowTable "\x7d") v,
          d.category = .lambda ∧ d.offset = 51 ∧
          ¬ (Code.ofSource (arrowTable "\x7d") boundBehind).LeftOut (arrowTable "\x7d") forest e
            v.token ∧
          d ∉ (Code.ofSource (arrowTable "\x7d") boundBehind).decisions (arrowTable "\x7d") skipping
            forest e :=
  ⟨register_arrowTable _, by decide, exists_of_check (by decide +kernel)⟩

end Cyclomatic
