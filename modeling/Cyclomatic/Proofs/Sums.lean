import Cyclomatic.Proofs.GenericDepths
import Cyclomatic.Proofs.Rules
import Cyclomatic.Proofs.Visits
import Mathlib.Algebra.Order.BigOperators.Group.List

/-!
# Scores and the sums of increments

A score is taken in a word of 32 bits, and an addition that leaves the word ends the analysis.  No
addition does if and only if one and the sum of all increments fit (`scoreFits_iff`), and then the
score is that number (`toNat_scoreOf`).

The decisions of a function are those of tokens of its body (`Code.length_decisionsFrom_le`), each
with the increment of a rule (`Code.exists_rule_of_mem`).  Where guards stay in range, nothing but
the sum overflows (`Code.InRange.overflows_iff`).  In a built-in language every increment is one
(`Code.increment_of_builtin`), so a function overflows there only with `2 ^ 32 - 1` decisions or
more, which takes as many tokens.
-/

namespace Cyclomatic

/-! ## Sums -/

/-- What decisions add up to. -/
def incrementSum (ds : List Decision) : Nat := (ds.map fun d => d.increment.toNat).sum

@[simp] theorem incrementSum_nil : incrementSum [] = 0 := rfl

@[simp] theorem incrementSum_cons (d : Decision) (ds : List Decision) :
    incrementSum (d :: ds) = d.increment.toNat + incrementSum ds := by
  simp [incrementSum]

theorem incrementSum_le {ds : List Decision} {m : Nat} (h : ∀ d ∈ ds, d.increment.toNat ≤ m) :
    incrementSum ds ≤ m * ds.length := by
  have hsum := List.sum_le_card_nsmul (ds.map fun d => d.increment.toNat) m (by simpa using h)
  simpa [incrementSum, Nat.mul_comm] using hsum

theorem incrementSum_of_ones {ds : List Decision} (h : ∀ d ∈ ds, d.increment = 1) :
    incrementSum ds = ds.length := by
  induction ds with
  | nil => rfl
  | cons d ds ih =>
    obtain ⟨hd, hds⟩ := List.forall_mem_cons.mp h
    rw [incrementSum_cons, ih hds, hd, UInt32.toNat_one, List.length_cons, Nat.add_comm]

theorem scoreFits_cons (score : UInt32) (d : Decision) (ds : List Decision) :
    scoreFits score (d :: ds) =
      (decide (score.toNat + d.increment.toNat < 2 ^ 32) && scoreFits (score + d.increment) ds) :=
  rfl

/-- No addition leaves the word if and only if the sum of all of them does not. -/
theorem scoreFits_iff {score : UInt32} {ds : List Decision} :
    scoreFits score ds = true ↔ score.toNat + incrementSum ds < 2 ^ 32 := by
  induction ds generalizing score with
  | nil => simp [scoreFits, score.toNat_lt]
  | cons d ds ih =>
    rw [scoreFits_cons, Bool.and_eq_true, ih, decide_eq_true_eq, UInt32.toNat_add,
      incrementSum_cons]
    constructor
    · rintro ⟨hfirst, hrest⟩
      rw [Nat.mod_eq_of_lt hfirst] at hrest
      omega
    · intro hsum
      have hfirst : score.toNat + d.increment.toNat < 2 ^ 32 := by omega
      rw [Nat.mod_eq_of_lt hfirst]
      exact ⟨hfirst, by omega⟩

theorem scoreFits_eq_false_iff {score : UInt32} {ds : List Decision} :
    scoreFits score ds = false ↔ 2 ^ 32 ≤ score.toNat + incrementSum ds := by
  rw [← Bool.not_eq_true, scoreFits_iff, Nat.not_lt]

/-- Additions that stay in the word add up. -/
theorem toNat_foldl_increments {score : UInt32} {ds : List Decision}
    (h : score.toNat + incrementSum ds < 2 ^ 32) :
    (ds.foldl (fun score d => score + d.increment) score).toNat =
      score.toNat + incrementSum ds := by
  induction ds generalizing score with
  | nil => rfl
  | cons d ds ih =>
    rw [incrementSum_cons, ← Nat.add_assoc] at h ⊢
    have hadd : (score + d.increment).toNat = score.toNat + d.increment.toNat := by
      rw [UInt32.toNat_add, Nat.mod_eq_of_lt (by omega)]
    rw [← hadd] at h ⊢
    exact ih h

/-- A score that fits is one and the sum of the increments. -/
theorem toNat_scoreOf {ds : List Decision} (h : 1 + incrementSum ds < 2 ^ 32) :
    (scoreOf ds).toNat = 1 + incrementSum ds :=
  toNat_foldl_increments h

theorem scoreOf_eq {ds : List Decision} (h : 1 + incrementSum ds < 2 ^ 32) :
    scoreOf ds = UInt32.ofNat (1 + incrementSum ds) := by
  rw [← UInt32.toNat_inj, toNat_scoreOf h, UInt32.toNat_ofNat_of_lt' h]

/-- Fewer decisions give no larger score. -/
theorem scoreOf_le_of_sublist {few all : List Decision} (hsub : few.Sublist all)
    (hsum : 1 + incrementSum all < 2 ^ 32) : scoreOf few ≤ scoreOf all := by
  have hle : incrementSum few ≤ incrementSum all :=
    (hsub.map _).sum_le_sum fun _ _ => Nat.zero_le _
  rw [UInt32.le_iff_toNat_le, toNat_scoreOf hsum, toNat_scoreOf (by omega)]
  omega

/-! ## Decisions of a function -/

namespace Code

variable {code : Code} {l : Language} {options : ScoringOptions} {forest : Forest} {e : Entity}

/-- A decision has the increment of a rule of the table. -/
theorem exists_rule_of_mem {d : Decision} (hd : d ∈ code.decisions l options forest e) :
    ∃ rule ∈ l.decisions, d.increment = rule.increment := by
  rw [← filterMap_visits] at hd
  obtain ⟨v, -, hjudge⟩ := List.mem_filterMap.mp hd
  obtain ⟨rule, hrule, rfl⟩ := Option.map_eq_some_iff.mp hjudge
  exact ⟨rule, (mem_of_ruleAt? hrule).1, rfl⟩

/-- A walk makes no more decisions than it passes tokens. -/
theorem length_decisionsFrom_le {stop k : Nat} {children : List Child} {stack : List Frame} :
    (code.decisionsFrom l options stop k children stack).length ≤ stop - k := by
  fun_induction code.decisionsFrom l options stop k children stack with
  | case1 k children stack hk c rest hc hlast ih =>
    have hbinding : (code.bindingDecision? l stack c).toList.length ≤ 1 := by
      cases code.bindingDecision? l stack c <;> simp
    rw [List.length_append]
    omega
  | case2 k children stack hk hc stack' r hr hlt ih =>
    rw [List.length_cons]
    omega
  | case3 k children stack hk hc stack' hr ih => omega
  | case4 => simp

/-! ## The score -/

theorem score_of_spanFault? {fault : SpanFault} (h : code.spanFault? forest e = some fault) :
    code.score l options forest e = .error (.malformedSpan e.qualifiedName fault) := by
  rw [score, h]

/-- A function is scored where it is recorded to be, and if no number leaves its range. -/
theorem score_eq_ok_iff {ds : List Decision} :
    code.score l options forest e = .ok ds ↔ code.spanFault? forest e = none ∧
      code.overflows l options forest e = false ∧ ds = code.decisions l options forest e := by
  unfold score
  cases code.spanFault? forest e with
  | some fault => simp
  | none => cases code.overflows l options forest e <;> simp [eq_comm]

/-- A number is out of range only in the walk over a function that is where it is recorded to be. -/
theorem score_eq_overflow_iff :
    code.score l options forest e = .error .overflow ↔ code.spanFault? forest e = none ∧
      code.overflows l options forest e = true := by
  unfold score
  cases code.spanFault? forest e with
  | some fault => simp
  | none => cases code.overflows l options forest e <;> simp

/-- Either the recorded place of a function is wrong, or a number leaves its range. -/
theorem score_eq_error {fault : Fault} (h : code.score l options forest e = .error fault) :
    (∃ f, code.spanFault? forest e = some f ∧ fault = .malformedSpan e.qualifiedName f) ∨
      fault = .overflow ∧ code.overflows l options forest e = true := by
  unfold score at h
  split at h
  · rename_i f hf
    exact .inl ⟨f, hf, (Except.error.inj h).symm⟩
  · split at h
    · rename_i hover
      exact .inr ⟨(Except.error.inj h).symm, hover⟩
    · cases h

theorem overflows_iff : code.overflows l options forest e = true ↔
    (∃ v ∈ code.visits l options forest e, code.judgeUnderflows l v.stack v.token = true) ∨
      2 ^ 32 ≤ 1 + incrementSum (code.decisions l options forest e) := by
  rw [overflows, Bool.or_eq_true, List.any_eq_true, Bool.not_eq_true', scoreFits_eq_false_iff]
  rfl

/-- The score of a function that is scored stays in its word. -/
theorem scoreFits_of_score {ds : List Decision} (h : code.score l options forest e = .ok ds) :
    scoreFits 1 (code.decisions l options forest e) = true := by
  have hover := (score_eq_ok_iff.mp h).2.1
  rw [overflows, Bool.or_eq_false_iff, Bool.not_eq_false'] at hover
  exact hover.2

/-- Where guards stay in range, only a score leaves it. -/
theorem InRange.overflows_iff (h : code.InRange l) :
    code.overflows l options forest e = true ↔
      2 ^ 32 ≤ 1 + incrementSum (code.decisions l options forest e) := by
  have hvisits : (code.visits l options forest e).any
      (fun v => code.judgeUnderflows l v.stack v.token) = false := by
    simp [h.rules]
  rw [overflows, hvisits, Bool.false_or, Bool.not_eq_true', scoreFits_eq_false_iff]
  rfl

theorem InRange.overflows_eq_false_iff (h : code.InRange l) :
    code.overflows l options forest e = false ↔
      1 + incrementSum (code.decisions l options forest e) < 2 ^ 32 := by
  rw [← Bool.not_eq_true, h.overflows_iff, Nat.not_le]

/-- Every decision in a built-in language raises the score by one. -/
theorem increment_of_builtin {name : String} (hl : Registry.builtin.lookup? name = some l)
    {d : Decision} (hd : d ∈ code.decisions l options forest e) : d.increment = 1 := by
  obtain ⟨rule, hrule, heq⟩ := exists_rule_of_mem hd
  have hones : ∀ rule ∈ l.decisions, rule.increment = 1 := by
    rcases Registry.builtin_cases hl with rfl | rfl | rfl | rfl | rfl <;> decide
  rw [heq, hones rule hrule]

end Code

end Cyclomatic
