import Cyclomatic.Proofs.Builtin
import Cyclomatic.Score.Body
import Mathlib.Algebra.GroupWithZero.Nat
import Mathlib.Algebra.Order.BigOperators.Group.List
import Mathlib.Algebra.Order.Group.Nat
import Mathlib.Data.List.Find

/-!
# The rule for a token

The rule that decides at a token is one of the table with the text of the token
(`Code.mem_of_ruleAt?`).  Of the open brackets only the innermost matters (`Code.ruleAt?_congr`),
and none does if no guard asks for a block (`Code.ruleAt?_of_blockless`).
-/

namespace Cyclomatic

/-- No guard of the table asks for the innermost open bracket. -/
def Language.Blockless (l : Language) : Prop :=
  ∀ r ∈ l.decisions, r.guard.inBlockOf = [] ∧ r.guard.notInBlockOf = []

instance (l : Language) : Decidable l.Blockless := List.decidableBAll ..

theorem Language.Java.blockless : Java.table.canonical.Blockless := by decide

/-- Of the built-in tables, only that of Kotlin asks for the innermost open bracket. -/
theorem blockless_builtin_iff {name : String} {l : Language}
    (h : Registry.builtin.lookup? name = some l) :
    l.Blockless ↔ l ≠ Language.Kotlin.table.canonical := by
  constructor
  · rintro hl rfl
    exact absurd hl (by decide)
  · intro hne
    rcases Registry.builtin_cases h with rfl | hk | rfl | rfl | rfl
    · decide
    · exact absurd hk hne
    · decide
    · exact Language.Java.blockless
    · decide

/-- The word of the innermost block is that of the innermost bracket. -/
theorem blockWord?_congr {stack stack' : List Frame} (h : stack.head? = stack'.head?) :
    blockWord? stack = blockWord? stack' := by
  cases stack with
  | nil =>
    cases stack' with
    | nil => rfl
    | cons f' below' => cases h
  | cons f below =>
    cases stack' with
    | nil => cases h
    | cons f' below' =>
      obtain rfl := Option.some.inj h
      cases f <;> rfl

namespace Code

variable {code : Code} {l : Language} {stack stack' : List Frame} {k : Nat}

@[simp] theorem neighbourFits_nil (t : Option String) : neighbourFits [] [] t = true := by
  cases t <;> rfl

theorem mem_of_ruleAt? {r : DecisionRule} (h : code.ruleAt? l stack k = some r) :
    r ∈ l.decisions ∧ r.token = code.text k := by
  unfold ruleAt? at h
  split at h
  · have hr := List.find?_some h
    simp only [Bool.and_eq_true, beq_iff_eq] at hr
    exact ⟨List.mem_of_find?_eq_some h, hr.1⟩
  · cases h

theorem ruleAt?_of_guards
    (h : ∀ r ∈ l.decisions,
      code.guardHolds l r.guard stack k = code.guardHolds l r.guard stack' k) :
    code.ruleAt? l stack k = code.ruleAt? l stack' k := by
  unfold ruleAt?
  congr 1
  refine List.find?_congr fun r hr => ?_
  rw [h r hr]

/-- A guard looks at the innermost bracket only. -/
theorem ruleAt?_congr (h : stack.head? = stack'.head?) :
    code.ruleAt? l stack k = code.ruleAt? l stack' k := by
  refine ruleAt?_of_guards fun r _ => ?_
  unfold guardHolds guardFits
  rw [blockWord?_congr h]

theorem ruleAt?_of_blockless (h : l.Blockless) (stack stack' : List Frame) :
    code.ruleAt? l stack k = code.ruleAt? l stack' k := by
  refine ruleAt?_of_guards fun r hr => ?_
  unfold guardHolds guardFits
  rw [(h r hr).1, (h r hr).2, neighbourFits_nil, neighbourFits_nil]

end Code

end Cyclomatic
