import Cyclomatic.Proofs.Confinement
import Mathlib.Logic.Relation

/-!
# Runs of the detecting walk

`Walk.Next` is one step of the walk, from a token with what was found so far to the token where
the walk goes on.  A run is a chain of steps.  `Walk.step_cases` says what a step can do, and
`detect_run` that detection is the run from the first token to the end of the code.

The start of a signature lies after every brace before the token at which the signature was
found (`Code.lt_signatureStart`).
-/

namespace Cyclomatic

namespace Code

variable (code : Code) (rules : SignatureRules)

/-! ## The start of a signature -/

theorem signatureStart_le (s : Nat) : code.signatureStart rules s ≤ s := by
  fun_induction code.signatureStart rules s with
  | case1 => exact Nat.le_refl 0
  | case2 => exact Nat.le_refl _
  | case3 p _ o _ hle ih => omega
  | case4 p _ _ _ ih => omega
  | case5 => exact Nat.le_refl _

variable {code rules}

/-- The search for an opening angle does not pass a brace. -/
theorem lt_angleOpen? {depth j d r : Nat} (hd : code.text d = "\x7b" ∨ code.text d = "\x7d")
    (hj : d ≤ j) (h : code.angleOpen? depth j = some r) : d < r := by
  fun_induction code.angleOpen? depth j with
  | case1 depth hopen =>
    obtain rfl : d = 0 := Nat.le_zero.mp hj
    simp only [Bool.and_eq_true, beq_iff_eq] at hopen
    rw [hopen.1] at hd
    exact absurd hd (by decide)
  | case2 => cases h
  | case3 depth p t hopen =>
    obtain rfl := Option.some.inj h
    simp only [Bool.and_eq_true, beq_iff_eq] at hopen
    refine Nat.lt_of_le_of_ne hj ?_
    rintro rfl
    rw [show code.text (p + 1) = "<" from hopen.1] at hd
    exact absurd hd (by decide)
  | case4 => cases h
  | case5 depth p t _ hstop ih =>
    refine ih (Nat.le_of_lt_succ (Nat.lt_of_le_of_ne hj ?_)) h
    rintro rfl
    have : t = "\x7b" ∨ t = "\x7d" := hd
    rcases this with ht | ht <;> simp [ht] at hstop

/-- A brace does not belong to a signature that follows it. -/
theorem leadsSignature_brace {d : Nat} {b : String} (hb : b = "\x7b" ∨ b = "\x7d")
    (hd : code.isPunct d b = true) : code.leadsSignature rules d = false := by
  unfold leadsSignature
  dsimp only
  rw [if_neg (by simp [not_isWord_of_isPunct hd]), isPunct_text hd, Bool.and_eq_false_iff]
  right
  rcases hb with rfl | rfl <;> decide

/-- A signature starts after every brace before it. -/
theorem lt_signatureStart {d s : Nat} {b : String} (hb : b = "\x7b" ∨ b = "\x7d")
    (hd : code.isPunct d b = true) (h : d < s) : d < code.signatureStart rules s := by
  fun_induction code.signatureStart rules s with
  | case1 => exact h
  | case2 => exact h
  | case3 p _ o ho hle ih =>
    refine ih ?_
    split at ho
    · rename_i hgt
      have hbrace : code.text d = "\x7b" ∨ code.text d = "\x7d" := by
        rw [isPunct_text hd]
        exact hb
      exact lt_angleOpen? hbrace (Nat.le_of_lt_succ h) ho
    · cases ho
  | case4 p _ _ hleads ih =>
    refine ih (Nat.lt_of_le_of_ne (Nat.le_of_lt_succ h) ?_)
    rintro rfl
    rw [leadsSignature_brace hb hd] at hleads
    cases hleads
  | case5 => exact h

end Code

/-! ## Steps and runs -/

namespace Walk

variable {code : Code} {rules : SignatureRules}

/-- The walk at a token, after the scopes closed before it are left and a type that is declared
there is entered. -/
def arrive (w : Walk) (code : Code) (rules : SignatureRules) (i : Nat) : Walk :=
  (w.leave i).enterContainer code rules i

/-- What a step can do: pass a token, enter a function or record a declaration. -/
theorem step_cases {w w' : Walk} {i next : Nat} (h : w.step code rules i = .ok (w', next)) :
    (w' = w.arrive code rules i ∧ next = i + 1) ∨
    (∃ s brace, code.signatureAt rules (w.arrive code rules i).scopes i = .ok (some s) ∧
      s.tail = .body brace ∧ w' = (w.arrive code rules i).enterFunction code rules s brace ∧
      next = brace + 1) ∨
    ∃ s, code.signatureAt rules (w.arrive code rules i).scopes i = .ok (some s) ∧
      s.tail = .terminated next ∧ w' = (w.arrive code rules i).declare code s := by
  change (code.signatureAt rules (w.arrive code rules i).scopes i).map _ = _ at h
  cases hs : code.signatureAt rules (w.arrive code rules i).scopes i with
  | error e => rw [hs] at h; cases h
  | ok found =>
    rw [hs] at h
    replace h := Except.ok.inj h
    cases found with
    | none =>
      cases h
      exact Or.inl ⟨rfl, rfl⟩
    | some s =>
      dsimp only at h
      split at h
      · rename_i brace ht
        cases h
        exact Or.inr (Or.inl ⟨s, brace, rfl, ht, rfl, rfl⟩)
      · rename_i resume ht
        split at h
        · cases h
          exact Or.inr (Or.inr ⟨s, rfl, ht, rfl⟩)
        · cases h
          exact Or.inl ⟨rfl, rfl⟩

theorem step_none {w : Walk} {i : Nat}
    (h : code.signatureAt rules (w.arrive code rules i).scopes i = .ok none) :
    w.step code rules i = .ok (w.arrive code rules i, i + 1) := by
  simp only [arrive] at h
  simp only [step, h, Except.map, arrive]

theorem step_body {w : Walk} {i brace : Nat} {s : Signature}
    (h : code.signatureAt rules (w.arrive code rules i).scopes i = .ok (some s))
    (htail : s.tail = .body brace) :
    w.step code rules i =
      .ok ((w.arrive code rules i).enterFunction code rules s brace, brace + 1) := by
  simp only [arrive] at h
  simp only [step, h, Except.map, htail, arrive]

theorem step_terminated {w : Walk} {i resume : Nat} {s : Signature}
    (h : code.signatureAt rules (w.arrive code rules i).scopes i = .ok (some s))
    (htail : s.tail = .terminated resume) :
    w.step code rules i =
      .ok (if (w.arrive code rules i).declares s.form then
        ((w.arrive code rules i).declare code s, resume)
      else (w.arrive code rules i, i + 1)) := by
  simp only [arrive] at h
  simp only [step, h, Except.map, htail, arrive]
  rfl

/-- One step: the token and what was found before it, and the same after it. -/
def Next (code : Code) (rules : SignatureRules) (a b : Nat × Walk) : Prop :=
  a.1 < code.size ∧ ∃ next, a.2.step code rules a.1 = .ok (b.2, next) ∧ b.1 = max next (a.1 + 1)

/-- Some number of steps. -/
abbrev Run (code : Code) (rules : SignatureRules) : Nat × Walk → Nat × Walk → Prop :=
  Relation.ReflTransGen (Next code rules)

theorem Next.lt {a b : Nat × Walk} (h : Next code rules a b) : a.1 < b.1 := by
  obtain ⟨-, next, -, hb⟩ := h
  omega

theorem Run.le {a b : Nat × Walk} (h : Run code rules a b) : a.1 ≤ b.1 := by
  induction h with
  | refl => exact Nat.le_refl _
  | tail _ hstep ih => exact Nat.le_trans ih (Nat.le_of_lt hstep.lt)

/-- The walk is a function of where it is. -/
theorem next_unique : Relator.RightUnique (Next code rules) := by
  rintro a ⟨i, w⟩ ⟨j, w'⟩ ⟨-, n, hn, hi⟩ ⟨-, m, hm, hj⟩
  rw [hn] at hm
  cases hm
  simp only at hi hj
  rw [hi, hj]

/-- Two places of one run: the earlier token leads to the later one. -/
theorem Run.of_lt {a b c : Nat × Walk} (hb : Run code rules a b) (hc : Run code rules a c)
    (hlt : b.1 < c.1) : Run code rules b c := by
  rcases hb.total_of_right_unique next_unique hc with h | h
  · exact h
  · exact absurd (Run.le h) (Nat.not_le_of_lt hlt)

theorem go_run {i : Nat} {w : Walk} {forest : Forest} (h : go code rules i w = .ok forest) :
    ∃ j w', Run code rules (i, w) (j, w') ∧ code.size ≤ j ∧ w'.forest = forest := by
  fun_induction go code rules i w with
  | case1 i w hi w' next hstep ih =>
    obtain ⟨j, w'', hrun, hj, hforest⟩ := ih h
    exact ⟨j, w'', .head ⟨hi, next, hstep, rfl⟩ hrun, hj, hforest⟩
  | case2 i w hi e hstep => cases h
  | case3 i w hi => exact ⟨i, w, .refl, Nat.le_of_not_lt hi, Except.ok.inj h⟩

theorem go_isOk (hf : code.AnglesFit rules) (hr : rules.Braceless) (i : Nat) (w : Walk) :
    ∃ forest, go code rules i w = .ok forest := by
  fun_induction go code rules i w with
  | case1 i w hi w' next hstep ih => exact ih
  | case2 i w hi e hstep =>
    obtain ⟨s, hs⟩ := Code.signatureAt_isOk hf hr (w.arrive code rules i).scopes i
    change (code.signatureAt rules (w.arrive code rules i).scopes i).map _ = _ at hstep
    rw [hs] at hstep
    cases hstep
  | case3 i w hi => exact ⟨w.forest, rfl⟩

end Walk

/-- Detection has an answer, which a run from the first token to the end finds. -/
theorem detect_run {l : Language} {code : Code} (hf : code.AnglesFit l.signatures)
    (hr : l.signatures.Braceless) :
    ∃ forest, detect l code = .ok forest ∧ ∃ j w, Walk.Run code l.signatures (0, {}) (j, w) ∧
      code.size ≤ j ∧ w.forest = forest := by
  obtain ⟨forest, h⟩ := Walk.go_isOk hf hr 0 {}
  exact ⟨forest, h, Walk.go_run h⟩

end Cyclomatic
