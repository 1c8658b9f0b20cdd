import Cyclomatic.Proofs.Alike.Score

/-!
# The tokens that scoring judges

Scoring a body is a walk and a judgement.  The walk lists the tokens to judge, each with the
brackets that are open there (`Code.visitsFrom`).  A token is judged on its own, so the decisions
are those of the listed tokens (`Code.filterMap_visitsFrom`).

The walk lists two sorts of tokens: those of the body outside the nested functions, in order, and
those that bind a nested function to a name.  One is left out only if the walk jumps over it after
a lambda (`Code.visited_or_jumped`, `Code.bound_or_jumped`).  A walk that jumps lists some of the
tokens of the walk that does not, in the same order (`Code.tokens_sublist`).
-/

namespace Cyclomatic

/-- The options that count the bodies of lambdas. -/
abbrev counting : ScoringOptions := { countLambdaInterior := true }

/-- The function found at a token, those before it and those after it. -/
theorem childAt?_split {k : Nat} {children rest : List Child} {c : Child}
    (h : childAt? k children = some (c, rest)) :
    ∃ gone, children = gone ++ c :: rest ∧ (∀ g ∈ gone, g.last < k) ∧ c.start ≤ k ∧
      k ≤ c.last := by
  fun_induction childAt? k children with
  | case1 => cases h
  | case2 c' children hlast ih =>
    obtain ⟨gone, rfl, hgone, hc⟩ := ih h
    exact ⟨c' :: gone, rfl, List.forall_mem_cons.mpr ⟨hlast, hgone⟩, hc⟩
  | case3 c' children hlast hstart =>
    cases h
    exact ⟨[], rfl, List.forall_mem_nil _, hstart, Nat.le_of_not_lt hlast⟩
  | case4 => cases h

/-- A token at which no function is found lies outside all of them. -/
theorem childAt?_outside {k : Nat} {children : List Child}
    (horder : children.Pairwise fun a b => a.last < b.start) (h : childAt? k children = none) :
    ∀ c ∈ children, c.last < k ∨ k < c.start := by
  fun_induction childAt? k children with
  | case1 => exact List.forall_mem_nil _
  | case2 c' children hlast ih =>
    exact List.forall_mem_cons.mpr ⟨Or.inl hlast, ih (List.pairwise_cons.mp horder).2 h⟩
  | case3 => cases h
  | case4 c' children hlast hstart =>
    refine List.forall_mem_cons.mpr ⟨Or.inr (Nat.lt_of_not_le hstart), fun c hc => Or.inr ?_⟩
    have := (List.pairwise_cons.mp horder).1 c hc
    omega

/-- A later token of a function that was found finds it too. -/
theorem childAt?_mono {k k' : Nat} {children rest : List Child} {c : Child}
    (h : childAt? k children = some (c, rest)) (hk : k ≤ k') (hlast : k' ≤ c.last) :
    childAt? k' children = some (c, rest) := by
  fun_induction childAt? k children with
  | case1 => cases h
  | case2 c' children hlt ih =>
    rw [childAt?, if_pos (by omega)]
    exact ih h
  | case3 c' children hlt hstart =>
    cases h
    rw [childAt?, if_neg (by omega), if_pos (by omega)]
  | case4 => cases h

/-- Functions that end before a token are passed over. -/
theorem childAt?_append {k : Nat} {gone rest : List Child} (h : ∀ g ∈ gone, g.last < k) :
    childAt? k (gone ++ rest) = childAt? k rest := by
  induction gone with
  | nil => rfl
  | cons g gone ih =>
    rw [List.cons_append, childAt?, if_pos (h g (List.mem_cons_self ..))]
    exact ih fun c hc => h c (List.mem_cons_of_mem _ hc)

namespace Code

variable (code : Code) (l : Language) (options : ScoringOptions)

/-! ## The walk and the judgement -/

/-- The decision that a token makes. -/
def judge? (v : Visit) : Option Decision :=
  (code.ruleAt? l v.stack v.token).map (code.decision v.token)

variable {code l options} {stop k : Nat} {children rest : List Child} {c : Child}
  {stack : List Frame}

theorem visitsFrom_child (hk : k < stop) (hc : childAt? k children = some (c, rest)) :
    code.visitsFrom l options stop k children stack =
      (c.binding.map fun b => ⟨b, stack, true⟩).toList ++
        code.visitsFrom l options stop (c.last + 1) rest stack := by
  rw [visitsFrom, dif_pos hk]
  split
  · rename_i heq
    obtain ⟨rfl, rfl⟩ := Prod.mk.inj (Option.some.inj (heq.symm.trans hc))
    rfl
  · rename_i heq
    rw [hc] at heq
    cases heq

theorem visitsFrom_own (hk : k < stop) (hc : childAt? k children = none) :
    code.visitsFrom l options stop k children stack =
      ⟨k, code.openAfter stack k, false⟩ ::
        code.visitsFrom l options stop (code.afterVisit l options (code.openAfter stack k) k)
          children (code.openAfter stack k) := by
  rw [visitsFrom, dif_pos hk]
  split
  · rename_i heq
    rw [hc] at heq
    cases heq
  · rfl

theorem visitsFrom_end (hk : ¬ k < stop) :
    code.visitsFrom l options stop k children stack = [] := by
  rw [visitsFrom, dif_neg hk]

/-- Functions that end before the walk starts are not seen. -/
theorem visitsFrom_append {gone : List Child} (h : ∀ g ∈ gone, g.last < k) :
    code.visitsFrom l options stop k (gone ++ rest) stack =
      code.visitsFrom l options stop k rest stack := by
  fun_induction code.visitsFrom l options stop k rest stack with
  | case1 k rest stack hk c rest' hc hlast ih =>
    exact visitsFrom_child hk (by rw [childAt?_append h, hc])
  | case2 k rest stack hk hc hlt ih =>
    rw [visitsFrom_own hk (by rw [childAt?_append h, hc])]
    rw [ih fun g hg => Nat.lt_trans (h g hg) hlt]
  | case3 k rest stack hk => exact visitsFrom_end hk

/-- The decisions of a body are those of the tokens that the walk lists. -/
theorem filterMap_visitsFrom :
    (code.visitsFrom l options stop k children stack).filterMap (code.judge? l) =
      code.decisionsFrom l options stop k children stack := by
  fun_induction code.visitsFrom l options stop k children stack with
  | case1 k children stack hk c rest hc hlast ih =>
    rw [decisionsFrom_child hk hc, List.filterMap_append, ih]
    cases hb : c.binding with
    | none => simp [bindingDecision?, hb]
    | some b => cases hr : code.ruleAt? l stack b <;> simp [bindingDecision?, hb, judge?, hr]
  | case2 k children stack hk hc hlt ih =>
    cases hr : code.ruleAt? l (code.openAfter stack k) k with
    | none =>
      rw [decisionsFrom_pass hk hc hr, List.filterMap_cons_none (by simp [judge?, hr]), ih]
      simp [afterVisit, hr]
    | some r =>
      rw [decisionsFrom_rule hk hc hr, List.filterMap_cons_some (b := code.decision k r)
        (by simp [judge?, hr]), ih]
      simp [afterVisit, hr]
  | case3 k children stack hk => rw [decisionsFrom, dif_neg hk]; rfl

theorem filterMap_visits (code : Code) (l : Language) (options : ScoringOptions) (forest : Forest)
    (e : Entity) :
    (code.visits l options forest e).filterMap (code.judge? l) =
      code.decisions l options forest e :=
  filterMap_visitsFrom

/-! ## What is listed -/

/-- A token that the walk may list from token `k` on.  A token of the body lies outside the nested
functions, any other one binds a nested function that the walk has not passed. -/
def Listed (stop k : Nat) (children : List Child) (v : Visit) : Prop :=
  if v.binds then ∃ c ∈ children, c.binding = some v.token ∧ c.start ≤ c.last ∧ k ≤ c.last
  else k ≤ v.token ∧ v.token < stop ∧ ∀ c ∈ children, c.last < v.token ∨ v.token < c.start

theorem Listed.mono {v : Visit} {k' : Nat} (h : Listed stop k' children v) (hk : k ≤ k') :
    Listed stop k children v := by
  unfold Listed at h ⊢
  split
  · rw [if_pos ‹_›] at h
    obtain ⟨c, hc, hb, hle, hlast⟩ := h
    exact ⟨c, hc, hb, hle, Nat.le_trans hk hlast⟩
  · rw [if_neg ‹_›] at h
    exact ⟨Nat.le_trans hk h.1, h.2⟩

/-- What is listed after a nested function is listed from a token of that function on. -/
theorem Listed.behind {v : Visit} {gone : List Child} (h : Listed stop (c.last + 1) rest v)
    (hgone : ∀ g ∈ gone, g.last < k) (hk : k ≤ c.last) :
    Listed stop k (gone ++ c :: rest) v := by
  unfold Listed at h ⊢
  split
  · rw [if_pos ‹_›] at h
    obtain ⟨c', hc', hb, hle, hlast⟩ := h
    exact ⟨c', by simp [hc'], hb, hle, by omega⟩
  · rw [if_neg ‹_›] at h
    obtain ⟨hlast, hstop, hout⟩ := h
    refine ⟨by omega, hstop, fun c' hc' => ?_⟩
    rcases List.mem_append.mp hc' with hg | hc'
    · have := hgone c' hg
      exact Or.inl (by omega)
    · rcases List.mem_cons.mp hc' with rfl | hc'
      · exact Or.inl (by omega)
      · exact hout c' hc'

theorem listed_of_mem (horder : children.Pairwise fun a b => a.last < b.start) {v : Visit}
    (hv : v ∈ code.visitsFrom l options stop k children stack) : Listed stop k children v := by
  fun_induction code.visitsFrom l options stop k children stack with
  | case1 k children stack hk c rest hc hlast ih =>
    obtain ⟨gone, rfl, hgone, hstart, hle⟩ := childAt?_split hc
    rcases List.mem_append.mp hv with hv | hv
    · obtain ⟨b, hb, rfl⟩ := Option.map_eq_some_iff.mp (Option.mem_toList.mp hv)
      exact ⟨c, by simp, hb, by omega, hle⟩
    · have hsub : rest.Sublist (gone ++ c :: rest) :=
        (List.sublist_cons_self c rest).trans (List.sublist_append_right gone _)
      exact (ih (horder.sublist hsub) hv).behind hgone hle
  | case2 k children stack hk hc hlt ih =>
    rcases List.mem_cons.mp hv with rfl | hv
    · exact ⟨Nat.le_refl k, hk, childAt?_outside horder hc⟩
    · exact (ih horder hv).mono (Nat.le_of_lt hlt)
  | case3 => cases hv

/-- The tokens of the body are listed in order. -/
theorem pairwise_own (horder : children.Pairwise fun a b => a.last < b.start) :
    ((code.visitsFrom l options stop k children stack).filter (!·.binds)).Pairwise
      fun a b => a.token < b.token := by
  fun_induction code.visitsFrom l options stop k children stack with
  | case1 k children stack hk c rest hc hlast ih =>
    obtain ⟨gone, rfl, -⟩ := childAt?_split hc
    have hsub : rest.Sublist (gone ++ c :: rest) :=
      (List.sublist_cons_self c rest).trans (List.sublist_append_right gone _)
    have hnone : (c.binding.map fun b => (⟨b, stack, true⟩ : Visit)).toList.filter
        (!·.binds) = [] := by
      cases c.binding <;> rfl
    rw [List.filter_append, hnone, List.nil_append]
    exact ih (horder.sublist hsub)
  | case2 k children stack hk hc hlt ih =>
    rw [List.filter_cons_of_pos rfl]
    refine List.pairwise_cons.mpr ⟨fun v hv => ?_, ih horder⟩
    obtain ⟨hv, hown⟩ := List.mem_filter.mp hv
    have hlisted := listed_of_mem horder hv
    rw [Listed, if_neg (by simpa using hown)] at hlisted
    exact Nat.lt_of_lt_of_le hlt hlisted.1
  | case3 => exact .nil

/-! ## What is left out -/

/-- A token of the body is listed unless the walk jumps over it. -/
theorem visited_or_jumped {x : Nat} (hk : k ≤ x) (hx : x < stop)
    (hout : ∀ c ∈ children, c.last < x ∨ x < c.start) :
    (∃ st, ⟨x, st, false⟩ ∈ code.visitsFrom l options stop k children stack) ∨
      ∃ u ∈ code.visitsFrom l options stop k children stack, u.binds = false ∧ u.token < x ∧
        x < code.afterVisit l options u.stack u.token := by
  fun_induction code.visitsFrom l options stop k children stack with
  | case1 k children stack hk' c rest hc hlast ih =>
    obtain ⟨gone, rfl, -, hstart, -⟩ := childAt?_split hc
    have hbehind := hout c (by simp)
    rcases ih (by omega) fun c' hc' => hout c' (by simp [hc']) with ⟨st, hv⟩ | ⟨u, hu, hown, hlt⟩
    · exact Or.inl ⟨st, List.mem_append_right _ hv⟩
    · exact Or.inr ⟨u, List.mem_append_right _ hu, hown, hlt⟩
  | case2 k children stack hk' hc hlt ih =>
    rcases Nat.eq_or_lt_of_le hk with rfl | hlt'
    · exact Or.inl ⟨_, List.mem_cons_self ..⟩
    · by_cases hjump : x < code.afterVisit l options (code.openAfter stack k) k
      · exact Or.inr ⟨_, List.mem_cons_self .., rfl, hlt', hjump⟩
      · rcases ih (Nat.le_of_not_lt hjump) hout with ⟨st, hv⟩ | ⟨u, hu, hown, hlt⟩
        · exact Or.inl ⟨st, List.mem_cons_of_mem _ hv⟩
        · exact Or.inr ⟨u, List.mem_cons_of_mem _ hu, hown, hlt⟩
  | case3 k children stack hk' => omega

/-- What binds a nested function is listed unless the walk jumps over the function, or out of the
body. -/
theorem bound_or_jumped (horder : children.Pairwise fun a b => a.last < b.start)
    (hc : c ∈ children) {b : Nat} (hb : c.binding = some b) (hle : c.start ≤ c.last)
    (hk : k ≤ c.last) (hstop : max k c.start < stop) :
    (∃ st, ⟨b, st, true⟩ ∈ code.visitsFrom l options stop k children stack) ∨
      ∃ u ∈ code.visitsFrom l options stop k children stack, u.binds = false ∧
        u.token < c.start ∧ (c.last < code.afterVisit l options u.stack u.token ∨
          stop ≤ code.afterVisit l options u.stack u.token) := by
  fun_induction code.visitsFrom l options stop k children stack with
  | case1 k children stack hk' c' rest hfound hlast ih =>
    obtain ⟨gone, rfl, hgone, hstart, -⟩ := childAt?_split hfound
    rcases List.mem_append.mp hc with hg | hc
    · have := hgone c hg
      omega
    rcases List.mem_cons.mp hc with rfl | hc
    · exact Or.inl ⟨stack, List.mem_append_left _ (by simp [hb])⟩
    · have horder := horder.sublist (List.sublist_append_right gone _)
      have hlt := (List.pairwise_cons.mp horder).1 c hc
      rcases ih (List.pairwise_cons.mp horder).2 hc (by omega) (by omega) with
        ⟨st, hv⟩ | ⟨u, hu, hown, hlt⟩
      · exact Or.inl ⟨st, List.mem_append_right _ hv⟩
      · exact Or.inr ⟨u, List.mem_append_right _ hu, hown, hlt⟩
  | case2 k children stack hk' hnone hlt ih =>
    have hout := childAt?_outside horder hnone c hc
    by_cases hjump : c.last < code.afterVisit l options (code.openAfter stack k) k ∨
        stop ≤ code.afterVisit l options (code.openAfter stack k) k
    · exact Or.inr ⟨_, List.mem_cons_self .., rfl, by simp only; omega, hjump⟩
    · rcases ih horder hc (by omega) (by omega) with ⟨st, hv⟩ | ⟨u, hu, hown, hlt⟩
      · exact Or.inl ⟨st, List.mem_cons_of_mem _ hv⟩
      · exact Or.inr ⟨u, List.mem_cons_of_mem _ hu, hown, hlt⟩
  | case3 k children stack hk' => omega

/-! ## Two walks -/

/-- A walk that counts the bodies of lambdas takes one token after the other. -/
theorem afterVisit_counting (stack : List Frame) (k : Nat) :
    code.afterVisit l counting stack k = k + 1 := by
  unfold afterVisit afterDecision
  split <;> simp

/-- A walk that may jump, and starts no earlier, lists some of the tokens of the walk that never
does.  By induction on the latter: the other walk is at the same token, or ahead of it, and then
in the same nested function or behind it. -/
theorem tokens_sublist {k' : Nat} {stack' : List Frame} (hk : k ≤ k') :
    ((code.visitsFrom l options stop k' children stack').map (·.token)).Sublist
      ((code.visitsFrom l counting stop k children stack).map
        (·.token)) := by
  by_cases hend : k' < stop
  case neg => rw [visitsFrom_end hend]; exact List.nil_sublist _
  fun_induction code.visitsFrom l counting stop k children stack
    generalizing k' stack' with
  | case1 k children stack hk' c rest hc hlast ih =>
    obtain ⟨gone, rfl, hgone, hstart, -⟩ := childAt?_split hc
    rw [List.map_append]
    by_cases hin : k' ≤ c.last
    · rw [visitsFrom_child hend (childAt?_mono hc hk hin), List.map_append]
      refine List.Sublist.append ?_ ?_
      · cases c.binding <;> simp
      · by_cases hend' : c.last + 1 < stop
        · exact ih (Nat.le_refl _) hend'
        · rw [visitsFrom_end hend']
          exact List.nil_sublist _
    · have hpassed : ∀ g ∈ gone ++ [c], g.last < k' := by
        intro g hg
        rcases List.mem_append.mp hg with hg | hg
        · have := hgone g hg
          omega
        · obtain rfl := List.mem_singleton.mp hg
          omega
      rw [List.append_cons, visitsFrom_append hpassed]
      exact (ih (by omega) hend).trans (List.sublist_append_right ..)
  | case2 k children stack hk' hc hlt ih =>
    rw [afterVisit_counting] at ih
    rw [afterVisit_counting, List.map_cons]
    rcases Nat.eq_or_lt_of_le hk with rfl | hahead
    · rw [visitsFrom_own hend hc, List.map_cons]
      refine List.Sublist.cons_cons _ ?_
      by_cases hend' : code.afterVisit l options (code.openAfter stack' k) k < stop
      · exact ih (code.lt_afterVisit l options _ k) hend'
      · rw [visitsFrom_end hend']
        exact List.nil_sublist _
    · exact (ih hahead hend).cons _
  | case3 k children stack hk' => omega

end Code

/-- What holds of a function of a forest that was computed. -/
theorem exists_of_check {x : Except Fault Forest} {id : Nat} {P : Forest → Entity → Prop}
    [∀ forest e, Decidable (P forest e)]
    (h : (x.toOption.any fun forest => (forest.at? id).any fun e => decide (P forest e)) = true) :
    ∃ forest e, x = .ok forest ∧ forest.at? id = some e ∧ P forest e := by
  cases x with
  | error fault => cases h
  | ok forest =>
    change ((forest.at? id).any fun e => decide (P forest e)) = true at h
    obtain ⟨e, he, hP⟩ := (Option.any_eq_true ..).mp h
    exact ⟨forest, e, rfl, he, of_decide_eq_true hP⟩

end Cyclomatic
