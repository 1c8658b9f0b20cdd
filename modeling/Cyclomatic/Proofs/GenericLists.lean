import Cyclomatic.Proofs.Comments
import Cyclomatic.Proofs.Levels

/-!
# Generic lists are skipped whole

A generic list is read by counting angles, and bracket groups are stepped over.  The closing angle
found in this way matches the opening one if only angles outside bracket groups count
(`Code.AnglesMatch`), and brackets inside the list have their partners inside
(`skipAngles_matches`).

The reading is a walk (`Code.AnglesReach`), whose steps are those of `anglesFrom`
(`Code.anglesFrom_eq`).  Each of them keeps an invariant (`Code.AnglesHeld`): the walk is at the
level of the first token, and its depth is the number of angles open, which is positive behind the
first token.  A list on which no token stops the walk (`Code.AngleList`) is read to its end.

All this needs an operator at the start, where the walk asks for the text `<` only.  In a built-in
language another token with this text is a piece of a literal (`Scan.tokens_angle`), and there it
fails (`skipAngles_stray`).
-/

namespace Cyclomatic

namespace Code

/-! ## The walk -/

section Walk

variable (code : Code)

/-- The depth and the token with which the walk over a generic list goes on, if it does. -/
def angleStep? (first depth k : Nat) : Option (Nat × Nat) :=
  if k ≥ code.size ∨ k - first ≥ longestAngles then none
  else if code.isOp k "<" then some (depth + 1, k + 1)
  else if code.isOp k ">" then if depth ≤ 1 then none else some (depth - 1, k + 1)
  else if code.opensBracket k then (code.closer? k).map fun close => (depth, close + 1)
  else if code.closesBracket k || code.isPunct k ";" then none
  else if code.isOp k "&&" || code.isOp k "||" then none
  else some (depth, k + 1)

/-- No generic list goes on at the token: a bracket without partner, the end of a group around it or
of a statement, or a logical operator. -/
def stopsAngles (k : Nat) : Bool :=
  code.opensBracket k && (code.closer? k).isNone || code.closesBracket k || code.isPunct k ";" ||
    code.isOp k "&&" || code.isOp k "||"

/-- The walk over the generic list at `first` comes to a token with some number of angles open. -/
inductive AnglesReach (first : Nat) : Nat → Nat → Prop where
  | start : code.text first = "<" → AnglesReach first 0 first
  | step {depth depth' k k' : Nat} : AnglesReach first depth k →
      code.angleStep? first depth k = some (depth', k') → AnglesReach first depth' k'

end Walk

variable {code : Code} {first depth depth' k k' r : Nat}

/-- The walk takes one step after the other, and ends at the closing angle that brings the depth to
zero, or below. -/
theorem anglesFrom_eq (first depth k : Nat) :
    code.anglesFrom first depth k =
      match code.angleStep? first depth k with
      | some s => code.anglesFrom first s.1 s.2
      | none =>
        if k < code.size ∧ k - first < longestAngles ∧ code.isOp k ">" = true then
          if depth = 0 then .error .overflow else .ok (some (k + 1))
        else .ok none := by
  rw [anglesFrom, angleStep?]
  by_cases hsize : k < code.size
  swap
  · simp [hsize, Nat.le_of_not_lt hsize]
  by_cases hspan : k - first < longestAngles
  swap
  · simp [hspan, Nat.le_of_not_lt hspan]
  have hin : ¬ (k ≥ code.size ∨ k - first ≥ longestAngles) := by omega
  rw [dif_pos hsize, if_neg (Nat.not_le.mpr hspan), if_neg hin]
  split
  · rfl
  split
  · rename_i hcloses
    rcases Nat.lt_trichotomy depth 1 with hdepth | rfl | hdepth
    · obtain rfl : depth = 0 := by omega
      simp [hsize, hspan, hcloses]
    · simp [hsize, hspan, hcloses]
    · have hzero : depth ≠ 0 := by omega
      have hone : depth ≠ 1 := by omega
      simp [hzero, hone, Nat.not_le.mpr hdepth]
  rename_i hcloses
  split
  · split
    · rename_i close hclose
      simp only [hclose, Option.map_some]
    · rename_i hclose
      simp [hclose, hcloses]
  split
  · simp [hcloses]
  split
  · simp [hcloses]
  · rfl

/-- What a step can do: open an angle, close one that is not the last, pass a bracket group, or pass
a token that is neither an angle nor a bracket. -/
theorem angleStep?_cases (h : code.angleStep? first depth k = some (depth', k')) :
    code.isOp k "<" = true ∧ depth' = depth + 1 ∧ k' = k + 1 ∨
      code.isOp k ">" = true ∧ 1 < depth ∧ depth' = depth - 1 ∧ k' = k + 1 ∨
      (∃ close, code.closer? k = some close ∧ depth' = depth ∧ k' = close + 1) ∨
      (code.isOp k "<" = false ∧ code.isOp k ">" = false ∧ code.isBracket k = false) ∧
        depth' = depth ∧ k' = k + 1 := by
  unfold angleStep? at h
  split at h
  · cases h
  split at h
  · rename_i hopen
    cases h
    exact .inl ⟨hopen, rfl, rfl⟩
  rename_i hopen
  split at h
  · rename_i hclose
    split at h
    · cases h
    · rename_i hdepth
      cases h
      exact .inr (.inl ⟨hclose, Nat.lt_of_not_le hdepth, rfl, rfl⟩)
  rename_i hclose
  split at h
  · obtain ⟨close, hcloser, heq⟩ := Option.map_eq_some_iff.mp h
    cases heq
    exact .inr (.inr (.inl ⟨close, hcloser, rfl, rfl⟩))
  rename_i hopens
  split at h
  · cases h
  rename_i hcloses
  split at h
  · cases h
  cases h
  simp only [Bool.or_eq_true, not_or, Bool.not_eq_true] at hopen hclose hopens hcloses
  exact .inr (.inr (.inr ⟨⟨hopen, hclose, by rw [isBracket, hopens, hcloses.1]; rfl⟩, rfl, rfl⟩))

/-! ## Where the walk stops -/

theorem lt_size_of_isOp {a : String} (h : code.isOp k a = true) : k < code.size := by
  by_contra hk
  rw [isOp, Array.getElem?_eq_none (Nat.le_of_not_lt hk)] at h
  cases h

theorem isOp_text {a : String} (h : code.isOp k a = true) : code.text k = a := by
  simp only [isOp_eq, Bool.and_eq_true, beq_iff_eq] at h
  exact h.2

/-- A closing angle opens none. -/
theorem not_opening_of_closing (h : code.isOp k ">" = true) : code.isOp k "<" = false := by
  rw [← Bool.not_eq_true]
  intro h'
  have htext := isOp_text h
  rw [isOp_text h'] at htext
  exact absurd htext (by decide)

theorem ne_of_closing (hfirst : code.isOp first "<" = true) (hk : code.isOp k ">" = true) :
    k ≠ first := by
  rintro rfl
  rw [not_opening_of_closing hk] at hfirst
  cases hfirst

theorem stopsAngles_of_isOp {a : String} (h : code.isOp k a = true) (ha : a ∉ ["&&", "||"]) :
    code.stopsAngles k = false := by
  have hbracket := not_isBracket_of_isOp h
  simp only [isBracket, Bool.or_eq_false_iff] at hbracket
  simp only [List.mem_cons, List.not_mem_nil, or_false, not_or] at ha
  simp [stopsAngles, hbracket, isPunct_eq, isOp_eq, kind?_of_isOp h, isOp_text h, ha]

theorem stopsAngles_of_opensBracket (h : code.opensBracket k = true) :
    code.stopsAngles k = (code.closer? k).isNone := by
  obtain ⟨b, hb⟩ := exists_opening h
  have hcloses := not_closesBracket_of_opensBracket h
  have hend : code.isPunct k ";" = false := by
    rw [isPunct_eq, isPunct_text hb]
    cases b <;> exact Bool.and_false _
  have hlogical (o : String) : code.isOp k o = false := by
    rw [isOp_eq, kind?_of_isPunct hb]
    rfl
  simp [stopsAngles, h, hcloses, hend, hlogical]

/-- The walk takes no step where the code or the longest list ends, where no list goes on, and at
the angle that closes the first one. -/
theorem angleStep?_eq_none_iff : code.angleStep? first depth k = none ↔
    code.size ≤ k ∨ longestAngles ≤ k - first ∨ code.stopsAngles k = true ∨
      code.isOp k ">" = true ∧ depth ≤ 1 := by
  unfold angleStep?
  split
  · rename_i hout
    exact iff_of_true rfl (hout.imp_right .inl)
  rename_i hin
  simp only [ge_iff_le, not_or, Nat.not_le] at hin
  simp only [Nat.not_le.mpr hin.1, Nat.not_le.mpr hin.2, false_or]
  split
  · rename_i hopen
    have hclose : code.isOp k ">" = false := by
      by_contra hclose
      exact ne_of_closing hopen (Bool.eq_true_of_not_eq_false hclose) rfl
    simp [stopsAngles_of_isOp hopen (by decide), hclose]
  split
  · rename_i hclose
    simp [stopsAngles_of_isOp hclose (by decide), hclose]
  rename_i hclose
  simp only [hclose, Bool.false_eq_true, false_and, or_false]
  split
  · rename_i hopens
    rw [stopsAngles_of_opensBracket hopens, Option.map_eq_none_iff, Option.isNone_iff_eq_none]
  rename_i hopens
  split
  · rename_i hcloses
    rcases Bool.or_eq_true_iff.mp hcloses with hcloses | hcloses
    · simp [stopsAngles, hcloses]
    · simp [stopsAngles, hcloses]
  rename_i hcloses
  split
  · rename_i hlogical
    rcases Bool.or_eq_true_iff.mp hlogical with hlogical | hlogical
    · simp [stopsAngles, hlogical]
    · simp [stopsAngles, hlogical]
  · rename_i hlogical
    simp only [Bool.or_eq_true, not_or, Bool.not_eq_true] at hopens hcloses hlogical
    simp [stopsAngles, hopens, hcloses, hlogical]

theorem lt_of_angleStep? (h : code.angleStep? first depth k = some (depth', k')) : k < k' := by
  rcases angleStep?_cases h with ⟨-, -, rfl⟩ | ⟨-, -, -, rfl⟩ | ⟨close, hclose, -, rfl⟩ |
      ⟨-, -, rfl⟩
  · omega
  · omega
  · have := code.lt_closer? hclose
    omega
  · omega

theorem going_of_angleStep? (h : code.angleStep? first depth k = some (depth', k')) :
    k < code.size ∧ code.stopsAngles k = false := by
  have hsome : code.angleStep? first depth k ≠ none := by
    rw [h]
    exact nofun
  rw [ne_eq, angleStep?_eq_none_iff, not_or, not_or, not_or, Bool.not_eq_true] at hsome
  exact ⟨Nat.not_le.mp hsome.1, hsome.2.2.1⟩

theorem AnglesReach.text (h : code.AnglesReach first depth k) : code.text first = "<" := by
  induction h with
  | start htext => exact htext
  | step _ _ ih => exact ih

theorem AnglesReach.skipAngles_eq (h : code.AnglesReach first depth k) :
    code.skipAngles first = code.anglesFrom first depth k := by
  induction h with
  | start htext => rw [skipAngles, if_pos (beq_iff_eq.mpr htext)]
  | step _ hstep ih => rw [ih, anglesFrom_eq, hstep]

/-- If the walk finds an end, it comes to it with one angle open.  If the depth leaves its range, it
comes to a closing angle with none open. -/
theorem AnglesReach.exists_end {depth k : Nat} (h : code.AnglesReach first depth k) :
    (∃ last, code.AnglesReach first 1 last ∧ last < code.size ∧ last - first < longestAngles ∧
        code.isOp last ">" = true ∧ code.anglesFrom first depth k = .ok (some (last + 1))) ∨
      code.anglesFrom first depth k = .ok none ∨
      ∃ last, code.AnglesReach first 0 last ∧ last < code.size ∧ last - first < longestAngles ∧
        code.isOp last ">" = true ∧ code.anglesFrom first depth k = .error .overflow := by
  rw [anglesFrom_eq]
  match hstep : code.angleStep? first depth k with
  | some (depth', k') =>
    have := lt_of_angleStep? hstep
    have := (going_of_angleStep? hstep).1
    exact exists_end (h.step hstep)
  | none =>
    dsimp only
    split
    · rename_i hend
      obtain ⟨hsize, hspan, hclose⟩ := hend
      rcases angleStep?_eq_none_iff.mp hstep with hout | hlong | hstops | ⟨-, hdepth⟩
      · omega
      · omega
      · rw [stopsAngles_of_isOp hclose (by decide)] at hstops
        cases hstops
      · split
        · rename_i hzero
          exact .inr (.inr ⟨k, hzero ▸ h, hsize, hspan, hclose, rfl⟩)
        · obtain rfl : depth = 1 := by omega
          exact .inl ⟨k, h, hsize, hspan, hclose, rfl⟩
    · exact .inr (.inl rfl)
termination_by code.size - k

theorem exists_reach_of_skipAngles? (h : code.skipAngles? first = some r) :
    ∃ last, code.AnglesReach first 1 last ∧ last < code.size ∧ last - first < longestAngles ∧
      code.isOp last ">" = true ∧ r = last + 1 := by
  obtain ⟨htext, hangles⟩ := skipAngles?_eq_some.mp h
  have hstart := AnglesReach.start htext
  rcases hstart.exists_end with ⟨last, hreach, hsize, hspan, hclose, hend⟩ | hend |
      ⟨_, -, -, -, -, hend⟩
  · obtain rfl : last + 1 = r := by simpa [hend] using hangles
    exact ⟨last, hreach, hsize, hspan, hclose, rfl⟩
  · rw [hend] at hangles
    cases hangles
  · rw [hend] at hangles
    cases hangles

/-- Looking for a list has its answer unless the depth leaves its range. -/
theorem skipAngles_eq (first : Nat) : code.skipAngles first =
    if code.underflows first then .error .overflow else .ok (code.skipAngles? first) := by
  unfold underflows skipAngles?
  by_cases htext : code.text first = "<"
  · have hstart := AnglesReach.start htext
    rw [hstart.skipAngles_eq]
    rcases hstart.exists_end with ⟨_, -, -, -, -, hend⟩ | hend | ⟨_, -, -, -, -, hend⟩ <;>
      simp [hend, Except.toOption]
  · simp [skipAngles, htext, Except.toOption]

/-- Looking for a list takes the depth out of range exactly if the walk comes to a closing angle
with none open. -/
theorem underflows_iff : code.underflows first = true ↔
    ∃ k, code.AnglesReach first 0 k ∧ k < code.size ∧ k - first < longestAngles ∧
      code.isOp k ">" = true := by
  constructor
  · intro h
    rw [underflows, skipAngles] at h
    split at h
    · rename_i htext
      rcases (AnglesReach.start (beq_iff_eq.mp htext)).exists_end with ⟨_, -, -, -, -, hend⟩ |
          hend | ⟨last, hreach, hsize, hspan, hclose, -⟩
      · rw [hend] at h
        cases h
      · rw [hend] at h
        cases h
      · exact ⟨last, hreach, hsize, hspan, hclose⟩
    · cases h
  · rintro ⟨k, hreach, hsize, hspan, hclose⟩
    have hend : code.angleStep? first 0 k = none :=
      angleStep?_eq_none_iff.mpr (.inr (.inr (.inr ⟨hclose, Nat.zero_le 1⟩)))
    rw [underflows, hreach.skipAngles_eq, anglesFrom_eq, hend]
    simp only [hsize, hspan, hclose, and_self, if_true]
    rfl

/-! ## Angles outside bracket groups -/

section Angles

variable (code)

/-- No bracket group that opens from token `first` on holds token `k`. -/
def outsideGroups (first k : Nat) : Bool :=
  (List.range' first (k + 1 - first)).all fun o => (code.closer? o).all (· < k)

/-- What a token adds to the number of angles open. -/
def angleValue (k : Nat) : Int :=
  if code.isOp k "<" then 1 else if code.isOp k ">" then -1 else 0

/-- The number of angles open before token `k`, among those from token `first` on that stand outside
bracket groups. -/
def anglesOpen (first k : Nat) : Int :=
  (List.range' first (k - first)).foldl
    (fun n j => if code.outsideGroups first j then n + code.angleValue j else n) 0

/-- The closing angle at `last` matches the opening angle at `first` if only angles outside bracket
groups count. -/
structure AnglesMatch (first last : Nat) : Prop where
  /-- An angle opens. -/
  opening : code.isOp first "<" = true
  /-- An angle closes behind it. -/
  lt : first < last
  /-- It is one. -/
  closing : code.isOp last ">" = true
  /-- It stands outside bracket groups, too. -/
  outside : code.outsideGroups first last = true
  /-- The first angle stays open up to it. -/
  inside : ∀ k, first < k → k ≤ last → 0 < code.anglesOpen first k
  /-- It is closed behind it. -/
  closed : code.anglesOpen first (last + 1) = 0

/-- The tokens from the one angle to the other are a generic list, not too long, on which it goes on
at each token outside bracket groups. -/
structure AngleList (first last : Nat) : Prop extends code.AnglesMatch first last where
  /-- It is not too long. -/
  span : last - first < longestAngles
  /-- It goes on. -/
  passes : ∀ j, first ≤ j → j < last → code.outsideGroups first j = true →
    code.stopsAngles j = false

end Angles

theorem outsideGroups_iff (hk : first ≤ k) :
    code.outsideGroups first k = true ↔
      ∀ o c, first ≤ o → code.closer? o = some c → ¬ (o ≤ k ∧ k ≤ c) := by
  simp only [outsideGroups, List.all_eq_true, List.mem_range'_1, Option.all_eq_true,
    decide_eq_true_eq]
  constructor
  · rintro h o c ho hc ⟨hok, hkc⟩
    have := h o ⟨ho, by omega⟩ c hc
    omega
  · rintro h o ⟨ho, hok⟩ c hc
    exact Nat.lt_of_not_le fun hkc => h o c ho hc ⟨by omega, hkc⟩

theorem anglesOpen_succ (hk : first ≤ k) :
    code.anglesOpen first (k + 1) =
      if code.outsideGroups first k then code.anglesOpen first k + code.angleValue k
      else code.anglesOpen first k := by
  rw [anglesOpen, anglesOpen, Nat.sub_add_comm hk, List.range'_concat, List.foldl_append,
    Nat.one_mul, Nat.add_sub_cancel' hk]
  rfl

theorem closer?_of_not_isBracket (hp : code.Paired) (hk : code.isBracket k = false) :
    code.closer? k = none := by
  cases hc : code.closer? k with
  | none => rfl
  | some c =>
    rw [isBracket, opensBracket_of_closer? hp hc] at hk
    cases hk

/-- A token at the level of the first one stands outside bracket groups, unless it opens one. -/
theorem outsideGroups_of_level (h : code.Level first k) (hk : code.closer? k = none) :
    code.outsideGroups first k = true := by
  rw [outsideGroups_iff h.le]
  rintro o c ho hc ⟨hok, hkc⟩
  rcases Nat.lt_or_eq_of_le hok with hlt | rfl
  · have := (h.same hc).mpr ⟨hlt, hkc⟩
    omega
  · cases hk.symm.trans hc

theorem outsideGroups_group {c m : Nat} (hk : first ≤ k) (hc : code.closer? k = some c)
    (hkm : k ≤ m) (hm : m ≤ c) : code.outsideGroups first m = false := by
  rw [← Bool.not_eq_true, outsideGroups_iff (Nat.le_trans hk hkm)]
  exact fun h => h k c hk hc ⟨hkm, hm⟩

/-- A bracket group adds nothing. -/
theorem anglesOpen_group {c m : Nat} (hk : first ≤ k) (hc : code.closer? k = some c) (hkm : k ≤ m)
    (hm : m ≤ c + 1) : code.anglesOpen first m = code.anglesOpen first k := by
  induction m, hkm using Nat.le_induction with
  | base => rfl
  | succ m hkm ih =>
    rw [anglesOpen_succ (Nat.le_trans hk hkm),
      outsideGroups_group hk hc hkm (Nat.le_of_succ_le_succ hm), ih (Nat.le_of_succ_le hm)]
    simp

/-! ## Angles that are counted -/

/-- What holds when the walk over a generic list comes to a token: the same bracket groups are open
as at the first token, the depth is the number of angles open, one was open all the time, and the
list goes on at each token outside bracket groups. -/
structure AnglesHeld (code : Code) (first depth k : Nat) : Prop where
  /-- The same bracket groups are open. -/
  level : code.Level first k
  /-- The depth counts the angles that are open. -/
  count : (depth : Int) = code.anglesOpen first k
  /-- The first angle has not been closed. -/
  inside : ∀ m, first < m → m ≤ k → 0 < code.anglesOpen first m
  /-- The list goes on. -/
  passes : ∀ j, first ≤ j → j < k → code.outsideGroups first j = true →
    code.stopsAngles j = false

namespace AnglesHeld

theorem start (code : Code) (first : Nat) : code.AnglesHeld first 0 first where
  level := .refl code first
  count := by simp [anglesOpen]
  inside m hm hle := by omega
  passes j hj hlt := by omega

/-- Behind the first token an angle is open. -/
theorem depth_pos (h : code.AnglesHeld first depth k) (hk : k ≠ first) : 0 < depth := by
  have hinside := h.inside k (Nat.lt_of_le_of_ne h.level.le hk.symm) (Nat.le_refl k)
  rw [← h.count] at hinside
  exact Int.natCast_pos.mp hinside

/-- A token that is no bracket keeps the invariant if an angle stays open. -/
theorem next (hp : code.Paired) (h : code.AnglesHeld first depth k) (hk : code.isBracket k = false)
    (hstop : code.stopsAngles k = false) (hdepth : (depth' : Int) = depth + code.angleValue k)
    (hpos : 0 < depth') : code.AnglesHeld first depth' (k + 1) := by
  have hcount : (depth' : Int) = code.anglesOpen first (k + 1) := by
    rw [anglesOpen_succ h.level.le, outsideGroups_of_level h.level (closer?_of_not_isBracket hp hk),
      ← h.count, hdepth]
    rfl
  refine ⟨h.level.trans (.next hp hk), hcount, fun m hm hle => ?_, fun j hj hlt hout => ?_⟩
  · rcases Nat.lt_or_eq_of_le hle with hlt | rfl
    · exact h.inside m hm (Nat.le_of_lt_succ hlt)
    · rw [← hcount]
      exact Int.natCast_pos.mpr hpos
  · rcases Nat.lt_or_eq_of_le (Nat.le_of_lt_succ hlt) with hlt | rfl
    · exact h.passes j hj hlt hout
    · exact hstop

theorem group (hp : code.Paired) (h : code.AnglesHeld first depth k) {c : Nat}
    (hc : code.closer? k = some c) (hpos : 0 < depth) : code.AnglesHeld first depth (c + 1) := by
  have hlt := code.lt_closer? hc
  have hsame {m : Nat} (hkm : k ≤ m) (hm : m ≤ c + 1) :
      code.anglesOpen first m = code.anglesOpen first k := anglesOpen_group h.level.le hc hkm hm
  refine ⟨h.level.trans (.group hp hc), ?_, fun m hm hle => ?_, fun j hj hle hout => ?_⟩
  · rw [hsame (by omega) (Nat.le_refl _), ← h.count]
  · rcases Nat.lt_or_ge m k with hmk | hkm
    · exact h.inside m hm (Nat.le_of_lt hmk)
    · rw [hsame hkm hle, ← h.count]
      exact Int.natCast_pos.mpr hpos
  · rcases Nat.lt_or_ge j k with hjk | hkj
    · exact h.passes j hj hjk hout
    · rw [outsideGroups_group h.level.le hc hkj (Nat.le_of_lt_succ hle)] at hout
      cases hout

/-- A closing angle closes one of those open. -/
theorem anglesOpen_closing (hp : code.Paired) (h : code.AnglesHeld first depth k)
    (hk : code.isOp k ">" = true) : code.anglesOpen first (k + 1) = depth - 1 := by
  rw [anglesOpen_succ h.level.le, outsideGroups_of_level h.level
    (closer?_of_not_isBracket hp (not_isBracket_of_isOp hk)), ← h.count, angleValue,
    not_opening_of_closing hk, hk]
  rfl

/-- Each step keeps the invariant. -/
theorem step (hp : code.Paired) (hfirst : code.isOp first "<" = true)
    (h : code.AnglesHeld first depth k)
    (hstep : code.angleStep? first depth k = some (depth', k')) :
    code.AnglesHeld first depth' k' := by
  have hgoes := (going_of_angleStep? hstep).2
  rcases angleStep?_cases hstep with ⟨hopen, rfl, rfl⟩ | ⟨hclose, hone, rfl, rfl⟩ |
      ⟨close, hclose, rfl, rfl⟩ | ⟨⟨hopen, hclose, hbracket⟩, rfl, rfl⟩
  · exact h.next hp (not_isBracket_of_isOp hopen) hgoes (by simp [angleValue, hopen])
      depth.succ_pos
  · have hopen := not_opening_of_closing hclose
    refine h.next hp (not_isBracket_of_isOp hclose) hgoes ?_ (by omega)
    simp only [angleValue, hopen, hclose, Bool.false_eq_true, if_false, if_true]
    omega
  · refine h.group hp hclose (h.depth_pos fun hk => ?_)
    have hbracket := not_isBracket_of_isOp hfirst
    rw [← hk, isBracket, opensBracket_of_closer? hp hclose] at hbracket
    cases hbracket
  · have hpos := h.depth_pos fun hk => by rw [hk, hfirst] at hopen; cases hopen
    exact h.next hp hbracket hgoes (by simp [angleValue, hopen, hclose]) hpos

end AnglesHeld

/-- The walk keeps the invariant. -/
theorem AnglesReach.held (hp : code.Paired) (hfirst : code.isOp first "<" = true)
    (h : code.AnglesReach first depth k) : code.AnglesHeld first depth k := by
  induction h with
  | start => exact .start code first
  | step _ hstep ih => exact ih.step hp hfirst hstep

/-- No closing angle takes the depth below zero. -/
theorem AnglesReach.depth_pos (hp : code.Paired) (hfirst : code.isOp first "<" = true)
    (h : code.AnglesReach first depth k) (hk : code.isOp k ">" = true) : 0 < depth :=
  (h.held hp hfirst).depth_pos (ne_of_closing hfirst hk)

/-- From an operator on, the depth stays in its range. -/
theorem not_underflows_of_isOp (hp : code.Paired) (hfirst : code.isOp first "<" = true) :
    code.underflows first = false := by
  rw [← Bool.not_eq_true, underflows_iff]
  rintro ⟨k, hreach, -, -, hclose⟩
  exact Nat.lt_irrefl 0 (hreach.depth_pos hp hfirst hclose)

/-- Only a token with the text `<` starts a list. -/
theorem not_underflows_of_text (h : code.text first ≠ "<") : code.underflows first = false := by
  rw [underflows, skipAngles, if_neg (by simpa using h)]
  rfl

/-! ## Lists that are skipped -/

/-- At most one angle matches another one. -/
theorem AnglesMatch.unique {last last' : Nat} (h : code.AnglesMatch first last)
    (h' : code.AnglesMatch first last') : last = last' := by
  have hlt := h.lt
  have hlt' := h'.lt
  rcases Nat.lt_trichotomy last last' with hl | rfl | hl
  · have hopen := h'.inside (last + 1) (by omega) hl
    rw [h.closed] at hopen
    cases hopen
  · rfl
  · have hopen := h.inside (last' + 1) (by omega) hl
    rw [h'.closed] at hopen
    cases hopen

/-- A walk that ends has read a list. -/
theorem AnglesReach.angleList (hp : code.Paired) (hfirst : code.isOp first "<" = true) {last : Nat}
    (h : code.AnglesReach first 1 last) (hspan : last - first < longestAngles)
    (hlast : code.isOp last ">" = true) : code.AngleList first last := by
  have hheld := h.held hp hfirst
  have hlt := Nat.lt_of_le_of_ne hheld.level.le (ne_of_closing hfirst hlast).symm
  have houtside := outsideGroups_of_level hheld.level
    (closer?_of_not_isBracket hp (not_isBracket_of_isOp hlast))
  exact ⟨⟨hfirst, hlt, hlast, houtside, hheld.inside, hheld.anglesOpen_closing hp hlast⟩, hspan,
    hheld.passes⟩

namespace AngleList

variable {last : Nat}

/-- Before the last angle the walk takes a step. -/
theorem angleStep?_ne_none (hp : code.Paired) (h : code.AngleList first last)
    (hheld : code.AnglesHeld first depth k) (hlt : k < last) :
    code.angleStep? first depth k ≠ none := by
  have hsize := lt_size_of_isOp h.closing
  have hspan := h.span
  rw [ne_eq, angleStep?_eq_none_iff]
  rintro (hout | hlong | hstops | ⟨hclose, hdepth⟩)
  · omega
  · omega
  · cases hc : code.closer? k with
    | none =>
      rw [h.passes k hheld.level.le hlt (outsideGroups_of_level hheld.level hc)] at hstops
      cases hstops
    | some close =>
      rw [stopsAngles_of_opensBracket (opensBracket_of_closer? hp hc), hc] at hstops
      cases hstops
  · have hopen := h.inside (k + 1) (Nat.lt_succ_of_le hheld.level.le) hlt
    rw [hheld.anglesOpen_closing hp hclose] at hopen
    omega

/-- The step does not pass the last angle. -/
theorem angleStep?_le (h : code.AngleList first last) (hk : first ≤ k) (hlt : k < last)
    (hstep : code.angleStep? first depth k = some (depth', k')) : k' ≤ last := by
  rcases angleStep?_cases hstep with ⟨-, -, rfl⟩ | ⟨-, -, -, rfl⟩ | ⟨close, hclose, -, rfl⟩ |
      ⟨-, -, rfl⟩
  · exact hlt
  · exact hlt
  · have hclosed := (outsideGroups_iff h.lt.le).mp h.outside k close hk hclose
    omega
  · exact hlt

/-- The walk comes to the last angle with one open. -/
theorem reach (hp : code.Paired) (h : code.AngleList first last) {depth k : Nat}
    (hreach : code.AnglesReach first depth k) (hk : k ≤ last) : code.AnglesReach first 1 last := by
  have hheld := hreach.held hp h.opening
  rcases Nat.lt_or_eq_of_le hk with hlt | rfl
  · match hstep : code.angleStep? first depth k with
    | some (depth', k') =>
      have := lt_of_angleStep? hstep
      have hle := h.angleStep?_le hheld.level.le hlt hstep
      exact reach hp h (hreach.step hstep) hle
    | none => exact absurd hstep (h.angleStep?_ne_none hp hheld hlt)
  · have hclosed := hheld.anglesOpen_closing hp h.closing
    rw [h.closed] at hclosed
    obtain rfl : depth = 1 := by omega
    exact hreach
termination_by last - k

theorem skipAngles?_eq (hp : code.Paired) (h : code.AngleList first last) :
    code.skipAngles? first = some (last + 1) := by
  have hreach := h.reach hp (.start (isOp_text h.opening)) h.lt.le
  have hend : code.angleStep? first 1 last = none :=
    angleStep?_eq_none_iff.mpr (.inr (.inr (.inr ⟨h.closing, Nat.le_refl 1⟩)))
  refine skipAngles?_eq_some.mpr ⟨hreach.text, ?_⟩
  rw [← (AnglesReach.start hreach.text).skipAngles_eq, hreach.skipAngles_eq, anglesFrom_eq, hend]
  exact if_pos ⟨lt_size_of_isOp h.closing, h.span, h.closing⟩

end AngleList

/-- From an angle on, exactly the generic lists are skipped. -/
theorem skipAngles?_eq_some_iff (hp : code.Paired) (hfirst : code.isOp first "<" = true)
    {last : Nat} : code.skipAngles? first = some (last + 1) ↔ code.AngleList first last := by
  constructor
  · intro h
    obtain ⟨last', hreach, -, hspan, hclose, heq⟩ := exists_reach_of_skipAngles? h
    obtain rfl := Nat.succ.inj heq
    exact hreach.angleList hp hfirst hspan hclose
  · exact fun h => h.skipAngles?_eq hp

/-! ## Brackets inside -/

/-- A bracket between two tokens of one level has its partner between them, too. -/
theorem Level.between (hp : code.Paired) (h : code.Level first r)
    (hfirst : code.isBracket first = false) {p : Nat} (hk : first < k) (hkr : k < r)
    (hpartner : code.partner? k = some p) : first < p ∧ p < r := by
  rcases hp.partner?_iff.mp hpartner with hpair | hpair
  · have hclose := hp.closer?_iff.mpr hpair
    have hlt := code.lt_closer? hclose
    have hsame := h.same hclose
    omega
  · have hclose := hp.closer?_iff.mpr hpair
    have hlt := code.lt_closer? hclose
    have hsame := h.same hclose
    have hne : p ≠ first := by
      rintro rfl
      rw [isBracket, opensBracket_of_closer? hp hclose] at hfirst
      cases hfirst
    omega

end Code

/-! ## Angles of a source -/

/-- The character `<` starts no name. -/
structure Language.Angled (l : Language) : Prop where
  /-- It is no letter. -/
  letter : l.isIdentifierStart '<' = false
  /-- It is no quote. -/
  quote : l.strings.quotedIdentifier ≠ some '<'

theorem angled_builtin {name : String} {l : Language}
    (h : Registry.builtin.lookup? name = some l) : l.Angled := by
  rcases Registry.builtin_cases h with rfl | rfl | rfl | rfl | rfl <;> constructor <;>
    decide +kernel

namespace Scan

variable {l : Language} {modes : List Mode} {c : Char} {cs : List Char}

theorem codeToken_angle (hl : l.Angled) :
    (codeToken l modes '<' cs).kind = .operator ∨
      (codeToken l modes '<' cs).kind = .stringLiteral := by
  unfold codeToken
  rw [if_neg (by simpa using hl.quote)]
  split
  · rename_i d r hd
    obtain ⟨modes', hopen, -⟩ := openLiteral_cases d modes r
    rw [hopen]
    exact .inr rfl
  · rw [if_neg (by simp [hl.letter]), if_neg (by decide)]
    split
    · exact .inl rfl
    · exact .inl rfl

/-- A token with the text `<` is an operator or a piece of a literal. -/
theorem step_angle (hspaced : l.Spaced) (huniform : Uniform l) (hl : l.Angled)
    (h : Nested l modes) (htaken : (step l modes c cs).taken = ['<']) :
    (step l modes c cs).kind = .operator ∨ (step l modes c cs).kind = .stringLiteral := by
  by_cases hlit : ∃ d outer, modes = .literal d :: outer
  · obtain ⟨d, outer, rfl⟩ := hlit
    have hinterpolation (hk : (step l (.literal d :: outer) c cs).kind = .interpolation) :=
      step_interpolation huniform h hk
    rw [htaken] at hinterpolation
    change (resume d outer (c :: cs)).kind = _ → _ at hinterpolation
    change _ ∨ (resume d outer (c :: cs)).kind = _
    rcases resume_cases d outer (c :: cs) with ⟨_, _, -, -, heq⟩ | ⟨_, _, -, -, heq⟩ | ⟨-, heq⟩
    · rw [heq] at hinterpolation
      exact absurd (hinterpolation rfl) (by decide)
    · rw [heq]
      exact .inr rfl
    · rw [heq]
      exact .inr rfl
  · rw [step_code fun d outer heq => hlit ⟨d, outer, heq⟩] at htaken ⊢
    have happ := codeStep_append l modes c cs
    rw [htaken] at happ
    obtain rfl : '<' = c := (List.cons.inj happ).1
    cases hk : (codeStep l modes '<' cs).kind.isTrivia with
    | false =>
      rw [codeStep_eq_codeToken (startsToken_of_codeStep hk)]
      exact codeToken_angle hl
    | true =>
      rcases (codeStep_trivia hspaced hk).2 with ⟨-, hfeed⟩ | ⟨-, hblank⟩ | ⟨-, t, hslash⟩
      · rw [htaken] at hfeed
        cases hfeed
      · rw [htaken] at hblank
        exact absurd (hblank '<' (by simp)).1 (by decide)
      · rw [htaken] at hslash
        cases hslash

theorem tokens_angle (hspaced : l.Spaced) (huniform : Uniform l) (hl : l.Angled)
    (h : Nested l modes) :
    ∀ t ∈ tokens l modes cs, t.text = "<" → t.kind = .operator ∨ t.kind = .stringLiteral := by
  induction modes, cs using step_induction (l := l) with
  | nil modes =>
    rw [tokens_nil]
    exact nofun
  | cons modes c cs ih =>
    rw [tokens_cons]
    intro t ht htext
    rcases List.mem_cons.mp ht with rfl | ht
    · refine step_angle hspaced huniform hl h ?_
      have htaken := congrArg String.toList htext
      rwa [Found.token, String.toList_ofList] at htaken
    · exact ih (h.step c cs) t ht htext

end Scan

namespace Code

section Builtin

variable {name : String} {l : Language} (hl : Registry.builtin.lookup? name = some l)
  {source : String} {i : Nat} (htext : (ofSource l source).text i = "<")

include hl htext

theorem kind?_of_angle : (ofSource l source).kind? i = some .operator ∨
    (ofSource l source).kind? i = some .stringLiteral := by
  rw [text_eq_cores] at htext
  rw [kind?_eq_cores]
  cases hx : (ofSource l source).cores[i]? with
  | none =>
    rw [hx] at htext
    exact absurd htext (by decide)
  | some x =>
    rw [hx] at htext
    have hmem := List.mem_of_getElem? hx
    rw [cores_ofSource] at hmem
    have hkind := Scan.tokens_angle (spaced_builtin hl) (uniform_builtin hl) (angled_builtin hl)
      .plain x.toToken (mem_of_mem_lexemesFrom hmem) htext
    exact hkind.imp (congrArg some) (congrArg some)

/-- In a built-in language a token with the text `<` is the operator, unless it is a piece of a
literal. -/
theorem isOp_iff_of_text : (ofSource l source).isOp i "<" = true ↔
    (ofSource l source).isKind i .stringLiteral = false := by
  rw [isOp_eq, isKind, htext]
  rcases kind?_of_angle hl htext with hkind | hkind
  · simp [hkind]
  · simp [hkind]

omit htext in
/-- In a built-in language only pieces of literals take the depth of a list out of range. -/
theorem not_underflows_of_isKind (hkind : (ofSource l source).isKind i .stringLiteral = false) :
    (ofSource l source).underflows i = false := by
  by_cases htext : (ofSource l source).text i = "<"
  · exact not_underflows_of_isOp (paired_ofSource l source) ((isOp_iff_of_text hl htext).mpr hkind)
  · exact not_underflows_of_text htext

end Builtin

end Code

/-! ## Generic lists of a source -/

/-- Generic lists are skipped whole.  If the walk over a generic list of a source in a built-in
language ends, it ends behind a closing angle, and brackets inside the list have their partners
inside.  It starts at the operator `<`, unless it starts at a piece of a literal with this text.
From any token that is no piece of a literal, no closing angle takes the depth below zero, so that
it never leaves its machine word.  The last one is the only one that matches the first, and exactly
the lists of `Code.AngleList` are skipped. -/
theorem skipAngles_matches {name : String} {l : Language}
    (hl : Registry.builtin.lookup? name = some l) (source : String) (i : Nat) :
    let code := Code.ofSource l source
    (∀ r, code.skipAngles? i = some r → i < r ∧ r ≤ code.size ∧ code.isOp (r - 1) ">" = true ∧
        (code.isOp i "<" = true ↔ code.isKind i .stringLiteral = false) ∧
        ∀ k p, i < k → k < r → code.partner? k = some p → i < p ∧ p < r) ∧
      (code.isKind i .stringLiteral = false →
        (∀ depth k, code.AnglesReach i depth k → code.isOp k ">" = true → 0 < depth) ∧
        code.underflows i = false ∧
        (∀ r, code.skipAngles? i = some r → ∀ last, code.AnglesMatch i last ↔ last = r - 1) ∧
        ∀ last, code.skipAngles? i = some (last + 1) ↔ code.AngleList i last) := by
  intro code
  have hp : code.Paired := Code.paired_ofSource l source
  have hlist (hkind : code.isKind i .stringLiteral = false) (last : Nat) :
      code.skipAngles? i = some (last + 1) ↔ code.AngleList i last := by
    refine ⟨fun hr => ?_, fun h => h.skipAngles?_eq hp⟩
    obtain ⟨_, hreach, -⟩ := Code.exists_reach_of_skipAngles? hr
    exact (Code.skipAngles?_eq_some_iff hp
      ((Code.isOp_iff_of_text hl hreach.text).mpr hkind)).mp hr
  refine ⟨fun r hr => ?_, fun hkind => ⟨fun depth k hreach hk => ?_, ?_, fun r hr last => ?_,
    hlist hkind⟩⟩
  · obtain ⟨last, hreach, hsize, -, hlast, rfl⟩ := Code.exists_reach_of_skipAngles? hr
    refine ⟨code.lt_skipAngles? hr, hsize, hlast, Code.isOp_iff_of_text hl hreach.text,
      fun k p hk hkr hpartner => ?_⟩
    refine (Code.Level.angles hp hr).between hp (Code.not_isBracket_of_text ?_) hk hkr hpartner
    rw [hreach.text]
    decide
  · have hfirst := (Code.isOp_iff_of_text hl hreach.text).mpr hkind
    exact hreach.depth_pos hp hfirst hk
  · exact Code.not_underflows_of_isKind hl hkind
  · obtain ⟨last', -, -, -, -, rfl⟩ := Code.exists_reach_of_skipAngles? hr
    have hmatch := ((hlist hkind last').mp hr).toAnglesMatch
    constructor
    · exact fun h => h.unique hmatch
    · rintro rfl
      exact hmatch

/-- Neither the angles of a group nor an angle in a template count for the list around them. -/
theorem skipAngles_matches_template :
    let code := Code.ofSource Language.JavaScript.table.canonical
      "f<(x: A<B>) => C, \x60$\x7ba\x7d<$\x7bb\x7d\x60>(y)"
    code.skipAngles? 1 = some 23 ∧ (∀ last, code.AnglesMatch 1 last ↔ last = 22) ∧
      code.AngleList 1 22 := by
  have hl : Registry.builtin.lookup? "javascript" = some Language.JavaScript.table.canonical := rfl
  intro code
  have hcode : code.isKind 1 .stringLiteral = false ∧ code.skipAngles? 1 = some 23 := by
    unfold code
    rw [Code.ofSource_eq_ofChars _ _ rfl, Language.JavaScript.canonical_eq]
    decide +kernel
  obtain ⟨-, -, hmatch, hlist⟩ := (skipAngles_matches hl _ 1).2 hcode.1
  exact ⟨hcode.2, hmatch 23 hcode.2, (hlist 22).mp hcode.2⟩

/-- An angle in a template is taken for the start of a list.  The walk may then end at an angle that
closes another list, or come to a closing angle with none open, where the depth leaves its range. -/
theorem skipAngles_stray :
    (let code := Code.ofSource Language.JavaScript.table.canonical
        "\x60$\x7ba\x7d<$\x7bb < c > d\x7d\x60"
     code.isKind 4 .stringLiteral = true ∧ code.isOp 4 "<" = false ∧
        code.skipAngles? 4 = some 10) ∧
      let code := Code.ofSource Language.JavaScript.table.canonical
        "\x60$\x7ba\x7d<$\x7bb > c\x7d\x60"
      code.AnglesReach 4 0 7 ∧ code.isOp 7 ">" = true ∧ code.underflows 4 = true := by
  rw [Language.JavaScript.canonical_eq]
  refine ⟨by decide +kernel, ?_⟩
  intro code
  have hwalk : code.text 4 = "<" ∧ code.angleStep? 4 0 4 = some (0, 5) ∧
      code.angleStep? 4 0 5 = some (0, 6) ∧ code.angleStep? 4 0 6 = some (0, 7) ∧
      code.isOp 7 ">" = true ∧ code.underflows 4 = true := by
    decide +kernel
  obtain ⟨htext, hangle, hopener, hname, hclose, hunder⟩ := hwalk
  exact ⟨(((Code.AnglesReach.start htext).step hangle).step hopener).step hname, hclose, hunder⟩

end Cyclomatic
