import Mathlib.Data.List.Sort

/-!
# Sorted lists

Lists are sorted by `List.mergeSort`, which is stable: elements that are equal for the order keep
their places among each other (`filter_mergeSort`).  A sorted list is determined by that
(`eq_of_filter_tied_eq`), so sorting commutes with leaving out elements (`mergeSort_filter`).

Most lists are sorted by a name.  If the names are distinct, the sorted list does not depend on the
order before (`mergeSort_eq_of_perm`).

Some lists lose their adjacent repetitions after the sort.  If the order is antisymmetric, no member
is left twice (`pairwise_ne_eraseReps`).
-/

namespace Cyclomatic

variable {α : Type}

/-! ## Stable sorts -/

/-- Elements that are all equal for the order keep their places. -/
theorem filter_mergeSort {le : α → α → Bool} (htrans : ∀ a b c, le a b → le b c → le a c)
    (htotal : ∀ a b, le a b || le b a) {p : α → Bool} (hp : ∀ a b, p a → p b → le a b)
    (xs : List α) : (xs.mergeSort le).filter p = xs.filter p := by
  have hequal : (xs.filter p).Pairwise fun a b => le a b :=
    List.pairwise_of_forall_mem_list fun a ha b hb =>
      hp a b (List.of_mem_filter ha) (List.of_mem_filter hb)
  have hsub : (xs.filter p).Sublist ((xs.mergeSort le).filter p) := by
    have hsub := (List.sublist_mergeSort htrans htotal hequal List.filter_sublist).filter p
    simpa only [List.filter_filter, Bool.and_self] using hsub
  have hperm : ((xs.mergeSort le).filter p).Perm (xs.filter p) :=
    (List.mergeSort_perm xs le).filter p
  exact (hsub.eq_of_length hperm.length_eq.symm).symm

section Stable

variable {le : α → α → Bool} {xs ys : List α} {p q : α → Bool}

/-- Two elements are equal for an order. -/
def tied (le : α → α → Bool) (a b : α) : Bool := le a b && le b a

theorem mem_of_filter_tied_eq (hrefl : ∀ a, le a a) {a : α}
    (h : xs.filter (tied le a) = ys.filter (tied le a)) (ha : a ∈ xs) : a ∈ ys := by
  have htied : tied le a a = true := by simp [tied, hrefl]
  have hmem : a ∈ xs.filter (tied le a) := List.mem_filter.mpr ⟨ha, htied⟩
  exact List.mem_of_mem_filter (h ▸ hmem)

/-- A sorted list is determined by its elements and the places of tied elements among each other. -/
theorem eq_of_filter_tied_eq (hrefl : ∀ a, le a a) (hxs : xs.Pairwise fun a b => le a b)
    (hys : ys.Pairwise fun a b => le a b)
    (h : ∀ a, xs.filter (tied le a) = ys.filter (tied le a)) : xs = ys := by
  induction xs generalizing ys with
  | nil =>
    cases ys with
    | nil => rfl
    | cons y ys =>
      exact absurd (mem_of_filter_tied_eq hrefl (h y).symm (List.mem_cons_self ..)) List.not_mem_nil
  | cons x xs ih =>
    cases ys with
    | nil =>
      exact absurd (mem_of_filter_tied_eq hrefl (h x) (List.mem_cons_self ..)) List.not_mem_nil
    | cons y ys =>
      obtain ⟨hx, hxs'⟩ := List.pairwise_cons.mp hxs
      obtain ⟨hy, hys'⟩ := List.pairwise_cons.mp hys
      have hxy : le x y := by
        have hmem := mem_of_filter_tied_eq hrefl (h y).symm (List.mem_cons_self ..)
        rcases List.mem_cons.mp hmem with rfl | hmem
        · exact hrefl y
        · exact hx y hmem
      have hyx : le y x := by
        rcases List.mem_cons.mp (mem_of_filter_tied_eq hrefl (h x) (List.mem_cons_self ..)) with
          rfl | hmem
        · exact hrefl x
        · exact hy x hmem
      -- The first elements are tied, so each is the first of those tied to it.
      have hfirst := h x
      rw [List.filter_cons_of_pos (by simp [tied, hrefl]),
        List.filter_cons_of_pos (by simp [tied, hxy, hyx])] at hfirst
      obtain rfl := (List.cons.inj hfirst).1
      rw [ih hxs' hys' fun a => ?_]
      have ha := h a
      rw [List.filter_cons, List.filter_cons] at ha
      split at ha
      · exact (List.cons.inj ha).2
      · exact ha

/-- Leaving out elements before sorting or after it comes to the same. -/
theorem mergeSort_filter (htrans : ∀ a b c, le a b → le b c → le a c)
    (htotal : ∀ a b, le a b || le b a) (p : α → Bool) (xs : List α) :
    (xs.filter p).mergeSort le = (xs.mergeSort le).filter p := by
  have htied : ∀ a b c, tied le a b → tied le a c → le b c := by
    intro a b c hb hc
    rw [tied, Bool.and_eq_true] at hb hc
    exact htrans b a c hb.2 hc.1
  refine eq_of_filter_tied_eq (fun a => by simpa using htotal a a)
    (List.pairwise_mergeSort htrans htotal _)
    ((List.pairwise_mergeSort htrans htotal xs).filter p) fun a => ?_
  calc ((xs.filter p).mergeSort le).filter (tied le a)
      = (xs.filter p).filter (tied le a) := filter_mergeSort htrans htotal (htied a) _
    _ = (xs.filter (tied le a)).filter p := List.filter_comm ..
    _ = ((xs.mergeSort le).filter (tied le a)).filter p := by
        rw [filter_mergeSort htrans htotal (htied a)]
    _ = ((xs.mergeSort le).filter p).filter (tied le a) := List.filter_comm ..

/-- In a sorted list, the elements of a condition that goes down with the order stand in front of
the other elements of a weaker one. -/
theorem filter_prefix_filter {R : α → α → Prop} (h : xs.Pairwise R)
    (hdown : ∀ a b, R a b → q b → q a) (hweaker : ∀ a, q a → p a) :
    xs.filter q <+: xs.filter p := by
  induction xs with
  | nil => exact List.prefix_rfl
  | cons x xs ih =>
    obtain ⟨hx, hxs⟩ := List.pairwise_cons.mp h
    by_cases hq : q x = true
    · rw [List.filter_cons_of_pos hq, List.filter_cons_of_pos (hweaker x hq)]
      exact List.cons_prefix_cons.mpr ⟨rfl, ih hxs⟩
    · have hnone : (x :: xs).filter q = [] := by
        refine List.filter_eq_nil_iff.mpr fun a ha hqa => hq ?_
        rcases List.mem_cons.mp ha with rfl | ha
        · exact hqa
        · exact hdown x a (hx a ha) hqa
      rw [hnone]
      exact List.nil_prefix

end Stable

/-! ## By name -/

section Name

variable (name : α → String)

theorem nameLe_trans (a b c : α) (hab : decide (name a ≤ name b)) (hbc : decide (name b ≤ name c)) :
    decide (name a ≤ name c) :=
  decide_eq_true (String.le_trans (of_decide_eq_true hab) (of_decide_eq_true hbc))

theorem nameLe_total (a b : α) : decide (name a ≤ name b) || decide (name b ≤ name a) := by
  simpa using String.le_total (name a) (name b)

/-- A sorted list is in increasing order. -/
theorem pairwise_mergeSort_name (xs : List α) :
    (xs.mergeSort fun a b => name a ≤ name b).Pairwise fun a b => name a ≤ name b :=
  (List.pairwise_mergeSort (nameLe_trans name) (nameLe_total name) xs).imp of_decide_eq_true

/-- Elements of one name keep their places. -/
theorem filter_mergeSort_name (xs : List α) (n : String) :
    (xs.mergeSort fun a b => name a ≤ name b).filter (name · == n) =
      xs.filter (name · == n) := by
  refine filter_mergeSort (nameLe_trans name) (nameLe_total name) ?_ xs
  intro a b ha hb
  rw [beq_iff_eq] at ha hb
  rw [ha, hb]
  exact decide_eq_true (String.le_refl n)

variable {name} {xs ys : List α}

/-- Distinct names are in strictly increasing order after sorting. -/
theorem pairwise_lt_mergeSort_name (h : (xs.map name).Nodup) :
    (xs.mergeSort fun a b => name a ≤ name b).Pairwise fun a b => name a < name b := by
  have hne : (xs.mergeSort fun a b => name a ≤ name b).Pairwise fun a b => name a ≠ name b :=
    List.pairwise_map.mp (((List.mergeSort_perm xs _).map name).nodup_iff.mpr h)
  refine List.Pairwise.imp₂ ?_ (pairwise_mergeSort_name name xs) hne
  intro a b hle hne
  exact String.not_le.mp fun hge => hne (String.le_antisymm hle hge)

/-- With distinct names, the order before sorting does not matter. -/
theorem mergeSort_eq_of_perm (h : (xs.map name).Nodup) (hperm : xs.Perm ys) :
    (xs.mergeSort fun a b => name a ≤ name b) = ys.mergeSort fun a b => name a ≤ name b := by
  have h' : (ys.map name).Nodup := (hperm.map name).nodup_iff.mp h
  refine List.Perm.eq_of_pairwise ?_ (pairwise_lt_mergeSort_name h)
    (pairwise_lt_mergeSort_name h') ?_
  · intro a b _ _ hab hba
    exact absurd hab (String.lt_asymm hba)
  · exact ((List.mergeSort_perm xs _).trans hperm).trans (List.mergeSort_perm ys _).symm

end Name

/-! ## Without adjacent repetitions -/

section Repetitions

variable [BEq α]

theorem eraseReps_cons_cons (a b : α) (xs : List α) :
    (a :: b :: xs).eraseReps =
      if a == b then (a :: xs).eraseReps else a :: (b :: xs).eraseReps := by
  have hloop : ∀ (xs : List α) (a : α) (acc : List α),
      List.eraseRepsBy.loop (· == ·) a xs acc =
        acc.reverse ++ List.eraseRepsBy.loop (· == ·) a xs [] := by
    intro xs
    induction xs with
    | nil =>
      intro a acc
      simp [List.eraseRepsBy.loop]
    | cons x xs ih =>
      intro a acc
      rw [List.eraseRepsBy.loop, List.eraseRepsBy.loop]
      cases a == x with
      | true => exact ih a acc
      | false =>
        simp only
        rw [ih x (a :: acc), ih x [a]]
        simp
  show List.eraseRepsBy.loop (· == ·) a (b :: xs) [] = _
  rw [List.eraseRepsBy.loop]
  cases a == b with
  | true => rfl
  | false => exact hloop xs b [a]

variable [LawfulBEq α]

theorem mem_eraseReps {x : α} {xs : List α} : x ∈ xs.eraseReps ↔ x ∈ xs := by
  cases xs with
  | nil => rfl
  | cons a xs =>
    induction xs generalizing a with
    | nil => rfl
    | cons b xs ih =>
      rw [eraseReps_cons_cons]
      split
      · rename_i hab
        rw [ih a, beq_iff_eq.mp hab]
        simp
      · rw [List.mem_cons, ih b, ← List.mem_cons]

/-- In a sorted list equal members are adjacent, so none is left twice. -/
theorem pairwise_ne_eraseReps {le : α → α → Prop} [Std.Antisymm le] {xs : List α}
    (h : xs.Pairwise le) : xs.eraseReps.Pairwise fun a b => le a b ∧ a ≠ b := by
  cases xs with
  | nil => exact .nil
  | cons a xs =>
    induction xs generalizing a with
    | nil => exact List.pairwise_singleton ..
    | cons b xs ih =>
      obtain ⟨ha, hb⟩ := List.pairwise_cons.mp h
      obtain ⟨hbxs, hxs⟩ := List.pairwise_cons.mp hb
      rw [eraseReps_cons_cons]
      split
      · exact ih a (List.pairwise_cons.mpr ⟨fun x hx => ha x (List.mem_cons_of_mem _ hx), hxs⟩)
      · rename_i hab
        refine List.pairwise_cons.mpr ⟨fun x hx => ?_, ih b hb⟩
        rw [mem_eraseReps] at hx
        refine ⟨ha x hx, ?_⟩
        rintro rfl
        -- A later copy of the first member would hold the one between them down to it.
        rcases List.mem_cons.mp hx with rfl | hx
        · exact hab (beq_self_eq_true a)
        · exact hab (beq_iff_eq.mpr (antisymm (ha b (List.mem_cons_self ..)) (hbxs a hx)))

end Repetitions

end Cyclomatic
