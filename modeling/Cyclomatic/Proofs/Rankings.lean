import Cyclomatic.Proofs.Sorting
import Cyclomatic.Proofs.Views
import Mathlib.Data.List.Permutation
import Mathlib.Data.String.Basic

/-!
# Rankings

The functions of the gate have one ranking: by score, highest first, then by file, then by line,
then in the order in which they come (`Outranks`).  The ranking knows no threshold.  For every
threshold, the hotspots are the functions of the ranking above it (`hotspots_eq_ranking`), and since
the score counts first, they stand in front.  So a higher threshold cuts off the end of the hotspots
(`evaluate_monotone`).

The verdict passes if the highest score is not above the threshold (`passed_evaluate_iff`), and this
score does not depend on the order of the functions.
-/

namespace Cyclomatic

/-! ## The order of hotspots -/

namespace Hotspot

theorem before_iff (a b : Hotspot) :
    a.before b = true ↔ b.score < a.score ∨ a.score = b.score ∧
      (a.file < b.file ∨ a.file = b.file ∧ a.line ≤ b.line) := by
  simp [before]

theorem before_trans (a b c : Hotspot) (hab : a.before b) (hbc : b.before c) : a.before c := by
  rw [before_iff] at *
  grind

theorem before_total (a b : Hotspot) : a.before b || b.before a := by
  rw [Bool.or_eq_true, before_iff, before_iff]
  grind

end Hotspot

/-! ## The ranking -/

/-- A function with its file, and its place among those that are ranked. -/
abbrev Ranked := (FileResult × Function) × Nat

/-- A function stands in front of another: its score is higher, or else it comes first by file, by
line and by place. -/
def Ranked.Outranks (a b : Ranked) : Prop :=
  b.1.2.score < a.1.2.score ∨ a.1.2.score = b.1.2.score ∧
    (a.1.1.file < b.1.1.file ∨ a.1.1.file = b.1.1.file ∧
      (a.1.2.span.startLine < b.1.2.span.startLine ∨ a.1.2.span.startLine = b.1.2.span.startLine ∧
        a.2 < b.2))

/-- The hotspot of one function is listed before that of another, or at the same place. -/
def listedBefore (a b : FileResult × Function) : Bool := (Hotspot.of a).before (Hotspot.of b)

/-- All functions with their places, in the order of the ranking. -/
def ranking (fs : List (FileResult × Function)) : List Ranked :=
  fs.zipIdx.mergeSort (List.zipIdxLE listedBefore)

section Ranking

variable {fs fs' : List (FileResult × Function)} {threshold : Option UInt32}

theorem listedBefore_trans (a b c : FileResult × Function) (hab : listedBefore a b)
    (hbc : listedBefore b c) : listedBefore a c :=
  Hotspot.before_trans _ _ _ hab hbc

theorem listedBefore_total (a b : FileResult × Function) : listedBefore a b || listedBefore b a :=
  Hotspot.before_total ..

theorem Ranked.outranks_of_zipIdxLE {a b : Ranked} (h : List.zipIdxLE listedBefore a b)
    (hne : a.2 ≠ b.2) : a.Outranks b := by
  have hbefore : listedBefore a.1 b.1 ∧ (listedBefore b.1 a.1 → a.2 ≤ b.2) := by
    unfold List.zipIdxLE at h
    grind
  simp only [listedBefore, Hotspot.before_iff, Hotspot.of] at hbefore
  unfold Outranks
  grind

theorem Ranked.Outranks.score_le {a b : Ranked} (h : a.Outranks b) :
    b.1.2.score ≤ a.1.2.score := by
  rcases h with hlt | ⟨heq, -⟩
  · exact UInt32.le_of_lt hlt
  · rw [heq]
    exact UInt32.le_refl _

theorem perm_ranking (fs : List (FileResult × Function)) : (ranking fs).Perm fs.zipIdx :=
  List.mergeSort_perm ..

/-- Everything in the ranking stands in front of everything behind it. -/
theorem pairwise_outranks (fs : List (FileResult × Function)) :
    (ranking fs).Pairwise Ranked.Outranks := by
  have hsorted : (ranking fs).Pairwise fun a b => List.zipIdxLE listedBefore a b :=
    List.pairwise_mergeSort (List.zipIdxLE_trans listedBefore_trans)
      (List.zipIdxLE_total listedBefore_total) _
  have hplaces : ((ranking fs).map Prod.snd).Nodup := by
    rw [((perm_ranking fs).map Prod.snd).nodup_iff, List.zipIdx_map_snd]
    exact List.nodup_range' ..
  exact hsorted.imp₂ (fun _ _ => Ranked.outranks_of_zipIdxLE) (List.pairwise_map.mp hplaces)

/-- A function of the ranking stands above a threshold. -/
def Ranked.isAbove (threshold : Option UInt32) (p : Ranked) : Bool :=
  threshold.any (· < p.1.2.score)

/-- The hotspots are the functions of the ranking above the threshold. -/
theorem hotspots_eq_ranking (threshold : Option UInt32) (fs : List (FileResult × Function)) :
    (evaluate threshold fs).hotspots =
      ((ranking fs).filter (Ranked.isAbove threshold)).map fun p => Hotspot.of p.1 := by
  calc (evaluate threshold fs).hotspots
      = ((fs.filter fun p => threshold.any (· < p.2.score)).mergeSort listedBefore).map
          Hotspot.of := (List.map_mergeSort (f := Hotspot.of) fun _ _ _ _ => rfl).symm
    _ = ((fs.mergeSort listedBefore).filter fun p => threshold.any (· < p.2.score)).map
          Hotspot.of := by rw [mergeSort_filter listedBefore_trans listedBefore_total]
    _ = ((ranking fs).filter (Ranked.isAbove threshold)).map fun p => Hotspot.of p.1 := by
        rw [← List.mergeSort_zipIdx, List.filter_map, List.map_map]
        rfl

/-- Above a higher threshold there is a front part of what is above a lower one. -/
theorem hotspots_prefix_hotspots {t₁ t₂ : UInt32} (h : t₁ ≤ t₂)
    (fs : List (FileResult × Function)) :
    (evaluate (some t₂) fs).hotspots <+: (evaluate (some t₁) fs).hotspots := by
  rw [hotspots_eq_ranking, hotspots_eq_ranking]
  refine List.IsPrefix.map _ (filter_prefix_filter (pairwise_outranks fs) ?_ ?_)
  · intro a b hab hb
    simp only [Ranked.isAbove, Option.any_some, decide_eq_true_eq] at hb ⊢
    exact UInt32.lt_of_lt_of_le hb hab.score_le
  · intro a ha
    simp only [Ranked.isAbove, Option.any_some, decide_eq_true_eq] at ha ⊢
    exact UInt32.lt_of_le_of_lt h ha

/-! ## The highest score -/

/-- The highest score is not above a bound just if no score is. -/
theorem maxScore_le_iff {bound : UInt32} :
    (evaluate threshold fs).maxScore ≤ bound ↔ ∀ p ∈ fs, p.2.score ≤ bound := by
  obtain ⟨hall, hattained⟩ := maxScore_evaluate threshold fs
  refine ⟨fun h p hp => UInt32.le_trans (hall p hp) h, fun h => ?_⟩
  rcases hattained with ⟨-, hzero⟩ | ⟨p, hp, hscore⟩
  · rw [hzero]
    exact UInt32.zero_le
  · exact hscore ▸ h p hp

/-- The verdict passes just if the highest score is not above the threshold. -/
theorem passed_evaluate_iff :
    (evaluate threshold fs).passed = true ↔
      ∀ t ∈ threshold, (evaluate threshold fs).maxScore ≤ t := by
  have hpassed : (evaluate threshold fs).passed = (evaluate threshold fs).hotspots.isEmpty := rfl
  rw [hpassed, List.isEmpty_iff, ← List.length_eq_zero_iff,
    (hotspots_evaluate threshold fs).length_eq, List.length_eq_zero_iff, List.map_eq_nil_iff,
    List.filter_eq_nil_iff]
  cases threshold with
  | none => simp
  | some t => simp [maxScore_le_iff]

/-- The highest score does not depend on the order of the functions. -/
theorem maxScore_evaluate_perm (h : fs.Perm fs') :
    (evaluate threshold fs).maxScore = (evaluate threshold fs').maxScore := by
  apply UInt32.le_antisymm
  · exact maxScore_le_iff.mpr fun p hp => (maxScore_evaluate threshold fs').1 p (h.mem_iff.mp hp)
  · exact maxScore_le_iff.mpr fun p hp => (maxScore_evaluate threshold fs).1 p (h.mem_iff.mpr hp)

end Ranking

/-- A function of a file with a line and a score. -/
def rated (file : String) (line : Nat) (score : UInt32) : FileResult × Function :=
  ({ (default : FileResult) with file },
    { (default : Function) with span := { (default : Span) with startLine := line }, score })

/-- Functions with one score in two files, and two of them in one line. -/
def tiedFunctions : List (FileResult × Function) :=
  [rated "b" 1 4, rated "a" 7 4, rated "a" 7 4, rated "a" 2 9, rated "c" 1 2]

end Cyclomatic
