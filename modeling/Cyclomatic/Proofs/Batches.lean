import Cyclomatic.Analysis.Batch
import Cyclomatic.Proofs.BestEffort
import Cyclomatic.Proofs.Registry
import Cyclomatic.Proofs.Sorting

/-!
# Batches

The outcomes of a batch are put beside its files, taken into three lists and sorted list by list.
What one outcome adds to a report is said by `BatchReport.record_eq`, and what a whole batch leaves
by `BatchReport.record_all`.

A report is the union of what its files give alone (`BatchReport.Unites`): every file makes one
entry, each list is in increasing order of names, and entries of one name keep the order of the
files.  If the names are distinct, the order of the files does not matter
(`analyzeAll_unites`).
-/

namespace Cyclomatic

/-! ## Recording outcomes -/

namespace FileOutcome

/-- The result of an outcome. -/
def result? : FileOutcome → Option FileResult
  | .done r => some r
  | .failed _ => none
  | .skipped => none

/-- The failure of an outcome of a file. -/
def failure? (file : String) : FileOutcome → Option FileFailure
  | .done _ => none
  | .failed fault => some ⟨file, fault⟩
  | .skipped => none

/-- The name of a file whose outcome is that it was not started. -/
def skipped? (file : String) : FileOutcome → Option String
  | .done _ => none
  | .failed _ => none
  | .skipped => some file

end FileOutcome

namespace BatchReport

theorem record_eq (report : BatchReport) (f : SourceFile) (o : FileOutcome) :
    report.record f o =
      { results := report.results ++ o.result?.toList
        failures := report.failures ++ (o.failure? f.id).toList
        skipped := report.skipped ++ (o.skipped? f.id).toList } := by
  cases o with
  | done r => simp [record, FileOutcome.result?, FileOutcome.failure?, FileOutcome.skipped?]
  | failed e => simp [record, FileOutcome.result?, FileOutcome.failure?, FileOutcome.skipped?]
  | skipped => simp [record, FileOutcome.result?, FileOutcome.failure?, FileOutcome.skipped?]

/-- Outcomes beside their files: each goes to the list it belongs to, in the order of the files. -/
theorem record_all (outcome : SourceFile → FileOutcome) (files : List SourceFile)
    (report : BatchReport) :
    (files.zip (files.map outcome)).foldl (fun (report : BatchReport) p => report.record p.1 p.2)
        report =
      { results := report.results ++ files.filterMap fun f => (outcome f).result?
        failures := report.failures ++ files.filterMap fun f => (outcome f).failure? f.id
        skipped := report.skipped ++ files.filterMap fun f => (outcome f).skipped? f.id } := by
  induction files generalizing report with
  | nil => simp
  | cons f files ih =>
    rw [List.map_cons, List.zip_cons_cons, List.foldl_cons, ih, record_eq]
    simp only [List.filterMap_eq_flatMap_toList, List.flatMap_cons, List.append_assoc]

end BatchReport

/-! ## What a file gives alone -/

namespace Engine

variable {engine : Engine}

/-- The result of a file that is analysed alone, or its failure. -/
def entry (engine : Engine) (f : SourceFile) : FileResult ⊕ FileFailure :=
  match engine.analyze f.id f.text f.language with
  | .ok r => .inl r
  | .error fault => .inr ⟨f.id, fault⟩

/-- A result is that of the file. -/
theorem analyze_file {file source language : String} {r : FileResult}
    (h : engine.analyze file source language = .ok r) : r.file = file := by
  rw [analyze] at h
  split at h
  · rename_i l hl
    cases hd : detect l (Code.ofSource l source) with
    | error fault =>
      simp only [analyzeIn, hd] at h
      cases h
    | ok forest =>
      rw [analyzeIn_of_detect hd] at h
      cases hts : scoredTrees l engine.options (Code.ofSource l source) forest
          forest.entities.size forest.roots with
      | error fault =>
        rw [hts] at h
        cases h
      | ok functions =>
        rw [hts] at h
        cases h
        rfl
  · cases h

theorem file_of_entry_left {f : SourceFile} {r : FileResult}
    (h : (engine.entry f).getLeft? = some r) : r.file = f.id := by
  rw [entry] at h
  split at h
  · rename_i r' hr
    cases h
    exact analyze_file hr
  · cases h

theorem file_of_entry_right {f : SourceFile} {failure : FileFailure}
    (h : (engine.entry f).getRight? = some failure) : failure.file = f.id := by
  rw [entry] at h
  split at h
  · cases h
  · cases h
    rfl

/-- Without cancellation, a report takes the entries of the files. -/
theorem analyzeAll_eq (engine : Engine) (files : List SourceFile) :
    engine.analyzeAll false files = BatchReport.sorted
      { results := files.filterMap fun f => (engine.entry f).getLeft?
        failures := files.filterMap fun f => (engine.entry f).getRight? } := by
  have hentry : ∀ f, (engine.outcome false f).result? = (engine.entry f).getLeft? ∧
      (engine.outcome false f).failure? f.id = (engine.entry f).getRight? ∧
      (engine.outcome false f).skipped? f.id = none := by
    intro f
    rw [outcome, entry]
    cases engine.analyze f.id f.text f.language with
    | ok r => exact ⟨rfl, rfl, rfl⟩
    | error fault => exact ⟨rfl, rfl, rfl⟩
  rw [analyzeAll, BatchReport.record_all]
  simp only [hentry, List.nil_append, List.filterMap_none]

/-- A cancelled batch skips all files. -/
theorem analyzeAll_cancelled (engine : Engine) (files : List SourceFile) :
    engine.analyzeAll true files = BatchReport.sorted { skipped := files.map (·.id) } := by
  have houtcome : ∀ f, engine.outcome true f = .skipped := fun f => rfl
  rw [analyzeAll, BatchReport.record_all]
  simp only [houtcome, FileOutcome.result?, FileOutcome.failure?, FileOutcome.skipped?,
    List.filterMap_none, List.nil_append, List.filterMap_eq_map']

end Engine

/-! ## The union -/

/-- A list of results and failures, split and put together again. -/
theorem perm_split {α β : Type} (xs : List (α ⊕ β)) :
    ((xs.filterMap Sum.getLeft?).map Sum.inl ++ (xs.filterMap Sum.getRight?).map Sum.inr).Perm
      xs := by
  induction xs with
  | nil => exact .refl _
  | cons x xs ih =>
    cases x with
    | inl a => exact ih.cons (Sum.inl a)
    | inr b => exact List.perm_middle.trans (ih.cons (Sum.inr b))

section Entries

variable {β : Type} {name : β → String} {entry : SourceFile → Option β} {files : List SourceFile}

/-- The entries of one name are those of the files of that name. -/
theorem filter_filterMap_name (h : ∀ {f b}, entry f = some b → name b = f.id) (n : String) :
    (files.filterMap entry).filter (name · == n) =
      (files.filter (·.id == n)).filterMap entry := by
  rw [List.filter_filterMap, List.filterMap_filter]
  congr 1
  funext f
  cases hf : entry f with
  | none => simp
  | some b => simp [Option.filter, h hf]

/-- Distinct files make entries of distinct names. -/
theorem nodup_filterMap_name (h : ∀ {f b}, entry f = some b → name b = f.id)
    (hnodup : (files.map (·.id)).Nodup) : ((files.filterMap entry).map name).Nodup := by
  refine List.pairwise_map.mpr (List.Pairwise.filterMap entry ?_ (List.pairwise_map.mp hnodup))
  intro f g hne b hb c hc heq
  exact hne ((h hb).symm.trans (heq.trans (h hc)))

end Entries

/-- A report holds what its files give alone, by file name. -/
structure BatchReport.Unites (report : BatchReport) (engine : Engine) (files : List SourceFile) :
    Prop where
  /-- Every file makes one entry, and there are no others. -/
  entries : (report.results.map Sum.inl ++ report.failures.map Sum.inr).Perm
    (files.map engine.entry)
  /-- No file was skipped. -/
  skipped : report.skipped = []
  /-- Results are in increasing order of names. -/
  results_sorted : report.results.Pairwise fun a b => a.file ≤ b.file
  /-- Failures are in increasing order of names. -/
  failures_sorted : report.failures.Pairwise fun a b => a.file ≤ b.file
  /-- The results of one name are those of the files of that name, in their order. -/
  results_stable : ∀ n, report.results.filter (·.file == n) =
    (files.filter (·.id == n)).filterMap fun f => (engine.entry f).getLeft?
  /-- The failures of one name are those of the files of that name, in their order. -/
  failures_stable : ∀ n, report.failures.filter (·.file == n) =
    (files.filter (·.id == n)).filterMap fun f => (engine.entry f).getRight?

theorem Engine.unites (engine : Engine) (files : List SourceFile) :
    (engine.analyzeAll false files).Unites engine files := by
  rw [Engine.analyzeAll_eq]
  constructor
  case entries =>
    have hsplit := perm_split (files.map engine.entry)
    rw [List.filterMap_map, List.filterMap_map] at hsplit
    exact (((List.mergeSort_perm ..).map Sum.inl).append
      ((List.mergeSort_perm ..).map Sum.inr)).trans hsplit
  case skipped => exact List.mergeSort_nil
  case results_sorted => exact pairwise_mergeSort_name FileResult.file _
  case failures_sorted => exact pairwise_mergeSort_name FileFailure.file _
  case results_stable =>
    intro n
    exact (filter_mergeSort_name FileResult.file _ n).trans
      (filter_filterMap_name file_of_entry_left n)
  case failures_stable =>
    intro n
    exact (filter_mergeSort_name FileFailure.file _ n).trans
      (filter_filterMap_name file_of_entry_right n)

/-- With distinct names, the order of the files does not matter. -/
theorem Engine.analyzeAll_perm (engine : Engine) {files files' : List SourceFile}
    (hnodup : (files.map (·.id)).Nodup) (hperm : files.Perm files') :
    engine.analyzeAll false files = engine.analyzeAll false files' := by
  rw [Engine.analyzeAll_eq, Engine.analyzeAll_eq]
  simp only [BatchReport.sorted]
  congr 1
  · exact mergeSort_eq_of_perm (nodup_filterMap_name file_of_entry_left hnodup)
      (hperm.filterMap _)
  · exact mergeSort_eq_of_perm (nodup_filterMap_name file_of_entry_right hnodup)
      (hperm.filterMap _)

/-- The report of a batch is the sorted union of what its files give alone.  If their names are
distinct, every order of the files gives the same report.  A batch that is cancelled before it
starts skips all files. -/
theorem analyzeAll_unites (engine : Engine) (files : List SourceFile) :
    (engine.analyzeAll false files).Unites engine files ∧
      ((files.map (·.id)).Nodup → ∀ files', files.Perm files' →
        engine.analyzeAll false files' = engine.analyzeAll false files) ∧
      (engine.analyzeAll true files).results = [] ∧ (engine.analyzeAll true files).failures = [] ∧
      (engine.analyzeAll true files).skipped.Perm (files.map (·.id)) ∧
      (engine.analyzeAll true files).skipped.Pairwise (· ≤ ·) := by
  refine ⟨engine.unites files, fun hnodup files' hperm =>
    (engine.analyzeAll_perm hnodup hperm).symm, ?_⟩
  rw [Engine.analyzeAll_cancelled]
  exact ⟨List.mergeSort_nil, List.mergeSort_nil, List.mergeSort_perm ..,
    pairwise_mergeSort_name id _⟩

/-- An engine that knows one language, which has no words. -/
def bareEngine : Engine := { registry := .insert .empty (Registry.bareTable "bare" []).canonical }

/-- A file with a result and one in an unknown language, in both orders. -/
theorem analyzeAll_unites_mixed :
    bareEngine.analyzeAll false [⟨"b", "bare", "x"⟩, ⟨"a", "ruby", "x"⟩] =
        bareEngine.analyzeAll false [⟨"a", "ruby", "x"⟩, ⟨"b", "bare", "x"⟩] ∧
      (bareEngine.analyzeAll false [⟨"b", "bare", "x"⟩, ⟨"a", "ruby", "x"⟩]).results.map (·.file) =
        ["b"] ∧
      (bareEngine.analyzeAll false [⟨"b", "bare", "x"⟩, ⟨"a", "ruby", "x"⟩]).failures =
        [⟨"a", .unsupportedLanguage "ruby"⟩] := by
  obtain ⟨-, hperm, -⟩ :=
    analyzeAll_unites bareEngine [⟨"a", "ruby", "x"⟩, ⟨"b", "bare", "x"⟩]
  refine ⟨hperm (by decide) _ (.swap ..), ?_, ?_⟩
  · decide +kernel
  · decide +kernel

end Cyclomatic
