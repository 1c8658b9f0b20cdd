import Cyclomatic.Analysis.File

/-!
# Analysing many files

Every file of a batch is analysed on its own.  The outcomes are taken file by file into a report,
which lists results, failures and skipped files by file name.  A batch that is cancelled before it
starts skips every file.
-/

namespace Cyclomatic

/-- A file to analyse. -/
structure SourceFile where
  /-- Its name. -/
  id : String
  /-- The name of its language. -/
  language : String
  /-- Its text. -/
  text : String
deriving DecidableEq, Repr, Inhabited

/-- A file without result. -/
structure FileFailure where
  /-- Its name. -/
  file : String
  /-- Why it has no result. -/
  fault : Fault
deriving DecidableEq, Repr

/-! ## Outcomes -/

/-- What became of one file of a batch. -/
inductive FileOutcome where
  /-- It has a result. -/
  | done (result : FileResult)
  /-- Its analysis failed. -/
  | failed (fault : Fault)
  /-- It was not started. -/
  | skipped

/-- The outcome of a file.  A cancelled batch starts no file. -/
def Engine.outcome (engine : Engine) (cancelled : Bool) (f : SourceFile) : FileOutcome :=
  if cancelled then .skipped
  else
    match engine.analyze f.id f.text f.language with
    | .ok r => .done r
    | .error fault => .failed fault

/-! ## Reports -/

/-- What became of the files of a batch. -/
structure BatchReport where
  /-- The results. -/
  results : List FileResult := []
  /-- The failures. -/
  failures : List FileFailure := []
  /-- The files that were not started. -/
  skipped : List String := []
deriving Inhabited

namespace BatchReport

/-- Every function of every file. -/
def functions (report : BatchReport) : List (FileResult × Function) :=
  report.results.flatMap fun r => r.all.map fun f => (r, f)

/-- Add the outcome of a file at the end of its list. -/
def record (report : BatchReport) (f : SourceFile) : FileOutcome → BatchReport
  | .done r => { report with results := report.results ++ [r] }
  | .failed fault => { report with failures := report.failures ++ [⟨f.id, fault⟩] }
  | .skipped => { report with skipped := report.skipped ++ [f.id] }

/-- Each list in increasing order of file names.  Files of one name keep their order. -/
def sorted (report : BatchReport) : BatchReport :=
  { results := report.results.mergeSort fun a b => a.file ≤ b.file
    failures := report.failures.mergeSort fun a b => a.file ≤ b.file
    skipped := report.skipped.mergeSort fun a b => a ≤ b }

end BatchReport

/-- The report of a batch. -/
def Engine.analyzeAll (engine : Engine) (cancelled : Bool) (files : List SourceFile) :
    BatchReport :=
  let outcomes := files.map (engine.outcome cancelled)
  ((files.zip outcomes).foldl (fun (report : BatchReport) p => report.record p.1 p.2) {}).sorted

end Cyclomatic
