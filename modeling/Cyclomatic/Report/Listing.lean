import Cyclomatic.Gate.Basic
import Cyclomatic.Gate.Risk

/-!
# Listings

A report shows the functions whose qualified names a filter selects.  The gate judges the same
functions.  As data, a report is one object with a summary and flat lists.
-/

namespace Cyclomatic

/-- The version of the program. -/
def version : String := "0.1.0"

/-- What a report shows. -/
structure View where
  /-- Which qualified names are shown. -/
  selects : String → Bool := fun _ => true
  /-- Decisions are shown. -/
  decisions : Bool := false

/-- The selected functions with their files, in the order of the report. -/
def selected (view : View) (report : BatchReport) : List (FileResult × Function) :=
  report.functions.filter fun p => view.selects p.2.qualifiedName

/-- A function in a flat list. -/
structure Listed where
  /-- The file. -/
  file : String
  /-- The language of the file. -/
  language : String
  /-- The number of functions around it. -/
  depth : Nat
  /-- The function. -/
  function : Function

namespace FileResult

mutual

/-- The selected functions of a tree whose top is `depth` deep, in a list for a file. -/
def flatten (r : FileResult) (view : View) (depth : Nat) : FunctionTree → List Listed
  | .node f cs =>
    if view.selects f.qualifiedName then
      ⟨r.file, r.language, depth, f⟩ :: flattenAll r view (depth + 1) cs
    else flattenAll r view (depth + 1) cs

/-- The selected functions of several trees of one depth. -/
def flattenAll (r : FileResult) (view : View) (depth : Nat) : List FunctionTree → List Listed
  | [] => []
  | t :: ts => flatten r view depth t ++ flattenAll r view depth ts

end

end FileResult

/-- The selected functions of all files. -/
def listing (view : View) (report : BatchReport) : List Listed :=
  report.results.flatMap fun r => r.flattenAll view 0 r.functions

/-! ## Data -/

/-- A decision as data. -/
def Decision.json (d : Decision) : Json := .obj [
  ("category", .str d.category.name), ("token", .str d.token), ("line", .nat d.line),
  ("offset", .nat d.offset), ("increment", .nat d.increment.toNat)]

/-- A listed function as data. -/
def Listed.json (view : View) (x : Listed) : Json :=
  let f := x.function
  .obj ([
    ("file", .str x.file), ("language", .str x.language), ("name", .str f.name),
    ("qualified_name", .str f.qualifiedName), ("signature", .str f.signature),
    ("start_line", .nat f.span.startLine), ("end_line", .nat f.span.endLine),
    ("depth", .nat x.depth), ("score", .nat f.score.toNat),
    ("risk", .str (Risk.ofScore f.score).name)] ++
    (if view.decisions then
      Json.nonEmpty "decisions" (fun ds => .arr (ds.map Decision.json)) f.decisions
    else []))

/-- The summary of a report as data. -/
def summaryJson (report : BatchReport) (verdict : Verdict) : Json :=
  .obj ([
    ("rloc", .nat ((report.results.map (·.realLines)).foldl (· + ·) 0)),
    ("functions", .nat verdict.functions), ("max_score", .nat verdict.maxScore.toNat),
    ("mean_score", meanJson verdict.meanScore)] ++
    (verdict.threshold.map fun t => ("threshold", Json.nat t.toNat)).toList ++
    [("passed", .bool verdict.passed)])

/-- The declarations of all files as data. -/
def declarationsJson (report : BatchReport) : List Json :=
  report.results.flatMap fun r => r.declarations.map fun d =>
    .obj [("file", .str r.file), ("name", .str d.name), ("line", .nat d.line)]

/-- A failure as data. -/
def FileFailure.json (f : FileFailure) : Json :=
  .obj [("file", .str f.file), ("error", .str f.fault.message)]

/-- A report as data. -/
def reportJson (path : String) (view : View) (report : BatchReport) (verdict : Verdict) : Json :=
  .obj ([
    ("version", .str version), ("path", .str path),
    ("files_scanned", .nat (report.results.length + report.failures.length)),
    ("summary", summaryJson report verdict),
    ("functions", .arr ((listing view report).map (Listed.json view)))] ++
    Json.nonEmpty "declarations" .arr (declarationsJson report) ++
    [("hotspots", .arr (verdict.hotspots.map Hotspot.json))] ++
    Json.nonEmpty "failures" (fun fs => .arr (fs.map FileFailure.json)) report.failures ++
    Json.nonEmpty "skipped" .strs report.skipped)

/-- A report as indented data. -/
def writeJson (path : String) (view : View) (report : BatchReport) (verdict : Verdict) : String :=
  (reportJson path view report verdict).pretty 0 ++ "\n"

end Cyclomatic
