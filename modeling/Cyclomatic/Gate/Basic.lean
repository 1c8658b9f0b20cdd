import Cyclomatic.Analysis.Batch
import Cyclomatic.Decimal.Shortest
import Cyclomatic.Json

/-!
# The gate

The gate looks at a list of functions.  It counts them, takes their highest and mean score, and
lists those above a threshold.  It passes if there is none.  Without threshold it always passes.
-/

namespace Cyclomatic

/-- A function above the threshold. -/
structure Hotspot where
  /-- The file. -/
  file : String
  /-- The qualified name. -/
  qualifiedName : String
  /-- The line at which the function starts. -/
  line : Nat
  /-- The score. -/
  score : UInt32
deriving DecidableEq, Repr

/-- The hotspot that a function makes. -/
def Hotspot.of (p : FileResult × Function) : Hotspot :=
  ⟨p.1.file, p.2.qualifiedName, p.2.span.startLine, p.2.score⟩

/-- Higher scores first, then by file, then by line. -/
def Hotspot.before (a b : Hotspot) : Bool :=
  b.score < a.score ||
    (a.score == b.score && (a.file < b.file || (a.file == b.file && a.line ≤ b.line)))

/-- The verdict of the gate. -/
structure Verdict where
  /-- The number of functions. -/
  functions : Nat
  /-- The highest score, or zero. -/
  maxScore : UInt32
  /-- The mean score, or zero. -/
  meanScore : Binary
  /-- The threshold, if there is one. -/
  threshold : Option UInt32
  /-- The functions above it. -/
  hotspots : List Hotspot
  /-- No function is above it. -/
  passed : Bool
deriving DecidableEq, Repr

/-- The verdict on functions with their files. -/
def evaluate (threshold : Option UInt32) (functions : List (FileResult × Function)) : Verdict :=
  let scores := functions.map (·.2.score)
  let above := functions.filter fun p => threshold.any (· < p.2.score)
  let hotspots := (above.map Hotspot.of).mergeSort Hotspot.before
  { functions := functions.length
    maxScore := scores.foldl max 0
    meanScore :=
      if functions.isEmpty then ⟨0, 0⟩
      else Binary.ofRatio ((scores.map UInt32.toNat).foldl (· + ·) 0) functions.length
    threshold := threshold
    hotspots := hotspots
    passed := hotspots.isEmpty }

/-! ## Writing -/

/-- A number keeps its point, which may stand after sixteen digits.  Up to four zeros may follow
it. -/
def scoreStyle : Decimal.Style := ⟨true, 16, 4⟩

/-- A mean score as data. -/
def meanJson (mean : Binary) : Json := .decimal ((Decimal.shortest mean).write scoreStyle)

/-- A hotspot as data. -/
def Hotspot.json (h : Hotspot) : Json := .obj [
  ("file", .str h.file), ("qualified_name", .str h.qualifiedName), ("line", .nat h.line),
  ("score", .nat h.score.toNat)]

/-- A verdict as data. -/
def Verdict.json (v : Verdict) : Json := .obj [
  ("functions", .nat v.functions), ("max_score", .nat v.maxScore.toNat),
  ("mean_score", meanJson v.meanScore),
  ("threshold", .ofOption (fun t => .nat t.toNat) v.threshold),
  ("hotspots", .arr (v.hotspots.map Hotspot.json)), ("passed", .bool v.passed)]

end Cyclomatic
