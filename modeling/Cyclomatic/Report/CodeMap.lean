import Cyclomatic.Analysis.Batch
import Cyclomatic.Json
import Cyclomatic.Text.Words

/-!
# Code maps

A code map shows the files of a batch as a tree of folders.  A file stands under the folders of
its path and carries its metrics.  Files without result have no metrics and are left out.
-/

namespace Cyclomatic

/-- The metrics of a file. -/
structure Metrics where
  /-- Lines that are not blank. -/
  realLines : Nat
  /-- The sum of all scores. -/
  complexity : Nat
  /-- The highest score, or zero. -/
  maxComplexity : Nat
  /-- The number of functions. -/
  functions : Nat
deriving DecidableEq, Repr

/-- The metrics of a result. -/
def FileResult.metrics (r : FileResult) : Metrics :=
  { realLines := r.realLines
    complexity := (r.all.map (·.score.toNat)).foldl (· + ·) 0
    maxComplexity := (r.maxScore?.map UInt32.toNat).getD 0
    functions := r.total }

/-- A file or a folder of a map. -/
inductive MapNode where
  | file (name : String) (metrics : Metrics)
  | folder (name : String) (children : List MapNode)
deriving Inhabited

namespace MapNode

/-- Change the children of the first folder of a name, or append such a folder. -/
def updateFolder (name : String) (change : List MapNode → List MapNode) :
    List MapNode → List MapNode
  | [] => [.folder name (change [])]
  | .folder n children :: rest =>
    if n == name then .folder n (change children) :: rest
    else .folder n children :: updateFolder name change rest
  | node :: rest => node :: updateFolder name change rest

/-- Append a node under a path of folders, which are made where they are missing. -/
def insertAt (node : MapNode) : List String → List MapNode → List MapNode
  | [], children => children ++ [node]
  | name :: names, children => updateFolder name (insertAt node names) children

/-- The parts of a path that are not empty. -/
def pathParts (path : String) : List String := (Text.splitAt '/' path).filter (!·.isEmpty)

/-- Add a file under its path.  A path without parts adds nothing. -/
def addFile (children : List MapNode) (r : FileResult) : List MapNode :=
  match (pathParts r.file).reverse with
  | [] => children
  | name :: folders => insertAt (.file name r.metrics) folders.reverse children

/-- The children of the root of a map. -/
def ofResults (results : List FileResult) : List MapNode := results.foldl addFile []

/-! ## Data -/

/-- Metrics as data. -/
def metricsJson (m : Metrics) : Json := .obj [
  ("complexity", .nat m.complexity), ("functions", .nat m.functions),
  ("max_complexity", .nat m.maxComplexity), ("rloc", .nat m.realLines)]

mutual

/-- A node as data. -/
def json : MapNode → Json
  | .file name metrics => .obj [
    ("name", .str name), ("type", .str "File"), ("attributes", metricsJson metrics),
    ("children", .arr [])]
  | .folder name children => .obj [
    ("name", .str name), ("type", .str "Folder"), ("attributes", .obj []),
    ("children", .arr (jsons children))]

/-- Several nodes as data. -/
def jsons : List MapNode → List Json
  | [] => []
  | node :: rest => json node :: jsons rest

end

end MapNode

/-- The code map of a batch as data. -/
def codeMapJson (project : String) (report : BatchReport) : Json :=
  let absolute : List (String × Json) :=
    ["complexity", "functions", "max_complexity", "rloc"].map fun m => (m, .str "absolute")
  .obj [
    ("projectName", .str project), ("apiVersion", .str "1.0"),
    ("nodes", .arr [(MapNode.folder "root" (MapNode.ofResults report.results)).json]),
    ("edges", .arr []),
    ("attributeTypes", .obj [("nodes", .obj absolute), ("edges", .obj [])])]

/-- The code map of a batch as indented data. -/
def writeCodeMap (project : String) (report : BatchReport) : String :=
  (codeMapJson project report).pretty 0 ++ "\n"

end Cyclomatic
