import Cyclomatic.Report.Listing

/-!
# Reports for a terminal

The report lists the selected functions file by file, then failures, skipped files and hotspots,
and ends with the verdict.  On a terminal that shows colours, parts of it are styled.
-/

namespace Cyclomatic

/-! ## Styles -/

/-- The style of a piece of text, as codes of the terminal. -/
inductive Style where
  | bold
  | dimmed
  | red
  | boldRed
  | green
  | yellow
  | blue
  | boldCyan
deriving DecidableEq, Repr

/-- The codes of a style. -/
def Style.codes : Style → String
  | .bold => "1"
  | .dimmed => "2"
  | .red => "31"
  | .boldRed => "1;31"
  | .green => "32"
  | .yellow => "33"
  | .blue => "34"
  | .boldCyan => "1;36"

/-- The sequence that ends every style. -/
def resetSequence : String := "\x1b[0m"

/-- A text in a style.  The style goes on after the end of a style inside the text. -/
def Style.apply (style : Style) (s : String) : String :=
  let start := "\x1b[" ++ style.codes ++ "m"
  start ++ String.intercalate (resetSequence ++ start) (s.splitOn resetSequence) ++ resetSequence

/-- How styles are written: as they are, or not at all. -/
structure Terminal where
  /-- The terminal shows colours. -/
  colours : Bool := false

/-- A text in a style, on a terminal. -/
def Terminal.styled (t : Terminal) (style : Style) (s : String) : String :=
  if t.colours then style.apply s else s

/-! ## The functions of a file -/

mutual

/-- The selected functions of a tree whose top is `depth` deep, each with its depth. -/
def FunctionTree.shownLines (view : View) (depth : Nat) : FunctionTree → List (Nat × Function)
  | .node f cs =>
    (if view.selects f.qualifiedName then [(depth, f)] else []) ++
      FunctionTree.shownLinesAll view (depth + 1) cs

/-- The selected functions of several trees of one depth. -/
def FunctionTree.shownLinesAll (view : View) (depth : Nat) :
    List FunctionTree → List (Nat × Function)
  | [] => []
  | t :: ts =>
    FunctionTree.shownLines view depth t ++ FunctionTree.shownLinesAll view depth ts

end

/-- The selected functions of a file, each with the number of functions around it. -/
def FileResult.shownLines (r : FileResult) (view : View) : List (Nat × Function) :=
  FunctionTree.shownLinesAll view 0 r.functions

/-! ## Parts of a report -/

/-- The style of a score. -/
def Risk.style : Risk → Style
  | .low => .green
  | .moderate => .yellow
  | .high => .red
  | .veryHigh => .boldRed

namespace Terminal

variable (t : Terminal)

/-- A score, three characters wide. -/
def score (s : UInt32) : String :=
  t.styled (Risk.ofScore s).style (Text.padLeft 3 s.toNat.repr)

/-- Lines, each with its line feed. -/
def lines (ls : List String) : String := String.join (ls.map (· ++ "\n"))

/-- The blanks before a function at a depth. -/
def indent (depth : Nat) : String := String.ofList (List.replicate (4 + 2 * depth) ' ')

/-- The line of a decision. -/
def decisionLine (depth : Nat) (d : Decision) : String :=
  indent depth ++ "      " ++
    t.styled .dimmed ("+" ++ d.increment.toNat.repr ++ " " ++ d.category.name ++ " " ++
      Text.quote d.token ++ " line " ++ d.line.repr)

/-- The lines of a function. -/
def functionLines (view : View) (depth : Nat) (f : Function) : List String :=
  (indent depth ++ t.score f.score ++ "  " ++ f.qualifiedName ++ "  " ++
    t.styled .dimmed f.span.lines) ::
    (if view.decisions then f.decisions.map (t.decisionLine depth) else [])

/-- The lines of a file.  A file without selected functions has none. -/
def fileLines (view : View) (r : FileResult) : List String :=
  match r.shownLines view with
  | [] => []
  | functions =>
    ("  " ++ t.styled .blue r.file ++ " " ++ t.styled .dimmed ("(" ++ r.language ++ ")")) ::
      functions.flatMap (fun (depth, f) => t.functionLines view depth f) ++ [""]

/-- A heading with a count. -/
def heading (title : String) (count : Nat) : String :=
  "  " ++ t.styled .bold title ++ " (" ++ count.repr ++ "):"

/-- The lines of the failures. -/
def failureLines (fs : List FileFailure) : List String :=
  if fs.isEmpty then []
  else
    t.heading "Failures" fs.length ::
      fs.map (fun f => "    " ++ t.styled .blue f.file ++ " " ++ f.fault.message) ++ [""]

/-- The lines of the skipped files. -/
def skippedLines (skipped : List String) : List String :=
  if skipped.isEmpty then []
  else
    ["  " ++ t.styled .dimmed
      (skipped.length.repr ++ " file(s) skipped after cancellation"), ""]

/-- The lines of the hotspots. -/
def hotspotLines (hs : List Hotspot) : List String :=
  if hs.isEmpty then []
  else
    t.heading "Hotspots" hs.length ::
      hs.map (fun h =>
        "    " ++ t.score h.score ++ "  " ++ t.styled .blue h.file ++
          t.styled .dimmed (":" ++ h.line.repr) ++ "  " ++ h.qualifiedName) ++ [""]

/-- The line of the verdict. -/
def verdictLine (v : Verdict) : String :=
  "  Functions: " ++ v.functions.repr ++ "  Max: " ++ v.maxScore.toNat.repr ++ "  Mean: " ++
    v.meanScore.twoPlaces ++
    ((v.threshold.map fun limit =>
      "  " ++ t.styled .dimmed ("Threshold: " ++ limit.toNat.repr)).getD "") ++
    "  " ++ (if v.passed then t.styled .green "PASSED" else t.styled .red "FAILED")

/-- The report of a batch. -/
def write (path : String) (view : View) (report : BatchReport) (verdict : Verdict) : String :=
  lines (
    ["", "  " ++ t.styled .boldCyan "branchcount" ++ " v" ++ version, "",
      "  " ++ t.styled .dimmed "Scanning: " ++ path, ""] ++
    report.results.flatMap (t.fileLines view) ++
    t.failureLines report.failures ++
    t.skippedLines report.skipped ++
    t.hotspotLines verdict.hotspots ++
    [t.verdictLine verdict, ""])

end Terminal

end Cyclomatic
