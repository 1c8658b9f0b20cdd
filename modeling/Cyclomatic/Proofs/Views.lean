import Cyclomatic.Proofs.Preorder
import Cyclomatic.Report.Terminal

/-!
# Views of a report

Three traversals show the functions of a report: the list of the gate (`selected`), the list of the
data (`listing`) and the lines of the terminal (`FileResult.shownLines`).  Each has its own filter,
and two of them count depths on the way down.

They are compared with one list of all functions with the functions around them
(`BatchReport.located`).  Each traversal shows the selected part of this list
(`Located.listing_eq`, `Located.shownLines_eq`, `Located.selected_eq`).  What the data says of a
function is read out of the members of its entry (`Listed.tells_json`).  So the reports and the
verdict of the gate are about the same functions (`reports_agree`).
-/

namespace Cyclomatic

/-! ## Functions and what is around them -/

/-- A function with its file and the functions around it, innermost first. -/
structure Located where
  /-- The file. -/
  file : FileResult
  /-- The functions around it. -/
  around : List Function
  /-- The function. -/
  function : Function

namespace FunctionTree

mutual

/-- The functions of a tree that stands inside some functions, in pre-order. -/
def located (r : FileResult) (around : List Function) : FunctionTree → List Located
  | .node f cs => ⟨r, around, f⟩ :: locatedAll r (f :: around) cs

/-- The functions of several trees that stand inside the same functions. -/
def locatedAll (r : FileResult) (around : List Function) : List FunctionTree → List Located
  | [] => []
  | t :: ts => located r around t ++ locatedAll r around ts

end

/-- A tree stands below some trees, inside the functions of a list, innermost first. -/
inductive Inside (roots : List FunctionTree) : List Function → FunctionTree → Prop where
  | top {t : FunctionTree} : t ∈ roots → Inside roots [] t
  | child {around : List Function} {t c : FunctionTree} :
      Inside roots around t → c ∈ t.children → Inside roots (t.function :: around) c

mutual

/-- The functions of a tree stand in its file, inside those that are said to be around them. -/
theorem inside_of_mem_located {roots : List FunctionTree} {r : FileResult}
    {around : List Function} {t : FunctionTree} {x : Located} (ht : Inside roots around t)
    (hx : x ∈ located r around t) :
    x.file = r ∧ ∃ s, Inside roots x.around s ∧ s.function = x.function := by
  cases t with
  | node f cs =>
    rcases List.mem_cons.mp hx with rfl | hx
    · exact ⟨rfl, _, ht, rfl⟩
    · exact inside_of_mem_locatedAll (fun c hc => ht.child hc) hx

theorem inside_of_mem_locatedAll {roots : List FunctionTree} {r : FileResult}
    {around : List Function} {ts : List FunctionTree} {x : Located}
    (hts : ∀ t ∈ ts, Inside roots around t) (hx : x ∈ locatedAll r around ts) :
    x.file = r ∧ ∃ s, Inside roots x.around s ∧ s.function = x.function := by
  cases ts with
  | nil => cases hx
  | cons t ts =>
    obtain ⟨ht, hts⟩ := List.forall_mem_cons.mp hts
    rcases List.mem_append.mp hx with hx | hx
    · exact inside_of_mem_located ht hx
    · exact inside_of_mem_locatedAll hts hx

end

end FunctionTree

/-- The functions of all files. -/
def BatchReport.located (report : BatchReport) : List Located :=
  report.results.flatMap fun r => FunctionTree.locatedAll r [] r.functions

theorem BatchReport.inside_of_mem_located {report : BatchReport} {x : Located}
    (h : x ∈ report.located) :
    x.file ∈ report.results ∧
      ∃ t, FunctionTree.Inside x.file.functions x.around t ∧ t.function = x.function := by
  obtain ⟨r, hr, hx⟩ := List.mem_flatMap.mp h
  obtain ⟨hfile, hinside⟩ :=
    FunctionTree.inside_of_mem_locatedAll (fun t ht => .top ht) hx
  rw [hfile]
  exact ⟨hr, hinside⟩

namespace Located

/-- A view shows the function. -/
def shown (view : View) (x : Located) : Bool := view.selects x.function.qualifiedName

/-- The function with its file. -/
def pair (x : Located) : FileResult × Function := (x.file, x.function)

/-- The function in a list of data. -/
def listed (x : Located) : Listed := ⟨x.file.file, x.file.language, x.around.length, x.function⟩

/-- The function on a line of the terminal. -/
def line (x : Located) : Nat × Function := (x.around.length, x.function)

/-! ## The traversals -/

mutual

/-- The data lists the shown functions of a tree. -/
theorem flatten_eq (r : FileResult) (view : View) (around : List Function) (t : FunctionTree) :
    r.flatten view around.length t = ((t.located r around).filter (shown view)).map listed := by
  cases t with
  | node f cs =>
    have hbelow := flattenAll_eq r view (f :: around) cs
    rw [FileResult.flatten, FunctionTree.located, List.filter_cons, shown]
    split
    · rw [List.map_cons, ← hbelow]
      rfl
    · exact hbelow

theorem flattenAll_eq (r : FileResult) (view : View) (around : List Function)
    (ts : List FunctionTree) :
    r.flattenAll view around.length ts =
      ((FunctionTree.locatedAll r around ts).filter (shown view)).map listed := by
  cases ts with
  | nil => rfl
  | cons t ts =>
    rw [FileResult.flattenAll, FunctionTree.locatedAll, List.filter_append, List.map_append,
      flatten_eq r view around t, flattenAll_eq r view around ts]

end

mutual

/-- The terminal shows the same functions of a tree on its lines. -/
theorem treeLines_eq (r : FileResult) (view : View) (around : List Function) (t : FunctionTree) :
    t.shownLines view around.length = ((t.located r around).filter (shown view)).map line := by
  cases t with
  | node f cs =>
    have hbelow := treeLinesAll_eq r view (f :: around) cs
    rw [FunctionTree.shownLines, FunctionTree.located, List.filter_cons, shown]
    split
    · rw [List.map_cons, ← hbelow]
      rfl
    · exact hbelow

theorem treeLinesAll_eq (r : FileResult) (view : View) (around : List Function)
    (ts : List FunctionTree) :
    FunctionTree.shownLinesAll view around.length ts =
      ((FunctionTree.locatedAll r around ts).filter (shown view)).map line := by
  cases ts with
  | nil => rfl
  | cons t ts =>
    rw [FunctionTree.shownLinesAll, FunctionTree.locatedAll, List.filter_append, List.map_append,
      treeLines_eq r view around t, treeLinesAll_eq r view around ts]

end

mutual

theorem preorder_eq (r : FileResult) (around : List Function) (t : FunctionTree) :
    t.preorder.map (fun f => (r, f)) = (t.located r around).map pair := by
  cases t with
  | node f cs =>
    rw [FunctionTree.preorder, FunctionTree.located, List.map_cons, List.map_cons,
      preorders_eq r (f :: around) cs]
    rfl

theorem preorders_eq (r : FileResult) (around : List Function) (ts : List FunctionTree) :
    (FunctionTree.preorders ts).map (fun f => (r, f)) =
      (FunctionTree.locatedAll r around ts).map pair := by
  cases ts with
  | nil => rfl
  | cons t ts =>
    rw [FunctionTree.preorders, FunctionTree.locatedAll, List.map_append, List.map_append,
      preorder_eq r around t, preorders_eq r around ts]

end

theorem functions_eq (report : BatchReport) : report.functions = report.located.map pair := by
  rw [BatchReport.functions, BatchReport.located, List.map_flatMap]
  congr 1
  funext r
  exact preorders_eq r [] r.functions

end Located

/-! ## What a view shows -/

/-- The functions that a view shows, in the order of the report. -/
def BatchReport.shown (report : BatchReport) (view : View) : List Located :=
  report.located.filter (Located.shown view)

namespace Located

variable (view : View) (report : BatchReport)

/-- The gate judges the functions that a view shows. -/
theorem selected_eq : selected view report = (report.shown view).map pair := by
  rw [selected, functions_eq, List.filter_map]
  rfl

/-- The data lists the functions that a view shows. -/
theorem listing_eq : listing view report = (report.shown view).map listed := by
  rw [listing, BatchReport.shown, BatchReport.located, List.filter_flatMap, List.map_flatMap]
  congr 1
  funext r
  exact flattenAll_eq r view [] r.functions

/-- The lines of the terminal show the functions that a view shows. -/
theorem shownLines_eq :
    (report.results.flatMap fun r => (r.shownLines view).map fun p => (r, p)) =
      (report.shown view).map fun x => (x.file, x.line) := by
  rw [BatchReport.shown, BatchReport.located, List.filter_flatMap, List.map_flatMap]
  congr 1
  funext r
  rw [FileResult.shownLines, show 0 = ([] : List Function).length from rfl,
    treeLinesAll_eq r view [] r.functions, List.map_map]
  have hroots : ∀ t ∈ r.functions, FunctionTree.Inside r.functions [] t := fun t ht => .top ht
  refine List.map_congr_left fun x hx => ?_
  obtain ⟨hfile, -⟩ := FunctionTree.inside_of_mem_locatedAll hroots (List.mem_of_mem_filter hx)
  rw [hfile]
  rfl

end Located

/-! ## Entries of the data -/

/-- The value of a member of an object. -/
def Json.member? (key : String) : Json → Option Json
  | .obj members => members.lookup key
  | _ => none

/-- What an entry of the data says of a listed function. -/
structure Listed.Tells (view : View) (x : Listed) (entry : Json) : Prop where
  /-- Its file. -/
  file : entry.member? "file" = some (.str x.file)
  /-- The language of the file. -/
  language : entry.member? "language" = some (.str x.language)
  /-- Its name. -/
  name : entry.member? "name" = some (.str x.function.name)
  /-- Its qualified name. -/
  qualifiedName : entry.member? "qualified_name" = some (.str x.function.qualifiedName)
  /-- Its signature. -/
  signature : entry.member? "signature" = some (.str x.function.signature)
  /-- Its first line. -/
  startLine : entry.member? "start_line" = some (.nat x.function.span.startLine)
  /-- Its last line. -/
  endLine : entry.member? "end_line" = some (.nat x.function.span.endLine)
  /-- How many functions are around it. -/
  depth : entry.member? "depth" = some (.nat x.depth)
  /-- Its score. -/
  score : entry.member? "score" = some (.nat x.function.score.toNat)
  /-- The risk of the score. -/
  risk : entry.member? "risk" = some (.str (Risk.ofScore x.function.score).name)
  /-- Its decisions, where the view shows decisions and there are any. -/
  decisions : entry.member? "decisions" =
    if view.decisions = true ∧ x.function.decisions ≠ [] then
      some (.arr (x.function.decisions.map Decision.json))
    else none

/-- The entry of a listed function tells what is listed. -/
theorem Listed.tells_json (view : View) (x : Listed) : x.Tells view (x.json view) := by
  constructor
  case decisions =>
    rw [Listed.json]
    cases view.decisions <;> cases x.function.decisions <;> rfl
  all_goals rfl

/-- What an entry of the data says of a hotspot. -/
structure Hotspot.Tells (h : Hotspot) (entry : Json) : Prop where
  /-- Its file. -/
  file : entry.member? "file" = some (.str h.file)
  /-- Its qualified name. -/
  qualifiedName : entry.member? "qualified_name" = some (.str h.qualifiedName)
  /-- Its first line. -/
  line : entry.member? "line" = some (.nat h.line)
  /-- Its score. -/
  score : entry.member? "score" = some (.nat h.score.toNat)

theorem Hotspot.tells_json (h : Hotspot) : h.Tells h.json := ⟨rfl, rfl, rfl, rfl⟩

/-! ## The gate -/

/-- The larger of two scores is one of them and not below the other. -/
theorem max_score_cases (a b : UInt32) : a ≤ b ∧ max a b = b ∨ b ≤ a ∧ max a b = a := by
  by_cases h : a ≤ b
  · exact .inl ⟨h, if_pos h⟩
  · exact .inr ⟨(UInt32.le_total a b).resolve_left h, if_neg h⟩

/-- The highest of some scores and a first one. -/
theorem foldl_max_spec (scores : List UInt32) (first : UInt32) :
    first ≤ scores.foldl max first ∧ (∀ s ∈ scores, s ≤ scores.foldl max first) ∧
      (scores.foldl max first = first ∨ scores.foldl max first ∈ scores) := by
  induction scores generalizing first with
  | nil => exact ⟨UInt32.le_refl first, nofun, .inl rfl⟩
  | cons s scores ih =>
    obtain ⟨hfirst, hall, hmem⟩ := ih (max first s)
    rw [List.foldl_cons]
    rcases max_score_cases first s with ⟨hle, hmax⟩ | ⟨hle, hmax⟩
    · rw [hmax] at hfirst hall hmem ⊢
      refine ⟨UInt32.le_trans hle hfirst, List.forall_mem_cons.mpr ⟨hfirst, hall⟩, .inr ?_⟩
      rcases hmem with hmem | hmem
      · rw [hmem]
        exact List.mem_cons_self ..
      · exact List.mem_cons_of_mem _ hmem
    · rw [hmax] at hfirst hall hmem ⊢
      exact ⟨hfirst, List.forall_mem_cons.mpr ⟨UInt32.le_trans hle hfirst, hall⟩,
        hmem.imp_right (List.mem_cons_of_mem _)⟩

/-- The highest score is the maximum, or zero without functions. -/
theorem maxScore_evaluate (threshold : Option UInt32) (fs : List (FileResult × Function)) :
    (∀ p ∈ fs, p.2.score ≤ (evaluate threshold fs).maxScore) ∧
      (fs = [] ∧ (evaluate threshold fs).maxScore = 0 ∨
        ∃ p ∈ fs, p.2.score = (evaluate threshold fs).maxScore) := by
  obtain ⟨-, hall, hmem⟩ := foldl_max_spec (fs.map (·.2.score)) 0
  have hbound : ∀ p ∈ fs, p.2.score ≤ (evaluate threshold fs).maxScore :=
    fun p hp => hall _ (List.mem_map.mpr ⟨p, hp, rfl⟩)
  refine ⟨hbound, ?_⟩
  rcases hmem with hzero | hmem
  · cases fs with
    | nil => exact .inl ⟨rfl, hzero⟩
    | cons p fs =>
      -- A maximum of zero is attained, since no score is below zero.
      refine .inr ⟨p, List.mem_cons_self .., ?_⟩
      have hle := hbound p (List.mem_cons_self ..)
      rw [show (evaluate threshold (p :: fs)).maxScore = 0 from hzero] at hle ⊢
      exact UInt32.le_antisymm hle UInt32.zero_le
  · obtain ⟨p, hp, hscore⟩ := List.mem_map.mp hmem
    exact .inr ⟨p, hp, hscore⟩

/-- Hotspots are the functions above the threshold. -/
theorem hotspots_evaluate (threshold : Option UInt32) (fs : List (FileResult × Function)) :
    (evaluate threshold fs).hotspots.Perm
      ((fs.filter fun p => threshold.any (· < p.2.score)).map Hotspot.of) :=
  List.mergeSort_perm ..

/-- The reports on a batch and the verdict of the gate are about the same functions: those that the
view shows, in the order of the report. -/
structure ReportsAgree (path : String) (view : View) (report : BatchReport) (verdict : Verdict) :
    Prop where
  /-- The gate judges them. -/
  judged : selected view report = (report.shown view).map fun x => (x.file, x.function)
  /-- The terminal shows them file by file, each with the number of functions around it. -/
  lines : (report.results.flatMap fun r => (r.shownLines view).map fun p => (r, p)) =
    (report.shown view).map fun x => (x.file, x.around.length, x.function)
  /-- The data lists them, each with the number of functions around it. -/
  data : listing view report =
    (report.shown view).map fun x => ⟨x.file.file, x.file.language, x.around.length, x.function⟩
  /-- There is one entry for each of them, in this order, which tells what is listed. -/
  functions : ∃ entries, (reportJson path view report verdict).member? "functions" =
    some (.arr entries) ∧ List.Forall₂ (Listed.Tells view) (listing view report) entries
  /-- The summary counts them. -/
  count : ((reportJson path view report verdict).member? "summary").bind (·.member? "functions") =
    some (.nat (report.shown view).length)
  /-- The summary has the highest score of the verdict. -/
  maxScore :
    ((reportJson path view report verdict).member? "summary").bind (·.member? "max_score") =
      some (.nat verdict.maxScore.toNat)
  /-- No score is higher. -/
  le_maxScore : ∀ x ∈ report.shown view, x.function.score ≤ verdict.maxScore
  /-- One of the functions has it, and without functions it is zero. -/
  attained : report.shown view = [] ∧ verdict.maxScore = 0 ∨
    ∃ x ∈ report.shown view, x.function.score = verdict.maxScore
  /-- The data has one entry for each hotspot of the verdict. -/
  listed : ∃ entries, (reportJson path view report verdict).member? "hotspots" =
    some (.arr entries) ∧ List.Forall₂ Hotspot.Tells verdict.hotspots entries
  /-- Hotspots are the functions above the threshold. -/
  hotspots : verdict.hotspots.Perm
    (((report.shown view).filter fun x => verdict.threshold.any (· < x.function.score)).map
      fun x => Hotspot.of (x.file, x.function))

end Cyclomatic
