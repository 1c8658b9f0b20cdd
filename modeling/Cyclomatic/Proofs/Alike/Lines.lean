import Cyclomatic.Proofs.Alike.Analysis

/-!
# Lines in alike codes

Alike codes whose tokens stand in the same lines have the same result, apart from byte offsets and
the texts of signatures (`analyzeIn_lined`).
-/

namespace Cyclomatic

/-! ## Results without offsets -/

/-- A decision without its byte offset. -/
def Decision.lined (d : Decision) : Decision := { d with offset := 0 }

/-- A place without its byte offsets. -/
def Span.lined (s : Span) : Span := { s with startByte := 0, endByte := 0 }

/-- A declaration without its byte offset. -/
def Declaration.lined (d : Declaration) : Declaration := { d with offset := 0 }

/-- A scored function without its byte offsets and the text of its signature. -/
def Function.lined (f : Function) : Function :=
  { f with signature := "", span := f.span.lined, decisions := f.decisions.map Decision.lined }

/-- A result without byte offsets and the texts of signatures. -/
def FileResult.lined (r : FileResult) : FileResult :=
  { r with
    functions := FunctionTree.maps Function.lined r.functions
    declarations := r.declarations.map Declaration.lined }

/-! ## Functions -/

theorem Code.lastLine_eq_lineOf (code : Code) : code.lastLine = code.lineOf code.size := by
  rw [Code.lastLine, Code.lineOf, Code.offset, Code.size, Array.getElem?_size]
  rfl

section Functions

variable {l : Language} {code code' : Code} {forest forest' : Forest} {e e' : Entity}

/-- The lines of a function are those of its first and last token. -/
theorem Entity.Placed.span_lined (hlines : ∀ i, code'.lineOf i = code.lineOf i)
    (hsize : code'.size = code.size) (he : e'.core = e.core) (hplaced : e.Placed code)
    (hplaced' : e'.Placed code') : e'.span.lined = e.span.lined := by
  have hstart : e'.start = e.start := by
    simpa only [Entity.core_start] using congrArg (·.start) he
  have hclose : e'.close = e.close := by
    simpa only [Entity.core_close] using congrArg (·.close) he
  have hlast : code'.lastLine = code.lastLine := by
    rw [Code.lastLine_eq_lineOf, Code.lastLine_eq_lineOf, hsize, hlines]
  have hclosing : e'.close.map code'.lineOf = e.close.map code.lineOf := by
    rw [hclose, funext hlines]
  simp only [Span.lined, hplaced.startLine, hplaced'.startLine, hplaced.endLine, hplaced'.endLine,
    hstart, hlines, hclosing, hlast]

theorem scored_lined (he : e'.core = e.core) (hspan : e'.span.lined = e.span.lined) (id : Nat)
    {ds ds' : List Decision} (hds : ds'.map Decision.lined = ds.map Decision.lined) :
    (e'.scored id ds').lined = (e.scored id ds).lined := by
  have hsame := scoreOf_map Decision.lined fun _ => rfl
  have hscore : scoreOf ds' = scoreOf ds := by rw [← hsame, hds, hsame]
  have hscored : ∀ (e : Entity) (ds : List Decision), (e.scored id ds).lined =
      { id := id, parent := e.core.parent, name := e.core.name,
        qualifiedName := e.core.qualifiedName, signature := "", span := e.span.lined,
        score := scoreOf ds, decisions := ds.map Decision.lined } := fun _ _ => rfl
  rw [hscored, hscored, he, hspan, hscore, hds]

theorem Code.Alike.decision_lined (h : Code.Alike l code code')
    (hlines : ∀ i, code'.lineOf i = code.lineOf i) {stack : List Frame} {k : Nat} {r : DecisionRule}
    (hr : code.ruleAt? l stack k = some r) :
    (code'.decision k r).lined = (code.decision k r).lined := by
  simp only [Code.decision, Decision.lined, h.text_of_ruleAt? hr, hlines]

/-- The same names are declared in the same lines. -/
theorem declarations_lined (hlines : ∀ i, code'.lineOf i = code.lineOf i)
    (h : forest.Alike code code' forest') :
    forest'.declarations.map Declaration.lined = forest.declarations.map Declaration.lined := by
  obtain ⟨names, hdeclared, hdeclared'⟩ := h.declared
  have hcore : forest'.declarations.map Declaration.core =
      forest.declarations.map Declaration.core := congrArg (·.declarations) h.core
  rw [hdeclared, hdeclared', List.map_map, List.map_map, List.map_inj_left] at hcore
  rw [hdeclared, hdeclared', List.map_map, List.map_map, List.map_inj_left]
  intro i hi
  have hname : code'.text i = code.text i := congrArg (·.name) (hcore i hi)
  simp only [Function.comp_apply, Declaration.lined, Code.declarationAt, hname, hlines]

end Functions

/-! ## Files -/

section Files

variable {l : Language} {options : ScoringOptions} {file source source' : String}

theorem analyzeIn_map_lined {forest : Forest} (h : detect l (Code.ofSource l source) = .ok forest) :
    (analyzeIn l options file source).map FileResult.lined =
      ((scoredTrees l options (Code.ofSource l source) forest forest.entities.size
        forest.roots).map (FunctionTree.maps Function.lined)).map fun ts =>
          { file := file, language := l.id, realLines := realLines source, functions := ts,
            declarations := forest.declarations.map Declaration.lined } := by
  rw [analyzeIn_of_detect h]
  cases scoredTrees l options (Code.ofSource l source) forest forest.entities.size forest.roots <;>
    rfl

/-- The analyses of alike codes in the same lines have the same result with lines, or the same
fault. -/
theorem analyzeIn_lined (hr : l.signatures.Braceless)
    (h : Code.Alike l (Code.ofSource l source) (Code.ofSource l source'))
    (hi : (Code.ofSource l source).InRange l) (hi' : (Code.ofSource l source').InRange l)
    (hlines : ∀ i, (Code.ofSource l source').lineOf i = (Code.ofSource l source).lineOf i)
    (hreal : realLines source' = realLines source) (options : ScoringOptions) (file : String) :
    (analyzeIn l options file source').map FileResult.lined =
      (analyzeIn l options file source).map FileResult.lined := by
  obtain ⟨forest, hforest, j, w, hrun, -, rfl⟩ := detect_run hi.signatures hr
  obtain ⟨forest', hforest', j', w', hrun', -, rfl⟩ := detect_run hi'.signatures hr
  obtain ⟨found, hfound, hsame⟩ := detect_alike h hi.signatures hi'.signatures hforest
  obtain rfl : found = w'.forest := Except.ok.inj (hfound.symm.trans hforest')
  have hplaced := fun {id e} (he : w.forest.at? id = some e) =>
    ((Walk.sound_run (Code.paired_ofSource l source) hr hrun).placed he).1
  have hplaced' := fun {id e} (he : w'.forest.at? id = some e) =>
    ((Walk.sound_run (Code.paired_ofSource l source') hr hrun').placed he).1
  have hsize : w'.forest.entities.size = w.forest.entities.size := by
    simpa [Forest.core] using congrArg (·.entities.size) hsame.core
  have hroots : w'.forest.roots = w.forest.roots := congrArg (·.roots) hsame.core
  rw [analyzeIn_map_lined hforest, analyzeIn_map_lined hforest', hsize, hroots, hreal,
    declarations_lined hlines hsame,
    scoredTrees_map h hi hi' hsame.core hplaced hplaced' options fun {id _ _} he he' hcore =>
      scored_lined hcore ((hplaced he).span_lined hlines h.size hcore (hplaced' he')) id
        (Code.decisions_map h hsame.core (h.decision_lined hlines) options hcore
          (hplaced he).brace)]

end Files

end Cyclomatic
