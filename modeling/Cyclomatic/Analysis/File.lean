import Cyclomatic.Analysis.Result
import Cyclomatic.Function.Detect

/-!
# Analysing a file

The source is scanned, its functions are detected and each of them is scored.  Malformed source
is analysed as far as it goes.
-/

namespace Cyclomatic

/-- What an analysis needs: the languages and what scoring counts. -/
structure Engine where
  /-- The languages known. -/
  registry : Registry := Registry.builtin
  /-- What scoring counts. -/
  options : ScoringOptions := {}

/-- The scored function of an entity. -/
def Entity.scored (e : Entity) (id : Nat) (decisions : List Decision) : Function :=
  { id := id
    parent := e.parent
    name := e.name
    qualifiedName := e.qualifiedName
    signature := e.signature
    span := e.span
    score := scoreOf decisions
    decisions := decisions }

/-- The trees of the listed functions, up to `depth` levels. -/
def scoredTrees (l : Language) (options : ScoringOptions) (code : Code) (forest : Forest)
    (depth : Nat) (ids : List Nat) : Except Fault (List FunctionTree) :=
  match depth with
  | 0 => .ok []
  | depth + 1 =>
    ids.filterMapM fun id =>
      match forest.entities[id]? with
      | none => .ok none
      | some e => do
        let decisions ← code.score l options forest e
        let children ← scoredTrees l options code forest depth e.children
        return some (.node (e.scored id decisions) children)

/-- The result of a source in a language.  Functions nest no deeper than there are functions. -/
def analyzeIn (l : Language) (options : ScoringOptions) (file source : String) :
    Except Fault FileResult := do
  let code := Code.ofSource l source
  let forest ← detect l code
  let functions ← scoredTrees l options code forest forest.entities.size forest.roots
  return {
    file := file
    language := l.id
    realLines := realLines source
    functions := functions
    declarations := forest.declarations }

/-- The result of a source in a language given by name. -/
def Engine.analyze (engine : Engine) (file source language : String) :
    Except Fault FileResult :=
  match engine.registry.lookup? language with
  | some l => analyzeIn l engine.options file source
  | none => .error (.unsupportedLanguage language)

end Cyclomatic
