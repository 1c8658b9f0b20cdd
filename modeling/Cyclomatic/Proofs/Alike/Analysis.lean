import Cyclomatic.Proofs.Alike.Score
import Cyclomatic.Proofs.BestEffort

/-!
# Analyses of alike codes

The analyses of alike codes have the same result or the same fault, apart from places in the
source (`analyzeIn_alike`).
-/

namespace Cyclomatic

/-! ## Results without places -/

/-- A scored function without its place and text in the source. -/
def Function.core (f : Function) : Function :=
  { f with signature := "", span := default, decisions := f.decisions.map Decision.core }

namespace FunctionTree

mutual

/-- A tree without places in the source. -/
def core : FunctionTree → FunctionTree
  | .node f cs => .node f.core (cores cs)

/-- Trees without places in the source. -/
def cores : List FunctionTree → List FunctionTree
  | [] => []
  | t :: ts => core t :: cores ts

end

mutual

/-- A tree with other functions in the same places. -/
def map (g : Function → Function) : FunctionTree → FunctionTree
  | .node f cs => .node (g f) (maps g cs)

/-- Trees with other functions in the same places. -/
def maps (g : Function → Function) : List FunctionTree → List FunctionTree
  | [] => []
  | t :: ts => map g t :: maps g ts

end

theorem maps_eq_map (g : Function → Function) (ts : List FunctionTree) :
    maps g ts = ts.map (map g) := by
  induction ts with
  | nil => rfl
  | cons t ts ih => rw [maps, ih, List.map_cons]

mutual

theorem core_eq_map : ∀ t : FunctionTree, core t = map Function.core t
  | .node f cs => by rw [core, map, cores_eq_maps cs]

theorem cores_eq_maps : ∀ ts : List FunctionTree, cores ts = maps Function.core ts
  | [] => rfl
  | t :: ts => by rw [cores, maps, core_eq_map t, cores_eq_maps ts]

end

end FunctionTree

/-- A result without places in the source. -/
def FileResult.core (r : FileResult) : FileResult :=
  { r with
    realLines := 0
    functions := FunctionTree.cores r.functions
    declarations := r.declarations.map Declaration.core }

/-! ## Functions of a forest -/

section Forest

variable {forest forest' : Forest} {e e' : Entity}

theorem Forest.at?_core (h : forest'.core = forest.core) (id : Nat) :
    (forest'.at? id).map Entity.core = (forest.at? id).map Entity.core := by
  have hat : ∀ f : Forest, (f.at? id).map Entity.core = f.core.at? id := fun f => by
    simp [Forest.at?, Forest.core]
  rw [hat, hat, h]

theorem Code.nested_core (h : forest'.core = forest.core) (he : e'.core = e.core) :
    (Code.nested forest' e').map Entity.core = (Code.nested forest e).map Entity.core := by
  have hchildren : e'.children = e.children := by
    simpa only [Entity.core_children] using congrArg (·.children) he
  have hat := Forest.at?_core h
  simp only [Forest.at?] at hat
  simp only [Code.nested, hchildren, List.map_filterMap, hat]

namespace Code

variable {l : Language} {code code' : Code}

theorem strayChild?_core (hsize : code'.size = code.size) (last previous : Nat)
    {es es' : List Entity} (h : es'.map Entity.core = es.map Entity.core) :
    (code'.strayChild? last previous es').map Entity.core =
      (code.strayChild? last previous es).map Entity.core := by
  induction es generalizing es' previous with
  | nil =>
    obtain rfl := List.map_eq_nil_iff.mp h
    rfl
  | cons e es ih =>
    obtain ⟨e', rest, rfl, he, hrest⟩ := List.map_eq_cons_iff.mp h
    have hstart : e'.start = e.start := by
      simpa only [Entity.core_start] using congrArg (·.start) he
    have hlast : e'.last code'.size = e.last code.size := by
      have hclose := congrArg (·.close) he
      simp only [Entity.core_close] at hclose
      rw [Entity.last, Entity.last, hclose, hsize]
    simp only [strayChild?, hstart, hlast]
    split
    · rw [Option.map_some, Option.map_some, he]
    · exact ih _ hrest

variable (h : Alike l code code') (hforest : forest'.core = forest.core)

include h hforest

/-- The decisions of a function whose body opens with a brace, as far as `g` shows them. -/
theorem decisions_map {g : Decision → Decision}
    (hg : ∀ {stack k r}, code.ruleAt? l stack k = some r →
      g (code'.decision k r) = g (code.decision k r))
    (options : ScoringOptions) (he : e'.core = e.core)
    (hbrace : code.isPunct e.opening "\x7b" = true) :
    (code'.decisions l options forest' e').map g =
      (code.decisions l options forest e).map g := by
  have hopening : e'.opening = e.opening := by
    simpa only [Entity.core_opening] using congrArg (·.opening) he
  have hclose : e'.close = e.close := by
    simpa only [Entity.core_close] using congrArg (·.close) he
  have hchildren : (nested forest' e').map (childOf code.size) =
      (nested forest e).map (childOf code.size) := by
    have hcore := congrArg (List.map (childOf code.size)) (nested_core hforest he)
    rw [List.map_map, List.map_map] at hcore
    exact hcore
  rw [decisions, decisions, hopening, hclose, h.size, hchildren]
  exact h.decisionsFrom hg options _ _ _ (.cons (h.openerWord (kind?_of_isPunct hbrace)) .nil)

theorem decisions_core (options : ScoringOptions) (he : e'.core = e.core)
    (hbrace : code.isPunct e.opening "\x7b" = true) :
    (code'.decisions l options forest' e').map Decision.core =
      (code.decisions l options forest e).map Decision.core :=
  decisions_map h hforest h.decision options he hbrace

/-- The check of a function has the same outcome. -/
theorem spanFault?_core (he : e'.core = e.core) (hplaced : e.Placed code)
    (hplaced' : e'.Placed code') : code'.spanFault? forest' e' = code.spanFault? forest e := by
  have hopening : e'.opening = e.opening := by
    simpa only [Entity.core_opening] using congrArg (·.opening) he
  have hlast : e'.last code'.size = e.last code.size := by
    have hclose := congrArg (·.close) he
    simp only [Entity.core_close] at hclose
    rw [Entity.last, Entity.last, hclose, h.size]
  have hstray := strayChild?_core h.size (e.last code.size) e.opening (nested_core hforest he)
  have hnames :=
    congrArg (Option.map fun c : Entity => SpanFault.childOutside c.qualifiedName) hstray
  rw [Option.map_map, Option.map_map] at hnames
  rw [spanFault?_of_placed hplaced, spanFault?_of_placed hplaced', hopening, hlast]
  exact hnames

/-- The score of a function leaves its word in both codes or in none. -/
theorem overflows_core (hi : code.InRange l) (hi' : code'.InRange l) (options : ScoringOptions)
    (he : e'.core = e.core) (hbrace : code.isPunct e.opening "\x7b" = true) :
    code'.overflows l options forest' e' = code.overflows l options forest e := by
  have hsum (ds : List Decision) : incrementSum (ds.map Decision.core) = incrementSum ds := by
    simp only [incrementSum, List.map_map]
    rfl
  rw [Bool.eq_iff_iff, hi.overflows_iff, hi'.overflows_iff, ← hsum,
    decisions_core h hforest options he hbrace, hsum]

/-- A function is scored in both codes, or fails with the same fault. -/
theorem score_core (hi : code.InRange l) (hi' : code'.InRange l) (options : ScoringOptions)
    (he : e'.core = e.core) (hplaced : e.Placed code) (hplaced' : e'.Placed code') :
    (∃ fault, code.score l options forest e = .error fault ∧
        code'.score l options forest' e' = .error fault) ∨
      code.score l options forest e = .ok (code.decisions l options forest e) ∧
        code'.score l options forest' e' = .ok (code'.decisions l options forest' e') := by
  have hname : e'.qualifiedName = e.qualifiedName := by
    simpa only [Entity.core_qualifiedName] using congrArg (·.qualifiedName) he
  unfold score
  rw [spanFault?_core h hforest he hplaced hplaced', hname,
    overflows_core h hforest hi hi' options he hplaced.brace]
  cases code.spanFault? forest e with
  | some fault => exact .inl ⟨_, rfl, rfl⟩
  | none =>
    cases code.overflows l options forest e with
    | true => exact .inl ⟨_, rfl, rfl⟩
    | false => exact .inr ⟨rfl, rfl⟩

end Code

end Forest

/-! ## Trees -/

/-- A filter whose steps differ in nothing that `g` shows gives results that `g` cannot tell
apart. -/
theorem filterMapM_map {α β γ ε : Type} {f f' : α → Except ε (Option β)} {g : β → γ} {xs : List α}
    (h : ∀ x ∈ xs, (f' x).map (Option.map g) = (f x).map (Option.map g)) :
    (xs.filterMapM f').map (List.map g) = (xs.filterMapM f).map (List.map g) := by
  have hfilter : ∀ (k : α → Except ε (Option β)) (x : α) (xs : List α),
      ((x :: xs).filterMapM k).map (List.map g) = (do
        let o ← (k x).map (Option.map g)
        let ys ← (xs.filterMapM k).map (List.map g)
        return o.toList ++ ys) := by
    intro k x xs
    rw [List.filterMapM_cons]
    cases k x with
    | error e => rfl
    | ok o =>
      cases o <;> cases xs.filterMapM k <;> rfl
  induction xs with
  | nil => rfl
  | cons x xs ih =>
    rw [hfilter, hfilter, h x (List.mem_cons_self ..),
      ih fun y hy => h y (List.mem_cons_of_mem _ hy)]

section Trees

variable {l : Language} {options : ScoringOptions} {code code' : Code} {forest forest' : Forest}

theorem scoreOf_map (g : Decision → Decision) (hg : ∀ d, (g d).increment = d.increment)
    (ds : List Decision) : scoreOf (ds.map g) = scoreOf ds := by
  simp only [scoreOf, List.foldl_map, hg]

theorem scoreOf_core (ds : List Decision) : scoreOf (ds.map Decision.core) = scoreOf ds :=
  scoreOf_map Decision.core (fun _ => rfl) ds

theorem scored_core {e e' : Entity} (he : e'.core = e.core) (id : Nat) {ds ds' : List Decision}
    (hds : ds'.map Decision.core = ds.map Decision.core) :
    (e'.scored id ds').core = (e.scored id ds).core := by
  have hscore : scoreOf ds' = scoreOf ds := by rw [← scoreOf_core, hds, scoreOf_core]
  have hscored : ∀ (e : Entity) (ds : List Decision), (e.scored id ds).core =
      { id := id, parent := e.core.parent, name := e.core.name,
        qualifiedName := e.core.qualifiedName, signature := "", span := default,
        score := scoreOf ds, decisions := ds.map Decision.core } := fun _ _ => rfl
  rw [hscored, hscored, he, hscore, hds]

/-- The tree of a function, from those of the functions inside it, as far as `g` shows them. -/
theorem scoredTree?_map (g : Function → Function) {depth id : Nat} {e : Entity}
    (he : forest.at? id = some e) :
    (scoredTree? l options code forest depth id).map (Option.map (FunctionTree.map g)) =
      (code.score l options forest e).bind fun ds =>
        ((scoredTrees l options code forest depth e.children).map (FunctionTree.maps g)).map
          fun cs => some (.node (g (e.scored id ds)) cs) := by
  rw [scoredTree?_of_at? he]
  cases code.score l options forest e with
  | error fault => rfl
  | ok ds => cases scoredTrees l options code forest depth e.children <;> rfl

/-- The trees of alike codes are the same as far as `g` shows them, or there are none for the same
fault. -/
theorem scoredTrees_map (h : Code.Alike l code code') (hi : code.InRange l)
    (hi' : code'.InRange l) (hforest : forest'.core = forest.core)
    (hplaced : ∀ {id e}, forest.at? id = some e → e.Placed code)
    (hplaced' : ∀ {id e}, forest'.at? id = some e → e.Placed code') (options : ScoringOptions)
    {g : Function → Function}
    (hg : ∀ {id e e'}, forest.at? id = some e → forest'.at? id = some e' → e'.core = e.core →
      g (e'.scored id (code'.decisions l options forest' e')) =
        g (e.scored id (code.decisions l options forest e)))
    (depth : Nat) (ids : List Nat) :
    (scoredTrees l options code' forest' depth ids).map (FunctionTree.maps g) =
      (scoredTrees l options code forest depth ids).map (FunctionTree.maps g) := by
  induction depth generalizing ids with
  | zero => rfl
  | succ depth ih =>
    rw [scoredTrees_succ, scoredTrees_succ, show FunctionTree.maps g = List.map (FunctionTree.map g)
      from funext (FunctionTree.maps_eq_map g)]
    refine filterMapM_map fun id _ => ?_
    have hat := Forest.at?_core hforest id
    cases he : forest.at? id with
    | none =>
      rw [he, Option.map_none, Option.map_eq_none_iff] at hat
      rw [scoredTree?_of_none he, scoredTree?_of_none hat]
    | some e =>
      rw [he, Option.map_some] at hat
      obtain ⟨e', he', hcore⟩ := Option.map_eq_some_iff.mp hat
      have hchildren : e'.children = e.children := by
        simpa only [Entity.core_children] using congrArg (·.children) hcore
      rw [scoredTree?_map g he, scoredTree?_map g he', hchildren, ih]
      rcases Code.score_core h hforest hi hi' options hcore (hplaced he) (hplaced' he') with
        ⟨fault, hscore, hscore'⟩ | ⟨hscore, hscore'⟩
      · rw [hscore, hscore']
        rfl
      · rw [hscore, hscore', Except.bind, Except.bind, hg he he' hcore]

/-- The trees of alike codes are the same apart from places. -/
theorem scoredTrees_core (h : Code.Alike l code code') (hi : code.InRange l)
    (hi' : code'.InRange l) (hforest : forest'.core = forest.core)
    (hplaced : ∀ {id e}, forest.at? id = some e → e.Placed code)
    (hplaced' : ∀ {id e}, forest'.at? id = some e → e.Placed code') (options : ScoringOptions)
    (depth : Nat) (ids : List Nat) :
    (scoredTrees l options code' forest' depth ids).map FunctionTree.cores =
      (scoredTrees l options code forest depth ids).map FunctionTree.cores := by
  rw [show FunctionTree.cores = FunctionTree.maps Function.core
    from funext FunctionTree.cores_eq_maps]
  refine scoredTrees_map h hi hi' hforest hplaced hplaced' options
    (fun {id _ _} he _ hcore => ?_) depth ids
  exact scored_core hcore id (Code.decisions_core h hforest options hcore (hplaced he).brace)

end Trees

/-! ## Files -/

/-- The score of a function with its decisions, apart from places in the source. -/
def Code.rating (code : Code) (l : Language) (options : ScoringOptions) (forest : Forest)
    (e : Entity) : UInt32 × List Decision :=
  (scoreOf (code.decisions l options forest e),
    (code.decisions l options forest e).map Decision.core)

/-- The detector finds the same functions in alike codes, and each of them gets the same score and
the same decisions. -/
theorem detect_rating_alike {l : Language} (hr : l.signatures.Braceless) {source source' : String}
    (h : Code.Alike l (Code.ofSource l source) (Code.ofSource l source'))
    (hi : (Code.ofSource l source).InRange l) (hi' : (Code.ofSource l source').InRange l) :
    ∃ forest forest', detect l (Code.ofSource l source) = .ok forest ∧
      detect l (Code.ofSource l source') = .ok forest' ∧ forest'.core = forest.core ∧
      ∀ options id, (forest'.at? id).map ((Code.ofSource l source').rating l options forest') =
        (forest.at? id).map ((Code.ofSource l source).rating l options forest) := by
  obtain ⟨_, hforest, _, w, hrun, -, rfl⟩ := detect_run hi.signatures hr
  obtain ⟨forest', hforest', hcore, -⟩ := detect_alike h hi.signatures hi'.signatures hforest
  have hsound := Walk.sound_run (Code.paired_ofSource l source) hr hrun
  refine ⟨w.forest, forest', hforest, hforest', hcore, ?_⟩
  intro options id
  have hat := Forest.at?_core hcore id
  cases he : w.forest.at? id with
  | none =>
    rw [he, Option.map_none, Option.map_eq_none_iff] at hat
    rw [hat, Option.map_none, Option.map_none]
  | some e =>
    rw [he, Option.map_some] at hat
    obtain ⟨e', he', hsame⟩ := Option.map_eq_some_iff.mp hat
    have hdecisions := Code.decisions_core h hcore options hsame (hsound.placed he).1.brace
    have hscore : scoreOf ((Code.ofSource l source').decisions l options forest' e') =
        scoreOf ((Code.ofSource l source).decisions l options w.forest e) := by
      rw [← scoreOf_core, hdecisions, scoreOf_core]
    rw [he', Option.map_some, Option.map_some, Code.rating, Code.rating, hscore, hdecisions]

theorem analyzeIn_map_core {l : Language} {options : ScoringOptions} {file source : String}
    {forest : Forest} (h : detect l (Code.ofSource l source) = .ok forest) :
    (analyzeIn l options file source).map FileResult.core =
      ((scoredTrees l options (Code.ofSource l source) forest forest.entities.size
        forest.roots).map FunctionTree.cores).map fun ts =>
          { file := file, language := l.id, realLines := 0, functions := ts,
            declarations := forest.declarations.map Declaration.core } := by
  rw [analyzeIn_of_detect h]
  cases scoredTrees l options (Code.ofSource l source) forest forest.entities.size forest.roots <;>
    rfl

/-- The analyses of alike codes have the same result or the same fault. -/
theorem analyzeIn_alike {l : Language} (hr : l.signatures.Braceless) {source source' : String}
    (h : Code.Alike l (Code.ofSource l source) (Code.ofSource l source'))
    (hi : (Code.ofSource l source).InRange l) (hi' : (Code.ofSource l source').InRange l)
    (options : ScoringOptions) (file : String) :
    (analyzeIn l options file source').map FileResult.core =
      (analyzeIn l options file source).map FileResult.core := by
  obtain ⟨forest, hforest, j, w, hrun, -, rfl⟩ := detect_run hi.signatures hr
  obtain ⟨forest', hforest', j', w', hrun', -, rfl⟩ := detect_run hi'.signatures hr
  obtain ⟨found, hfound, hcore, -⟩ := detect_alike h hi.signatures hi'.signatures hforest
  obtain rfl : found = w'.forest := Except.ok.inj (hfound.symm.trans hforest')
  have hsound := Walk.sound_run (Code.paired_ofSource l source) hr hrun
  have hsound' := Walk.sound_run (Code.paired_ofSource l source') hr hrun'
  have hsize : w'.forest.entities.size = w.forest.entities.size := by
    simpa [Forest.core] using congrArg (·.entities.size) hcore
  have hroots : w'.forest.roots = w.forest.roots := congrArg (·.roots) hcore
  have hdeclared : w'.forest.declarations.map Declaration.core =
      w.forest.declarations.map Declaration.core := congrArg (·.declarations) hcore
  rw [analyzeIn_map_core hforest, analyzeIn_map_core hforest', hsize, hroots, hdeclared,
    scoredTrees_core h hi hi' hcore (fun he => (hsound.placed he).1)
          fun he => (hsound'.placed he).1]

end Cyclomatic
