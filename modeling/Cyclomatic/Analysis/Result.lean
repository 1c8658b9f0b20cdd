import Cyclomatic.Function.Forest
import Cyclomatic.Score.Body

/-!
# Results

The result of a file holds its scored functions as trees.  Every listing of functions is in
pre-order: a function comes before the functions inside it, and those come in the order of the
source.
-/

namespace Cyclomatic

/-- A scored function. -/
structure Function where
  /-- Its position in the file, in pre-order. -/
  id : Nat
  /-- The function around it. -/
  parent : Option Nat
  /-- Its name. -/
  name : String
  /-- Its name after those of the types, functions and receivers around it. -/
  qualifiedName : String
  /-- The text of its signature, with single blanks. -/
  signature : String
  /-- Its place in the source. -/
  span : Span
  /-- One and the increments of its decisions. -/
  score : UInt32
  /-- Its own decisions. -/
  decisions : List Decision
deriving DecidableEq, Repr, Inhabited

/-- The number of decisions of a kind. -/
def Function.count (f : Function) (category : Category) : Nat :=
  f.decisions.countP (·.category == category)

/-- A function and the functions inside it. -/
inductive FunctionTree where
  | node (function : Function) (children : List FunctionTree)
deriving Inhabited

namespace FunctionTree

/-- The function at the top. -/
def function : FunctionTree → Function
  | .node f _ => f

/-- The functions directly inside the top one. -/
def children : FunctionTree → List FunctionTree
  | .node _ cs => cs

mutual

/-- The functions of a tree in pre-order. -/
def preorder : FunctionTree → List Function
  | .node f cs => f :: preorders cs

/-- The functions of several trees in pre-order. -/
def preorders : List FunctionTree → List Function
  | [] => []
  | t :: ts => preorder t ++ preorders ts

end

mutual

/-- The trees below a tree, itself first, in pre-order. -/
def subtrees : FunctionTree → List FunctionTree
  | .node f cs => .node f cs :: subtreesOf cs

/-- The trees of several trees in pre-order. -/
def subtreesOf : List FunctionTree → List FunctionTree
  | [] => []
  | t :: ts => subtrees t ++ subtreesOf ts

end

end FunctionTree

/-- The result of one file. -/
structure FileResult where
  /-- The name of the file, as given. -/
  file : String
  /-- The name of its language. -/
  language : String
  /-- The number of lines that are not blank. -/
  realLines : Nat
  /-- Its functions, those that no function is around at the top. -/
  functions : List FunctionTree
  /-- Its signatures without body. -/
  declarations : List Declaration
deriving Inhabited

namespace FileResult

/-- All functions in pre-order. -/
def all (r : FileResult) : List Function := FunctionTree.preorders r.functions

/-- The number of functions. -/
def total (r : FileResult) : Nat := r.all.length

/-- The highest score, if there is a function. -/
def maxScore? (r : FileResult) : Option UInt32 := (r.all.map (·.score)).max?

/-- The first function with a qualified name, or else with a simple name. -/
def find? (r : FileResult) (name : String) : Option Function :=
  (r.all.find? (·.qualifiedName == name)).or (r.all.find? (·.name == name))

end FileResult

end Cyclomatic
