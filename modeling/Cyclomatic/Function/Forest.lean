/-!
# Forests of functions

Detection lists the functions of a file in the order of their bodies.  A function refers to the
function around it and to those inside it by position in the list.
-/

namespace Cyclomatic

/-- A place in a source: bytes from `startByte` up to `endByte`, and lines. -/
structure Span where
  /-- The offset of the first byte. -/
  startByte : Nat
  /-- The offset after the last byte. -/
  endByte : Nat
  /-- The first line. -/
  startLine : Nat
  /-- The last line. -/
  endLine : Nat
deriving DecidableEq, Repr, Inhabited

/-- The first place holds every byte of the second. -/
def Span.contains (a b : Span) : Bool := a.startByte ≤ b.startByte && b.endByte ≤ a.endByte

/-- The lines of a place. -/
def Span.lines (s : Span) : String := s.startLine.repr ++ "-" ++ s.endLine.repr

/-- A detected function.  Places in it are indices of significant tokens. -/
structure Entity where
  /-- Its name. -/
  name : String
  /-- Its name after those of the types, functions and receivers around it. -/
  qualifiedName : String
  /-- The text of its signature, with single blanks. -/
  signature : String
  /-- The function around it. -/
  parent : Option Nat
  /-- The functions directly inside it. -/
  children : List Nat
  /-- The first token of the signature. -/
  start : Nat
  /-- The brace that opens the body. -/
  opening : Nat
  /-- The brace that closes the body, unless the body runs to the end of the input. -/
  close : Option Nat
  /-- The arrow or keyword of a function bound to a name.  It counts for the function around. -/
  binding : Option Nat
  /-- Its place in the source. -/
  span : Span
deriving DecidableEq, Repr, Inhabited

/-- The last token of a function among `size` tokens. -/
def Entity.last (e : Entity) (size : Nat) : Nat := e.close.getD (size - 1)

/-- A signature without body. -/
structure Declaration where
  /-- The name. -/
  name : String
  /-- The line of the name. -/
  line : Nat
  /-- The byte offset of the name. -/
  offset : Nat
deriving DecidableEq, Repr, Inhabited

/-- The functions and declarations of a file. -/
structure Forest where
  /-- The functions, in the order of their bodies. -/
  entities : Array Entity := #[]
  /-- The functions that no function is around. -/
  roots : List Nat := []
  /-- The declarations. -/
  declarations : List Declaration := []
deriving Repr, Inhabited

/-- Add a function at the end.  The function around it lists it as its last child, and without
one it is the last root. -/
def Forest.add (forest : Forest) (e : Entity) : Forest :=
  let id := forest.entities.size
  let entities := forest.entities.push e
  match e.parent with
  | some p =>
    { forest with
      entities := entities.modify p fun q => { q with children := q.children ++ [id] } }
  | none => { forest with entities := entities, roots := forest.roots ++ [id] }

end Cyclomatic
