/-!
# Path patterns

A path pattern names files by the shape of their paths.  It is matched against the bytes of a
path, and the whole path must match.  So a question mark stands for one byte, and a star for any
number of bytes, slashes among them.

Three pieces of a pattern speak of whole components.  They are written with two stars.

* leading: nothing, or anything that ends in a slash.
* between: a slash, or anything between two slashes.
* trailing: a slash and anything after it.

Matching goes by positions in the path: from the positions at which a part may start to those at
which it may end.
-/

namespace Cyclomatic

/-- A set of bytes. -/
structure ByteSet where
  /-- The set holds the bytes outside the ranges. -/
  negated : Bool := false
  /-- The ranges, each with its ends. -/
  ranges : List (UInt8 × UInt8) := []
deriving DecidableEq, Repr

/-- The set holds a byte. -/
def ByteSet.holds (s : ByteSet) (b : UInt8) : Bool :=
  s.negated != s.ranges.any fun r => r.1 ≤ b && b ≤ r.2

/-- A path pattern. -/
inductive Glob where
  /-- The empty path. -/
  | empty
  /-- One byte of a set. -/
  | one (set : ByteSet)
  /-- Any bytes. -/
  | star
  | seq (a b : Glob)
  | alt (a b : Glob)
deriving DecidableEq, Repr, Inhabited

namespace Glob

/-! ## Building patterns -/

/-- One given byte. -/
def byte (b : UInt8) : Glob := .one { ranges := [(b, b)] }

/-- Any one byte. -/
def any : Glob := .one { negated := true }

/-- A slash. -/
def slash : Glob := byte 0x2F

/-- Nothing, or anything that ends in a slash. -/
def leading : Glob := .alt .empty (.seq .star slash)

/-- A slash, or anything between two slashes. -/
def between : Glob := .alt slash (.seq slash (.seq .star slash))

/-- A slash and anything after it. -/
def trailing : Glob := .seq slash .star

/-- Patterns one after another. -/
def sequence : List Glob → Glob
  | [] => .empty
  | [g] => g
  | g :: rest => .seq g (sequence rest)

/-- Any of several patterns.  Without a choice the pattern is empty. -/
def choice : List Glob → Glob
  | [] => .empty
  | [g] => g
  | g :: rest => .alt g (choice rest)

/-! ## Matching -/

/-- The positions at which a match ends that starts at one of the given positions. -/
def ends (path : Array UInt8) : Glob → List Nat → List Nat
  | .empty, starts => starts
  | .one set, starts => starts.filterMap fun i => (path[i]?.filter set.holds).map fun _ => i + 1
  | .star, starts => (List.range (path.size + 1)).filter fun j => starts.any (· ≤ j)
  | .seq a b, starts => b.ends path (a.ends path starts)
  | .alt a b, starts => (a.ends path starts ++ b.ends path starts).eraseDups

/-- The pattern matches a whole path. -/
def matchesPath (g : Glob) (path : List UInt8) : Bool :=
  (g.ends path.toArray [0]).contains path.length

end Glob

end Cyclomatic
