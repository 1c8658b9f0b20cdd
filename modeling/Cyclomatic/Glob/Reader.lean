import Cyclomatic.Glob.Basic
import Cyclomatic.Text.Utf8

/-!
# Reading path patterns

A pattern is read from left to right.  Braces hold branches divided by commas, and may stand in
each other.  Outside of braces a comma stands for itself.  A backslash takes away the meaning of
the character after it.

Two stars are a piece of their own where they make up a whole component.  At the start of a
branch they must be followed by a slash or by the end of the pattern.  Elsewhere they must
follow a slash, and be followed by a slash or by the end of the branch.  Two stars that do not
are read as one.

A branch that matches only the empty path is left out of its braces.  A pattern that is nothing
but the leading piece matches every path.
-/

namespace Cyclomatic.Glob

/-! ## Pieces -/

/-- A piece of a pattern. -/
inductive Piece where
  | plain (glob : Glob)
  | leading
  | between
  | trailing
deriving DecidableEq, Repr

/-- The pattern that a piece stands for. -/
def Piece.glob : Piece → Glob
  | .plain g => g
  | .leading => Glob.leading
  | .between => Glob.between
  | .trailing => Glob.trailing

/-- One character that stands for itself. -/
def Piece.literal (c : Char) : Piece :=
  .plain (sequence ((Text.bytes (String.singleton c)).map byte))

/-- Any of the branches of a pair of braces. -/
def Piece.ofBranches (branches : List (List Piece)) : Piece :=
  let written := branches.filter fun b => b.any (· != .plain .empty)
  .plain (choice (written.map fun b => sequence (b.map Piece.glob)))

/-! ## Classes -/

/-- The ranges of bytes from one character to another.  The range runs from the last byte of the
first character to the first byte of the last, and the bytes around it stand for themselves. -/
def byteRanges (first last : Char) : List (UInt8 × UInt8) :=
  let a := Text.bytes (String.singleton first)
  let b := Text.bytes (String.singleton last)
  if first == last then a.map fun x => (x, x)
  else
    a.dropLast.map (fun x => (x, x)) ++ [(a.getLastD 0, b.headD 0)] ++ b.tail.map fun x => (x, x)

/-- The ranges of a class that have been read, last first. -/
abbrev Ranges := List (Char × Char)

/-- Read a class up to its end.  The first character stands for itself.  After a hyphen, `opened`
says that the last range still lacks its upper end. -/
def readRanges? : (first opened : Bool) → Ranges → List Char → Option (Ranges × List Char)
  | _, _, _, [] => none
  | first, opened, ranges, c :: cs =>
    if c == ']' && !first then
      some (if opened then ('-', '-') :: ranges else ranges, cs)
    else if c == '-' && !first && !opened then readRanges? false true ranges cs
    else
      match opened, ranges with
      | true, (a, _) :: rest =>
        if c < a then none else readRanges? false false ((a, c) :: rest) cs
      | _, _ => readRanges? false false ((c, c) :: ranges) cs

/-- Read a class after its bracket. -/
def readClass? (cs : List Char) : Option (Piece × List Char) :=
  let negated := cs.head? == some '!' || cs.head? == some '^'
  (readRanges? true false [] (if negated then cs.tail else cs)).map fun (ranges, rest) =>
    let ranges := ranges.reverse.flatMap fun r => byteRanges r.1 r.2
    (.plain (.one { negated, ranges }), rest)

/-- Reading a class consumes its closing bracket. -/
theorem readRanges?_length {first opened : Bool} {ranges : Ranges} {cs : List Char}
    {result : Ranges × List Char} (h : readRanges? first opened ranges cs = some result) :
    result.2.length < cs.length := by
  fun_induction readRanges? first opened ranges cs with
  | case1 => simp at h
  | case2 => simp only [Option.some.injEq] at h; subst h; simp
  | case3 _ _ _ _ _ _ _ ih => have := ih h; simp; omega
  | case4 => simp at h
  | case5 _ _ _ _ _ _ _ _ _ ih => have := ih h; simp; omega
  | case6 _ _ _ _ _ _ _ _ ih => have := ih h; simp; omega

theorem readClass?_length {cs rest : List Char} {piece : Piece}
    (h : readClass? cs = some (piece, rest)) : rest.length < cs.length := by
  simp only [readClass?, Option.map_eq_some_iff] at h
  obtain ⟨⟨ranges, r⟩, hr, he⟩ := h
  have hlen := readRanges?_length hr
  simp only [Prod.mk.injEq] at he
  obtain ⟨-, rfl⟩ := he
  split at hlen
  · simp at hlen ⊢; omega
  · exact hlen

/-! ## The reader -/

/-- What has been read of a pattern. -/
structure Reading where
  /-- The pieces of the innermost branch, last first. -/
  current : List Piece := []
  /-- The open braces, innermost first.  Each comes with the pieces in front of it, last first,
  and with its finished branches, last first. -/
  groups : List (List Piece × List (List Piece)) := []
  /-- The character read last. -/
  last : Option Char := none
deriving Repr

namespace Reading

/-- Add a piece that ends in a character. -/
def push (r : Reading) (piece : Piece) (last : Char) : Reading :=
  { r with current := piece :: r.current, last := some last }

/-- An opening brace. -/
def openGroup (r : Reading) : Reading :=
  { current := [], groups := (r.current, []) :: r.groups, last := some '\x7b' }

/-- A comma. -/
def comma (r : Reading) : Reading :=
  match r.groups with
  | [] => r.push (.literal ',') ','
  | (outer, branches) :: groups =>
    { current := [], groups := (outer, r.current.reverse :: branches) :: groups
      last := some ',' }

/-- A closing brace. -/
def closeGroup? (r : Reading) : Option Reading :=
  match r.groups with
  | [] => none
  | (outer, branches) :: groups =>
    let piece := Piece.ofBranches (r.current.reverse :: branches).reverse
    some { current := piece :: outer, groups := groups, last := some '\x7d' }

/-- Two stars take the place of the slash in front of them, unless that belongs to two stars
already. -/
def joinStars (atEnd : Bool) : List Piece → List Piece
  | [] => []
  | .leading :: rest => .leading :: rest
  | .trailing :: rest => .trailing :: rest
  | _ :: rest => (if atEnd then .trailing else .between) :: rest

/-- The branch after two stars, given the character that follows them.  The answer also says
whether that character is a slash that belongs to the stars. -/
def stars (r : Reading) (next : Option Char) : List Piece × Bool :=
  let inGroup := !r.groups.isEmpty
  let slash := next == some '/'
  let asOne := (.plain .star :: r.current, false)
  if r.current.isEmpty then
    if slash || next.isNone then ([.leading], slash) else asOne
  else
    let startsComponent :=
      r.last == some '/' || (inGroup && (r.last == some ',' || r.last == some '\x7b'))
    let atEnd := next.isNone || (inGroup && (next == some ',' || next == some '\x7d'))
    if startsComponent && (atEnd || slash) then (joinStars atEnd r.current, slash) else asOne

end Reading

/-- Read the rest of a pattern. -/
def readPieces? (r : Reading) : List Char → Option (List Piece)
  | [] => if r.groups.isEmpty then some r.current.reverse else none
  | '*' :: '*' :: cs =>
    match r.stars cs.head? with
    | (current, true) => readPieces? { r with current, last := some '/' } cs.tail
    | (current, false) => readPieces? { r with current, last := some '*' } cs
  | '*' :: cs => readPieces? (r.push (.plain .star) '*') cs
  | '?' :: cs => readPieces? (r.push (.plain Glob.any) '?') cs
  | '[' :: cs =>
    match _read : readClass? cs with
    | none => none
    | some (piece, rest) => readPieces? (r.push piece ']') rest
  | '\x7b' :: cs => readPieces? r.openGroup cs
  | '\x7d' :: cs =>
    match r.closeGroup? with
    | none => none
    | some r' => readPieces? r' cs
  | ',' :: cs => readPieces? r.comma cs
  | '\\' :: cs =>
    match cs with
    | [] => none
    | c :: rest => readPieces? (r.push (.literal c) c) rest
  | c :: cs => readPieces? (r.push (.literal c) c) cs
termination_by cs => cs.length
decreasing_by
  all_goals try have shorter := readClass?_length _read
  all_goals simp only [List.length_cons, List.length_tail]
  all_goals omega

/-- Read a pattern. -/
def read? (s : String) : Option Glob :=
  (readPieces? {} s.toList).map fun pieces =>
    if pieces == [.leading] then .star else sequence (pieces.map Piece.glob)

end Cyclomatic.Glob
