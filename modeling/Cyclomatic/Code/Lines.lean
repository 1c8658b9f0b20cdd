import Cyclomatic.Text.Blank

/-!
# Lines

Lines are counted from one and end at line feeds.  The line of a byte offset is the number of
line starts up to it.

The count of lines that hold something uses another rule: a carriage return ends a line too,
and lines of blanks do not count.
-/

namespace Cyclomatic

/-- The offsets that follow the line feeds of a text that starts at an offset. -/
def lineStartsFrom (offset : Nat) : List Char → List Nat
  | [] => []
  | c :: cs =>
    let next := offset + c.utf8Size
    if c == '\n' then next :: lineStartsFrom next cs else lineStartsFrom next cs

/-- The offsets at which the lines of a source start. -/
def lineStarts (source : String) : List Nat := 0 :: lineStartsFrom 0 source.toList

/-- The line of an offset, given where lines start. -/
def lineAt (starts : List Nat) (offset : Nat) : Nat := starts.countP (· ≤ offset)

/-- The lines of a text that hold something, where `held` says whether the line it starts in
already does. -/
def realLinesFrom (held : Bool) : List Char → Nat
  | [] => held.toNat
  | c :: cs =>
    if c == '\n' || c == '\r' then held.toNat + realLinesFrom false cs
    else realLinesFrom (held || !Text.isBlank c) cs

/-- The number of lines that hold anything but blanks. -/
def realLines (source : String) : Nat := realLinesFrom false source.toList

end Cyclomatic
