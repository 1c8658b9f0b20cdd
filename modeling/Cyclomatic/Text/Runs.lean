/-!
# Runs of code points

A character property is a list of runs of code points, in increasing order.  Every test takes
the characters below 128 by a plain comparison first, so the tables hold only what lies above.
-/

namespace Cyclomatic.Text

/-- A run of code points, both ends included. -/
abbrev Run := Nat × Nat

/-- Whether a code point lies in one of the runs. -/
def inRuns (runs : List Run) (n : Nat) : Bool :=
  runs.any fun r => r.1 ≤ n && n ≤ r.2

/-- A character is below 128. -/
def isAscii (c : Char) : Bool := c.toNat < 128

/-- The letters `A` to `Z` and `a` to `z`. -/
def isAsciiLetter (c : Char) : Bool :=
  (65 ≤ c.toNat && c.toNat ≤ 90) || (97 ≤ c.toNat && c.toNat ≤ 122)

/-- The digits `0` to `9`. -/
def isAsciiDigit (c : Char) : Bool := 48 ≤ c.toNat && c.toNat ≤ 57

end Cyclomatic.Text
