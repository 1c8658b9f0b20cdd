/-!
# Blank characters

The characters with the property `White_Space`.  The scanner separates tokens by them, lines
without any other character are not counted, and signatures are cut at them.
-/

namespace Cyclomatic.Text

/-- A blank character.  The line feed is one of them. -/
def isBlank (c : Char) : Bool :=
  let n := c.toNat
  (9 ≤ n && n ≤ 13) || n == 32 || n == 0x85 || n == 0xA0 || n == 0x1680 ||
    (0x2000 ≤ n && n ≤ 0x200A) || n == 0x2028 || n == 0x2029 || n == 0x202F ||
    n == 0x205F || n == 0x3000

end Cyclomatic.Text
