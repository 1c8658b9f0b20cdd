/-!
# Binary fractions

Means are computed in binary with 53 bits: a quotient is rounded to the nearest such number, and
a tie goes to the even neighbour.  Scores and counts are small, so exponents have no limits
here.
-/

namespace Cyclomatic

/-- A quotient rounded to the nearest integer, a tie to the even one. -/
def roundDiv (num den : Nat) : Nat :=
  let q := num / den
  let r := num % den
  if den < 2 * r || (2 * r == den && q % 2 == 1) then q + 1 else q

/-- The number `mantissa * 2 ^ exponent`.  A mantissa that is not zero has 53 bits. -/
structure Binary where
  /-- The significant bits. -/
  mantissa : Nat
  /-- The power of two. -/
  exponent : Int
deriving DecidableEq, Repr, Inhabited

namespace Binary

/-- A fraction times a power of two, as numerator and denominator. -/
def shift (num den : Nat) (exponent : Int) : Nat × Nat :=
  match exponent with
  | .ofNat e => (num <<< e, den)
  | .negSucc e => (num, den <<< (e + 1))

/-- The number nearest to a fraction. -/
def ofRatio (num den : Nat) : Binary :=
  if num == 0 then ⟨0, 0⟩
  else
    let guess : Int := (num.log2 : Int) - (den.log2 : Int) - 52
    let (n, d) := shift num den (-guess)
    let exponent := if n / d < 1 <<< 52 then guess - 1 else guess
    let (n, d) := shift num den (-exponent)
    let mantissa := roundDiv n d
    if mantissa == 1 <<< 53 then ⟨1 <<< 52, exponent + 1⟩ else ⟨mantissa, exponent⟩

/-- The number as a fraction. -/
def toRatio (b : Binary) : Nat × Nat := shift b.mantissa 1 b.exponent

end Binary

end Cyclomatic
