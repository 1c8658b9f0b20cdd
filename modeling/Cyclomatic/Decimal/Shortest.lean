import Cyclomatic.Decimal.Binary

/-!
# Decimal text

A binary fraction is written in two ways.

The shortest text has the fewest digits that read back as the same number.  For one, two and
more digits the two neighbours of the number on the grid of such decimals are tested.  The first
grid with a neighbour that reads back gives the digits, and the nearer of two such neighbours is
taken.  A neighbour reads back if it lies between the midpoints to the adjacent numbers.  The
midpoints themselves read back as the even number.

The other text has two places, and a tie goes to the even digit.
-/

namespace Cyclomatic

/-- The digits of a number, most significant first. -/
def decimalDigits (n : Nat) : List Char := Nat.toDigits 10 n

/-- The number `digits * 10 ^ exponent`. -/
structure Decimal where
  /-- The digits, read as a number. -/
  digits : Nat
  /-- The power of ten. -/
  exponent : Int
deriving DecidableEq, Repr, Inhabited

namespace Decimal

/-- The largest power of ten up to a fraction that is not zero. -/
def magnitude (num den : Nat) : Int :=
  if den ≤ num then ((decimalDigits (num / den)).length : Int) - 1
  else -((decimalDigits ((den - 1) / num)).length : Int)

/-- A fraction divided by a power of ten, as numerator and denominator. -/
def scale (num den : Nat) (exponent : Int) : Nat × Nat :=
  match exponent with
  | .ofNat e => (num, den * Nat.pow 10 e)
  | .negSucc e => (num * Nat.pow 10 (e + 1), den)

/-- The neighbour of a number that reads back as it, among decimals of `count` digits. -/
def withDigits? (b : Binary) (count : Nat) : Option Decimal :=
  let (num, den) := b.toRatio
  let exponent := magnitude num den + 1 - count
  let (n, d) := scale num den exponent
  let below := n / d
  -- the midpoints lie a quarter or half of a last bit away
  let lower := if b.mantissa == 1 <<< 52 then 1 else 2
  let unit := n / b.mantissa
  let reads (candidate : Nat) : Bool :=
    let x := 4 * candidate * d
    if b.mantissa % 2 == 0 then 4 * n ≤ x + lower * unit && x ≤ 4 * n + 2 * unit
    else 4 * n < x + lower * unit && x < 4 * n + 2 * unit
  match reads below, reads (below + 1) with
  | true, false => some ⟨below, exponent⟩
  | false, true => some ⟨below + 1, exponent⟩
  | true, true =>
    some (if 2 * (n % d) ≤ d then ⟨below, exponent⟩ else ⟨below + 1, exponent⟩)
  | false, false => none

/-- The number without trailing zeros in its digits. -/
def trim (x : Decimal) : Decimal :=
  let zeros := ((decimalDigits x.digits).reverse.takeWhile (· == '0')).length
  if x.digits == 0 then ⟨0, 0⟩ else ⟨x.digits / Nat.pow 10 zeros, x.exponent + zeros⟩

/-- The decimal with the fewest digits that reads back.  Seventeen digits always do. -/
def shortest (b : Binary) : Decimal :=
  if b.mantissa == 0 then ⟨0, 0⟩
  else
    match (List.range' 1 17).findSome? (withDigits? b) with
    | some x => x.trim
    | none => ⟨0, 0⟩

/-- How a decimal is written. -/
structure Style where
  /-- A whole number keeps a point and a zero. -/
  pointZero : Bool
  /-- The point may stand after this many digits. -/
  longest : Int
  /-- This many zeros may stand after the point and before the digits. -/
  zeros : Int

/-- The text of a decimal in a style, with an exponent where the point cannot be written. -/
def write (style : Style) (x : Decimal) : String :=
  let ds := decimalDigits x.digits
  let point := (ds.length : Int) + x.exponent
  let chars :=
    if 0 ≤ x.exponent && point ≤ style.longest then
      ds ++ List.replicate x.exponent.toNat '0' ++ (if style.pointZero then ['.', '0'] else [])
    else if 0 < point && point ≤ style.longest then
      ds.take point.toNat ++ '.' :: ds.drop point.toNat
    else if -style.zeros ≤ point && point ≤ 0 then
      '0' :: '.' :: List.replicate (-point).toNat '0' ++ ds
    else
      let sign := if point - 1 < 0 then ['-'] else []
      let fraction := if ds.length == 1 then [] else '.' :: ds.drop 1
      ds.take 1 ++ fraction ++ 'e' :: sign ++ decimalDigits (point - 1).natAbs
  String.ofList chars

end Decimal

/-- The text of a number with two places. -/
def Binary.twoPlaces (b : Binary) : String :=
  let (num, den) := b.toRatio
  let hundredths := roundDiv (100 * num) den
  let cents := decimalDigits (hundredths % 100)
  String.ofList (decimalDigits (hundredths / 100) ++ '.' ::
    (if cents.length == 1 then '0' :: cents else cents))

end Cyclomatic
