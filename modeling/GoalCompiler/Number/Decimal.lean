import GoalCompiler.Number.Binary64

set_option autoImplicit false

/-! # Decimal text of a number

A number is written with the fewest decimal digits that read back as the same number, always
positionally: `1e21` is a one and twenty-one zeros, and `5e-7` is `0.0000005`.

A finite non-zero magnitude is `m * 2 ^ u` for natural `m`. The reals that read back as it form an
interval around it: up to half a unit away on either side, except that just above a power of two
(`m = 2 ^ 52`, not in the lowest binade) the lower neighbour is only half as far, so the interval
reaches down a quarter of a unit. Its ends belong to it exactly when `m` is even. Measured in quarter
units the value is `4 * m`, and every comparison below is one between natural numbers.

On the grid of decimals with `n` significant digits only the two neighbours of the value can matter:
if any point of the grid lies in the interval, one of them does. So the first `n` for which a
neighbour lies in the interval gives the fewest digits; of two such neighbours the nearer is taken,
the upper one when they are equally near. Seventeen digits always suffice. -/

namespace GoalCompiler

/-- The decimal number `digits * 10 ^ exponent`. -/
structure Decimal where
  digits : Nat
  exponent : Int

namespace Decimal

/-- A power of ten. -/
def tenPower (n : Nat) : Nat := Nat.pow 10 n

/-- The digits after the decimal point of `n / 10 ^ width`, for `n < 10 ^ width`, without
    trailing zeros. -/
def fractionDigits (n width : Nat) : List Char :=
  let digits := Nat.toDigits 10 n
  let padded := List.replicate (width - digits.length) '0' ++ digits
  (padded.reverse.dropWhile (· == '0')).reverse

/-- Positional text: no exponent, no point without a digit after it, no trailing zeros after it. -/
def text (d : Decimal) : String :=
  if 0 ≤ d.exponent then
    (d.digits * tenPower d.exponent.toNat).repr
  else
    let width := (-d.exponent).toNat
    let whole := (d.digits / tenPower width).repr
    match fractionDigits (d.digits % tenPower width) width with
    | [] => whole
    | fraction => whole ++ "." ++ String.ofList fraction

end Decimal

/-- A finite non-zero magnitude together with the interval of reals that read back as it. -/
structure Magnitude where
  /-- The significand, in units. -/
  significand : Nat
  /-- The power of two of one quarter unit. -/
  quarter : Int
  /-- Whether the lower neighbour is only half as far as the upper one. -/
  narrow : Bool

namespace Magnitude

open Decimal (tenPower)

/-- The value in quarter units. -/
def value (x : Magnitude) : Nat := 4 * x.significand

/-- The lower end of the interval in quarter units. -/
def low (x : Magnitude) : Nat := x.value - (if x.narrow then 1 else 2)

/-- The upper end of the interval in quarter units. -/
def high (x : Magnitude) : Nat := x.value + 2

/-- Two naturals `(a, b)` that compare counts of quarter units with counts of `10 ^ e`: `k` of the
    former and `g` of the latter stand for the same real exactly when `k * a = g * b`. -/
def ratio (x : Magnitude) (e : Int) : Nat × Nat :=
  (tenPower (-e).toNat <<< x.quarter.toNat, tenPower e.toNat <<< (-x.quarter).toNat)

/-- Whether `g * 10 ^ e` lies in the interval. -/
def contains (x : Magnitude) (e : Int) (g : Nat) : Bool :=
  let (a, b) := x.ratio e
  if x.significand % 2 = 0 then
    x.low * a ≤ g * b && g * b ≤ x.high * a
  else
    x.low * a < g * b && g * b < x.high * a

/-- The position of the leading digit: the magnitude is at least `10 ^ (leading - 1)` and below
    `10 ^ leading`. No magnitude is below `10 ^ (-400)`. -/
def leading (x : Magnitude) : Int :=
  let (a, b) := x.ratio (-400)
  ((Nat.toDigits 10 (x.value * a / b)).length : Int) - 400

/-- The nearest multiple of `10 ^ e` in the interval, if one of the value's two neighbours on that
    grid lies in it; the upper one when both are equally near. -/
def onGrid? (x : Magnitude) (e : Int) : Option Decimal :=
  let (a, b) := x.ratio e
  let below := x.value * a / b
  let above := below + 1
  match x.contains e below, x.contains e above with
  | true, true => some ⟨if 2 * (x.value * a) < (below + above) * b then below else above, e⟩
  | true, false => some ⟨below, e⟩
  | false, true => some ⟨above, e⟩
  | false, false => none

/-- The decimal with the fewest significant digits in the interval. One is found within seventeen
    digits, so the last default is never used. -/
def shortest (x : Magnitude) : Decimal :=
  let leading := x.leading
  let found := (List.range 17).findSome? fun n => x.onGrid? (leading - (n + 1 : Nat))
  found.getD ⟨0, 0⟩

end Magnitude

namespace Binary64

/-- The magnitude of a finite non-zero number. -/
def magnitude (x : Binary64) : Magnitude where
  significand := x.significand
  quarter := x.unit - 2
  narrow := x.fractionField == 0 && 1 < x.exponentField

/-- The text of a number. A NaN has no sign; negative zero keeps its own. -/
def text (x : Binary64) : String :=
  if x.isNaN then "NaN"
  else
    let unsigned :=
      if x.isInfinite then "inf"
      else if x.isZero then "0"
      else x.magnitude.shortest.text
    if x.negative then "-" ++ unsigned else unsigned

end Binary64

end GoalCompiler
