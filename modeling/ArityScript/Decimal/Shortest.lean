import ArityScript.Decimal.Binary64

/-!
# Shortest decimals of doubles

A double is written with the fewest digits that are rounded to the same double,
and among those with the ones nearest to it.  The reals that are rounded to a
double form an interval around it, half way to its neighbours, with its ends
where the mantissa is even.  A decimal grid of step `10 ^ power` has a
point in that interval only if one of the double's two neighbours on the grid
lies in it; the grids are tried from the coarsest on.

Everything is compared in one unit, a quarter of the last bit of the mantissa
over a power of ten.
-/

namespace ArityScript

namespace Binary64

/-- The interval of the reals that are rounded to a double, in quarters of its
last bit. -/
structure Interval where
  low : Nat
  center : Nat
  high : Nat
  closed : Bool

/-- The interval of a positive double.  The neighbour below a power of two is
only half as far as the one above. -/
def interval (mantissa : Nat) (exponent : Int) : Interval :=
  let belowIsNear := mantissa = powerOfTwo (precision - 1) ∧ minExponent < exponent
  { low := 4 * mantissa - (if belowIsNear then 1 else 2)
    center := 4 * mantissa
    high := 4 * mantissa + 2
    closed := mantissa % 2 = 0 }

/-- Whether a point lies in an interval whose measures are multiplied by
`factor`. -/
def Interval.contains (interval : Interval) (factor point : Nat) : Bool :=
  if interval.closed then
    decide (interval.low * factor ≤ point ∧ point ≤ interval.high * factor)
  else
    decide (interval.low * factor < point ∧ point < interval.high * factor)

/-- The digits at which the grid of step `10 ^ power` first meets the interval
of a double, if it does: the nearer of the two neighbours, the even one of two
that are equally near. -/
def gridDigits (mantissa : Nat) (exponent power : Int) : Option Nat :=
  let interval := interval mantissa exponent
  let quarter := exponent - 2
  -- One quarter and one step of the grid, in the common unit.
  let factor := powerOfTwo quarter.toNat * powerOfTen (-power).toNat
  let step := powerOfTen power.toNat * powerOfTwo (-quarter).toNat
  let center := interval.center * factor
  let below := center / step
  let above := below + 1
  let distanceBelow := center - below * step
  let distanceAbove := above * step - center
  let belowFits := interval.contains factor (below * step)
  let aboveFits := interval.contains factor (above * step)
  if belowFits && aboveFits then
    if distanceBelow < distanceAbove then some below
    else if distanceAbove < distanceBelow then some above
    else some (below + below % 2)
  else if belowFits then some below
  else if aboveFits then some above
  else none

/-- The coarsest grid that meets the interval of a double, among `tries` grids
from the step `10 ^ power` on; the digits on it and its power. -/
def searchDigits (mantissa : Nat) (exponent : Int) : (tries : Nat) → Int → Nat × Int
  | 0, power => (0, power)
  | tries + 1, power =>
      match gridDigits mantissa exponent power with
      | some digits => (digits, power)
      | none => searchDigits mantissa exponent tries (power - 1)

/-- The most grids that have to be tried: seventeen digits tell all doubles
apart, and the first power may be too large by two. -/
def maxTries : Nat := 20

/-- A decimal power that is not below the first digit of a positive double. -/
def topPower (mantissa : Nat) (exponent : Int) : Int :=
  let bits : Int := (mantissa.log2 : Int) + exponent + 1
  -- 30103 / 100000 is a little more than the decimal logarithm of two.
  if 0 ≤ bits then bits * 30103 / 100000 + 1 else bits * 30102 / 100000 + 1

/-- The shortest digits of a positive double, without zeros at the end, and
their power of ten. -/
def shortest (mantissa : Nat) (exponent : Int) : List Char × Int :=
  let (digits, power) :=
    searchDigits mantissa exponent maxTries (topPower mantissa exponent)
  let written := Nat.toDigits 10 digits
  let zeros := (written.reverse.takeWhile (· == '0')).length
  (written.take (written.length - zeros), power + zeros)

/-- The largest decimal exponent that is written without an exponent. -/
def maxPositional : Int := 15

def minPositional : Int := -5

def exponentText (exponent : Int) : List Char :=
  (if exponent < 0 then '-' else '+') :: Nat.toDigits 10 exponent.natAbs

/-- Digits `d₁d₂…` as the text of `d₁.d₂… · 10 ^ exponent`. -/
def layout (digits : List Char) (exponent : Int) : List Char :=
  if minPositional ≤ exponent ∧ exponent ≤ maxPositional then
    if exponent < 0 then
      '0' :: '.' :: List.replicate (-exponent - 1).toNat '0' ++ digits
    else
      let whole := exponent.toNat + 1
      let front := digits.take whole ++ List.replicate (whole - digits.length) '0'
      let back := digits.drop whole
      front ++ '.' :: (if back.isEmpty then ['0'] else back)
  else
    match digits with
    | [digit] => digit :: 'e' :: exponentText exponent
    | digit :: rest => digit :: '.' :: rest ++ 'e' :: exponentText exponent
    | [] => []

def text (double : Binary64) : List Char :=
  let magnitude :=
    if double.mantissa = 0 then "0.0".toList
    else
      let (digits, power) := shortest double.mantissa double.exponent
      layout digits (power + digits.length - 1)
  if double.negative then '-' :: magnitude else magnitude

end Binary64

end ArityScript
