/-!
# Doubles and decimals

A finite double is `mantissa · 2 ^ exponent` with a mantissa below `2 ^ 53` and
an exponent of at least `-1074`.  A fraction is rounded to the double nearest to
it; of two doubles equally near, the one with an even mantissa is taken.

A decimal is read in steps that are rounded one by one: its digits are rounded
to a double, which is then multiplied by a rounded power of ten or divided by
one.  The digits and the power are exact as long as they are small, and then so
is the outcome up to its one rounding; a decimal with many digits or a large
exponent may be read as a double next to the nearest.  All of it is exact
arithmetic on natural numbers.
-/

namespace ArityScript

/-- A finite double with its sign; zero has two. -/
structure Binary64 where
  negative : Bool
  mantissa : Nat
  exponent : Int
deriving DecidableEq, Repr

/-- A number in decimal notation: `digits · 10 ^ exponent`, with a sign. -/
structure Decimal where
  negative : Bool
  digits : Nat
  exponent : Int
deriving DecidableEq, Repr

def powerOfTwo (exponent : Nat) : Nat := Nat.pow 2 exponent

def powerOfTen (exponent : Nat) : Nat := Nat.pow 10 exponent

namespace Binary64

/-- The bits of a full mantissa. -/
def precision : Nat := 53

def minExponent : Int := -1074

def maxExponent : Int := 971

/-! ## Rounding a fraction -/

/-- The integer nearest to a fraction; a half goes to the even neighbour. -/
def roundHalfEven (numerator denominator : Nat) : Nat :=
  let quotient := numerator / denominator
  let twice := 2 * (numerator % denominator)
  if denominator < twice then quotient + 1
  else if twice = denominator then quotient + quotient % 2
  else quotient

/-- The fraction `numerator / denominator / 2 ^ exponent`. -/
def scale (numerator denominator : Nat) (exponent : Int) : Nat × Nat :=
  (numerator * powerOfTwo (-exponent).toNat, denominator * powerOfTwo exponent.toNat)

/-- The exponent at which a positive fraction has a full mantissa, or the
smallest exponent. -/
def fittingExponent (numerator denominator : Nat) : Int :=
  let estimate : Int := (numerator.log2 : Int) - denominator.log2 - precision
  let lower := max minExponent estimate
  let (n, d) := scale numerator denominator lower
  if n / d < powerOfTwo precision then lower else lower + 1

/-- The double nearest to a fraction with a sign, unless that is beyond the
largest double. -/
def nearest? (negative : Bool) (numerator denominator : Nat) : Option Binary64 :=
  if numerator = 0 then some ⟨negative, 0, minExponent⟩
  else
    let exponent := fittingExponent numerator denominator
    let (n, d) := scale numerator denominator exponent
    let rounded := roundHalfEven n d
    let (mantissa, exponent) :=
      if rounded = powerOfTwo precision then (powerOfTwo (precision - 1), exponent + 1)
      else (rounded, exponent)
    if maxExponent < exponent then none else some ⟨negative, mantissa, exponent⟩

/-! ## Arithmetic -/

def numerator (double : Binary64) : Nat :=
  double.mantissa * powerOfTwo double.exponent.toNat

def denominator (double : Binary64) : Nat :=
  powerOfTwo (-double.exponent).toNat

/-- The product of two doubles, rounded, unless it is too large. -/
def mul? (left right : Binary64) : Option Binary64 :=
  nearest? (left.negative != right.negative)
    (left.numerator * right.numerator) (left.denominator * right.denominator)

/-- The quotient of two doubles, rounded, unless it is too large.  The divisor
is not zero. -/
def div? (left right : Binary64) : Option Binary64 :=
  nearest? (left.negative != right.negative)
    (left.numerator * right.denominator) (left.denominator * right.numerator)

/-! ## Reading a decimal -/

/-- The largest exponent of a power of ten that is not beyond the largest
double. -/
def maxTenPower : Nat := 308

def tenPower? (exponent : Nat) : Option Binary64 :=
  if maxTenPower < exponent then none else nearest? false (powerOfTen exponent) 1

def mulTenPower? (double : Binary64) (exponent : Nat) : Option Binary64 :=
  (tenPower? exponent).bind double.mul?

def divTenPower? (double : Binary64) (exponent : Nat) : Option Binary64 :=
  (tenPower? exponent).bind double.div?

/-- Divides a double by the largest power of ten a number of times, or until it
is zero. -/
def divLargestPower? : (times : Nat) → Binary64 → Option Binary64
  | 0, double => some double
  | times + 1, double =>
      if double.mantissa = 0 then some double
      else (double.divTenPower? maxTenPower).bind fun quotient => divLargestPower? times quotient

/-- A double times `10 ^ exponent`, unless that is too large.  A divisor beyond
the largest power of ten is taken in parts, of which the last one is positive. -/
def scaleByTen? (double : Binary64) (exponent : Int) : Option Binary64 :=
  if double.mantissa = 0 then some double
  else if 0 ≤ exponent then double.mulTenPower? exponent.toNat
  else
    let places := exponent.natAbs
    let times := (places - 1) / maxTenPower
    (divLargestPower? times double).bind fun quotient =>
      quotient.divTenPower? (places - times * maxTenPower)

/-- The double that a decimal is read as, unless it is too large. -/
def ofDecimal? (decimal : Decimal) : Option Binary64 :=
  (nearest? decimal.negative decimal.digits 1).bind fun digits =>
    digits.scaleByTen? decimal.exponent

end Binary64

end ArityScript
