import ArityScript.Decimal.Shortest
import ArityScript.Json

/-!
# Numbers of JSON as doubles

An integer of 64 bits is kept as it is, and every other number as a double.  Of
the digits of such a number only the leading ones count, those that make an
integer of 64 bits, and a number beyond the largest double is refused.
-/

namespace ArityScript

/-- A number in a JSON text.  An integer that is too large for the language is
kept below `2 ^ 64`; every other number is a double. -/
inductive JsonNumber where
  | integer (n : Number)
  | large (n : Nat)
  | double (d : Binary64)
deriving DecidableEq, Repr

namespace JsonNumber

def text : JsonNumber → List Char
  | .integer n => n.text
  | .large n => Nat.toDigits 10 n
  | .double d => d.text

def integer? : JsonNumber → Option Number
  | .integer n => some n
  | .large _ | .double _ => none

/-- What the digits of a number may denote stays below this bound. -/
def largeBound : Nat := 18446744073709551616

/-- Appends digits to a number for as long as it stays below `largeBound`; the
number that is reached, and how many digits did not fit. -/
def appendDigits (number : Nat) : List Char → Nat × Nat
  | [] => (number, 0)
  | digit :: rest =>
      let next := 10 * number + (digit.toNat - '0'.toNat)
      if next < largeBound then appendDigits next rest
      else (number, rest.length + 1)

/-- The double of a decimal, if it is not too large. -/
def doubleOf (negative : Bool) (digits : Nat) (exponent : Int) : Option JsonNumber :=
  (Binary64.ofDecimal? ⟨negative, digits, exponent⟩).map .double

/-- The number of an integer literal below `largeBound`.  Minus zero is a
double. -/
def integerOf (negative : Bool) (magnitude : Nat) : Option JsonNumber :=
  if negative then
    if magnitude = 0 then doubleOf true 0 0
    else
      match Number.ofInt? (-magnitude) with
      | some n => some (.integer n)
      | none => doubleOf true magnitude 0
  else
    match Number.ofInt? magnitude with
    | some n => some (.integer n)
    | none => some (.large magnitude)

/-- The number that a literal is read as.  Digits that do not fit count as zeros in
the whole part and are left out of the fraction. -/
def ofLiteral? (literal : Json.Literal) : Option JsonNumber :=
  let (digits, excess) := appendDigits 0 literal.whole
  if literal.fraction.isEmpty ∧ literal.exponent.isNone ∧ excess = 0 then
    integerOf literal.negative digits
  else
    let (digits, ignored) := appendDigits digits literal.fraction
    let places : Int := literal.fraction.length - ignored
    doubleOf literal.negative digits (literal.exponent.getD 0 + excess - places)

end JsonNumber

end ArityScript
