import ArityScript.Conversion
import ArityScript.Elements

/-!
# Arithmetic

Sums, differences and products are exact or fail with an overflow.  Division
cuts off towards zero, and the remainder has the sign of the dividend; both
refuse a divisor of zero before anything else.
-/

namespace ArityScript.Builtin

/-- The number of an exact result, or the overflow of an operation. -/
def checked (operation : String) (result : Int) : Except Failure Number :=
  match Number.ofInt? result with
  | some n => .ok n
  | none => .error (.host (.overflow operation))

def binary (compute : Number → Number → Except Failure Value) : Native :=
  .ofFunction fun arguments => do
    let a ← arguments.as Number "a"
    let b ← arguments.as Number "b"
    compute a b

def exact (operation : String) (compute : Int → Int → Int) : Native :=
  binary fun a b => do
    let result ← checked operation (compute a.toInt b.toInt)
    return .number result

/-- A method of two numbers that divides by the second one. -/
def divided (operation : String) (compute : Int → Int → Int) : Native :=
  binary fun a b =>
    if b.toInt = 0 then .error (.host .divisionByZero)
    else do
      -- The remainder is refused together with the quotient.
      let _ ← checked operation (a.toInt.tdiv b.toInt)
      let result ← checked operation (compute a.toInt b.toInt)
      return .number result

def add : Native := exact "addition" (· + ·)

def subtract : Native := exact "subtraction" (· - ·)

def multiply : Native := exact "multiplication" (· * ·)

def divide : Native := divided "division" Int.tdiv

def remainder : Native := divided "remainder" Int.tmod

def minimum : Native := binary fun a b =>
  .ok (.number (if b < a then b else a))

def maximum : Native := binary fun a b =>
  .ok (.number (if a < b then b else a))

/-- One step of an accumulation: an element has to be a number, and so has
every intermediate result. -/
def accumulate (operation : String) (compute : Int → Int → Int)
    (total : Number) (element : Value) : Except Failure Number := do
  let n ← element.as Number
  checked operation (compute total.toInt n.toInt)

/-- A method that accumulates the elements of `list` from the left. -/
def accumulated (operation : String) (compute : Int → Int → Int) (start : Number) :
    Native :=
  .ofFunction fun arguments => do
    let list ← arguments.value "list"
    let elements ← Elements.ofValue list
    let total ← elements.fold (accumulate operation compute) start
    return .number total

def sum : Native := accumulated "sum" (· + ·) 0

def product : Native := accumulated "product" (· * ·) 1

end ArityScript.Builtin
