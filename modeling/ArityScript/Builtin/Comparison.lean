import ArityScript.Conversion

/-!
# Comparison and logic

Any two values may be compared for equality; values of different kinds are not
equal.  Numbers are ordered by size and strings by their characters, and no
other values are ordered.  Truth values are never made of anything else.
-/

namespace ArityScript.Builtin

def test (compute : Value → Value → Except Failure Bool) : Native :=
  .ofFunction fun arguments => do
    let a ← arguments.value "a"
    let b ← arguments.value "b"
    let result ← compute a b
    return .bool result

def equal : Native := test fun a b => .ok (decide (a = b))

def unequal : Native := test fun a b => .ok (decide (a ≠ b))

/-- The order of two values, where they have one. -/
def order : Value → Value → Except Failure Ordering
  | .number a, .number b => .ok (compare a b)
  | .string a, .string b => .ok (compare a b)
  | a, b =>
      .error (.error (.eval (.ofCause (.notComparable a.typeName b.typeName))))

def ordered (holds : Ordering → Bool) : Native := test fun a b => do
  let ordering ← order a b
  return holds ordering

def less : Native := ordered Ordering.isLT

def lessOrEqual : Native := ordered Ordering.isLE

def greater : Native := ordered Ordering.isGT

def greaterOrEqual : Native := ordered Ordering.isGE

/-- The negation of `b`. -/
def negation : Native := .ofFunction fun arguments => do
  let b ← arguments.as Bool "b"
  return .bool (!b)

def connective (compute : Bool → Bool → Bool) : Native := .ofFunction fun arguments => do
  let a ← arguments.as Bool "a"
  let b ← arguments.as Bool "b"
  return .bool (compute a b)

def conjunction : Native := connective and

def disjunction : Native := connective or

/-- Chooses a branch by a truth value; a branch that is a quoted form is
evaluated. -/
def choice : Native := fun arguments =>
  .attempt (arguments.as Bool "cond") fun condition =>
  .attempt (arguments.value (if condition then "then" else "else")) fun
    | .form form => .evalOnly form
    | value => .done value

end ArityScript.Builtin
