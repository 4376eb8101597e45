import ArityScript.Conversion
import ArityScript.Elements

/-!
# Lists, ranges and strings

A list is made of the arguments of a call, a range of two numbers and a step.
Filtering and mapping evaluate a quoted form for each element, in a fresh frame
in which the element is bound to the item name; they stop at the first failure.
-/

namespace ArityScript.Builtin

/-- The name of the element for which a form is evaluated. -/
def itemName : String := "$it"

def makeList : Native := fun arguments =>
  .ofExcept (arguments.value "items")

def first : Native := .ofFunction fun arguments => do
  let list ← arguments.value "list"
  let elements ← Elements.ofValue list
  match elements.uncons? with
  | some (value, _) => return value
  | none => .error (.host (.emptyList "first"))

def countElements : Value → Except Failure Int
  | .list items => .ok items.length
  | .range range => .ok range.count
  | value =>
      .error (.error (.eval (.ofCause (.wrongType "list or range" value.typeName))))

def size : Native := .ofFunction fun arguments => do
  let list ← arguments.value "list"
  let count ← countElements list
  match Number.ofInt? count with
  | some n => return .number n
  | none => .error (.host (.overflow "size"))

/-- Keeps the elements for which the form is true.  `kept` holds the elements
kept so far, the last one first. -/
def filterElements (form : Form) (elements : Elements) (kept : List Value) : Program :=
  match _huncons : elements.uncons? with
  | none => .done (.list kept.reverse)
  | some (item, rest) =>
      .evalWith itemName item form <| Program.andThen fun
        | .bool true => filterElements form rest (item :: kept)
        | .bool false => filterElements form rest kept
        | value =>
            .failWith (.eval (.ofCause (.predicateNotBoolean value.typeName)))
termination_by elements.bound
decreasing_by all_goals exact Elements.bound_lt_of_uncons? _huncons

/-- The elements of `list` for which `pred` is true. -/
def filter : Native := fun arguments =>
  .attempt (arguments.value "list") fun list =>
  .attempt (Elements.ofValue list) fun elements =>
  .attempt (arguments.as Form "pred") fun form =>
  filterElements form elements []

/-- Evaluates the form for each element.  `mapped` holds the values so far, the
last one first. -/
def mapElements (form : Form) (elements : Elements) (mapped : List Value) : Program :=
  match _huncons : elements.uncons? with
  | none => .done (.list mapped.reverse)
  | some (item, rest) =>
      .evalWith itemName item form <| Program.andThen fun value =>
        mapElements form rest (value :: mapped)
termination_by elements.bound
decreasing_by exact Elements.bound_lt_of_uncons? _huncons

/-- The values of `transform` for the elements of `list`. -/
def map : Native := fun arguments =>
  .attempt (arguments.value "list") fun list =>
  .attempt (Elements.ofValue list) fun elements =>
  .attempt (arguments.as Form "transform") fun form =>
  mapElements form elements []

def appendPart (text : String) : Value → Except Failure String
  | .string s => .ok (text ++ s)
  | .number n => .ok (text ++ n.render)
  | value => .error (.error (.eval (.ofCause (.notConcatenable value.typeName))))

def concatenate : Native := .ofFunction fun arguments => do
  let parts ← arguments.value "parts"
  let elements ← Elements.ofValue parts
  let text ← elements.fold appendPart ""
  return .string text

/-- The range from `low` to `high`; the placeholder stands for zero as `low`
and for the largest number as `high`. -/
def makeRange : Native := .ofFunction fun arguments => do
  let low ← arguments.asOptional Number "low"
  let high ← arguments.asOptional Number "high"
  let step ← arguments.as Number "step"
  if step ≤ 0 then .error (.host (.invalidStep step))
  else return .range ⟨low.getD 0, high.getD Int64.maxValue, step⟩

end ArityScript.Builtin
