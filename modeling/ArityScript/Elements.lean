import ArityScript.Program

/-!
# Elements of lists and ranges

Methods on collections take their elements one after the other, without making
a list of a range first: a range may have very many members, and a method may
stop at any of them.
-/

namespace ArityScript

/-- The elements that are still to be taken from a list or a range. -/
inductive Elements where
  | ofList (values : List Value)
  | ofRange (range : Range) (next : Option Number)

namespace Elements

def ofValue? : Value → Option Elements
  | .list items => some (.ofList items)
  | .range range => some (.ofRange range range.first?)
  | _ => none

def ofValue (value : Value) : Except Error Elements :=
  match ofValue? value with
  | some elements => .ok elements
  | none => .error (.eval (.ofCause (.wrongType "list or range" value.typeName)))

def uncons? : Elements → Option (Value × Elements)
  | .ofList [] => none
  | .ofList (value :: rest) => some (value, .ofList rest)
  | .ofRange _ none => none
  | .ofRange range (some member) =>
      some (.number member, .ofRange range (range.next? member))

/-- A bound on the number of elements. -/
def bound : Elements → Nat
  | .ofList values => values.length
  | .ofRange _ none => 0
  | .ofRange range (some member) => range.distance member + 1

theorem bound_lt_of_uncons? {elements rest : Elements} {value : Value}
    (huncons : elements.uncons? = some (value, rest)) :
    rest.bound < elements.bound := by
  cases elements with
  | ofList values =>
      cases values with
      | nil => simp [uncons?] at huncons
      | cons head tail =>
          simp only [uncons?, Option.some.injEq, Prod.mk.injEq] at huncons
          simp [← huncons.2, bound]
  | ofRange range next =>
      cases next with
      | none => simp [uncons?] at huncons
      | some member =>
          simp only [uncons?, Option.some.injEq, Prod.mk.injEq] at huncons
          rw [← huncons.2]
          cases hnext : range.next? member with
          | none => simp [bound]
          | some after =>
              have := Range.distance_next hnext
              simp only [bound]
              omega

def toList (elements : Elements) : List Value :=
  match _huncons : elements.uncons? with
  | none => []
  | some (value, rest) => value :: rest.toList
termination_by elements.bound
decreasing_by exact bound_lt_of_uncons? _huncons

/-- Takes the elements one after the other into a result, up to the first
failure. -/
def fold {ε β : Type} (step : β → Value → Except ε β) (start : β)
    (elements : Elements) : Except ε β :=
  match _huncons : elements.uncons? with
  | none => .ok start
  | some (value, rest) =>
      match step start value with
      | .ok next => rest.fold step next
      | .error failure => .error failure
termination_by elements.bound
decreasing_by exact bound_lt_of_uncons? _huncons

end Elements

end ArityScript
