import ArityScript.Program

/-!
# Reading values as data of a type

A native method asks for its arguments by name and says what each has to be.
Nothing is coerced: a value of another kind is an error that names the expected
type and, for an argument, the parameter.  Only a list may also be given as a
range, which then stands for the list of its members.
-/

namespace ArityScript

/-- A type whose data some values hold. -/
class OfValue (α : Type) where
  /-- What errors call the type. -/
  typeName : String
  ofValue? : Value → Option α

instance : OfValue Number where
  typeName := "number"
  ofValue?
    | .number n => some n
    | _ => none

instance : OfValue Bool where
  typeName := "boolean"
  ofValue?
    | .bool b => some b
    | _ => none

instance : OfValue String where
  typeName := "string"
  ofValue?
    | .string s => some s
    | _ => none

instance : OfValue (List Value) where
  typeName := "list"
  ofValue?
    | .list items => some items
    | .range range => some (range.members.map .number)
    | _ => none

instance : OfValue Form where
  typeName := "quoted form"
  ofValue? := Value.form?

instance : OfValue MethodRef where
  typeName := "method"
  ofValue? := Value.method?

def Value.as (α : Type) [OfValue α] (value : Value) : Except Error α :=
  match OfValue.ofValue? value with
  | some data => .ok data
  | none =>
      .error (.eval (.ofCause (.wrongType (OfValue.typeName α) value.typeName)))

namespace Arguments

def value (arguments : Arguments) (parameter : String) : Except Error Value :=
  match arguments.find? parameter with
  | some value => .ok value
  | none => .error (.eval (.ofCause (.noSuchArgument parameter)))

def as (α : Type) [OfValue α] (arguments : Arguments) (parameter : String) :
    Except Error α :=
  match arguments.value parameter with
  | .error error => .error error
  | .ok value =>
      match OfValue.ofValue? value with
      | some data => .ok data
      | none =>
          .error (.eval (.ofCause
            (.wrongArgumentType parameter (OfValue.typeName α) value.typeName)))

/-- The argument of a parameter, as data of a type; the placeholder stands for
no argument. -/
def asOptional (α : Type) [OfValue α] (arguments : Arguments) (parameter : String) :
    Except Error (Option α) :=
  match arguments.find? parameter with
  | some .placeholder => .ok none
  | _ =>
      match arguments.as α parameter with
      | .ok data => .ok (some data)
      | .error error => .error error

end Arguments

/-- An error of the language is one way for a native method to fail. -/
instance : MonadLift (Except Error) (Except Failure) where
  monadLift result := result.mapError .error

/-- The native method that computes its value from its arguments alone. -/
def Native.ofFunction (compute : Arguments → Outcome) : Native := fun arguments =>
  .finish (compute arguments)

end ArityScript
