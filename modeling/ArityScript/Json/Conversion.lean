import ArityScript.Error
import ArityScript.Json

/-!
# Values and JSON values

Values and JSON values correspond as far as they are data: numbers, strings,
truth values and lists, with the placeholder for `null`.  Ranges are written as
objects and quoted forms as their text, which is one way only.  Objects and
numbers that the language does not have are refused, and so are methods.

The library that reads and writes JSON is a parameter.
-/

namespace ArityScript

def exchangeError (cause : EvalCause) : Error :=
  .eval (.ofCause cause)

namespace JsonLibrary

variable (lib : JsonLibrary)

mutual

/-- The value of a JSON value; the first part without one decides the error. -/
def toValue : Json lib.Num → Except Error Value
  | .null => .ok .placeholder
  | .bool b => .ok (.bool b)
  | .number n =>
      match lib.integer? n with
      | some n => .ok (.number n)
      | none => .error (exchangeError (.jsonNumber (String.ofList (lib.numberText n))))
  | .string chars => .ok (.string (String.ofList chars))
  | .array items =>
      match toValues items with
      | .ok values => .ok (.list values)
      | .error error => .error error
  | .object _ => .error (exchangeError .jsonObject)

def toValues : List (Json lib.Num) → Except Error (List Value)
  | [] => .ok []
  | item :: rest =>
      match toValue item with
      | .error error => .error error
      | .ok value =>
          match toValues rest with
          | .error error => .error error
          | .ok values => .ok (value :: values)

end

/-- The object that a range is written as. -/
def ofRange (range : Range) : Json lib.Num :=
  .object (lib.collect [
    ("start".toList, .number (lib.ofInteger range.start)),
    ("end".toList, .number (lib.ofInteger range.stop)),
    ("step".toList, .number (lib.ofInteger range.step))])

mutual

/-- The JSON value of a value; the first method in it decides the error. -/
def ofValue : Value → Except Error (Json lib.Num)
  | .number n => .ok (.number (lib.ofInteger n))
  | .string s => .ok (.string s.toList)
  | .bool b => .ok (.bool b)
  | .list items =>
      match ofValues items with
      | .ok items => .ok (.array items)
      | .error error => .error error
  | .range r => .ok (lib.ofRange r)
  | .placeholder => .ok .null
  | .form f => .ok (.string f.text)
  | .method ref => .error (exchangeError (.methodToJson ref.name))

def ofValues : List Value → Except Error (List (Json lib.Num))
  | [] => .ok []
  | item :: rest =>
      match ofValue item with
      | .error error => .error error
      | .ok json =>
          match ofValues rest with
          | .error error => .error error
          | .ok items => .ok (json :: items)

end

/-- The number of characters that are shown of a malformed text. -/
def malformedLength : Nat := 20

/-- Reads a text and gives its value. -/
def parse (text : String) : Except Error Value :=
  match lib.read? text with
  | some json => lib.toValue json
  | none =>
      .error (.parse
        ⟨.malformedJson, none, some (String.ofList (text.toList.take malformedLength))⟩)

end JsonLibrary

end ArityScript
