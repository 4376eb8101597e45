import ArityScript.Number

/-!
# JSON

The data that is exchanged with a host, and what is used of the library that
reads and writes it.  The library has numbers of its own.  Only some of them are
integers of the language; what a number is beyond that is left to the library.
-/

namespace ArityScript

/-- A JSON value with numbers of some type. -/
inductive Json (ν : Type) where
  | null
  | bool (b : Bool)
  | number (n : ν)
  | string (chars : List Char)
  | array (items : List (Json ν))
  | object (members : List (List Char × Json ν))

namespace Json

/-! ## Numbers as they are written -/

/-- A number as it is written: a minus, the digits before and after the point, and
the value of the exponent. -/
structure Literal where
  negative : Bool
  whole : List Char
  fraction : List Char
  exponent : Option Int
deriving DecidableEq, Repr

def signed (negative : Bool) (magnitude : Nat) : Int :=
  if negative then -magnitude else magnitude

/-- The integer of the language that is written, if it is one.  There is none with a
fraction or an exponent, and minus zero is none. -/
def Literal.integer? (literal : Literal) : Option Number :=
  let magnitude := Nat.ofDigitChars 10 literal.whole 0
  if literal.fraction.isEmpty ∧ literal.exponent.isNone ∧
      ¬(literal.negative ∧ magnitude = 0) then
    Number.ofInt? (signed literal.negative magnitude)
  else none

/-! ## Compact texts -/

/-- A control character by its code in four hexadecimal digits. -/
def controlText (c : Char) : List Char :=
  let digits := Nat.toDigits 16 c.toNat
  '\\' :: 'u' :: List.replicate (4 - digits.length) '0' ++ digits

def charText (c : Char) : List Char :=
  match c with
  | '"' => ['\\', '"']
  | '\\' => ['\\', '\\']
  | '\x08' => ['\\', 'b']
  | '\x0c' => ['\\', 'f']
  | '\n' => ['\\', 'n']
  | '\r' => ['\\', 'r']
  | '\t' => ['\\', 't']
  | c => if c.toNat < 0x20 then controlText c else [c]

def stringText (chars : List Char) : List Char :=
  '"' :: chars.flatMap charText ++ ['"']

section

variable {ν : Type} (numberText : ν → List Char)

mutual

/-- The text of a value without blanks, with the texts of its numbers. -/
def compactText : Json ν → List Char
  | .null => "null".toList
  | .bool b => if b then "true".toList else "false".toList
  | .number n => numberText n
  | .string chars => stringText chars
  | .array items => '[' :: compactItems items ++ [']']
  | .object members => '\x7b' :: compactMembers members ++ ['\x7d']

def compactItems : List (Json ν) → List Char
  | [] => []
  | [item] => compactText item
  | item :: next :: rest => compactText item ++ ',' :: compactItems (next :: rest)

def compactMembers : List (List Char × Json ν) → List Char
  | [] => []
  | [(key, value)] => stringText key ++ ':' :: compactText value
  | (key, value) :: next :: rest =>
      stringText key ++ ':' :: compactText value ++ ',' :: compactMembers (next :: rest)

end

end

/-! ## From literals to numbers -/

section

variable {ν : Type} (ofLiteral? : Literal → Option ν)
  (collect : List (List Char × Json ν) → List (List Char × Json ν))

mutual

/-- Puts numbers in the places of the literals, and the members of each object together
as `collect` does; nothing if there is no number for one of the literals. -/
def build? : Json Literal → Option (Json ν)
  | .null => some .null
  | .bool b => some (.bool b)
  | .number literal => (ofLiteral? literal).map .number
  | .string chars => some (.string chars)
  | .array items => (buildItems? items).map .array
  | .object members => (buildMembers? members).map fun members => .object (collect members)

def buildItems? : List (Json Literal) → Option (List (Json ν))
  | [] => some []
  | item :: rest =>
      match build? item, buildItems? rest with
      | some item, some rest => some (item :: rest)
      | _, _ => none

def buildMembers? : List (List Char × Json Literal) → Option (List (List Char × Json ν))
  | [] => some []
  | (key, value) :: rest =>
      match build? value, buildMembers? rest with
      | some value, some rest => some ((key, value) :: rest)
      | _, _ => none

end

end

end Json

/-! ## Libraries -/

/-- What is used of a library for JSON. -/
structure JsonLibrary where
  /-- The numbers of the library. -/
  Num : Type
  /-- The number that a literal is read as, unless it is beyond the range of doubles. -/
  ofLiteral? : Json.Literal → Option Num
  ofInteger : Number → Num
  /-- The integer of the language that a number is, if it is one. -/
  integer? : Num → Option Number
  numberText : Num → List Char
  /-- The members of an object into which members are put one after the other. -/
  collect : List (List Char × Json Num) → List (List Char × Json Num)
  /-- The value that a text denotes, unless it is malformed. -/
  read? : String → Option (Json Num)
  /-- The compact text of a value. -/
  write : Json Num → String

namespace JsonLibrary

def build? (lib : JsonLibrary) : Json Json.Literal → Option (Json lib.Num) :=
  Json.build? lib.ofLiteral? lib.collect

end JsonLibrary

end ArityScript
