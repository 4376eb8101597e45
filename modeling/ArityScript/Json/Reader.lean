import ArityScript.Json

/-!
# Reading JSON

A JSON text is read strictly: no comments, no trailing commas, no leading zeros
or signs, no raw control characters in strings and no surrogate that stands
alone.  Arrays and objects nest at most 127 deep.  Numbers are left as they are
written.
-/

namespace ArityScript.Json

/-- The most levels of arrays and objects. -/
def maxNesting : Nat := 127

/-- A reader takes the front of a text and leaves the rest; it fails on a
malformed text. -/
abbrev Read (α : Type) := List Char → Option (α × List Char)

def isSpace (c : Char) : Bool :=
  c == ' ' || c == '\n' || c == '\t' || c == '\r'

def skipSpace (chars : List Char) : List Char :=
  chars.dropWhile isSpace

def readWord {α : Type} (value : α) : List Char → Read α
  | [], chars => some (value, chars)
  | c :: word, d :: chars => if c = d then readWord value word chars else none
  | _ :: _, [] => none

/-! ## Numbers -/

/-- The digits at the front of a text, and what follows them. -/
def readDigits (chars : List Char) : List Char × List Char :=
  (chars.takeWhile Char.isDigit, chars.dropWhile Char.isDigit)

def readSomeDigits (chars : List Char) : Option (List Char × List Char) :=
  match readDigits chars with
  | ([], _) => none
  | result => some result

/-- Takes the whole part of a number: zero, or digits that do not start with
zero. -/
def readWhole : Read (List Char)
  | '0' :: c :: rest => if c.isDigit then none else some (['0'], c :: rest)
  | chars => readSomeDigits chars

def readFraction : Read (List Char)
  | '.' :: rest => readSomeDigits rest
  | chars => some ([], chars)

def readExponentDigits (negative : Bool) (chars : List Char) : Option (Int × List Char) :=
  match readSomeDigits chars with
  | none => none
  | some (digits, rest) =>
      some (signed negative (Nat.ofDigitChars 10 digits 0), rest)

def readExponent : Read (Option Int)
  | c :: rest =>
      if c = 'e' ∨ c = 'E' then
        let exponent :=
          match rest with
          | '+' :: rest => readExponentDigits false rest
          | '-' :: rest => readExponentDigits true rest
          | rest => readExponentDigits false rest
        exponent.map fun (value, rest) => (some value, rest)
      else some (none, c :: rest)
  | [] => some (none, [])

/-- Takes the parts of a number after its sign. -/
def readUnsigned (negative : Bool) (chars : List Char) : Option (Literal × List Char) :=
  match readWhole chars with
  | none => none
  | some (whole, chars) =>
      match readFraction chars with
      | none => none
      | some (fraction, chars) =>
          match readExponent chars with
          | none => none
          | some (exponent, chars) => some (⟨negative, whole, fraction, exponent⟩, chars)

def readNumber : Read Literal
  | '-' :: rest => readUnsigned true rest
  | chars => readUnsigned false chars

/-! ## Strings -/

def hexValue (c : Char) : Option Nat :=
  if c.isDigit then some (c.toNat - '0'.toNat)
  else if 'a' ≤ c ∧ c ≤ 'f' then some (c.toNat - 'a'.toNat + 10)
  else if 'A' ≤ c ∧ c ≤ 'F' then some (c.toNat - 'A'.toNat + 10)
  else none

def hexUnit (a b c d : Char) : Option Nat := do
  let a ← hexValue a
  let b ← hexValue b
  let c ← hexValue c
  let d ← hexValue d
  return ((a * 16 + b) * 16 + c) * 16 + d

/-- Whether a code unit is the first one of a pair. -/
def isLead (unit : Nat) : Bool := decide (0xD800 ≤ unit ∧ unit < 0xDC00)

def isTrail (unit : Nat) : Bool := decide (0xDC00 ≤ unit ∧ unit < 0xE000)

/-- The character of a pair of code units. -/
def pairChar (lead trail : Nat) : Char :=
  Char.ofNat (0x10000 + (lead - 0xD800) * 0x400 + (trail - 0xDC00))

def escapedChar : Char → Option Char
  | '"' => some '"'
  | '\\' => some '\\'
  | '/' => some '/'
  | 'b' => some '\x08'
  | 'f' => some '\x0c'
  | 'n' => some '\n'
  | 'r' => some '\r'
  | 't' => some '\t'
  | _ => none

/-- Takes the inside of a string up to its closing quote.  `lead` is the first
code unit of a pair whose second one has to follow. -/
def readChars : (lead : Option Nat) → Read (List Char)
  | _, [] => none
  | some lead, '\\' :: 'u' :: a :: b :: c :: d :: rest =>
      match hexUnit a b c d with
      | none => none
      | some unit =>
          if isTrail unit then
            (readChars none rest).map fun (chars, after) => (pairChar lead unit :: chars, after)
          else none
  | some _, _ => none
  | none, '"' :: rest => some ([], rest)
  | none, '\\' :: 'u' :: a :: b :: c :: d :: rest =>
      match hexUnit a b c d with
      | none => none
      | some unit =>
          if isLead unit then readChars (some unit) rest
          else if isTrail unit then none
          else
            (readChars none rest).map fun (chars, after) => (Char.ofNat unit :: chars, after)
  | none, '\\' :: letter :: rest =>
      match escapedChar letter with
      | none => none
      | some c => (readChars none rest).map fun (chars, after) => (c :: chars, after)
  | none, c :: rest =>
      if c.toNat < 0x20 ∨ c = '\\' then none
      else (readChars none rest).map fun (chars, after) => (c :: chars, after)

def readString : Read (List Char)
  | '"' :: rest => readChars none rest
  | _ => none

/-! ## Arrays and objects -/

/-- Takes parts that are separated by commas, up to a closing character.  Each
part takes at least one character, so no more than `steps` of them can follow
where `steps` is the length of the text. -/
def readParts {α : Type} (readPart : Read α) (close : Char) : (steps : Nat) → Read (List α)
  | 0, _ => none
  | steps + 1, chars =>
      match readPart (skipSpace chars) with
      | none => none
      | some (part, rest) =>
          match skipSpace rest with
          | ',' :: rest =>
              (readParts readPart close steps rest).map fun (parts, after) =>
                (part :: parts, after)
          | c :: rest => if c = close then some ([part], rest) else none
          | [] => none

/-- Takes the inside of an array or an object and its closing character. -/
def readEnclosed {α : Type} (readPart : Read α) (close : Char) (chars : List Char) :
    Option (List α × List Char) :=
  match skipSpace chars with
  | [] => none
  | c :: rest =>
      if c = close then some ([], rest)
      else readParts readPart close chars.length (c :: rest)

def readMember (readInner : Read (Json Literal)) (chars : List Char) :
    Option ((List Char × Json Literal) × List Char) :=
  match readString chars with
  | none => none
  | some (key, rest) =>
      match skipSpace rest with
      | ':' :: rest =>
          (readInner (skipSpace rest)).map fun (value, after) => ((key, value), after)
      | _ => none

/-- Takes a value that starts at the front of a text and may hold arrays and
objects on a number of levels. -/
def readValue : (levels : Nat) → Read (Json Literal)
  | _, [] => none
  | levels, c :: rest =>
      if c = 'n' then readWord .null "ull".toList rest
      else if c = 't' then readWord (.bool true) "rue".toList rest
      else if c = 'f' then readWord (.bool false) "alse".toList rest
      else if c = '"' then (readChars none rest).map fun (chars, after) => (.string chars, after)
      else if c = '[' then
        match levels with
        | 0 => none
        | levels + 1 =>
            (readEnclosed (readValue levels) ']' rest).map fun (items, after) =>
              (.array items, after)
      else if c = '\x7b' then
        match levels with
        | 0 => none
        | levels + 1 =>
            (readEnclosed (readMember (readValue levels)) '\x7d' rest).map
              fun (members, after) => (.object members, after)
      else (readNumber (c :: rest)).map fun (n, after) => (.number n, after)

def parse? (chars : List Char) : Option (Json Literal) :=
  match readValue maxNesting (skipSpace chars) with
  | none => none
  | some (json, rest) => if (skipSpace rest).isEmpty then some json else none

end ArityScript.Json
