/-!
# Texts as bytes

A byte offset in a text is a boundary if it is at one of the ends or before the
first byte of a character.  Moving back to a boundary and cutting a text there may
fail: there may be no boundary, and what is cut at any other offset is no text.
-/

namespace ArityScript.Text

def utf8 (chars : List Char) : List UInt8 :=
  chars.flatMap String.utf8EncodeChar

/-- The bytes of a character after its first one are the ones from 128 to 191. -/
def isFirstByte (byte : UInt8) : Bool :=
  byte.toNat < 128 || 192 ≤ byte.toNat

def isBoundary (bytes : List UInt8) (offset : Nat) : Bool :=
  offset == 0 || offset == bytes.length || bytes[offset]?.any isFirstByte

/-- The last boundary up to an offset, found by going back one byte at a time. -/
def boundaryUpTo? (bytes : List UInt8) : (offset : Nat) → Option Nat
  | 0 => if isBoundary bytes 0 then some 0 else none
  | offset + 1 =>
      if isBoundary bytes (offset + 1) then some (offset + 1) else boundaryUpTo? bytes offset

/-- The text from an offset on, if the offset is a boundary. -/
def textFrom? (bytes : List UInt8) (offset : Nat) : Option (List Char) :=
  if isBoundary bytes offset then
    (String.fromUTF8? (bytes.drop offset).toByteArray).map String.toList
  else none

end ArityScript.Text
