import ArityScript.Text.Combining
import ArityScript.Text.Ignorable
import ArityScript.Text.Ranges
import ArityScript.Text.Unprintable

/-!
# Quoted text

When a string token is shown as the offending text of an error, it stands in
double quotes with nothing left that could be misread: the quote, the backslash
and four control characters have short escapes, and every other character that
is not printed, that leaves no mark, or that would join the character before it
is shown by its code point.
-/

namespace ArityScript.Text

/-- Whether a character is shown by its code point. -/
def isHidden (c : Char) : Bool :=
  inRanges unprintableRanges c.toNat || inRanges combiningRanges c.toNat ||
    inRanges ignorableRanges c.toNat

def codePoint (c : Char) : List Char :=
  "\\u\x7b".toList ++ Nat.toDigits 16 c.toNat ++ "\x7d".toList

def quotedChar (c : Char) : List Char :=
  match c with
  | '"' => ['\\', '"']
  | '\\' => ['\\', '\\']
  | '\n' => ['\\', 'n']
  | '\r' => ['\\', 'r']
  | '\t' => ['\\', 't']
  | '\x00' => ['\\', '0']
  | c => if isHidden c then codePoint c else [c]

def quoted (chars : List Char) : List Char :=
  '"' :: chars.flatMap quotedChar ++ ['"']

end ArityScript.Text
