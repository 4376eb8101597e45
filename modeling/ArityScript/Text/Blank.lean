/-!
# Blank characters

White space separates tokens and is trimmed from the lines of an interactive
session.  The class is the Unicode property `White_Space`, which has
twenty-five members; it contains the four characters that core calls white
space.
-/

namespace ArityScript.Text

def isBlank (c : Char) : Bool :=
  let point := c.toNat
  (0x09 ≤ point && point ≤ 0x0D) || point == 0x20 || point == 0x85 ||
    point == 0xA0 || point == 0x1680 || (0x2000 ≤ point && point ≤ 0x200A) ||
    point == 0x2028 || point == 0x2029 || point == 0x202F ||
    point == 0x205F || point == 0x3000

theorem isBlank_newline : isBlank '\n' = true := by decide

def trim (chars : List Char) : List Char :=
  ((chars.dropWhile isBlank).reverse.dropWhile isBlank).reverse

end ArityScript.Text
