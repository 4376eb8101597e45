import ArityScript.Text.Combining
import ArityScript.Text.Conjunct
import ArityScript.Text.Pictograph
import ArityScript.Text.Ranges
import ArityScript.Text.Spacing

/-!
# Clusters

What a reader takes for one character may be written with several: a letter and
its marks, the letters of a Hangul syllable, two regional indicators that make a
flag, pictographs with joiners between them, or consonants in a conjunct.
`clusters` cuts a line into such clusters, by the rules of Unicode 17 for
extended grapheme clusters.  A line holds no line feed, so the rule that keeps a
carriage return and a line feed together is not needed.

A line is read from left to right.  All that counts of the cluster that has been
begun is its `Tail`, which tells what may still join it.
-/

namespace ArityScript.Text

/-! ## Classes of characters -/

/-- Controls and formats, and ignorable code points that are not assigned. -/
def controlRanges : Array (Nat × Nat) := #[
  (0x0, 0x1F), (0x7F, 0x9F), (0xAD, 0xAD), (0x61C, 0x61C), (0x180E, 0x180E), (0x200B, 0x200B),
  (0x200E, 0x200F), (0x2028, 0x202E), (0x2060, 0x206F), (0xFEFF, 0xFEFF), (0xFFF0, 0xFFFB),
  (0x13430, 0x1343F), (0x1BCA0, 0x1BCA3), (0x1D173, 0x1D17A), (0xE0000, 0xE001F),
  (0xE0080, 0xE00FF), (0xE01F0, 0xE0FFF)]

/-- Signs that are drawn together with the character after them. -/
def prependedRanges : Array (Nat × Nat) := #[
  (0x600, 0x605), (0x6DD, 0x6DD), (0x70F, 0x70F), (0x890, 0x891), (0x8E2, 0x8E2),
  (0xD4E, 0xD4E), (0x110BD, 0x110BD), (0x110CD, 0x110CD), (0x111C2, 0x111C3),
  (0x113D1, 0x113D1), (0x1193F, 0x1193F), (0x11941, 0x11941), (0x11A84, 0x11A89),
  (0x11D46, 0x11D46), (0x11F02, 0x11F02)]

/-- What extends a character besides the combining marks: the halfwidth sound
marks of Katakana and the skin tones of pictographs. -/
def modifierRanges : Array (Nat × Nat) := #[(0xFF9E, 0xFF9F), (0x1F3FB, 0x1F3FF)]

def leadingRanges : Array (Nat × Nat) := #[(0x1100, 0x115F), (0xA960, 0xA97C)]

/-- The vowels of Hangul syllables, and vowel signs that behave like them. -/
def vowelRanges : Array (Nat × Nat) := #[
  (0x1160, 0x11A7), (0xD7B0, 0xD7C6), (0x16D63, 0x16D63), (0x16D67, 0x16D6A)]

def trailingRanges : Array (Nat × Nat) := #[(0x11A8, 0x11FF), (0xD7CB, 0xD7FB)]

def syllableRanges : Array (Nat × Nat) := #[(0xAC00, 0xD7A3)]

/-- Regional indicators, two of which make a flag. -/
def regionalRanges : Array (Nat × Nat) := #[(0x1F1E6, 0x1F1FF)]

inductive CharClass where
  | control
  | extending
  | linker
  | nonJoiner
  | joiner
  | spacing
  | prepended
  | leading
  | vowel
  | trailing
  | openSyllable
  | closedSyllable
  | regional
  | pictograph
  | consonant
  | other
deriving DecidableEq, Repr

/-- The class of a character.  Of the whole Hangul syllables, which are ordered
by their letters, every twenty-eighth is open. -/
def charClass (c : Char) : CharClass :=
  let point := c.toNat
  if point = 0x200C then .nonJoiner
  else if point = 0x200D then .joiner
  else if inRanges linkerRanges point then .linker
  else if inRanges combiningRanges point || inRanges modifierRanges point then .extending
  else if inRanges controlRanges point then .control
  else if inRanges prependedRanges point then .prepended
  else if inRanges spacingRanges point then .spacing
  else if inRanges leadingRanges point then .leading
  else if inRanges vowelRanges point then .vowel
  else if inRanges trailingRanges point then .trailing
  else if inRanges syllableRanges point then
    if (point - 0xAC00) % 28 = 0 then .openSyllable else .closedSyllable
  else if inRanges regionalRanges point then .regional
  else if inRanges pictographRanges point then .pictograph
  else if inRanges consonantRanges point then .consonant
  else .other

/-! ## Reading a cluster -/

/-- What may still join a cluster. -/
inductive Tail where
  | control
  | plain
  | prepended
  | leading
  | vowel
  | trailing
  /-- Marks, and a second regional indicator. -/
  | halfFlag
  /-- Marks, and a joiner after which a pictograph may follow. -/
  | pictograph
  /-- Marks, and the pictograph after a joiner. -/
  | joinedPictograph
  /-- Marks, of which a linker opens the conjunct. -/
  | consonant
  /-- Marks, and the next consonant of a conjunct. -/
  | conjunct
deriving DecidableEq, Repr

namespace Tail

def start : CharClass → Tail
  | .control => .control
  | .prepended => .prepended
  | .leading => .leading
  | .vowel | .openSyllable => .vowel
  | .trailing | .closedSyllable => .trailing
  | .regional => .halfFlag
  | .pictograph => .pictograph
  | .consonant => .consonant
  | .extending | .linker | .nonJoiner | .joiner | .spacing | .other => .plain

/-- The tail after a character that extends any cluster but a control. -/
def extend : Tail → Tail
  | .pictograph => .pictograph
  | .consonant => .consonant
  | .conjunct => .conjunct
  | _ => .plain

def link : Tail → Tail
  | .pictograph => .pictograph
  | .consonant | .conjunct => .conjunct
  | _ => .plain

/-- The tail after the sign that keeps the letters at its sides apart. -/
def separate : Tail → Tail
  | .pictograph => .pictograph
  | _ => .plain

def join : Tail → Tail
  | .pictograph => .joinedPictograph
  | .consonant => .consonant
  | .conjunct => .conjunct
  | _ => .plain

/-- The tail after a character that is no mark, if it joins the cluster. -/
def letter? : Tail → CharClass → Option Tail
  | .prepended, next => some (start next)
  | .leading, .leading => some .leading
  | .leading, .vowel | .leading, .openSyllable => some .vowel
  | .leading, .closedSyllable => some .trailing
  | .vowel, .vowel => some .vowel
  | .vowel, .trailing | .trailing, .trailing => some .trailing
  | .halfFlag, .regional => some .plain
  | .joinedPictograph, .pictograph => some .pictograph
  | .conjunct, .consonant => some .consonant
  | _, _ => none

def next? (tail : Tail) (next : CharClass) : Option Tail :=
  if tail = .control then none
  else
    match next with
    | .control => none
    | .extending => some tail.extend
    | .linker => some tail.link
    | .nonJoiner => some tail.separate
    | .joiner => some tail.join
    | .spacing => some .plain
    | next => tail.letter? next

end Tail

/-! ## Cutting a line -/

/-- Cuts the rest of a line.  `begun` holds the characters of the cluster that
has been begun, the last one first. -/
def clustersFrom (tail : Tail) (begun : List Char) : List Char → List (List Char)
  | [] => [begun.reverse]
  | c :: rest =>
      match tail.next? (charClass c) with
      | some tail => clustersFrom tail (c :: begun) rest
      | none => begun.reverse :: clustersFrom (.start (charClass c)) [c] rest

def clusters : List Char → List (List Char)
  | [] => []
  | c :: rest => clustersFrom (.start (charClass c)) [c] rest

end ArityScript.Text
