import ArityScript.Number

/-!
# Ranges

A range is written by its first number, its last admissible number and a step.
Its members are the first number and what repeated steps reach, as long as the
last admissible number is not passed.  A step below one counts as one.

Members are produced one at a time, so that a method can stop early in a range
with very many of them.
-/

namespace ArityScript

/-- An inclusive integer range. -/
structure Range where
  start : Number
  stop : Number
  step : Number
deriving DecidableEq, Repr, Inhabited

namespace Range

def stride (range : Range) : Int :=
  max range.step.toInt 1

def isEmpty (range : Range) : Bool :=
  decide (range.stop < range.start)

def first? (range : Range) : Option Number :=
  if range.start ≤ range.stop then some range.start else none

/-- The member that comes after a given one.  The sum may leave the numbers;
the range ends there. -/
def next? (range : Range) (member : Number) : Option Number :=
  match Number.ofInt? (member.toInt + range.stride) with
  | some candidate => if candidate ≤ range.stop then some candidate else none
  | none => none

/-- The number of steps that are certain to pass the last admissible number. -/
def distance (range : Range) (member : Number) : Nat :=
  (range.stop.toInt - member.toInt).toNat

theorem stride_pos (range : Range) : 0 < range.stride := by
  unfold stride
  omega

theorem distance_next {range : Range} {member after : Number}
    (hnext : range.next? member = some after) :
    range.distance after < range.distance member := by
  unfold next? at hnext
  split at hnext
  · next candidate hcandidate =>
      split at hnext
      · next hle =>
          obtain rfl := Option.some.inj hnext
          rw [Number.ofInt?_eq_some_iff] at hcandidate
          rw [Int64.le_iff_toInt_le] at hle
          have hpos := range.stride_pos
          unfold distance
          omega
      · simp at hnext
  · simp at hnext

def membersFrom (range : Range) (member : Number) : List Number :=
  match _hnext : range.next? member with
  | none => [member]
  | some after => member :: range.membersFrom after
termination_by range.distance member
decreasing_by exact distance_next _hnext

def members (range : Range) : List Number :=
  match range.first? with
  | none => []
  | some member => range.membersFrom member

def count (range : Range) : Int :=
  if range.isEmpty then 0
  else (range.stop.toInt - range.start.toInt).tdiv range.stride + 1

/-- At most `limit` members, and whether the range has another one. -/
def prefixFrom (range : Range) : Nat → Option Number → List Number × Bool
  | _, none => ([], false)
  | 0, some _ => ([], true)
  | limit + 1, some member =>
      let (members, more) := range.prefixFrom limit (range.next? member)
      (member :: members, more)

/-- The first members of a range, at most `limit` of them, and whether there
are more. -/
def front (range : Range) (limit : Nat) : List Number × Bool :=
  range.prefixFrom limit range.first?

/-- The text of a range; a step of one is left out. -/
def text (range : Range) : List Char :=
  let bounds := range.start.text ++ ['.', '.'] ++ range.stop.text
  if range.step = 1 then bounds
  else bounds ++ " step ".toList ++ range.step.text

end Range

end ArityScript
