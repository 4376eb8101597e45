import ArityScript.Form.Reader

/-!
# Places in the source

Tokens have places, and an error shows the source around the place where it
arose.  Nothing else that the reader does depends on either: on the same tokens
without their places it takes the same steps, and its errors differ in nothing
but the piece of the source that they show.
-/

namespace ArityScript

def LexError.unplaced (error : LexError) : LexError :=
  { error with context := "" }

/-- An error without the piece of the source that it shows.  Its cause and the
offending text stay. -/
def Error.unplaced : Error → Error
  | .lex error => .lex error.unplaced
  | .parse error => .parse { error with context := error.context.map fun _ => "" }
  | .eval error => .eval error

def Token.unplaced (token : Token) : Token :=
  ⟨token.kind, 0, 0⟩

def Stream.unplaced (stream : Stream) : Stream :=
  ⟨stream.pending.map Token.unplaced, stream.fault.map LexError.unplaced⟩

/-- The same signatures without a source of which to show a piece. -/
def Reader.unplaced (reader : Reader) : Reader :=
  { reader with source := [] }

theorem Stream.unplaced_eq {stream other : Stream}
    (hkinds : stream.pending.map Token.kind = other.pending.map Token.kind)
    (hfault : stream.fault.map LexError.unplaced = other.fault.map LexError.unplaced) :
    stream.unplaced = other.unplaced := by
  have hpending : ∀ tokens : List Token, tokens.map Token.unplaced =
      (tokens.map Token.kind).map fun kind => ⟨kind, 0, 0⟩ := by
    intro tokens
    rw [List.map_map]
    rfl
  rw [unplaced, unplaced, hpending, hpending, hkinds, hfault]

namespace Reader

def Step.unplaced {α : Type} (step : Step α) : Step α :=
  (step.1.mapError Error.unplaced, step.2.unplaced)

theorem Step.unplaced_ok {α : Type} (a : α) (rest : Stream) :
    Step.unplaced (.ok a, rest) = (.ok a, rest.unplaced) :=
  rfl

section

variable (reader : Reader) {readInner unplacedInner : Stream → Step Form}

theorem peek_unplaced (stream : Stream) :
    stream.unplaced.peek = match stream.peek with
      | (.error error, rest) => (.error error.unplaced, rest.unplaced)
      | (.ok token, rest) => (.ok (token.map Token.unplaced), rest.unplaced) := by
  obtain ⟨_ | ⟨token, pending⟩, _ | fault⟩ := stream <;> rfl

theorem next_unplaced (stream : Stream) :
    stream.unplaced.next = match stream.next with
      | (.error error, rest) => (.error error.unplaced, rest.unplaced)
      | (.ok token, rest) => (.ok (token.map Token.unplaced), rest.unplaced) := by
  obtain ⟨_ | ⟨token, pending⟩, _ | fault⟩ := stream <;> rfl

theorem drop_unplaced (stream : Stream) : stream.unplaced.drop = stream.drop.unplaced := by
  obtain ⟨_ | ⟨token, pending⟩, fault⟩ := stream <;> rfl

theorem quotedMethod_unplaced (stream : Stream) :
    reader.unplaced.quotedMethod stream.unplaced = (reader.quotedMethod stream).unplaced := by
  unfold quotedMethod
  rw [peek_unplaced]
  rcases stream.peek with ⟨error | token, rest⟩
  · rfl
  cases token with
  | none => rfl
  | some token =>
      obtain ⟨kind, start, stop⟩ := token
      cases kind with
      | identifier name =>
          simp only [Option.map_some, Token.unplaced, Reader.unplaced, drop_unplaced]
          split <;> rfl
      | _ => rfl

variable (hinner : ∀ stream, unplacedInner stream.unplaced = (readInner stream).unplaced)

include hinner

theorem readQuoted_unplaced (stream : Stream) :
    reader.unplaced.readQuoted unplacedInner stream.unplaced =
      (reader.readQuoted readInner stream).unplaced := by
  unfold readQuoted
  rw [quotedMethod_unplaced]
  rcases reader.quotedMethod stream with ⟨error | method, rest⟩
  · rfl
  cases method with
  | some method => rfl
  | none =>
      simp only [Step.unplaced_ok, hinner]
      rcases readInner rest with ⟨error | f, final⟩ <;> rfl

theorem readGroup_unplaced (start other : Nat) (stream : Stream) :
    reader.unplaced.readGroup unplacedInner other stream.unplaced =
      (reader.readGroup readInner start stream).unplaced := by
  unfold readGroup
  rw [peek_unplaced]
  rcases stream.peek with ⟨error | token, rest⟩
  · rfl
  rcases token with _ | ⟨kind, place, stop⟩
  case' some => cases kind
  case some.closing => rfl
  -- Whatever else comes next is left to the inner form.
  all_goals
    simp only [Option.map_none, Option.map_some, Token.unplaced, hinner]
    rcases readInner rest with ⟨error | f, middle⟩
    · rfl
    simp only [Step.unplaced_ok, next_unplaced]
    rcases middle.next with ⟨error | last, final⟩
    · rfl
    rcases last with _ | ⟨lastKind, lastPlace, lastStop⟩
    · rfl
    · cases lastKind <;> rfl

theorem readArguments_unplaced (method : String) (signature : Signature)
    (start other steps count : Nat) (stream : Stream) :
    reader.unplaced.readArguments unplacedInner method signature other steps count
        stream.unplaced =
      (reader.readArguments readInner method signature start steps count stream).unplaced := by
  have hkind : ∀ token : Option Token,
      (token.map Token.unplaced).map Token.kind = token.map Token.kind := by
    intro token
    cases token <;> rfl
  induction steps generalizing count stream with
  | zero =>
      unfold readArguments
      rw [peek_unplaced]
      rcases stream.peek with ⟨error | token, rest⟩
      · rfl
      simp only [hkind]
      cases continuation signature count (token.map Token.kind) <;> rfl
  | succ steps ih =>
      unfold readArguments
      rw [peek_unplaced]
      rcases stream.peek with ⟨error | token, rest⟩
      · rfl
      simp only [hkind]
      cases continuation signature count (token.map Token.kind) with
      | finish => rfl
      | lacking parameter => rfl
      | option flag =>
          simp only [drop_unplaced, hinner]
          rcases readInner rest.drop with ⟨error | value, middle⟩
          · rfl
          simp only [Step.unplaced_ok, ih]
          rcases reader.readArguments readInner method signature start steps count middle with
            ⟨error | others, final⟩ <;> rfl
      | positional =>
          simp only [hinner]
          rcases readInner rest with ⟨error | argument, middle⟩
          · rfl
          simp only [Step.unplaced_ok, ih]
          rcases reader.readArguments readInner method signature start steps (count + 1) middle
            with ⟨error | others, final⟩ <;> rfl

theorem readFrom_unplaced (token : Token) (stream : Stream) :
    reader.unplaced.readFrom unplacedInner token.unplaced stream.unplaced =
      (reader.readFrom readInner token stream).unplaced := by
  obtain ⟨kind, start, stop⟩ := token
  cases kind with
  | quote => exact readQuoted_unplaced reader hinner stream
  | opening => exact readGroup_unplaced reader hinner start 0 stream
  | identifier name =>
      simp only [readFrom, Token.unplaced, Reader.unplaced]
      cases reader.signatures name with
      | none => rfl
      | some signature =>
          have harguments := readArguments_unplaced reader hinner name signature start 0
            stream.size 0 stream
          have hsize : stream.unplaced.size = stream.size := List.length_map _
          rw [Reader.unplaced] at harguments
          simp only [hsize, harguments]
          rcases reader.readArguments readInner name signature start stream.size 0 stream with
            ⟨error | arguments, final⟩ <;> rfl
  | _ => rfl

end

theorem readForm_unplaced (reader : Reader) (levels : Nat) (stream : Stream) :
    reader.unplaced.readForm levels stream.unplaced =
      (reader.readForm levels stream).unplaced := by
  induction levels generalizing stream with
  | zero =>
      unfold readForm
      rw [next_unplaced]
      rcases stream.next with ⟨error | token, rest⟩
      · rfl
      · cases token <;> rfl
  | succ levels ih =>
      unfold readForm
      rw [next_unplaced]
      rcases stream.next with ⟨error | token, rest⟩
      · rfl
      cases token with
      | none => rfl
      | some token => exact readFrom_unplaced reader ih token rest

theorem isFinished_unplaced (stream : Stream) :
    isFinished stream.unplaced = (isFinished stream).unplaced := by
  unfold isFinished
  rw [peek_unplaced]
  rcases stream.peek with ⟨error | token, rest⟩
  · rfl
  · cases token <;> rfl

end Reader

end ArityScript
