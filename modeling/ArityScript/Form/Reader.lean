import ArityScript.Signature
import ArityScript.Token.Printer
import ArityScript.Token.Stream

/-!
# Reading forms

The extent of a form follows from the signatures of the visible methods.  A
word that names a method starts a call, which takes one form for each required
parameter, a value after each flag, and everything up to the next closing
parenthesis where a rest parameter is declared.  Parentheses enclose exactly
one form.  A quote mark directly before a method's name quotes the name alone.

A flag among the arguments of a call that still takes positional arguments
belongs to the call, declared or not.  Once the call has all it takes, a flag
that it does not declare ends it and is left to an enclosing call.

Every quote, group and argument is one level of nesting, and the levels are
limited.  A failure leaves the stream where it arose.
-/

namespace ArityScript

/-- The most levels of nesting in a source text. -/
def maxReadDepth : Nat := 64

/-- What reading forms depends on: the source, of which errors show a piece,
and the signatures of the visible methods. -/
structure Reader where
  source : List Char
  signatures : Signatures

namespace Reader

/-- The result of reading from a stream, and what is left of the stream. -/
abbrev Step (α : Type) := Except Error α × Stream

def errorAt (reader : Reader) (cause : ParseCause) (place : Nat)
    (found : Option String) : Error :=
  .parse ⟨cause, some (String.ofList (Text.snippet reader.source place)), found⟩

def errorAtToken (reader : Reader) (cause : ParseCause) (token : Token) : Error :=
  reader.errorAt cause token.start (some token.kind.render)

def endOfInput (reader : Reader) : Error :=
  reader.errorAt .endOfInput (Text.width reader.source) none

/-- The error for a token where a form has already ended. -/
def leftover (reader : Reader) (place : LeftoverPlace) (token : Token) : Error :=
  match token.kind with
  | .closing => reader.errorAtToken .unmatchedClose token
  | .flag name => reader.errorAtToken (.unclaimedFlag name) token
  | _ => reader.errorAtToken (.leftover place) token

/-- The method that a quote mark quotes by its bare name, if the next token is
such a name. -/
def quotedMethod (reader : Reader) (stream : Stream) : Step (Option String) :=
  match stream.peek with
  | (.error error, rest) => (.error error, rest)
  | (.ok (some ⟨.identifier name, _, _⟩), rest) =>
      if (reader.signatures name).isSome then (.ok (some name), rest.drop)
      else (.ok none, rest)
  | (.ok _, rest) => (.ok none, rest)

def readQuoted (reader : Reader) (readInner : Stream → Step Form)
    (stream : Stream) : Step Form :=
  match reader.quotedMethod stream with
  | (.error error, rest) => (.error error, rest)
  | (.ok (some method), rest) => (.ok (.quoted (.call method [])), rest)
  | (.ok none, rest) =>
      match readInner rest with
      | (.error error, rest) => (.error error, rest)
      | (.ok form, rest) => (.ok (.quoted form), rest)

/-- Reads what follows an opening parenthesis at the byte offset `start`, up to
the closing one. -/
def readGroup (reader : Reader) (readInner : Stream → Step Form) (start : Nat)
    (stream : Stream) : Step Form :=
  match stream.peek with
  | (.error error, rest) => (.error error, rest)
  | (.ok (some ⟨.closing, place, _⟩), rest) =>
      (.error (reader.errorAt .emptyGroup place (some "()")), rest)
  | (.ok _, rest) =>
      match readInner rest with
      | (.error error, rest) => (.error error, rest)
      | (.ok form, rest) =>
          match rest.next with
          | (.error error, rest) => (.error error, rest)
          | (.ok (some ⟨.closing, _, _⟩), rest) => (.ok form, rest)
          | (.ok (some token), rest) =>
              (.error (reader.leftover .beforeClose token), rest)
          | (.ok none, rest) =>
              (.error (reader.errorAt .unclosedGroup start (some "(")), rest)

/-- What the next token means for a call that is taking its arguments. -/
inductive Continuation where
  | finish
  /-- The call would end, but a required parameter has no argument. -/
  | lacking (parameter : String)
  | option (flag : String)
  | positional

/-- Decides how a call goes on that has `count` positional arguments. -/
def continuation (signature : Signature) (count : Nat) :
    Option TokenKind → Continuation
  | none | some .closing =>
      match signature.required[count]? with
      | some parameter => .lacking parameter
      | none => .finish
  | some (.flag flag) =>
      if signature.declares flag || signature.isPending count then .option flag
      else .finish
  | some _ => if signature.isPending count then .positional else .finish

/-- The error for a call, started at the byte offset `start`, without an
argument for a required parameter. -/
def lackingError (reader : Reader) (method : String) (signature : Signature)
    (start count : Nat) (parameter : String) : Error :=
  reader.errorAt (.missingArgument method signature.arity count parameter) start
    (some method)

/-- Reads the arguments of a call that has `count` positional arguments so far.
An argument takes at least one token, so no more than `steps` of them can follow
where `steps` is the number of tokens left. -/
def readArguments (reader : Reader) (readInner : Stream → Step Form)
    (method : String) (signature : Signature) (start : Nat) :
    (steps count : Nat) → Stream → Step (List Form)
  | steps, count, stream =>
      match stream.peek with
      | (.error error, rest) => (.error error, rest)
      | (.ok token, rest) =>
          match continuation signature count (token.map Token.kind), steps with
          | .finish, _ => (.ok [], rest)
          | .lacking parameter, _ =>
              (.error (reader.lackingError method signature start count parameter),
                rest)
          | .option flag, steps + 1 =>
              match readInner rest.drop with
              | (.error error, rest) => (.error error, rest)
              | (.ok value, rest) =>
                  match readArguments reader readInner method signature start
                      steps count rest with
                  | (.error error, rest) => (.error error, rest)
                  | (.ok others, rest) => (.ok (.flag flag :: value :: others), rest)
          | .positional, steps + 1 =>
              match readInner rest with
              | (.error error, rest) => (.error error, rest)
              | (.ok argument, rest) =>
                  match readArguments reader readInner method signature start
                      steps (count + 1) rest with
                  | (.error error, rest) => (.error error, rest)
                  | (.ok others, rest) => (.ok (argument :: others), rest)
          | _, 0 => (.ok [], rest)

/-- Reads the form that starts with a token.  `readInner` reads a form one
level deeper. -/
def readFrom (reader : Reader) (readInner : Stream → Step Form) (token : Token)
    (stream : Stream) : Step Form :=
  match token.kind with
  | .number n => (.ok (.literal (.number n)), stream)
  | .string s => (.ok (.literal (.string s)), stream)
  | .bool b => (.ok (.literal (.bool b)), stream)
  | .quote => reader.readQuoted readInner stream
  | .opening => reader.readGroup readInner token.start stream
  | .closing => (.error (reader.errorAtToken .unmatchedClose token), stream)
  | .flag name => (.error (reader.errorAtToken (.leadingFlag name) token), stream)
  | .identifier name =>
      match reader.signatures name with
      | none => (.ok (.variable name), stream)
      | some signature =>
          match reader.readArguments readInner name signature token.start
              stream.size 0 stream with
          | (.error error, rest) => (.error error, rest)
          | (.ok arguments, rest) => (.ok (.call name arguments), rest)

/-- Reads the next form, which may nest `levels` deep. -/
def readForm (reader : Reader) : (levels : Nat) → Stream → Step Form
  | levels, stream =>
      match stream.next with
      | (.error error, rest) => (.error error, rest)
      | (.ok none, rest) => (.error reader.endOfInput, rest)
      | (.ok (some token), rest) =>
          match levels with
          | 0 => (.error (reader.errorAtToken (.tooDeep maxReadDepth) token), rest)
          | levels + 1 => reader.readFrom (reader.readForm levels) token rest

def next (reader : Reader) (stream : Stream) : Step Form :=
  reader.readForm maxReadDepth stream

def isFinished (stream : Stream) : Step Bool :=
  match stream.peek with
  | (.error error, rest) => (.error error, rest)
  | (.ok token, rest) => (.ok token.isNone, rest)

/-- Reads a stream as exactly one form. -/
def readOnly (reader : Reader) (stream : Stream) : Except Error Form :=
  match reader.next stream with
  | (.error error, _) => .error error
  | (.ok form, rest) =>
      match rest.peek with
      | (.error error, _) => .error error
      | (.ok none, _) => .ok form
      | (.ok (some token), _) => .error (reader.leftover .afterExpression token)

inductive Answer where
  | finished
  | failed (error : Error)
  | form (form : Form)

/-- Reads a stream form by form, going on after failures, for at most `limit`
rounds or until it is finished. -/
def answers (reader : Reader) : (limit : Nat) → Stream → List Answer
  | 0, _ => []
  | limit + 1, stream =>
      match isFinished stream with
      | (.error error, rest) => .failed error :: reader.answers limit rest
      | (.ok true, _) => [.finished]
      | (.ok false, rest) =>
          match reader.next rest with
          | (.error error, rest) => .failed error :: reader.answers limit rest
          | (.ok form, rest) => .form form :: reader.answers limit rest

end Reader

/-- Reads a source text as exactly one form. -/
def parse (signatures : Signatures) (comments : Bool) (source : String) :
    Except Error Form :=
  Reader.readOnly ⟨source.toList, signatures⟩ (tokenize comments source).toStream

/-- Reads a source text form by form, for at most `limit` rounds. -/
def parseAll (signatures : Signatures) (comments : Bool) (limit : Nat)
    (source : String) : List Reader.Answer :=
  Reader.answers ⟨source.toList, signatures⟩ limit (tokenize comments source).toStream

end ArityScript
