import ArityScript.Token.Lexer

/-!
# Token streams

Forms are read from a stream of tokens.  A stream ends where the source does,
or at its malformed token; the failure is met once, by whoever looks for the
next token first, and after it the stream is finished.
-/

namespace ArityScript

/-- The tokens that are still to be read, and the failure after them. -/
structure Stream where
  pending : List Token
  fault : Option LexError
deriving DecidableEq, Repr

def Tokens.toStream (tokens : Tokens) : Stream :=
  ⟨tokens.tokens, tokens.error⟩

namespace Stream

/-- The next token, which stays in the stream; none at the end. -/
def peek : Stream → Except Error (Option Token) × Stream
  | ⟨token :: rest, fault⟩ => (.ok (some token), ⟨token :: rest, fault⟩)
  | ⟨[], some error⟩ => (.error (.lex error), ⟨[], none⟩)
  | ⟨[], none⟩ => (.ok none, ⟨[], none⟩)

def next : Stream → Except Error (Option Token) × Stream
  | ⟨token :: rest, fault⟩ => (.ok (some token), ⟨rest, fault⟩)
  | ⟨[], some error⟩ => (.error (.lex error), ⟨[], none⟩)
  | ⟨[], none⟩ => (.ok none, ⟨[], none⟩)

def drop : Stream → Stream
  | ⟨_ :: rest, fault⟩ => ⟨rest, fault⟩
  | ⟨[], fault⟩ => ⟨[], fault⟩

def size (stream : Stream) : Nat :=
  stream.pending.length

end Stream

end ArityScript
