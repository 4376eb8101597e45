import ArityScript.Number

/-!
# Tokens

A token is a lexical category with its content, and the bytes of the source
that it takes.
-/

namespace ArityScript

inductive TokenKind where
  | number (n : Number)
  | string (s : String)
  | bool (b : Bool)
  /-- Any other word, operators included. -/
  | identifier (name : String)
  | quote
  /-- The mark of an option; holds the name without its dashes. -/
  | flag (name : String)
  | opening
  | closing
deriving DecidableEq, Repr, Inhabited

structure Token where
  kind : TokenKind
  start : Nat
  stop : Nat
deriving DecidableEq, Repr, Inhabited

end ArityScript
