import ArityScript.Text.Quoted
import ArityScript.Token

/-!
# The text of a token

Errors show the token at which they arose.  Every token but a string is shown
as it is written; a string is shown quoted, so that it stays on one line.
-/

namespace ArityScript

def TokenKind.text : TokenKind → List Char
  | .number n => n.text
  | .string s => Text.quoted s.toList
  | .bool b => if b then "true".toList else "false".toList
  | .identifier name => name.toList
  | .quote => ['\'']
  | .flag name => '-' :: '-' :: name.toList
  | .opening => ['(']
  | .closing => [')']

def TokenKind.render (kind : TokenKind) : String :=
  String.ofList kind.text

end ArityScript
