/-!
# Escapes in string literals

A string literal stands between double quotes.  Five characters are written
with a backslash: the quote, the backslash itself, and the three control
characters that have a letter.  All others stand for themselves, so a literal
may run over several lines.

`escape` writes the inside of a literal, `readLiteral` reads it up to the
closing quote and says what is left.
-/

namespace ArityScript.Text

/-- The character that a letter after a backslash denotes. -/
def unescapeChar : Char → Option Char
  | 'n' => some '\n'
  | 't' => some '\t'
  | 'r' => some '\r'
  | '\\' => some '\\'
  | '"' => some '"'
  | _ => none

def escapeChar : Char → List Char
  | '"' => ['\\', '"']
  | '\\' => ['\\', '\\']
  | '\n' => ['\\', 'n']
  | '\t' => ['\\', 't']
  | '\r' => ['\\', 'r']
  | c => [c]

def escape : List Char → List Char
  | [] => []
  | c :: rest => escapeChar c ++ escape rest

def literal (chars : List Char) : List Char :=
  '"' :: escape chars ++ ['"']

inductive LiteralFault where
  /-- The text ends before the closing quote. -/
  | unterminated
  /-- A backslash stands before a character that has no escape. -/
  | unknownEscape
deriving DecidableEq, Repr

/-- Reads the inside of a string literal.  The result is its text and what
follows the closing quote, or a fault and the text from the faulty place on. -/
def readLiteral :
    List Char → Except (LiteralFault × List Char) (List Char × List Char)
  | [] => .error (.unterminated, [])
  | '"' :: rest => .ok ([], rest)
  | ['\\'] => .error (.unterminated, ['\\'])
  | '\\' :: letter :: rest =>
      match unescapeChar letter with
      | none => .error (.unknownEscape, '\\' :: letter :: rest)
      | some c =>
          match readLiteral rest with
          | .ok (chars, after) => .ok (c :: chars, after)
          | .error fault => .error fault
  | c :: rest =>
      match readLiteral rest with
      | .ok (chars, after) => .ok (c :: chars, after)
      | .error fault => .error fault

theorem length_lt_of_readLiteral {text chars after : List Char}
    (hread : readLiteral text = .ok (chars, after)) :
    after.length < text.length := by
  fun_induction readLiteral text generalizing chars after with
  | case1 => simp at hread
  | case2 rest =>
      simp only [Except.ok.injEq, Prod.mk.injEq] at hread
      simp [← hread.2]
  | case3 => simp at hread
  | case4 => simp at hread
  | case5 letter rest c hletter chars' after' hrest ih =>
      simp only [Except.ok.injEq, Prod.mk.injEq] at hread
      have := ih hrest
      simp only [List.length_cons, ← hread.2]
      omega
  | case6 => simp at hread
  | case7 c rest hquote hlone hescape chars' after' hrest ih =>
      simp only [Except.ok.injEq, Prod.mk.injEq] at hread
      have := ih hrest
      simp only [List.length_cons, ← hread.2]
      omega
  | case8 => simp at hread

end ArityScript.Text
