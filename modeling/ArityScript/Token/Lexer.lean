import ArityScript.Error
import ArityScript.Text.Blank
import ArityScript.Text.Snippet
import ArityScript.Token

/-!
# Tokens of a source text

A source is read from left to right into tokens.  Blank characters separate
tokens and are skipped, as are comments where they are enabled.  Parentheses
and the quote mark are tokens of their own, a double quote opens a string, and
everything else is a word that ends before the next blank, parenthesis or
double quote.  Reading stops at the first word or string that is malformed.

The recognisers work on the characters that are left; a position in the source
is the width of the whole source less the width of what is left.
-/

namespace ArityScript

namespace Lexer

/-- Skips blank characters and, where `comments` holds, comments from `#` to
the end of the line.  `inComment` says that a comment has begun. -/
def skipBlanks (comments : Bool) : (inComment : Bool) → List Char → List Char
  | _, [] => []
  | true, c :: rest => skipBlanks comments (c != '\n') rest
  | false, c :: rest =>
      if Text.isBlank c then skipBlanks comments false rest
      else if comments && c == '#' then skipBlanks comments true rest
      else c :: rest

def endsWord (c : Char) : Bool :=
  Text.isBlank c || c == '(' || c == ')' || c == '"'

def frontWord (chars : List Char) : List Char :=
  chars.takeWhile (fun c => !endsWord c)

def afterWord (chars : List Char) : List Char :=
  chars.dropWhile (fun c => !endsWord c)

/-- The token of a word that does not start as a number does. -/
def plainWord : List Char → TokenKind
  | '-' :: '-' :: c :: rest =>
      if c = '-' then .identifier (String.ofList ('-' :: '-' :: c :: rest))
      else .flag (String.ofList (c :: rest))
  | word =>
      if word = "true".toList then .bool true
      else if word = "false".toList then .bool false
      else .identifier (String.ofList word)

/-- The token of a word.  A word that starts as a number does has to be one. -/
def readWord (word : List Char) : Except LexErrorKind TokenKind :=
  if Number.isNumeral word then
    match Number.ofInt? (Number.numeralValue word) with
    | some n => .ok (.number n)
    | none => .error .numberOutOfRange
  else if Number.startsNumeral word then .error .invalidNumber
  else .ok (plainWord word)

def literalErrorKind : Text.LiteralFault → LexErrorKind
  | .unterminated => .unterminatedString
  | .unknownEscape => .invalidEscape

/-- Reads the token at the front of a text that starts with the given
character.  The result is the token and what follows it, or a failure and the
text from the faulty place on. -/
def readToken (c : Char) (rest : List Char) :
    Except (LexErrorKind × List Char) (TokenKind × List Char) :=
  if c = '(' then .ok (.opening, rest)
  else if c = ')' then .ok (.closing, rest)
  else if c = '\'' then .ok (.quote, rest)
  else if c = '"' then
    match Text.readLiteral rest with
    | .ok (chars, after) => .ok (.string (String.ofList chars), after)
    | .error (fault, faulty) => .error (literalErrorKind fault, faulty)
  else
    match readWord (frontWord (c :: rest)) with
    | .ok kind => .ok (kind, afterWord (c :: rest))
    | .error kind => .error (kind, c :: rest)

/-! ## Progress -/

theorem length_skipBlanks_le (comments inComment : Bool) (chars : List Char) :
    (skipBlanks comments inComment chars).length ≤ chars.length := by
  induction chars generalizing inComment with
  | nil => cases inComment <;> simp [skipBlanks]
  | cons c rest ih =>
      cases inComment with
      | true =>
          have := ih (c != '\n')
          simp only [skipBlanks, List.length_cons]
          omega
      | false =>
          simp only [skipBlanks]
          split
          · have := ih false
            simp only [List.length_cons]
            omega
          · split
            · have := ih true
              simp only [List.length_cons]
              omega
            · exact Nat.le_refl _

/-- Only a character that starts a token of one character, a string or a word
is read; the front character of a word never ends it. -/
theorem length_afterWord_le {c : Char} {rest : List Char} :
    endsWord c = false → (afterWord (c :: rest)).length ≤ rest.length := by
  intro hword
  simp only [afterWord, List.dropWhile_cons, hword, Bool.not_false, if_true]
  exact (List.dropWhile_suffix _).length_le

theorem length_le_of_readToken {c : Char} {rest after : List Char}
    {kind : TokenKind} (hblank : Text.isBlank c = false)
    (hread : readToken c rest = .ok (kind, after)) :
    after.length ≤ rest.length := by
  unfold readToken at hread
  split at hread
  · simp only [Except.ok.injEq, Prod.mk.injEq] at hread
    simp [hread.2]
  · split at hread
    · simp only [Except.ok.injEq, Prod.mk.injEq] at hread
      simp [hread.2]
    · split at hread
      · simp only [Except.ok.injEq, Prod.mk.injEq] at hread
        simp [hread.2]
      · split at hread
        · split at hread
          · next chars after' hliteral =>
              simp only [Except.ok.injEq, Prod.mk.injEq] at hread
              have := Text.length_lt_of_readLiteral hliteral
              rw [hread.2] at this
              omega
          · simp at hread
        · next hopen hclose _ hstring =>
            split at hread
            · simp only [Except.ok.injEq, Prod.mk.injEq] at hread
              rw [← hread.2]
              apply length_afterWord_le
              simp [endsWord, hblank, hopen, hclose, hstring]
            · simp at hread

theorem isBlank_of_skipBlanks {comments inComment : Bool} {chars : List Char}
    {c : Char} {rest : List Char}
    (hskip : skipBlanks comments inComment chars = c :: rest) :
    Text.isBlank c = false := by
  induction chars generalizing inComment with
  | nil => cases inComment <;> simp [skipBlanks] at hskip
  | cons d chars ih =>
      cases inComment with
      | true =>
          simp only [skipBlanks] at hskip
          exact ih hskip
      | false =>
          simp only [skipBlanks] at hskip
          split at hskip
          · exact ih hskip
          · next hblank =>
              split at hskip
              · exact ih hskip
              · obtain ⟨rfl, rfl⟩ := List.cons.inj hskip
                simpa using hblank

/-! ## Whole sources -/

/-- A malformed token: the kind of failure, the byte offsets of the token and
of the faulty place in it, and the start of its text. -/
structure Fault where
  kind : LexErrorKind
  start : Nat
  place : Nat
  found : List Char
deriving DecidableEq, Repr

def foundLength : Nat := 20

def shownStart (chars : List Char) : List Char :=
  (chars.takeWhile (fun c => !Text.isBlank c)).take foundLength

/-- The tokens of a source, the malformed token at which reading stopped, and
the byte offset at which it stopped. -/
structure Scan where
  tokens : List Token
  fault : Option Fault
  stop : Nat
deriving DecidableEq, Repr

def Scan.push (token : Token) (scan : Scan) : Scan :=
  { scan with tokens := token :: scan.tokens }

/-- Reads all tokens of what is left of a source that is `total` bytes wide. -/
def scanFrom (comments : Bool) (total : Nat) (chars : List Char) : Scan :=
  match _hskip : skipBlanks comments false chars with
  | [] => ⟨[], none, total⟩
  | c :: rest =>
      let start := total - Text.width (c :: rest)
      match _hread : readToken c rest with
      | .ok (kind, after) =>
          Scan.push ⟨kind, start, total - Text.width after⟩
            (scanFrom comments total after)
      | .error (kind, faulty) =>
          ⟨[], some ⟨kind, start, total - Text.width faulty, shownStart (c :: rest)⟩,
            start⟩
termination_by chars.length
decreasing_by
  have hshorter := length_le_of_readToken (isBlank_of_skipBlanks _hskip) _hread
  have hskipped := length_skipBlanks_le comments false chars
  rw [_hskip, List.length_cons] at hskipped
  omega

def scan (comments : Bool) (source : List Char) : Scan :=
  scanFrom comments (Text.width source) source

def Fault.toError (source : List Char) (fault : Fault) : LexError where
  kind := fault.kind
  context := String.ofList (Text.snippet source fault.place)
  found := String.ofList fault.found

end Lexer

structure Tokens where
  tokens : List Token
  error : Option LexError
  stop : Nat
deriving DecidableEq, Repr

/-- Reads a source text into tokens.  `comments` says whether `#` starts a
comment. -/
def tokenize (comments : Bool) (source : String) : Tokens :=
  let chars := source.toList
  let scan := Lexer.scan comments chars
  ⟨scan.tokens, scan.fault.map (fun fault => fault.toError chars), scan.stop⟩

end ArityScript
