import ArityScript.Form.Printer
import ArityScript.Proofs.Spelling.Words

/-!
# String literals in any text

A double quote is escaped if an odd number of backslashes stands directly before it,
and the first one that is not escaped closes a literal, whatever follows.  An escape
that is not known breaks the literal off, if it comes first, and without either of
them the literal is not terminated.  The text in which a string is written is read
back as this string.
-/

namespace ArityScript

namespace Text

/-! ## Escaped characters -/

/-- The number of backslashes at the end of a text. -/
def backslashes (before : List Char) : Nat :=
  (before.reverse.takeWhile (· == '\\')).length

/-- Whether the character after a text is escaped by it. -/
def Escapes (before : List Char) : Prop :=
  backslashes before % 2 = 1

instance (before : List Char) : Decidable (Escapes before) :=
  inferInstanceAs (Decidable (_ = _))

theorem not_escapes_nil : ¬Escapes [] := by decide

/-- What is escaped does not depend on an earlier text that escapes nothing after it. -/
theorem escapes_append {front : List Char} (hfront : ¬Escapes front) (before : List Char) :
    Escapes (front ++ before) ↔ Escapes before := by
  simp only [Escapes, backslashes, List.reverse_append, List.takeWhile_append] at hfront ⊢
  split
  next hall =>
    rw [List.length_append, ← hall]
    omega
  next => rfl

theorem escapes_cons {c : Char} (hc : c ≠ '\\') (before : List Char) :
    Escapes (c :: before) ↔ Escapes before := by
  have hplain : ¬Escapes [c] := by simp [Escapes, backslashes, hc]
  exact escapes_append hplain before

/-- A backslash at the front escapes the next character and nothing after it. -/
theorem escapes_pair (letter : Char) (before : List Char) :
    Escapes ('\\' :: letter :: before) ↔ Escapes before := by
  have hpair : ¬Escapes ['\\', letter] := by
    by_cases hletter : letter = '\\'
    · subst hletter
      decide
    · simp [Escapes, backslashes, hletter]
  exact escapes_append hpair before

/-! ## Open literals -/

/-- A literal that is open stays open over a text. -/
def StaysOpen (inside : List Char) : Prop :=
  ∀ before rest, inside = before ++ rest → Stops rest → Escapes before

theorem staysOpen_nil : StaysOpen [] := by
  intro before rest hsplit hstops
  rw [List.nil_eq_append_iff] at hsplit
  rw [hsplit.2] at hstops
  cases hstops

theorem StaysOpen.cons {c : Char} {inside : List Char} (hopen : StaysOpen inside)
    (hquote : c ≠ '"') (hescape : c ≠ '\\') : StaysOpen (c :: inside) := by
  intro before rest hsplit hstops
  cases before with
  | nil =>
      rw [List.nil_append] at hsplit
      rw [← hsplit] at hstops
      cases hstops <;> contradiction
  | cons d before =>
      rw [List.cons_append] at hsplit
      cases hsplit
      rw [escapes_cons hescape]
      exact hopen before rest rfl hstops

theorem StaysOpen.pair {letter : Char} {inside : List Char} (hopen : StaysOpen inside)
    (hletter : letter ∈ escapeLetters) : StaysOpen ('\\' :: letter :: inside) := by
  intro before rest hsplit hstops
  -- The place may be at the backslash, at its letter, or after both.
  rcases before with _ | ⟨c, _ | ⟨d, before⟩⟩
  · rw [List.nil_append] at hsplit
    rw [← hsplit] at hstops
    cases hstops
    contradiction
  · cases hsplit
    decide
  · rw [List.cons_append, List.cons_append] at hsplit
    cases hsplit
    rw [escapes_pair]
    exact hopen before rest rfl hstops

theorem staysOpen_backslash : StaysOpen ['\\'] := by
  intro before rest hsplit hstops
  rcases List.append_eq_singleton_iff.1 hsplit.symm with ⟨rfl, rfl⟩ | ⟨rfl, rfl⟩
  · cases hstops
  · cases hstops

variable {chars written : List Char}

theorem WrittenInLiteral.escapes_append (hwritten : WrittenInLiteral chars written)
    (more : List Char) : Escapes (written ++ more) ↔ Escapes more := by
  induction hwritten with
  | nil => rfl
  | plain _ hescape _ ih => rw [List.cons_append, escapes_cons hescape, ih]
  | escaped _ _ ih => rw [List.cons_append, List.cons_append, escapes_pair, ih]

theorem WrittenInLiteral.staysOpen_append (hwritten : WrittenInLiteral chars written)
    {more : List Char} (hmore : StaysOpen more) : StaysOpen (written ++ more) := by
  induction hwritten with
  | nil => exact hmore
  | plain hquote hescape _ ih => exact ih.cons hquote hescape
  | escaped hletter _ ih =>
      refine ih.pair (Decidable.not_not.1 fun hunknown => ?_)
      rw [← unescapeChar_eq_none_iff, hletter] at hunknown
      cases hunknown

theorem WrittenInLiteral.not_escapes (hwritten : WrittenInLiteral chars written) :
    ¬Escapes written := by
  have hescapes := hwritten.escapes_append []
  rw [List.append_nil] at hescapes
  rw [hescapes]
  exact not_escapes_nil

theorem WrittenInLiteral.staysOpen (hwritten : WrittenInLiteral chars written) :
    StaysOpen written := by
  have hopen := hwritten.staysOpen_append staysOpen_nil
  rwa [List.append_nil] at hopen

/-- A text over which a literal stays open is written inside of it, but for a last
backslash. -/
theorem StaysOpen.exists_written {inside : List Char} (hopen : StaysOpen inside) :
    ∃ chars written, WrittenInLiteral chars written ∧
      inside = written ++ if Escapes inside then ['\\'] else [] := by
  obtain ⟨chars, written, rest, rfl, hwritten, hrest⟩ := Text.exists_written inside
  refine ⟨chars, written, hwritten, ?_⟩
  simp only [hwritten.escapes_append]
  rcases hrest with hstops | rfl | rfl
  · exact absurd (hopen written rest rfl hstops) hwritten.not_escapes
  · rfl
  · rfl

end Text

/-! ## Reading literals -/

namespace Lexer

open Text

/-- What is read from a text after an opening double quote. -/
inductive LiteralRead : (text : List Char) →
    Except (LexErrorKind × List Char) (TokenKind × List Char) → Prop where
  /-- The first double quote that is not escaped closes the literal. -/
  | closed {chars inside : List Char} (after : List Char) : StaysOpen inside →
      ¬Escapes inside → WrittenInLiteral chars inside →
      LiteralRead (inside ++ '"' :: after) (.ok (.string (String.ofList chars), after))
  /-- An escape that is not known comes before that. -/
  | unknownEscape {inside : List Char} {letter : Char} (after : List Char) :
      StaysOpen inside → ¬Escapes inside → letter ∉ escapeLetters →
      LiteralRead (inside ++ '\\' :: letter :: after)
        (.error (.invalidEscape, '\\' :: letter :: after))
  /-- Neither of them comes. -/
  | unterminated {text : List Char} : StaysOpen text →
      LiteralRead text
        (.error (.unterminatedString, if Escapes text then ['\\'] else []))

theorem readToken_quote (text : List Char) :
    readToken '"' text =
      match readLiteral text with
      | .ok (chars, after) => .ok (.string (String.ofList chars), after)
      | .error (fault, faulty) => .error (literalErrorKind fault, faulty) := rfl

theorem LiteralRead.readToken_eq {text : List Char}
    {result : Except (LexErrorKind × List Char) (TokenKind × List Char)}
    (hread : LiteralRead text result) : readToken '"' text = result := by
  rw [readToken_quote]
  cases hread with
  | closed after _ _ hwritten => rw [readLiteral_written hwritten]
  | @unknownEscape inside letter after hopen hescapes hletter =>
      obtain ⟨chars, written, hwritten, hinside⟩ := hopen.exists_written
      rw [if_neg hescapes, List.append_nil] at hinside
      subst hinside
      rw [hwritten.readLiteral_append, readLiteral_unknownEscape hletter]
      rfl
  | unterminated hopen =>
      obtain ⟨chars, written, hwritten, hinside⟩ := hopen.exists_written
      generalize hlast : (if Escapes text then ['\\'] else []) = last at hinside
      rw [hinside, hwritten.readLiteral_append]
      split at hlast
      · rw [← hlast]
        rfl
      · rw [← hlast]
        rfl

theorem literalRead_readToken (text : List Char) : LiteralRead text (readToken '"' text) := by
  obtain ⟨chars, written, rest, rfl, hwritten, hrest⟩ := Text.exists_written text
  have hopen := hwritten.staysOpen
  have hplain := hwritten.not_escapes
  rcases hrest with hstops | rfl | rfl
  · cases hstops with
    | quote after =>
        have hread := LiteralRead.closed after hopen hplain hwritten
        rwa [hread.readToken_eq]
    | unknownEscape after hletter =>
        have hread := LiteralRead.unknownEscape after hopen hplain hletter
        rwa [hread.readToken_eq]
  · have hread := LiteralRead.unterminated (hwritten.staysOpen_append staysOpen_nil)
    rwa [hread.readToken_eq]
  · have hread := LiteralRead.unterminated (hwritten.staysOpen_append staysOpen_backslash)
    rwa [hread.readToken_eq]

/-- A string is read back from the text in which it is written, whatever follows.  A
text after a double quote is read up to the first double quote that is not escaped,
unless an unknown escape comes before it, which is where reading fails then; without
either of them it is an unterminated string. -/
theorem literals_read_exactly :
    (∀ (s : String) (after : List Char), ∃ text,
      (Value.string s).text ++ after = '"' :: text ∧
        readToken '"' text = .ok (.string s, after)) ∧
    ∀ text result, readToken '"' text = result ↔ LiteralRead text result := by
  constructor
  · intro s after
    have htext : (Value.string s).text = '"' :: escape s.toList ++ ['"'] := rfl
    have hwritten := writtenInLiteral_escape s.toList
    have hread := LiteralRead.closed after hwritten.staysOpen hwritten.not_escapes hwritten
    rw [String.ofList_toList] at hread
    exact ⟨escape s.toList ++ '"' :: after, by simp [htext], hread.readToken_eq⟩
  · intro text result
    constructor
    · rintro rfl
      exact literalRead_readToken text
    · exact LiteralRead.readToken_eq

/-- Two backslashes are one, and the double quote after them is not escaped. -/
example : readToken '"' "\\\\\"\\\"".toList = .ok (.string "\\", "\\\"".toList) := rfl

end Lexer

end ArityScript
