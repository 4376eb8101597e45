import ArityScript.Proofs.Spelling

/-!
# Texts line after line

A line feed ends every word and every comment.  A text without a malformed token
that is continued on the next line therefore keeps its tokens, and after them
come those of the continuation: the same tokens as if it stood alone, later by
the width of what stands before it.
-/

namespace ArityScript

namespace Text

/-- A literal is read in the same way whatever follows it. -/
theorem readLiteral_append {chars text left : List Char} (more : List Char)
    (hread : readLiteral chars = .ok (text, left)) :
    readLiteral (chars ++ more) = .ok (text, left ++ more) := by
  obtain ⟨written, rfl, hwritten⟩ := exists_written_of_readLiteral hread
  rw [List.append_assoc, List.cons_append]
  exact readLiteral_written hwritten (left ++ more)

end Text

namespace Lexer

/-- What a recogniser leaves of its text, from the faulty place on if it fails. -/
def left {ε α : Type} : Except (ε × List Char) (α × List Char) → List Char
  | .ok (_, after) => after
  | .error (_, faulty) => faulty

theorem left_readLiteral_suffix (chars : List Char) :
    left (Text.readLiteral chars) <:+ chars := by
  obtain ⟨front, written, rest, rfl, hwritten, hrest⟩ := Text.exists_written chars
  have hleft : left (Text.readLiteral (written ++ rest)) = left (Text.readLiteral rest) := by
    rw [hwritten.readLiteral_append]
    cases Text.readLiteral rest <;> rfl
  rw [hleft]
  refine List.IsSuffix.trans ?_ (List.suffix_append written rest)
  rcases hrest with hstops | rfl | rfl
  · cases hstops with
    | quote after => exact List.suffix_cons _ _
    | unknownEscape after hletter =>
        rw [Text.readLiteral_unknownEscape hletter]
        exact List.suffix_refl _
  · exact List.suffix_refl _
  · exact List.suffix_refl _

theorem left_readToken_suffix (c : Char) (rest : List Char) :
    left (readToken c rest) <:+ c :: rest := by
  have hrest : rest <:+ c :: rest := List.suffix_cons _ _
  unfold readToken
  split
  · exact hrest
  split
  · exact hrest
  split
  · exact hrest
  split
  · have hliteral := left_readLiteral_suffix rest
    split
    next hread =>
      rw [hread] at hliteral
      exact hliteral.trans hrest
    next hread =>
      rw [hread] at hliteral
      exact hliteral.trans hrest
  · split
    · exact List.dropWhile_suffix _
    · exact List.suffix_refl _

theorem skipBlanks_suffix (comments inComment : Bool) (chars : List Char) :
    skipBlanks comments inComment chars <:+ chars := by
  induction chars generalizing inComment with
  | nil => cases inComment <;> exact List.suffix_refl _
  | cons c rest ih =>
      have hrest : rest <:+ c :: rest := List.suffix_cons _ _
      cases inComment with
      | true => exact (ih _).trans hrest
      | false =>
          simp only [skipBlanks]
          split
          · exact (ih _).trans hrest
          split
          · exact (ih _).trans hrest
          · exact List.suffix_refl _

end Lexer

/-! ## Later places -/

def Token.shift (offset : Nat) (token : Token) : Token :=
  { token with start := token.start + offset, stop := token.stop + offset }

namespace Lexer

def Fault.shift (offset : Nat) (fault : Fault) : Fault :=
  { fault with start := fault.start + offset, place := fault.place + offset }

def Scan.shift (offset : Nat) (scan : Scan) : Scan :=
  ⟨scan.tokens.map (Token.shift offset), scan.fault.map (Fault.shift offset),
    scan.stop + offset⟩

def Scan.prepend (tokens : List Token) (scan : Scan) : Scan :=
  { scan with tokens := tokens ++ scan.tokens }

theorem width_le_of_skipBlanks {comments : Bool} {chars rest : List Char} {c : Char}
    (hskip : skipBlanks comments false chars = c :: rest) :
    Text.width (c :: rest) ≤ Text.width chars := by
  have hsuffix := skipBlanks_suffix comments false chars
  rw [hskip] at hsuffix
  exact Text.width_le_of_suffix hsuffix

/-- The end of a wider source has the tokens of the same end of a narrower one. -/
theorem scanFrom_shift (comments : Bool) (offset : Nat) {total : Nat} {chars : List Char}
    (hwidth : Text.width chars ≤ total) :
    scanFrom comments (total + offset) chars =
      (scanFrom comments total chars).shift offset := by
  fun_induction scanFrom comments total chars with
  | case1 chars hskip =>
      rw [scanFrom_eq_nil hskip]
      rfl
  | case2 chars c rest hskip start kind after hread ih =>
      have hstart := width_le_of_skipBlanks hskip
      have hsuffix := left_readToken_suffix c rest
      rw [hread] at hsuffix
      have hafter : Text.width after ≤ Text.width (c :: rest) :=
        Text.width_le_of_suffix hsuffix
      have hshiftStart : total + offset - Text.width (c :: rest) = start + offset := by omega
      have hshiftStop : total + offset - Text.width after =
          total - Text.width after + offset := by omega
      rw [scanFrom_eq_push hskip hread, ih (by omega), hshiftStart, hshiftStop]
      rfl
  | case3 chars c rest hskip start kind faulty hread =>
      have hstart := width_le_of_skipBlanks hskip
      have hsuffix := left_readToken_suffix c rest
      rw [hread] at hsuffix
      have hfaulty : Text.width faulty ≤ Text.width (c :: rest) :=
        Text.width_le_of_suffix hsuffix
      have hshiftStart : total + offset - Text.width (c :: rest) = start + offset := by omega
      have hshiftPlace : total + offset - Text.width faulty =
          total - Text.width faulty + offset := by omega
      rw [scanFrom_eq_fault hskip hread, hshiftStart, hshiftPlace]
      rfl

/-! ## The next line -/

section

variable {comments : Bool}

/-- The blanks before a token are skipped in the same way whatever follows it. -/
theorem skipBlanks_append {inComment : Bool} {chars rest : List Char} {c : Char}
    (more : List Char) (hskip : skipBlanks comments inComment chars = c :: rest) :
    skipBlanks comments inComment (chars ++ more) = c :: (rest ++ more) := by
  induction chars generalizing inComment with
  | nil => cases inComment <;> cases hskip
  | cons d chars ih =>
      cases inComment with
      | true =>
          simp only [skipBlanks] at hskip
          simpa only [List.cons_append, skipBlanks] using ih hskip
      | false =>
          simp only [skipBlanks] at hskip
          simp only [List.cons_append, skipBlanks]
          split at hskip
          next hblank => rw [if_pos hblank, ih hskip]
          next hblank =>
            rw [if_neg hblank]
            split at hskip
            next hcomment => rw [if_pos hcomment, ih hskip]
            next hcomment =>
              rw [if_neg hcomment]
              cases hskip
              rfl

/-- Nothing of a text without tokens reaches into the next line, not even a
comment. -/
theorem skipBlanks_append_newline {inComment : Bool} {chars : List Char}
    (after : List Char) (hskip : skipBlanks comments inComment chars = []) :
    skipBlanks comments inComment (chars ++ '\n' :: after) =
      skipBlanks comments false after := by
  induction chars generalizing inComment with
  | nil => cases inComment <;> simp [skipBlanks, Text.isBlank_newline]
  | cons c chars ih =>
      cases inComment with
      | true =>
          simp only [skipBlanks] at hskip
          simpa only [List.cons_append, skipBlanks] using ih hskip
      | false =>
          simp only [skipBlanks] at hskip
          simp only [List.cons_append, skipBlanks]
          split at hskip
          next hblank => rw [if_pos hblank, ih hskip]
          next hblank =>
            rw [if_neg hblank]
            split at hskip
            next hcomment => rw [if_pos hcomment, ih hskip]
            next => cases hskip

theorem frontWord_append_newline (chars after : List Char) :
    frontWord (chars ++ '\n' :: after) = frontWord chars := by
  induction chars with
  | nil => simp [frontWord, endsWord, Text.isBlank_newline]
  | cons c chars ih =>
      simp only [frontWord, List.cons_append, List.takeWhile_cons] at ih ⊢
      rw [ih]

theorem afterWord_append_newline (chars after : List Char) :
    afterWord (chars ++ '\n' :: after) = afterWord chars ++ '\n' :: after := by
  induction chars with
  | nil => simp [afterWord, endsWord, Text.isBlank_newline]
  | cons c chars ih =>
      simp only [afterWord, List.cons_append, List.dropWhile_cons] at ih ⊢
      rw [ih]
      split <;> rfl

/-- A token of a text is read in the same way when the text goes on in the next
line. -/
theorem readToken_append_newline {c : Char} {rest stop : List Char} {kind : TokenKind}
    (after : List Char) (hread : readToken c rest = .ok (kind, stop)) :
    readToken c (rest ++ '\n' :: after) = .ok (kind, stop ++ '\n' :: after) := by
  unfold readToken at hread ⊢
  by_cases hopen : c = '('
  · rw [if_pos hopen] at hread ⊢
    cases hread
    rfl
  rw [if_neg hopen] at hread ⊢
  by_cases hclose : c = ')'
  · rw [if_pos hclose] at hread ⊢
    cases hread
    rfl
  rw [if_neg hclose] at hread ⊢
  by_cases hquote : c = '\''
  · rw [if_pos hquote] at hread ⊢
    cases hread
    rfl
  rw [if_neg hquote] at hread ⊢
  by_cases hstring : c = '"'
  · rw [if_pos hstring] at hread ⊢
    split at hread
    next hliteral =>
      cases hread
      rw [Text.readLiteral_append _ hliteral]
    next => cases hread
  rw [if_neg hstring] at hread ⊢
  -- The line feed ends a word as the end of the text does.
  have hfront := frontWord_append_newline (c :: rest) after
  have hafter := afterWord_append_newline (c :: rest) after
  rw [List.cons_append] at hfront hafter
  rw [hfront, hafter]
  cases hword : readWord (frontWord (c :: rest)) with
  | ok word =>
      rw [hword] at hread
      cases hread
      rfl
  | error fault =>
      rw [hword] at hread
      cases hread

/-- A text without a malformed token keeps its tokens when it goes on in the next
line, and those of the next line follow. -/
theorem scanFrom_append_newline (after : List Char) {total : Nat} {chars : List Char}
    (hfault : (scanFrom comments total chars).fault = none) :
    scanFrom comments (total + Text.width ('\n' :: after)) (chars ++ '\n' :: after) =
      (scanFrom comments (total + Text.width ('\n' :: after)) after).prepend
        (scanFrom comments total chars).tokens := by
  fun_induction scanFrom comments total chars with
  | case1 chars hskip =>
      exact scanFrom_congr (skipBlanks_append_newline after hskip)
  | case2 chars c rest hskip start kind stop hread ih =>
      have hmore := skipBlanks_append ('\n' :: after) hskip
      have hreadMore := readToken_append_newline after hread
      rw [scanFrom_eq_push hmore hreadMore, ih hfault, ← List.cons_append, Text.width_append,
        Text.width_append, Nat.add_sub_add_right, Nat.add_sub_add_right]
      rfl
  | case3 => cases hfault

end

/-- Reading two lines gives the tokens of the first and then those of the second,
each at its place. -/
theorem scan_append_newline {comments : Bool} {first second : List Char}
    (hfault : (scan comments first).fault = none) :
    scan comments (first ++ '\n' :: second) =
      ((scan comments second).shift (Text.width first + 1)).prepend
        (scan comments first).tokens := by
  have hwidth : Text.width first + Text.width ('\n' :: second) =
      Text.width second + (Text.width first + 1) := by
    rw [Text.width_cons, show '\n'.utf8Size = 1 from rfl]
    omega
  rw [scan, Text.width_append, scanFrom_append_newline second hfault, hwidth,
    scanFrom_shift comments _ (Nat.le_refl _)]
  rfl

end Lexer

section

variable {comments : Bool} {first : String}

/-- Reading two lines of a source, where the first has no malformed token. -/
theorem Lexer.scan_lines (second : String)
    (herror : (tokenize comments first).error = none) :
    scan comments (first ++ "\n" ++ second).toList =
      ((scan comments second.toList).shift (first.utf8ByteSize + 1)).prepend
        (tokenize comments first).tokens := by
  have hfault : (scan comments first.toList).fault = none := Option.map_eq_none_iff.1 herror
  have hsource : (first ++ "\n" ++ second).toList = first.toList ++ '\n' :: second.toList := by
    simp
  rw [hsource, scan_append_newline hfault, Text.width_toList]
  rfl

/-- The tokens of two lines are those of the first and then those of the second, later
by the first line and its line feed.  A malformed token of the second line is met with
the same failure and the same text at the later place, and there is none otherwise. -/
theorem tokenize_lines (second : String)
    (herror : (tokenize comments first).error = none) :
    (tokenize comments (first ++ "\n" ++ second)).tokens =
        (tokenize comments first).tokens ++
          (tokenize comments second).tokens.map (Token.shift (first.utf8ByteSize + 1)) ∧
      (tokenize comments (first ++ "\n" ++ second)).stop =
        (tokenize comments second).stop + (first.utf8ByteSize + 1) ∧
      ((tokenize comments second).error = none →
        (tokenize comments (first ++ "\n" ++ second)).error = none) ∧
      ∀ error, (tokenize comments second).error = some error →
        ∃ place, error.context = String.ofList (Text.snippet second.toList place) ∧
          (tokenize comments (first ++ "\n" ++ second)).error =
            some { error with
              context := String.ofList (Text.snippet (first ++ "\n" ++ second).toList
                (place + (first.utf8ByteSize + 1))) } := by
  have hscan := Lexer.scan_lines second herror
  simp only [tokenize, hscan]
  refine ⟨rfl, rfl, ?_, ?_⟩
  · intro hnone
    rw [Option.map_eq_none_iff] at hnone
    simp only [Lexer.Scan.prepend, Lexer.Scan.shift, hnone, Option.map_none]
  · intro error hsome
    obtain ⟨fault, hfault, rfl⟩ := Option.map_eq_some_iff.1 hsome
    refine ⟨fault.place, rfl, ?_⟩
    simp only [Lexer.Scan.prepend, Lexer.Scan.shift, hfault, Option.map_some]
    rfl

end

/-- A comment after a string that has wide characters and a hash, and a next line that
breaks off within a string. -/
theorem tokenize_lines_unterminated :
    (tokenize true "'\"é #\" # a \"comment").error = none ∧
      (tokenize true ("'\"é #\" # a \"comment" ++ "\n" ++ "(x \"b")).tokens =
        [⟨.quote, 0, 1⟩, ⟨.string "é #", 1, 7⟩, ⟨.opening, 21, 22⟩,
          ⟨.identifier "x", 22, 23⟩] ∧
      ∃ context, (tokenize true ("'\"é #\" # a \"comment" ++ "\n" ++ "(x \"b")).error =
        some ⟨.unterminatedString, context, "\"b"⟩ := by
  have hfirst : tokenize true "'\"é #\" # a \"comment" =
      ⟨[⟨.quote, 0, 1⟩, ⟨.string "é #", 1, 7⟩], none, 20⟩ := by
    decide +kernel
  have hsecond : tokenize true "(x \"b" =
      ⟨[⟨.opening, 0, 1⟩, ⟨.identifier "x", 1, 2⟩],
        some ⟨.unterminatedString, "(x \"b", "\"b"⟩, 3⟩ := by
    decide +kernel
  have herror : (tokenize true "'\"é #\" # a \"comment").error = none := by rw [hfirst]
  obtain ⟨htokens, _, _, hfails⟩ := tokenize_lines "(x \"b" herror
  rw [hfirst, hsecond] at htokens
  obtain ⟨place, _, hplace⟩ := hfails _ (congrArg Tokens.error hsecond)
  exact ⟨herror, htokens.trans (by decide +kernel), _, hplace⟩

end ArityScript
