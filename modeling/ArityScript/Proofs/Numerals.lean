import ArityScript.Form.Printer
import ArityScript.Proofs.Lines
import ArityScript.Proofs.Literals
import ArityScript.Proofs.Tiling
import Mathlib.Data.Nat.Digits.Defs

/-!
# Number words

A word that is made of digits, with or without a minus sign, is the number that it
denotes in decimal notation, if that is a number, and out of range if not.  Any other
word that starts in this way is malformed, and all the rest are words of another kind.
The text of a number is such a word, and denotes it.
-/

namespace ArityScript

namespace Number

/-! ## Decimal notation -/

/-- The value of digits in decimal notation. -/
def decimalValue (digits : List Char) : Nat :=
  Nat.ofDigits 10 (digits.reverse.map fun digit => digit.toNat - '0'.toNat)

/-- One or more digits, with a minus sign before them or not, and the integer that they
denote. -/
inductive Denotes : (word : List Char) → (value : Int) → Prop where
  | digits {digits : List Char} : digits ≠ [] → (∀ c ∈ digits, c.isDigit = true) →
      Denotes digits (decimalValue digits)
  | minus {digits : List Char} : digits ≠ [] → (∀ c ∈ digits, c.isDigit = true) →
      Denotes ('-' :: digits) (-decimalValue digits)

/-- A digit, or a minus sign and a digit, and anything after it. -/
inductive StartsAsNumber : (word : List Char) → Prop where
  | digit {digit : Char} (rest : List Char) : digit.isDigit = true →
      StartsAsNumber (digit :: rest)
  | minus {digit : Char} (rest : List Char) : digit.isDigit = true →
      StartsAsNumber ('-' :: digit :: rest)

theorem ofDigitChars_eq_decimalValue (digits : List Char) :
    Nat.ofDigitChars 10 digits 0 = decimalValue digits := by
  rw [decimalValue, Nat.ofDigits_eq_foldr, List.foldr_map, List.foldr_reverse,
    Nat.ofDigitChars]
  simp only [Nat.add_comm, Nat.cast_id]

theorem isNumeral_iff {word : List Char} :
    isNumeral word = true ↔ unsigned word ≠ [] ∧ ∀ c ∈ unsigned word, c.isDigit = true := by
  simp [isNumeral]

theorem denotes_iff {word : List Char} {value : Int} :
    Denotes word value ↔ isNumeral word = true ∧ value = numeralValue word := by
  rw [isNumeral_iff]
  constructor
  · intro hdenotes
    cases hdenotes with
    | digits hne hdigits =>
        have hsign := head?_ne_minus hdigits
        rw [numeralValue, unsigned_eq_self hsign, if_neg hsign, ofDigitChars_eq_decimalValue]
        exact ⟨⟨hne, hdigits⟩, rfl⟩
    | @minus digits hne hdigits =>
        rw [numeralValue, List.head?_cons, if_pos rfl, ← ofDigitChars_eq_decimalValue]
        exact ⟨⟨hne, hdigits⟩, rfl⟩
  · rintro ⟨⟨hne, hdigits⟩, rfl⟩
    rw [numeralValue, ofDigitChars_eq_decimalValue]
    split
    next hsign =>
      obtain ⟨digits, rfl⟩ := List.head?_eq_some_iff.1 hsign
      exact .minus hne hdigits
    next hsign =>
      rw [unsigned_eq_self hsign] at hne hdigits ⊢
      exact .digits hne hdigits

theorem startsNumeral_iff {word : List Char} :
    startsNumeral word = true ↔ StartsAsNumber word := by
  constructor
  · intro hstarts
    by_cases hsign : word.head? = some '-'
    · obtain ⟨rest, rfl⟩ : ∃ rest, word = '-' :: rest := List.head?_eq_some_iff.1 hsign
      cases rest with
      | nil => cases hstarts
      | cons digit rest => exact .minus rest hstarts
    · rw [startsNumeral, unsigned_eq_self hsign] at hstarts
      cases word with
      | nil => cases hstarts
      | cons digit rest => exact .digit rest hstarts
  · intro hstarts
    cases hstarts with
    | digit rest hdigit =>
        rw [startsNumeral, unsigned_eq_self]
        · exact hdigit
        · rintro hsign
          cases hsign
          contradiction
    | minus rest hdigit => exact hdigit

end Number

/-! ## Words -/

namespace Lexer

/-- What a word is read as: a number if it denotes it, and otherwise malformed if it
denotes an integer or starts as a number. -/
structure WordRead (word : List Char) (result : Except LexErrorKind TokenKind) : Prop where
  number_iff : ∀ n, result = .ok (.number n) ↔ Number.Denotes word n.toInt
  outOfRange_iff : result = .error .numberOutOfRange ↔
    ∃ value, Number.Denotes word value ∧ ∀ n : Number, n.toInt ≠ value
  invalid_iff : result = .error .invalidNumber ↔
    Number.StartsAsNumber word ∧ ∀ value, ¬Number.Denotes word value
  malformed : ∀ kind, result = .error kind →
    kind = .numberOutOfRange ∨ kind = .invalidNumber

theorem plainWord_ne_number (word : List Char) (n : Number) : plainWord word ≠ .number n := by
  rcases plainWord_cases word with h | h | h | ⟨_, _, h⟩ <;> simp [h]

theorem wordRead_of_isNumeral {word : List Char} (hnumeral : Number.isNumeral word = true) :
    WordRead word (readWord word) := by
  rw [readWord, if_pos hnumeral]
  cases hvalue : Number.ofInt? (Number.numeralValue word) with
  | some n =>
      rw [Number.ofInt?_eq_some_iff] at hvalue
      constructor <;> simp [Number.denotes_iff, hnumeral, ← hvalue, Int64.toInt_inj, eq_comm]
  | none =>
      have hnone : ∀ n : Number, n.toInt ≠ Number.numeralValue word := by
        intro n hn
        rw [Number.ofInt?_eq_some_iff.2 hn] at hvalue
        cases hvalue
      constructor <;> simp [Number.denotes_iff, hnumeral, hnone]

theorem wordRead_of_not_isNumeral {word : List Char}
    (hnumeral : ¬Number.isNumeral word = true) : WordRead word (readWord word) := by
  have hdenotes : ∀ value, ¬Number.Denotes word value :=
    fun value hvalue => hnumeral (Number.denotes_iff.1 hvalue).1
  rw [readWord, if_neg hnumeral]
  split
  next hstarts =>
    rw [Number.startsNumeral_iff] at hstarts
    constructor <;> simp [hdenotes, hstarts]
  next hstarts =>
    rw [Number.startsNumeral_iff] at hstarts
    constructor <;> simp [hdenotes, hstarts, plainWord_ne_number]

theorem wordRead_readWord (word : List Char) : WordRead word (readWord word) := by
  by_cases hnumeral : Number.isNumeral word = true
  · exact wordRead_of_isNumeral hnumeral
  · exact wordRead_of_not_isNumeral hnumeral

/-! ## Words of a source -/

/-- A text of whole tokens and the gaps before and after them, with what follows it. -/
inductive Precedes (comments : Bool) : (front rest : List Char) → Prop where
  | gap {gap rest : List Char} : Gap comments false gap → Precedes comments gap rest
  | token {gap text front rest : List Char} {kind : TokenKind} : Gap comments false gap →
      Spelling comments kind text → (isWordKind kind = true → EndsWord (front ++ rest)) →
      Precedes comments front rest → Precedes comments (gap ++ text ++ front) rest

/-- A word of a source that is as long as it can be. -/
structure WordAt (comments : Bool) (source front word after : List Char) : Prop where
  split : source = front ++ word ++ after
  precedes : Precedes comments front (word ++ after)
  isWord : IsWord comments word
  ends : EndsWord after

section

variable {comments : Bool}

theorem skipBlanks_gap {gap : List Char} (hgap : Gap comments false gap) (rest : List Char) :
    skipBlanks comments false (gap ++ rest) = skipBlanks comments false rest := by
  generalize hlast : false = last at hgap
  induction hgap with
  | nil => rfl
  | blank hblank _ ih =>
      subst hlast
      exact (skipBlanks_blank comments _ hblank).trans (ih rfl)
  | @comment _ text gap hcomments htext _ ih =>
      subst hlast
      rw [List.append_assoc, List.cons_append]
      exact (skipBlanks_line (gap ++ rest) hcomments htext).trans (ih rfl)
  | lastComment => cases hlast

/-- Reading goes over whole tokens and gaps to what follows them. -/
theorem Precedes.scanFrom_append {front rest : List Char}
    (hprecedes : Precedes comments front rest) (total : Nat) :
    ∃ tokens, scanFrom comments total (front ++ rest) =
      (scanFrom comments total rest).prepend tokens := by
  induction hprecedes with
  | @gap gap rest hgap =>
      rw [scanFrom_congr (skipBlanks_gap hgap rest)]
      exact ⟨[], rfl⟩
  | @token gap text front rest kind hgap hspelling hends _ ih =>
      obtain ⟨tokens, htokens⟩ := ih
      obtain ⟨c, later, _, hskip, hread⟩ := readToken_spelling hspelling hends
      rw [List.append_assoc, List.append_assoc, scanFrom_congr (skipBlanks_gap hgap _),
        scanFrom_eq_push hskip hread, htokens]
      exact ⟨_ :: tokens, rfl⟩

theorem skipBlanks_word {word : List Char} (hword : IsWord comments word)
    (after : List Char) :
    skipBlanks comments false (word ++ after) = word ++ after := by
  cases word with
  | nil => exact absurd rfl hword.ne_nil
  | cons c word =>
      have hblank := (endsWord_eq_false (hword.unbroken c List.mem_cons_self)).1
      exact skipBlanks_eq_self hblank (by simpa using hword.not_comment)

/-! ## Finding words -/

/-- A token that is a word, or the failure to read one. -/
def OfWord : Except LexErrorKind TokenKind → Prop
  | .ok kind => isWordKind kind = true
  | .error kind => kind = .numberOutOfRange ∨ kind = .invalidNumber

/-- What is read, without what is left of the text. -/
def outcome : Except (LexErrorKind × List Char) (TokenKind × List Char) →
    Except LexErrorKind TokenKind
  | .ok (kind, _) => .ok kind
  | .error (kind, _) => .error kind

theorem not_ofWord_outcome {c : Char} (hc : c = '(' ∨ c = ')' ∨ c = '\'' ∨ c = '"')
    (rest : List Char) : ¬OfWord (outcome (readToken c rest)) := by
  rcases hc with rfl | rfl | rfl | rfl
  · simp [readToken, outcome, OfWord, isWordKind]
  · simp [readToken, outcome, OfWord, isWordKind]
  · simp [readToken, outcome, OfWord, isWordKind]
  · rw [readToken_quote]
    cases Text.readLiteral rest with
    | ok read => simp [outcome, OfWord, isWordKind]
    | error read =>
        obtain ⟨fault, faulty⟩ := read
        cases fault with
        | unterminated => simp [outcome, OfWord, literalErrorKind]
        | unknownEscape => simp [outcome, OfWord, literalErrorKind]

/-- Only a word is read as one. -/
theorem exists_wordAt_of_outcome (total : Nat) {chars rest : List Char} {c : Char}
    {result : Except LexErrorKind TokenKind}
    (hskip : skipBlanks comments false chars = c :: rest)
    (houtcome : outcome (readToken c rest) = result) (hofWord : OfWord result) :
    ∃ front word after, WordAt comments chars front word after ∧
      total - Text.width (c :: rest) = total - Text.width (word ++ after) ∧
      readWord word = result := by
  subst houtcome
  have hblank := isBlank_of_skipBlanks hskip
  have hplain : ¬(c = '(' ∨ c = ')' ∨ c = '\'' ∨ c = '"') :=
    fun hc => not_ofWord_outcome hc rest hofWord
  simp only [not_or] at hplain
  obtain ⟨hopen, hclose, hquote, hstring⟩ := hplain
  have hc : endsWord c = false := by simp [endsWord, hblank, hopen, hclose, hstring]
  have hword : IsWord comments (frontWord (c :: rest)) :=
    isWord_frontWord hc hquote (ne_hash_of_skipBlanks hskip)
  have hends := endsWord_afterWord (c :: rest)
  have hparts : frontWord (c :: rest) ++ afterWord (c :: rest) = c :: rest :=
    List.takeWhile_append_dropWhile
  obtain ⟨gap, hchars, hgap⟩ := exists_gap comments chars
  rw [hskip] at hchars hgap
  refine ⟨gap, _, _, ⟨?_, .gap hgap, hword, hends⟩, by rw [hparts], ?_⟩
  · rw [List.append_assoc, hparts]
    exact hchars
  · rw [readToken_word hword hends hparts]
    cases readWord (frontWord (c :: rest)) <;> rfl

/-- A word of what follows a token is a word of the whole text. -/
theorem WordAt.after_token {chars rest after front word later : List Char} {c : Char}
    {kind : TokenKind} (hskip : skipBlanks comments false chars = c :: rest)
    (hread : readToken c rest = .ok (kind, after))
    (hword : WordAt comments after front word later) :
    ∃ before, WordAt comments chars before word later := by
  obtain ⟨gap, hchars, hgap⟩ := exists_gap comments chars
  obtain ⟨text, htext, hspelling, hends⟩ := exists_spelling_of_readToken hskip hread
  obtain ⟨hsplit, hprecedes, hisWord, hlater⟩ := hword
  rw [hskip, htext, hsplit] at hchars
  rw [hskip] at hgap
  rw [hsplit, List.append_assoc] at hends
  refine ⟨gap ++ text ++ front, ?_, .token hgap hspelling hends hprecedes, hisWord, hlater⟩
  simpa only [List.append_assoc] using hchars

/-- What there is between two places of a text: a token, or the malformed token at which
reading stops. -/
def Scan.Gives (scan : Scan) (start stop : Nat) : Except LexErrorKind TokenKind → Prop
  | .ok kind => ⟨kind, start, stop⟩ ∈ scan.tokens
  | .error kind => scan.stop = start ∧ ∃ fault, scan.fault = some fault ∧ fault.kind = kind

/-- The words that are read stand in the text, each as long as it can be. -/
theorem exists_wordAt_of_gives {total start stop : Nat} {chars : List Char}
    {result : Except LexErrorKind TokenKind}
    (hgives : (scanFrom comments total chars).Gives start stop result)
    (hofWord : OfWord result) :
    ∃ front word after, WordAt comments chars front word after ∧
      start = total - Text.width (word ++ after) ∧ readWord word = result := by
  fun_induction scanFrom comments total chars with
  | case1 chars hskip => cases result <;> simp [Scan.Gives] at hgives
  | case2 chars c rest hskip first kind after hread ih =>
      -- Either it is read from what follows the first token, or it is this token.
      by_cases hlater : (scanFrom comments total after).Gives start stop result
      · obtain ⟨front, word, later, hword, hstart, hresult⟩ := ih hlater
        obtain ⟨before, hword⟩ := hword.after_token hskip hread
        exact ⟨before, word, later, hword, hstart, hresult⟩
      · cases result with
        | error other => exact absurd hgives hlater
        | ok other =>
            rcases List.mem_cons.1 hgives with hfirst | hmem
            · rw [Token.mk.injEq] at hfirst
              obtain ⟨rfl, hstart, _⟩ := hfirst
              rw [hstart]
              exact exists_wordAt_of_outcome total hskip (by rw [hread]; rfl) hofWord
            · exact absurd hmem hlater
  | case3 chars c rest hskip first kind faulty hread =>
      cases result with
      | ok other => cases hgives
      | error other =>
          obtain ⟨hstart, fault, hfault, rfl⟩ := hgives
          cases hfault
          rw [← hstart]
          exact exists_wordAt_of_outcome total hskip (by rw [hread]; rfl) hofWord

end

end Lexer

/-- What there is between two places of a source: a token, or the malformed token at
which reading stops. -/
def Tokens.Gives (tokens : Tokens) (start stop : Nat) : Except LexErrorKind TokenKind → Prop
  | .ok kind => ⟨kind, start, stop⟩ ∈ tokens.tokens
  | .error kind =>
      tokens.stop = start ∧ ∃ error, tokens.error = some error ∧ error.kind = kind

section

variable {comments : Bool}

theorem Tokens.gives_tokenize_iff {source : String} {start stop : Nat}
    {result : Except LexErrorKind TokenKind} :
    (tokenize comments source).Gives start stop result ↔
      (Lexer.scan comments source.toList).Gives start stop result := by
  cases result with
  | ok kind => rfl
  | error kind => simp [Tokens.Gives, Lexer.Scan.Gives, tokenize, Lexer.Fault.toError]

theorem Lexer.WordAt.gives {source : String} {front word after : List Char}
    (hword : WordAt comments source.toList front word after) :
    (tokenize comments source).Gives (Text.width front) (Text.width (front ++ word))
      (readWord word) := by
  obtain ⟨hsplit, hprecedes, hisWord, hends⟩ := hword
  obtain ⟨tokens, hscan⟩ := hprecedes.scanFrom_append (Text.width source.toList)
  rw [← List.append_assoc, ← hsplit] at hscan
  have hwidth := congrArg Text.width hsplit
  rw [Text.width_append] at hwidth
  have hstop : Text.width source.toList - Text.width after = Text.width (front ++ word) := by
    omega
  have hstart : Text.width source.toList - Text.width (word ++ after) = Text.width front := by
    rw [Text.width_append] at hwidth ⊢
    omega
  have hskip := skipBlanks_word hisWord after
  cases hrest : word ++ after with
  | nil => exact absurd (List.append_eq_nil_iff.1 hrest).1 hisWord.ne_nil
  | cons c rest =>
      have hread := readToken_word hisWord hends hrest
      rw [hrest] at hscan hskip hstart
      cases hresult : readWord word with
      | ok kind =>
          rw [hresult] at hread
          rw [scanFrom_eq_push hskip hread, hstart, hstop] at hscan
          simp [Tokens.Gives, tokenize, scan, hscan, Scan.prepend, Scan.push]
      | error kind =>
          rw [hresult] at hread
          rw [scanFrom_eq_fault hskip hread, hstart] at hscan
          simp [Tokens.Gives, tokenize, scan, hscan, Scan.prepend, Fault.toError]

theorem Lexer.exists_wordAt_of_tokenize {source : String} {start stop : Nat}
    {result : Except LexErrorKind TokenKind}
    (hgives : (tokenize comments source).Gives start stop result)
    (hofWord : Lexer.OfWord result) :
    ∃ front word after, Lexer.WordAt comments source.toList front word after ∧
      start = Text.width front ∧ Lexer.WordRead word result := by
  rw [Tokens.gives_tokenize_iff] at hgives
  obtain ⟨front, word, after, hword, hstart, rfl⟩ :=
    Lexer.exists_wordAt_of_gives hgives hofWord
  refine ⟨front, word, after, hword, ?_, Lexer.wordRead_readWord word⟩
  rw [hstart, hword.split, List.append_assoc, Text.width_append, Nat.add_sub_cancel]

/-- The tokens of a text that starts with a whole token: this one, and those of what
follows. -/
theorem tokenize_spelling_append {kind : TokenKind} {text : List Char}
    (hspelling : Lexer.Spelling comments kind text) (after : String)
    (hafter : Lexer.isWordKind kind = true → Lexer.EndsWord after.toList) :
    (tokenize comments (String.ofList text ++ after)).tokens =
      ⟨kind, 0, Text.width text⟩ ::
        (tokenize comments after).tokens.map (Token.shift (Text.width text)) := by
  obtain ⟨c, rest, hchars, hskip, hread⟩ := Lexer.readToken_spelling hspelling hafter
  have hsource : (String.ofList text ++ after).toList = text ++ after.toList := by simp
  have hshift := Lexer.scanFrom_shift comments (Text.width text)
    (Nat.le_refl (Text.width after.toList))
  rw [Nat.add_comm] at hshift
  simp only [tokenize, Lexer.scan, hsource]
  rw [Lexer.scanFrom_eq_push hskip hread, ← hchars, Text.width_append, hshift, Nat.sub_self,
    Nat.add_sub_cancel]
  rfl

end

/-- Each word of a source that reading comes to is read as the number that it denotes,
if it denotes one, and is malformed if it only starts as a number or denotes an integer
that is none; no other word is a number or malformed.  Every number, and every failure to
read one, comes from such a word, as do all other tokens that are words.  The text of a
number before the end of a source, or before what ends a word, is read back as this
number. -/
theorem number_words_exact (comments : Bool) :
    (∀ source front word after,
      Lexer.WordAt comments (String.toList source) front word after →
        ∃ result, Lexer.WordRead word result ∧
          (tokenize comments source).Gives (Text.width front) (Text.width (front ++ word))
            result) ∧
    (∀ source start stop result, (tokenize comments source).Gives start stop result →
      Lexer.OfWord result →
        ∃ front word after, Lexer.WordAt comments source.toList front word after ∧
          start = Text.width front ∧ Lexer.WordRead word result) ∧
    ∀ (n : Number) (after : String),
      (∀ c ∈ after.toList.head?, Text.isBlank c = true ∨ c = '(' ∨ c = ')' ∨ c = '"') →
        (tokenize comments ((Value.number n).render ++ after)).tokens =
          ⟨.number n, 0, (Value.number n).render.utf8ByteSize⟩ ::
            (tokenize comments after).tokens.map
              (Token.shift (Value.number n).render.utf8ByteSize) := by
  refine ⟨?_, ?_, ?_⟩
  · intro source front word after hword
    exact ⟨_, Lexer.wordRead_readWord word, hword.gives⟩
  · intro source start stop result hgives hofWord
    exact Lexer.exists_wordAt_of_tokenize hgives hofWord
  · intro n after hafter
    have hends : Lexer.EndsWord after.toList := by
      intro c hc
      simpa [Lexer.endsWord, or_assoc] using hafter c hc
    have hspelling : Lexer.Spelling comments (.number n) n.text :=
      .word (Lexer.isWord_numberText comments n) (Lexer.readWord_numberText n)
    have hwidth : Text.width n.text = (Value.number n).render.utf8ByteSize := by
      rw [← Text.width_toList, Value.render, String.toList_ofList]
      rfl
    rw [← hwidth]
    exact tokenize_spelling_append hspelling after fun _ => hends

/-- The integer after the greatest number, behind a comment, and the least number. -/
theorem number_words_exact_bounds :
    Lexer.WordAt true "'(-007 # 1x\n9223372036854775808)".toList "'(-007 # 1x\n".toList
        "9223372036854775808".toList [')'] ∧
      (tokenize true "'(-007 # 1x\n9223372036854775808)").Gives 12 31
        (.error .numberOutOfRange) ∧
      Lexer.OfWord (.error .numberOutOfRange) ∧
      (∃ front word after, Lexer.WordAt true "'(-007 # 1x\n9223372036854775808)".toList front
          word after ∧ 12 = Text.width front ∧
        Lexer.WordRead word (.error .numberOutOfRange)) ∧
      (∀ c ∈ ")".toList.head?, Text.isBlank c = true ∨ c = '(' ∨ c = ')' ∨ c = '"') ∧
      (tokenize true ((Value.number Int64.minValue).render ++ ")")).tokens =
        [⟨.number Int64.minValue, 0, 20⟩, ⟨.closing, 20, 21⟩] := by
  have hcomment : Lexer.Gap true false " # 1x\n".toList :=
    .blank (by decide) (@Lexer.Gap.comment true false " 1x".toList [] rfl (by decide) .nil)
  have hnumber : Lexer.Spelling true (.number (-7)) "-007".toList := .word (by decide) rfl
  have hprecedes : Lexer.Precedes true "'(-007 # 1x\n".toList "9223372036854775808)".toList :=
    .token .nil .quote (by decide) (.token .nil .opening (by decide)
      (.token .nil hnumber (by decide) (.gap hcomment)))
  have hword : Lexer.WordAt true "'(-007 # 1x\n9223372036854775808)".toList
      "'(-007 # 1x\n".toList "9223372036854775808".toList [')'] :=
    ⟨by decide, hprecedes, by decide, by decide⟩
  have hends : ∀ c ∈ ")".toList.head?,
      Text.isBlank c = true ∨ c = '(' ∨ c = ')' ∨ c = '"' := by
    intro c hc
    exact .inr (.inr (.inl (Option.some.inj hc).symm))
  obtain ⟨hwords, hfound, hnumbers⟩ := number_words_exact true
  obtain ⟨result, hread, hgives⟩ := hwords _ _ _ _ hword
  have hdenotes : Number.Denotes "9223372036854775808".toList 9223372036854775808 :=
    Number.denotes_iff.2 ⟨by decide, by decide⟩
  have hresult : result = .error .numberOutOfRange := by
    refine hread.outOfRange_iff.2 ⟨_, hdenotes, fun n hn => ?_⟩
    have hle := n.toInt_le_greatest
    rw [hn, Number.greatest] at hle
    omega
  rw [hresult] at hgives
  have hofWord : Lexer.OfWord (.error .numberOutOfRange) := .inl rfl
  exact ⟨hword, hgives, hofWord, hfound _ _ _ _ hgives hofWord, hends,
    (hnumbers Int64.minValue ")" hends).trans (by decide +kernel)⟩

end ArityScript
