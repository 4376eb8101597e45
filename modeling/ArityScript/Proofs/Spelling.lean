import ArityScript.Token.Lexer

/-!
# Spellings

A source text spells a list of tokens when each of them is written out in it,
one after the other, with blanks and comments between them.  A word needs
something after it that ends it; the other tokens end by themselves.

A name can be spelled if reading it as a word gives the name back.  Numbers may
have leading zeros, and strings may hold any character but a double quote or a
backslash as it is.
-/

namespace ArityScript

/-! ## String literals -/

namespace Text

/-- A text as it may be written inside a string literal: what has an escape may
be escaped, and has to be where it is a double quote or a backslash. -/
inductive WrittenInLiteral : (chars written : List Char) → Prop where
  | nil : WrittenInLiteral [] []
  | plain {c : Char} {chars written : List Char} : c ≠ '"' → c ≠ '\\' →
      WrittenInLiteral chars written → WrittenInLiteral (c :: chars) (c :: written)
  | escaped {letter c : Char} {chars written : List Char} :
      unescapeChar letter = some c → WrittenInLiteral chars written →
      WrittenInLiteral (c :: chars) ('\\' :: letter :: written)

/-- What is written inside a literal is read before anything that follows it. -/
theorem WrittenInLiteral.readLiteral_append {chars written : List Char}
    (hwritten : WrittenInLiteral chars written) (more : List Char) :
    readLiteral (written ++ more) =
      (readLiteral more).map fun (text, after) => (chars ++ text, after) := by
  induction hwritten with
  | nil => cases hmore : readLiteral more <;> simp [Except.map, hmore]
  | @plain c chars written hquote hescape _ ih =>
      rw [List.cons_append, readLiteral, ih]
      · cases readLiteral more <;> rfl
      · intro hc; exact hquote hc
      · intro hc; exact absurd hc hescape
      · intro _ _ hc; exact absurd hc hescape
  | escaped hletter _ ih =>
      rw [List.cons_append, List.cons_append, readLiteral, hletter, ih]
      cases readLiteral more <;> rfl

theorem readLiteral_written {chars written : List Char}
    (hwritten : WrittenInLiteral chars written) (after : List Char) :
    readLiteral (written ++ '"' :: after) = .ok (chars, after) := by
  simp [hwritten.readLiteral_append, readLiteral, Except.map]

/-- The characters that may be escaped. -/
def escapeLetters : List Char :=
  ['n', 't', 'r', '\\', '"']

theorem unescapeChar_eq_none_iff {letter : Char} :
    unescapeChar letter = none ↔ letter ∉ escapeLetters := by
  unfold unescapeChar escapeLetters
  split <;> simp_all

theorem readLiteral_unknownEscape {letter : Char} (hletter : letter ∉ escapeLetters)
    (after : List Char) :
    readLiteral ('\\' :: letter :: after) =
      .error (.unknownEscape, '\\' :: letter :: after) := by
  rw [readLiteral, unescapeChar_eq_none_iff.2 hletter]

/-- A text with which an open literal comes to an end, unless its first character is
escaped: the closing quote, or an escape that is not known. -/
inductive Stops : List Char → Prop where
  | quote (after : List Char) : Stops ('"' :: after)
  | unknownEscape {letter : Char} (after : List Char) : letter ∉ escapeLetters →
      Stops ('\\' :: letter :: after)

/-- Every text is the inside of a literal up to a place at which reading stops, or
up to its end, where a last backslash may stand alone. -/
theorem exists_written (text : List Char) :
    ∃ chars written rest, text = written ++ rest ∧ WrittenInLiteral chars written ∧
      (Stops rest ∨ rest = [] ∨ rest = ['\\']) := by
  -- An escape takes two characters, so that the induction is on the length.
  induction hlength : text.length using Nat.strongRecOn generalizing text with
  | ind length ih =>
      cases text with
      | nil => exact ⟨[], [], [], rfl, .nil, .inr (.inl rfl)⟩
      | cons c text =>
          rw [List.length_cons] at hlength
          by_cases hquote : c = '"'
          · subst hquote
            exact ⟨[], [], _, rfl, .nil, .inl (.quote text)⟩
          by_cases hescape : c = '\\'
          · subst hescape
            cases text with
            | nil => exact ⟨[], [], _, rfl, .nil, .inr (.inr rfl)⟩
            | cons letter text =>
                rw [List.length_cons] at hlength
                cases hletter : unescapeChar letter with
                | none =>
                    rw [unescapeChar_eq_none_iff] at hletter
                    exact ⟨[], [], _, rfl, .nil, .inl (.unknownEscape text hletter)⟩
                | some c =>
                    obtain ⟨chars, written, rest, rfl, hwritten, hrest⟩ :=
                      ih text.length (by omega) text rfl
                    exact ⟨c :: chars, _, rest, rfl, .escaped hletter hwritten, hrest⟩
          · obtain ⟨chars, written, rest, rfl, hwritten, hrest⟩ :=
              ih text.length (by omega) text rfl
            exact ⟨c :: chars, _, rest, rfl, .plain hquote hescape hwritten, hrest⟩

/-- What is read from a literal is written in it, up to a closing quote. -/
theorem exists_written_of_readLiteral {text chars after : List Char}
    (hread : readLiteral text = .ok (chars, after)) :
    ∃ written, text = written ++ '"' :: after ∧ WrittenInLiteral chars written := by
  obtain ⟨front, written, rest, rfl, hwritten, hrest⟩ := exists_written text
  rw [hwritten.readLiteral_append] at hread
  rcases hrest with hstops | rfl | rfl
  · cases hstops with
    | quote after =>
        simp only [readLiteral, Except.map, List.append_nil, Except.ok.injEq,
          Prod.mk.injEq] at hread
        obtain ⟨rfl, rfl⟩ := hread
        exact ⟨written, rfl, hwritten⟩
    | unknownEscape after hletter =>
        rw [readLiteral_unknownEscape hletter] at hread
        cases hread
  · cases hread
  · cases hread

end Text

/-! ## Tokens -/

namespace Lexer

/-- A text that is one word wherever a token may start. -/
structure IsWord (comments : Bool) (chars : List Char) : Prop where
  ne_nil : chars ≠ []
  unbroken : ∀ c ∈ chars, endsWord c = false
  not_quote : chars.head? ≠ some '\''
  not_comment : comments = true → chars.head? ≠ some '#'

instance (comments : Bool) (chars : List Char) : Decidable (IsWord comments chars) :=
  decidable_of_iff
    (chars ≠ [] ∧ chars.all (fun c => !endsWord c) = true ∧ chars.head? ≠ some '\'' ∧
      (comments = true → chars.head? ≠ some '#'))
    ⟨fun ⟨hne, hunbroken, hquote, hcomment⟩ =>
      ⟨hne, by simpa using hunbroken, hquote, hcomment⟩,
     fun ⟨hne, hunbroken, hquote, hcomment⟩ =>
      ⟨hne, by simpa using hunbroken, hquote, hcomment⟩⟩

/-- The texts of a single token. -/
inductive Spelling (comments : Bool) : TokenKind → List Char → Prop where
  | word {kind : TokenKind} {chars : List Char} : IsWord comments chars →
      readWord chars = .ok kind → Spelling comments kind chars
  | string {chars written : List Char} : Text.WrittenInLiteral chars written →
      Spelling comments (.string (String.ofList chars)) ('"' :: written ++ ['"'])
  | quote : Spelling comments .quote ['\'']
  | opening : Spelling comments .opening ['(']
  | closing : Spelling comments .closing [')']

/-- Whether a token is a word, which only goes on to the next break. -/
def isWordKind : TokenKind → Bool
  | .number _ | .bool _ | .identifier _ | .flag _ => true
  | _ => false

/-- A text before which a word ends. -/
def EndsWord (after : List Char) : Prop :=
  ∀ c ∈ after.head?, endsWord c = true

instance (after : List Char) : Decidable (EndsWord after) :=
  decidable_of_iff (after.head?.all endsWord = true) (by simp [EndsWord, Option.all_eq_true])

/-- The texts of a list of tokens. -/
inductive Spells (comments : Bool) : List TokenKind → List Char → Prop where
  | nil : Spells comments [] []
  | token {kind : TokenKind} {kinds : List TokenKind} {chars after : List Char} :
      Spelling comments kind chars → (isWordKind kind = true → EndsWord after) →
      Spells comments kinds after → Spells comments (kind :: kinds) (chars ++ after)
  | blank {kinds : List TokenKind} {c : Char} {after : List Char} :
      Text.isBlank c = true → Spells comments kinds after →
      Spells comments kinds (c :: after)
  | comment {kinds : List TokenKind} {text after : List Char} :
      comments = true → '\n' ∉ text → Spells comments kinds after →
      Spells comments kinds ('#' :: text ++ '\n' :: after)
  | lastComment {text : List Char} : comments = true → '\n' ∉ text →
      Spells comments [] ('#' :: text)

theorem Spells.word {comments : Bool} {kind : TokenKind} {kinds : List TokenKind}
    {chars after : List Char} (hword : IsWord comments chars)
    (hread : readWord chars = .ok kind) (hafter : EndsWord after)
    (hspells : Spells comments kinds after) :
    Spells comments (kind :: kinds) (chars ++ after) :=
  .token (.word hword hread) (fun _ => hafter) hspells

/-! ## Reading one token -/

theorem isWordKind_of_readWord {chars : List Char} {kind : TokenKind}
    (hread : readWord chars = .ok kind) : isWordKind kind = true := by
  have hplain : ∀ word, isWordKind (plainWord word) = true := by
    intro word
    unfold plainWord
    split
    · split <;> rfl
    · split
      · rfl
      · split <;> rfl
  unfold readWord at hread
  split at hread
  · split at hread
    · cases hread
      rfl
    · contradiction
  · split at hread
    · contradiction
    · cases hread
      exact hplain chars

theorem frontWord_append {chars after : List Char}
    (hunbroken : ∀ c ∈ chars, endsWord c = false) (hafter : EndsWord after) :
    frontWord (chars ++ after) = chars := by
  have hstop : after.takeWhile (fun c => !endsWord c) = [] := by
    cases after with
    | nil => rfl
    | cons c after => simp [hafter c (by simp)]
  rw [frontWord, List.takeWhile_append_of_pos (by simpa using hunbroken), hstop,
    List.append_nil]

theorem afterWord_append {chars after : List Char}
    (hunbroken : ∀ c ∈ chars, endsWord c = false) (hafter : EndsWord after) :
    afterWord (chars ++ after) = after := by
  rw [afterWord, List.dropWhile_append_of_pos (by simpa using hunbroken)]
  cases after with
  | nil => rfl
  | cons c after => simp [hafter c (by simp)]

theorem endsWord_eq_false {c : Char} (hc : endsWord c = false) :
    Text.isBlank c = false ∧ c ≠ '(' ∧ c ≠ ')' ∧ c ≠ '"' := by
  simpa [endsWord, and_assoc] using hc

/-- A word is read in the same way whatever follows it, if that ends it. -/
theorem readToken_word {comments : Bool} {word after rest : List Char} {c : Char}
    (hword : IsWord comments word) (hends : EndsWord after)
    (hsplit : word ++ after = c :: rest) :
    readToken c rest =
      match readWord word with
      | .ok kind => .ok (kind, after)
      | .error kind => .error (kind, c :: rest) := by
  obtain ⟨hne, hunbroken, hquote, _⟩ := hword
  have hfront := frontWord_append hunbroken hends
  have hafter := afterWord_append hunbroken hends
  rw [hsplit] at hfront hafter
  have hhead : word.head? = some c := by
    cases word with
    | nil => contradiction
    | cons d word => rw [List.head?_cons, (List.cons.inj hsplit).1]
  obtain ⟨_, hopen, hclose, hstring⟩ :=
    endsWord_eq_false (hunbroken c (List.mem_of_mem_head? hhead))
  have hquote : c ≠ '\'' := fun hc => hquote (hc ▸ hhead)
  cases hread : readWord word <;>
    simp only [readToken, hopen, hclose, hquote, hstring, if_false, hfront, hafter, hread]

/-- A spelled token is read back, and nothing of what follows it. -/
theorem readToken_spelling {comments : Bool} {kind : TokenKind} {chars after : List Char}
    (hspelling : Spelling comments kind chars)
    (hafter : isWordKind kind = true → EndsWord after) :
    ∃ c rest, chars ++ after = c :: rest ∧
      skipBlanks comments false (chars ++ after) = c :: rest ∧
      readToken c rest = .ok (kind, after) := by
  cases hspelling with
  | word hword hread =>
      have hends := hafter (isWordKind_of_readWord hread)
      cases chars with
      | nil => exact absurd rfl hword.ne_nil
      | cons c chars =>
          have hblank := (endsWord_eq_false (hword.unbroken c (by simp))).1
          have hcomment : comments = true → c ≠ '#' := by simpa using hword.not_comment
          refine ⟨c, chars ++ after, rfl, ?_, ?_⟩
          · simp only [List.cons_append, skipBlanks, hblank, Bool.false_eq_true, if_false]
            rw [if_neg]
            simpa using hcomment
          · rw [readToken_word hword hends List.cons_append, hread]
  | @string chars written hwritten =>
      have hread := Text.readLiteral_written hwritten after
      refine ⟨'"', written ++ '"' :: after, by simp, ?_, by simp [readToken, hread]⟩
      simp [skipBlanks, show Text.isBlank '"' = false by decide]
  | quote =>
      exact ⟨'\'', after, rfl, by simp [skipBlanks, show Text.isBlank '\'' = false by decide],
        by simp [readToken]⟩
  | opening =>
      exact ⟨'(', after, rfl, by simp [skipBlanks, show Text.isBlank '(' = false by decide],
        by simp [readToken]⟩
  | closing =>
      exact ⟨')', after, rfl, by simp [skipBlanks, show Text.isBlank ')' = false by decide],
        by simp [readToken]⟩

/-! ## Reading all tokens -/

theorem skipBlanks_comment (comments : Bool) {text : List Char} (after : List Char)
    (htext : '\n' ∉ text) :
    skipBlanks comments true (text ++ '\n' :: after) = skipBlanks comments false after := by
  induction text with
  | nil => simp [skipBlanks]
  | cons c text ih =>
      have hc : c ≠ '\n' := fun heq => htext (heq ▸ List.mem_cons_self)
      have hrest : '\n' ∉ text := fun hmem => htext (List.mem_cons_of_mem _ hmem)
      have hin : (c != '\n') = true := by simpa using hc
      simp only [List.cons_append, skipBlanks, hin, ih hrest]

theorem skipBlanks_lastComment (comments : Bool) {text : List Char}
    (htext : '\n' ∉ text) : skipBlanks comments true text = [] := by
  induction text with
  | nil => rfl
  | cons c text ih =>
      have hc : c ≠ '\n' := fun heq => htext (heq ▸ List.mem_cons_self)
      have hrest : '\n' ∉ text := fun hmem => htext (List.mem_cons_of_mem _ hmem)
      have hin : (c != '\n') = true := by simpa using hc
      simp only [skipBlanks, hin, ih hrest]

theorem skipBlanks_blank (comments : Bool) {c : Char} (after : List Char)
    (hblank : Text.isBlank c = true) :
    skipBlanks comments false (c :: after) = skipBlanks comments false after := by
  simp only [skipBlanks, hblank, if_true]

theorem skipBlanks_line {comments : Bool} {text : List Char} (after : List Char)
    (hcomments : comments = true) (htext : '\n' ∉ text) :
    skipBlanks comments false ('#' :: text ++ '\n' :: after) =
      skipBlanks comments false after := by
  have hcomment := skipBlanks_comment comments after htext
  simpa [skipBlanks, hcomments, show Text.isBlank '#' = false by decide] using hcomment

theorem scanFrom_eq_nil {comments : Bool} {total : Nat} {chars : List Char}
    (hskip : skipBlanks comments false chars = []) :
    scanFrom comments total chars = ⟨[], none, total⟩ := by
  rw [scanFrom]
  split
  · rfl
  · next hcons => simp [hskip] at hcons

theorem scanFrom_eq_push {comments : Bool} {total : Nat} {chars rest after : List Char}
    {c : Char} {kind : TokenKind}
    (hskip : skipBlanks comments false chars = c :: rest)
    (hread : readToken c rest = .ok (kind, after)) :
    scanFrom comments total chars =
      Scan.push ⟨kind, total - Text.width (c :: rest), total - Text.width after⟩
        (scanFrom comments total after) := by
  rw [scanFrom]
  split
  · next hnil => simp [hskip] at hnil
  · next c' rest' hcons =>
      rw [hskip] at hcons
      obtain ⟨rfl, rfl⟩ := List.cons.inj hcons
      split
      · next kind' after' hok =>
          rw [hread] at hok
          cases hok
          rfl
      · next herror => simp [hread] at herror

theorem scanFrom_eq_fault {comments : Bool} {total : Nat} {chars rest faulty : List Char}
    {c : Char} {kind : LexErrorKind}
    (hskip : skipBlanks comments false chars = c :: rest)
    (hread : readToken c rest = .error (kind, faulty)) :
    scanFrom comments total chars =
      ⟨[], some ⟨kind, total - Text.width (c :: rest), total - Text.width faulty,
        shownStart (c :: rest)⟩, total - Text.width (c :: rest)⟩ := by
  rw [scanFrom]
  split
  · next hnil => simp [hskip] at hnil
  · next c' rest' hcons =>
      rw [hskip] at hcons
      obtain ⟨rfl, rfl⟩ := List.cons.inj hcons
      split
      · next hok => simp [hread] at hok
      · next kind' faulty' herror =>
          rw [hread] at herror
          cases herror
          rfl

theorem scanFrom_congr {comments : Bool} {total : Nat} {chars other : List Char}
    (hskip : skipBlanks comments false chars = skipBlanks comments false other) :
    scanFrom comments total chars = scanFrom comments total other := by
  cases hother : skipBlanks comments false other with
  | nil => rw [scanFrom_eq_nil (hskip.trans hother), scanFrom_eq_nil hother]
  | cons c rest =>
      cases hread : readToken c rest with
      | ok read =>
          rw [scanFrom_eq_push (hskip.trans hother) hread, scanFrom_eq_push hother hread]
      | error fault =>
          rw [scanFrom_eq_fault (hskip.trans hother) hread, scanFrom_eq_fault hother hread]

/-- The tokens that a text spells are read from it, and all of it is read. -/
theorem scanFrom_of_spells {comments : Bool} (total : Nat) {kinds : List TokenKind}
    {chars : List Char} (hspells : Spells comments kinds chars) :
    (scanFrom comments total chars).tokens.map Token.kind = kinds ∧
      (scanFrom comments total chars).fault = none := by
  induction hspells with
  | nil => simp [scanFrom_eq_nil (show skipBlanks comments false [] = [] from rfl)]
  | token hspelling hafter _ ih =>
      obtain ⟨c, rest, hchars, hskip, hread⟩ := readToken_spelling hspelling hafter
      rw [scanFrom_eq_push hskip hread]
      simpa [Scan.push] using ih
  | @blank kinds c after hblank _ ih =>
      rw [scanFrom_congr (skipBlanks_blank comments after hblank)]
      exact ih
  | @comment kinds text after hcomments htext _ ih =>
      rw [scanFrom_congr (skipBlanks_line after hcomments htext)]
      exact ih
  | @lastComment text hcomments htext =>
      have hskip : skipBlanks comments false ('#' :: text) = [] := by
        have hcomment := skipBlanks_lastComment comments htext
        simpa [skipBlanks, hcomments, show Text.isBlank '#' = false by decide]
          using hcomment
      simp [scanFrom_eq_nil hskip]

end Lexer

theorem tokenize_of_spells {comments : Bool} {kinds : List TokenKind} {source : String}
    (hspells : Lexer.Spells comments kinds source.toList) :
    (tokenize comments source).tokens.map Token.kind = kinds ∧
      (tokenize comments source).error = none := by
  obtain ⟨hkinds, hfault⟩ :=
    Lexer.scanFrom_of_spells (Text.width source.toList) hspells
  exact ⟨hkinds, by simp [tokenize, Lexer.scan, hfault]⟩

end ArityScript
