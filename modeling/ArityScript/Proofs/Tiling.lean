import ArityScript.Proofs.Spelling.Words
import ArityScript.Token.Stream

/-!
# Tokens and gaps

The tokens of a source and the gaps between them take up all of it.  A gap consists
of blanks and, where they are enabled, of comments, each up to the end of its line;
only the last gap may end within a comment.  A token takes no more and no less than
what it is read from: the same text on its own is the same token.

Reading stops at the end of the source or at its malformed token, and nothing comes
after either.
-/

namespace ArityScript

namespace Lexer

variable {comments : Bool}

/-! ## Gaps -/

/-- A text without tokens: blanks, and comments with the line feeds that end them.
The last text of a source may also end in a comment. -/
inductive Gap (comments : Bool) : (last : Bool) → List Char → Prop where
  | nil {last : Bool} : Gap comments last []
  | blank {last : Bool} {c : Char} {rest : List Char} : Text.isBlank c = true →
      Gap comments last rest → Gap comments last (c :: rest)
  | comment {last : Bool} {text rest : List Char} : comments = true → '\n' ∉ text →
      Gap comments last rest → Gap comments last ('#' :: text ++ '\n' :: rest)
  | lastComment {text : List Char} : comments = true → '\n' ∉ text →
      Gap comments true ('#' :: text)

/-- What is skipped is a gap. -/
theorem exists_gap (comments : Bool) (chars : List Char) :
    ∃ gap, chars = gap ++ skipBlanks comments false chars ∧
      Gap comments (skipBlanks comments false chars).isEmpty gap := by
  induction hlength : chars.length using Nat.strongRecOn generalizing chars with
  | ind length ih =>
      cases chars with
      | nil => exact ⟨[], rfl, .nil⟩
      | cons c rest =>
          simp only [skipBlanks]
          rw [List.length_cons] at hlength
          split
          next hblank =>
            obtain ⟨gap, hrest, hgap⟩ := ih rest.length (by omega) rest rfl
            exact ⟨c :: gap, congrArg (List.cons c) hrest, .blank hblank hgap⟩
          split
          next hhash =>
            obtain ⟨hcomments, rfl⟩ : comments = true ∧ c = '#' := by simpa using hhash
            by_cases hline : '\n' ∈ rest
            · obtain ⟨text, after, rfl, htext⟩ := List.eq_append_cons_of_mem hline
              rw [List.length_append, List.length_cons] at hlength
              obtain ⟨gap, hafter, hgap⟩ := ih after.length (by omega) after rfl
              rw [skipBlanks_comment comments after htext]
              refine ⟨'#' :: text ++ '\n' :: gap, ?_, .comment hcomments htext hgap⟩
              rw [List.append_assoc, List.cons_append, List.cons_append, ← hafter]
            · rw [skipBlanks_lastComment comments hline]
              exact ⟨'#' :: rest, (List.append_nil _).symm, .lastComment hcomments hline⟩
          · exact ⟨[], rfl, .nil⟩

/-! ## Tokens on their own -/

theorem Spelling.ne_nil {kind : TokenKind} {text : List Char}
    (hspelling : Spelling comments kind text) : text ≠ [] := by
  cases hspelling with
  | word hword _ => exact hword.ne_nil
  | string => simp
  | quote | opening | closing => simp

/-- A text that spells a token is that token alone. -/
theorem tokenize_of_spelling {kind : TokenKind} {text : List Char}
    (hspelling : Spelling comments kind text) :
    tokenize comments (String.ofList text) =
      ⟨[⟨kind, 0, Text.width text⟩], none, Text.width text⟩ := by
  obtain ⟨c, rest, hchars, hskip, hread⟩ :=
    readToken_spelling hspelling (fun _ => (by simp [EndsWord] : EndsWord []))
  rw [List.append_nil] at hchars hskip
  have hscan : scan comments text = ⟨[⟨kind, 0, Text.width text⟩], none, Text.width text⟩ := by
    rw [scan, scanFrom_eq_push hskip hread, scanFrom_eq_nil rfl, ← hchars]
    simp [Scan.push]
  rw [tokenize, String.toList_ofList, hscan]
  rfl

/-! ## All tokens -/

theorem skipBlanks_eq_self {c : Char} {rest : List Char} (hblank : Text.isBlank c = false)
    (hcomment : comments = true → c ≠ '#') :
    skipBlanks comments false (c :: rest) = c :: rest := by
  have hhash : (comments && c == '#') = false := by simpa using hcomment
  simp only [skipBlanks, hblank, hhash, Bool.false_eq_true, if_false]

/-- From a byte offset on, the characters are those of the tokens, with a gap before
each of them, and then the rest.  Each token stands where it is said to stand, and
its own text is read as this token alone. -/
inductive Tiles (comments : Bool) : (start : Nat) → List Char → List Token →
    (rest : List Char) → Prop where
  | rest (start : Nat) (rest : List Char) : Tiles comments start rest [] rest
  | token {start : Nat} {gap text after rest : List Char} {kind : TokenKind}
      {tokens : List Token} : Gap comments false gap → text ≠ [] →
      tokenize comments (String.ofList text) =
        ⟨[⟨kind, 0, Text.width text⟩], none, Text.width text⟩ →
      Tiles comments (start + Text.width gap + Text.width text) after tokens rest →
      Tiles comments start (gap ++ text ++ after)
        (⟨kind, start + Text.width gap, start + Text.width gap + Text.width text⟩ :: tokens)
        rest

/-- Where reading stops: before a last gap, or before a gap and a malformed token.
What is read from there on fails at once in the same way. -/
def Scan.StopsBefore (comments : Bool) (total : Nat) (scan : Scan) (rest : List Char) :
    Prop :=
  match scan.fault with
  | none => Gap comments true rest ∧ scan.stop = total
  | some fault => ∃ gap offending place, rest = gap ++ offending ∧ Gap comments false gap ∧
      scan.stop + Text.width offending = total ∧
      Lexer.scan comments offending =
        ⟨[], some { fault with start := 0, place }, 0⟩

/-- The tokens that are read, and the gaps, make up the text. -/
theorem tiles_scanFrom (comments : Bool) {total : Nat} {chars : List Char}
    (hwidth : Text.width chars ≤ total) :
    ∃ rest, Tiles comments (total - Text.width chars) chars
        (scanFrom comments total chars).tokens rest ∧
      (scanFrom comments total chars).StopsBefore comments total rest := by
  induction hlength : chars.length using Nat.strongRecOn generalizing chars with
  | ind length ih =>
      obtain ⟨gap, hchars, hgap⟩ := exists_gap comments chars
      cases hskip : skipBlanks comments false chars with
      | nil =>
          rw [hskip, List.append_nil] at hchars
          rw [hskip] at hgap
          rw [scanFrom_eq_nil hskip]
          exact ⟨chars, .rest _ _, hchars ▸ hgap, rfl⟩
      | cons c rest =>
          rw [hskip] at hchars hgap
          have hsize := congrArg Text.width hchars
          rw [Text.width_append] at hsize
          cases hread : readToken c rest with
          | error read =>
              obtain ⟨kind, faulty⟩ := read
              rw [scanFrom_eq_fault hskip hread]
              have hself : skipBlanks comments false (c :: rest) = c :: rest :=
                skipBlanks_eq_self (isBlank_of_skipBlanks hskip) (ne_hash_of_skipBlanks hskip)
              refine ⟨chars, .rest _ _, gap, c :: rest,
                Text.width (c :: rest) - Text.width faulty, hchars, hgap, ?_, ?_⟩
              · exact Nat.sub_add_cancel (by omega)
              · rw [Lexer.scan, scanFrom_eq_fault hself hread, Nat.sub_self]
          | ok read =>
              obtain ⟨kind, after⟩ := read
              obtain ⟨text, htext, hspelling, _⟩ := exists_spelling_of_readToken hskip hread
              rw [htext, Text.width_append] at hsize
              rw [htext] at hchars
              have hshorter := length_le_of_readToken (isBlank_of_skipBlanks hskip) hread
              have hskipped := length_skipBlanks_le comments false chars
              rw [hskip, List.length_cons] at hskipped
              obtain ⟨others, htiles, hstops⟩ := @ih after.length (by omega) after (by omega) rfl
              have hstart : total - Text.width (c :: rest) =
                  total - Text.width chars + Text.width gap := by
                rw [htext, Text.width_append]
                omega
              have hstop : total - Text.width after =
                  total - Text.width chars + Text.width gap + Text.width text := by omega
              rw [hstop] at htiles
              have htoken := Tiles.token hgap hspelling.ne_nil
                (tokenize_of_spelling hspelling) htiles
              rw [List.append_assoc, ← hchars] at htoken
              rw [scanFrom_eq_push hskip hread, hstart, hstop]
              exact ⟨others, htoken, hstops⟩

/-! ## Spans -/

/-- The span of a token within a text that starts at some offset, and what the token's
own text is read as. -/
structure Spans (comments : Bool) (start : Nat) (chars : List Char) (token : Token) :
    Prop where
  start_lt_stop : token.start < token.stop
  exists_text : ∃ before text after, chars = before ++ text ++ after ∧
    token.start = start + Text.width before ∧
    token.stop = start + Text.width (before ++ text) ∧
    tokenize comments (String.ofList text) =
      ⟨[⟨token.kind, 0, Text.width text⟩], none, Text.width text⟩

theorem Tiles.spans {start : Nat} {chars rest : List Char} {tokens : List Token}
    (htiles : Tiles comments start chars tokens rest) :
    ∀ token ∈ tokens, Spans comments start chars token := by
  induction htiles with
  | rest => simp
  | @token start gap text after rest kind tokens hgap htext halone _ ih =>
      have hpos := Text.width_pos htext
      rw [List.forall_mem_cons]
      refine ⟨⟨by simp only; omega, gap, text, after, rfl, rfl, ?_, halone⟩, ?_⟩
      · simp only [Text.width_append, Nat.add_assoc]
      · intro token hmem
        obtain ⟨hlt, before, inner, later, rfl, hstart, hstop, hinner⟩ := ih token hmem
        refine ⟨hlt, gap ++ text ++ before, inner, later, ?_, ?_, ?_, hinner⟩
        · simp only [List.append_assoc]
        · simp only [hstart, Text.width_append, Nat.add_assoc]
        · simp only [hstop, Text.width_append, Nat.add_assoc]

theorem Tiles.start_le {start : Nat} {chars rest : List Char} {tokens : List Token}
    (htiles : Tiles comments start chars tokens rest) :
    ∀ token ∈ tokens, start ≤ token.start := by
  intro token hmem
  obtain ⟨before, _, _, _, hstart, _⟩ := (htiles.spans token hmem).exists_text
  omega

/-- No token starts before the one before it has ended. -/
theorem Tiles.ordered {start : Nat} {chars rest : List Char} {tokens : List Token}
    (htiles : Tiles comments start chars tokens rest) :
    tokens.Pairwise fun token later => token.stop ≤ later.start := by
  induction htiles with
  | rest => exact .nil
  | token _ _ _ hrest ih => exact .cons hrest.start_le ih

end Lexer

/-! ## What is yielded -/

namespace Stream

/-- What a stream yields when it is asked so many times for the next token. -/
def yields : Nat → Stream → List (Except Error (Option Token))
  | 0, _ => []
  | count + 1, stream => stream.next.1 :: yields count stream.next.2

/-- What a stream yields after its tokens. -/
def last (stream : Stream) : Except Error (Option Token) :=
  match stream.fault with
  | none => .ok none
  | some error => .error (.lex error)

theorem yields_finished (count : Nat) :
    yields count ⟨[], none⟩ = List.replicate count (.ok none) := by
  induction count with
  | zero => rfl
  | succ count ih => rw [yields, List.replicate_succ, ← ih]; rfl

/-- A malformed token is the last thing that a stream yields. -/
theorem yields_eq (stream : Stream) (count : Nat) :
    stream.yields (stream.pending.length + 1 + count) =
      stream.pending.map (fun token => .ok (some token)) ++
        stream.last :: List.replicate count (.ok none) := by
  obtain ⟨pending, fault⟩ := stream
  induction pending with
  | nil =>
      rw [List.length_nil, Nat.zero_add, Nat.add_comm, yields, List.map_nil, List.nil_append,
        ← yields_finished]
      cases fault <;> rfl
  | cons token rest ih =>
      rw [List.length_cons, Nat.add_right_comm _ 1, Nat.add_right_comm _ 1, yields,
        Nat.add_right_comm, List.map_cons, List.cons_append]
      exact congrArg (List.cons _) ih

end Stream

/-- The tokens of a source and the gaps between them make up the source, up to where
reading stops: at its end after a last gap, or at its malformed token.  The spans of the
tokens lie between characters, are not empty and follow one another, and the text of
each is read as this token alone.  Nothing is yielded after the malformed token. -/
theorem tokenize_accounts (comments : Bool) (source : String) :
    (∃ rest, Lexer.Tiles comments 0 source.toList (tokenize comments source).tokens rest ∧
      ((tokenize comments source).error = none →
        Lexer.Gap comments true rest ∧
          (tokenize comments source).stop = source.utf8ByteSize) ∧
      ∀ error, (tokenize comments source).error = some error →
        ∃ gap offending context, rest = gap ++ offending ∧ Lexer.Gap comments false gap ∧
          (tokenize comments source).stop + Text.width offending = source.utf8ByteSize ∧
          tokenize comments (String.ofList offending) =
            ⟨[], some { error with context }, 0⟩) ∧
    (∀ token ∈ (tokenize comments source).tokens,
      Lexer.Spans comments 0 source.toList token) ∧
    ((tokenize comments source).tokens.Pairwise fun token later =>
      token.stop ≤ later.start) ∧
    ∀ count,
      (tokenize comments source).toStream.yields
          ((tokenize comments source).tokens.length + 1 + count) =
        (tokenize comments source).tokens.map (fun token => .ok (some token)) ++
          (tokenize comments source).toStream.last :: List.replicate count (.ok none) := by
  obtain ⟨rest, htiles, hstops⟩ :=
    Lexer.tiles_scanFrom comments (Nat.le_refl (Text.width source.toList))
  rw [Nat.sub_self] at htiles
  refine ⟨⟨rest, htiles, ?_, ?_⟩, htiles.spans, htiles.ordered,
    (tokenize comments source).toStream.yields_eq⟩
  · intro hnone
    have hfault : (Lexer.scanFrom comments (Text.width source.toList) source.toList).fault =
        none := Option.map_eq_none_iff.1 hnone
    rw [Lexer.Scan.StopsBefore, hfault] at hstops
    exact ⟨hstops.1, hstops.2.trans (Text.width_toList source)⟩
  · intro error herror
    obtain ⟨fault, hfault, rfl⟩ := Option.map_eq_some_iff.1 herror
    change (Lexer.scanFrom comments (Text.width source.toList) source.toList).fault =
      some fault at hfault
    rw [Lexer.Scan.StopsBefore, hfault] at hstops
    obtain ⟨gap, offending, place, hrest, hgap, hstop, hfails⟩ := hstops
    refine ⟨gap, offending, String.ofList (Text.snippet offending place), hrest, hgap,
      hstop.trans (Text.width_toList source), ?_⟩
    rw [tokenize, String.toList_ofList, hfails]
    rfl

/-- A quote mark within a word, a string next to it, a comment, and a malformed word. -/
theorem tokenize_accounts_malformed :
    tokenize true "a'b\"é\" # c\n 1x 2" =
        ⟨[⟨.identifier "a'b", 0, 3⟩, ⟨.string "é", 3, 7⟩],
          some ⟨.invalidNumber, "a'b\"é\" # c\\n 1x 2", "1x"⟩, 13⟩ ∧
      Lexer.Spans true 0 "a'b\"é\" # c\n 1x 2".toList ⟨.string "é", 3, 7⟩ ∧
      (tokenize true "a'b\"é\" # c\n 1x 2").toStream.yields 5 =
        [.ok (some ⟨.identifier "a'b", 0, 3⟩), .ok (some ⟨.string "é", 3, 7⟩),
          .error (.lex ⟨.invalidNumber, "a'b\"é\" # c\\n 1x 2", "1x"⟩), .ok none, .ok none] := by
  have htokens : tokenize true "a'b\"é\" # c\n 1x 2" =
      ⟨[⟨.identifier "a'b", 0, 3⟩, ⟨.string "é", 3, 7⟩],
        some ⟨.invalidNumber, "a'b\"é\" # c\\n 1x 2", "1x"⟩, 13⟩ := by
    decide +kernel
  obtain ⟨_, hspans, _, hyields⟩ := tokenize_accounts true "a'b\"é\" # c\n 1x 2"
  rw [htokens] at hspans hyields ⊢
  exact ⟨rfl, hspans _ (by simp), hyields 2⟩

end ArityScript
