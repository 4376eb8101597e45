import ArityScript.Proofs.Layout
import ArityScript.Proofs.Spelling

/-!
# Spellings of single tokens

Numbers, strings and names are spelled by the text in which they are printed.
Every token that is read from a source has a spelling, and a name or a flag has
no other spelling than its own text.
-/

namespace ArityScript

/-! ## Strings -/

namespace Text

theorem escapeChar_cases (c : Char) :
    (∃ letter, unescapeChar letter = some c ∧ escapeChar c = ['\\', letter]) ∨
      (c ≠ '"' ∧ c ≠ '\\' ∧ escapeChar c = [c]) := by
  unfold escapeChar
  split
  · exact .inl ⟨'"', rfl, rfl⟩
  · exact .inl ⟨'\\', rfl, rfl⟩
  · exact .inl ⟨'n', rfl, rfl⟩
  · exact .inl ⟨'t', rfl, rfl⟩
  · exact .inl ⟨'r', rfl, rfl⟩
  · next hquote hescape _ _ _ => exact .inr ⟨hquote, hescape, rfl⟩

theorem writtenInLiteral_escape (chars : List Char) :
    WrittenInLiteral chars (escape chars) := by
  induction chars with
  | nil => exact .nil
  | cons c chars ih =>
      rcases escapeChar_cases c with ⟨letter, hletter, hescape⟩ | ⟨hquote, hplain, hescape⟩
      · rw [escape, hescape]
        exact .escaped hletter ih
      · rw [escape, hescape]
        exact .plain hquote hplain ih

end Text

/-! ## Numbers -/

namespace Number

theorem head?_ne_minus {digits : List Char} (hdigits : ∀ c ∈ digits, c.isDigit = true) :
    digits.head? ≠ some '-' := by
  intro hhead
  have hminus := hdigits '-' (List.mem_of_mem_head? hhead)
  contradiction

theorem unsigned_eq_self {word : List Char} (hsign : word.head? ≠ some '-') :
    unsigned word = word := by
  unfold unsigned
  split
  · exact absurd rfl hsign
  · rfl

end Number

namespace Lexer

theorem endsWord_eq_false_of_isDigit {c : Char} (hc : c.isDigit = true) :
    endsWord c = false := by
  have hbounds : 48 ≤ c.toNat ∧ c.toNat ≤ 57 := Char.isDigit_iff_toNat.1 hc
  have hne : ∀ d : Char, (d.toNat < 48 ∨ 57 < d.toNat) → c ≠ d := by
    intro d hd heq
    subst d
    omega
  have hblank : Text.isBlank c = false := by
    simp only [Text.isBlank, Bool.or_eq_false_iff, Bool.and_eq_false_iff,
      decide_eq_false_iff_not, beq_eq_false_iff_ne]
    omega
  simp [endsWord, hblank, hne '(' (by decide), hne ')' (by decide), hne '"' (by decide)]

theorem isDigit_of_mem_toDigits_ten {n : Nat} {c : Char} (hc : c ∈ Nat.toDigits 10 n) :
    c.isDigit = true :=
  Nat.isDigit_of_mem_toDigits (by decide) (by decide) hc

theorem unsigned_toDigits (n : Nat) :
    Number.unsigned (Nat.toDigits 10 n) = Nat.toDigits 10 n ∧
      (Nat.toDigits 10 n).head? ≠ some '-' := by
  have hsign := Number.head?_ne_minus fun c => isDigit_of_mem_toDigits_ten (n := n) (c := c)
  exact ⟨Number.unsigned_eq_self hsign, hsign⟩

theorem readWord_numberText (n : Number) : readWord n.text = .ok (.number n) := by
  have hall : ∀ m, (Nat.toDigits 10 m).all Char.isDigit = true := by
    intro m
    rw [List.all_eq_true]
    exact fun c => isDigit_of_mem_toDigits_ten
  have hempty : ∀ m, (Nat.toDigits 10 m).isEmpty = false := by
    intro m
    simp [Nat.toDigits_ne_nil]
  have hnumeral : Number.isNumeral n.text = true ∧
      Number.numeralValue n.text = n.toInt := by
    unfold Number.text
    cases hvalue : n.toInt with
    | ofNat m =>
        obtain ⟨hunsigned, hsign⟩ := unsigned_toDigits m
        simp only [Number.decimalText, Number.isNumeral, Number.numeralValue, hunsigned]
        rw [if_neg hsign]
        simp [hall, hempty, Nat.ofDigitChars_ten_toDigits]
    | negSucc m =>
        simp only [Number.decimalText, Number.isNumeral, Number.numeralValue,
          Number.unsigned, hall, hempty, List.head?_cons, if_true,
          Nat.ofDigitChars_ten_toDigits]
        exact ⟨rfl, rfl⟩
  unfold readWord
  rw [if_pos hnumeral.1, hnumeral.2, Number.ofInt?_toInt]

theorem isWord_numberText (comments : Bool) (n : Number) : IsWord comments n.text := by
  have hdigits : ∀ m, ∀ c ∈ Nat.toDigits 10 m, endsWord c = false ∧ c ≠ '\'' ∧ c ≠ '#' := by
    intro m c hc
    have hdigit := isDigit_of_mem_toDigits_ten hc
    refine ⟨endsWord_eq_false_of_isDigit hdigit, ?_, ?_⟩
    · rintro rfl
      contradiction
    · rintro rfl
      contradiction
  unfold Number.text
  cases n.toInt with
  | ofNat m =>
      have hhead : ∀ c, (Nat.toDigits 10 m).head? = some c → c ∈ Nat.toDigits 10 m :=
        fun c hc => List.mem_of_mem_head? hc
      exact ⟨Nat.toDigits_ne_nil, fun c hc => (hdigits m c hc).1,
        fun hc => (hdigits m _ (hhead _ hc)).2.1 rfl,
        fun _ hc => (hdigits m _ (hhead _ hc)).2.2 rfl⟩
  | negSucc m =>
      refine ⟨by simp [Number.decimalText], ?_, by simp [Number.decimalText],
        by simp [Number.decimalText]⟩
      intro c hc
      rcases List.mem_cons.1 hc with rfl | hc
      · decide
      · exact (hdigits _ c hc).1

/-! ## Names and flags -/

theorem plainWord_cases (word : List Char) :
    plainWord word = .bool true ∨ plainWord word = .bool false ∨
      plainWord word = .identifier (String.ofList word) ∨
      ∃ name, word = '-' :: '-' :: name ∧ plainWord word = .flag (String.ofList name) := by
  unfold plainWord
  split
  · split
    · exact .inr (.inr (.inl rfl))
    · exact .inr (.inr (.inr ⟨_, rfl, rfl⟩))
  · split
    · exact .inl rfl
    · split
      · exact .inr (.inl rfl)
      · exact .inr (.inr (.inl rfl))

theorem eq_plainWord_of_readWord {word : List Char} {kind : TokenKind}
    (hread : readWord word = .ok kind) (hkind : ∀ n, kind ≠ .number n) :
    kind = plainWord word := by
  unfold readWord at hread
  split at hread
  · split at hread
    · cases hread
      exact absurd rfl (hkind _)
    · cases hread
  · split at hread
    · cases hread
    · cases hread
      rfl

theorem eq_of_readWord_identifier {word : List Char} {name : String}
    (hread : readWord word = .ok (.identifier name)) : word = name.toList := by
  have hplain := eq_plainWord_of_readWord hread (by simp)
  rcases plainWord_cases word with h | h | h | ⟨_, _, h⟩ <;> rw [h] at hplain
  · contradiction
  · contradiction
  · cases hplain
    simp
  · contradiction

theorem eq_of_readWord_flag {word : List Char} {name : String}
    (hread : readWord word = .ok (.flag name)) : word = '-' :: '-' :: name.toList := by
  have hplain := eq_plainWord_of_readWord hread (by simp)
  rcases plainWord_cases word with h | h | h | ⟨_, hword, h⟩ <;> rw [h] at hplain
  · contradiction
  · contradiction
  · contradiction
  · cases hplain
    simpa using hword

theorem Spelling.identifier_toList {comments : Bool} {name : String} {chars : List Char}
    (hspelling : Spelling comments (.identifier name) chars) :
    Spelling comments (.identifier name) name.toList := by
  cases hspelling with
  | word hword hread =>
      obtain rfl := eq_of_readWord_identifier hread
      exact .word hword hread

theorem Spelling.flag_toList {comments : Bool} {name : String} {chars : List Char}
    (hspelling : Spelling comments (.flag name) chars) :
    Spelling comments (.flag name) ('-' :: '-' :: name.toList) := by
  cases hspelling with
  | word hword hread =>
      obtain rfl := eq_of_readWord_flag hread
      exact .word hword hread

theorem spelling_valueText (comments : Bool) {v : Value} {kind : TokenKind}
    (hkind : v.tokenKind? = some kind) : Spelling comments kind v.text := by
  cases v with
  | number n =>
      cases hkind
      exact .word (isWord_numberText comments n) (readWord_numberText n)
  | string s =>
      cases hkind
      have hwritten := Text.writtenInLiteral_escape s.toList
      have hspelling : Spelling comments _ _ := .string hwritten
      rw [String.ofList_toList] at hspelling
      exact hspelling
  | bool b =>
      cases hkind
      have hword : IsWord comments (Value.bool b).text := by
        cases comments <;> cases b <;> decide
      cases b
      · exact .word hword rfl
      · exact .word hword rfl
  | _ => cases hkind

/-! ## Tokens of a source -/

theorem ne_hash_of_skipBlanks {comments inComment : Bool} {chars rest : List Char}
    {c : Char} (hskip : skipBlanks comments inComment chars = c :: rest)
    (hcomments : comments = true) : c ≠ '#' := by
  induction chars generalizing inComment with
  | nil => cases inComment <;> simp [skipBlanks] at hskip
  | cons d chars ih =>
      cases inComment with
      | true =>
          simp only [skipBlanks] at hskip
          exact ih hskip
      | false =>
          simp only [skipBlanks] at hskip
          split at hskip
          · exact ih hskip
          · split at hskip
            · exact ih hskip
            · next hhash =>
                obtain ⟨rfl, _⟩ := List.cons.inj hskip
                simpa [hcomments] using hhash

theorem isWord_frontWord {comments : Bool} {c : Char} {rest : List Char}
    (hc : endsWord c = false) (hquote : c ≠ '\'')
    (hcomment : comments = true → c ≠ '#') :
    IsWord comments (frontWord (c :: rest)) := by
  have hfront : frontWord (c :: rest) = c :: frontWord rest := by
    simp [frontWord, hc]
  refine ⟨by simp [hfront], ?_, by simpa [hfront] using hquote,
    by simpa [hfront] using hcomment⟩
  intro d hd
  have hall := List.all_takeWhile (p := fun c => !endsWord c) (l := c :: rest)
  simpa using List.all_eq_true.1 hall d hd

theorem endsWord_afterWord (chars : List Char) : EndsWord (afterWord chars) := by
  intro c hc
  have hstop := List.head?_dropWhile_not (fun c => !endsWord c) chars
  rw [show (chars.dropWhile fun c => !endsWord c).head? = some c from hc] at hstop
  simpa using hstop

/-- What a token takes from a text is a spelling of it, and a word is taken to where it
ends. -/
theorem exists_spelling_of_readToken {comments : Bool} {c : Char}
    {chars rest after : List Char} {kind : TokenKind}
    (hskip : skipBlanks comments false chars = c :: rest)
    (hread : readToken c rest = .ok (kind, after)) :
    ∃ text, c :: rest = text ++ after ∧ Spelling comments kind text ∧
      (isWordKind kind = true → EndsWord after) := by
  have hblank := isBlank_of_skipBlanks hskip
  have hcomment := ne_hash_of_skipBlanks hskip
  unfold readToken at hread
  split at hread
  next hopen =>
    cases hread
    exact ⟨['('], by rw [hopen]; rfl, .opening, fun hkind => by cases hkind⟩
  next hopen =>
    split at hread
    next hclose =>
      cases hread
      exact ⟨[')'], by rw [hclose]; rfl, .closing, fun hkind => by cases hkind⟩
    next hclose =>
      split at hread
      next hquote =>
        cases hread
        exact ⟨['\''], by rw [hquote]; rfl, .quote, fun hkind => by cases hkind⟩
      next hquote =>
        split at hread
        next hstring =>
          split at hread
          next hliteral =>
            cases hread
            obtain ⟨written, rfl, hwritten⟩ := Text.exists_written_of_readLiteral hliteral
            exact ⟨'"' :: written ++ ['"'], by simp [hstring], .string hwritten,
              fun hkind => by cases hkind⟩
          next => cases hread
        next hstring =>
          split at hread
          next hword =>
            cases hread
            have hc : endsWord c = false := by
              simp [endsWord, hblank, hopen, hclose, hstring]
            exact ⟨frontWord (c :: rest), (List.takeWhile_append_dropWhile).symm,
              .word (isWord_frontWord hc hquote hcomment) hword,
              fun _ => endsWord_afterWord _⟩
          next => cases hread

theorem exists_spelling_of_mem_scanFrom {comments : Bool} {total : Nat}
    {chars : List Char} {token : Token}
    (hmem : token ∈ (scanFrom comments total chars).tokens) :
    ∃ text, Spelling comments token.kind text := by
  induction hlength : chars.length using Nat.strongRecOn generalizing chars with
  | ind length ih =>
      cases hskip : skipBlanks comments false chars with
      | nil => simp [scanFrom_eq_nil hskip] at hmem
      | cons c rest =>
          cases hread : readToken c rest with
          | error fault => simp [scanFrom_eq_fault hskip hread] at hmem
          | ok read =>
              obtain ⟨kind, after⟩ := read
              rw [scanFrom_eq_push hskip hread] at hmem
              rcases List.mem_cons.1 hmem with rfl | hmem
              · obtain ⟨text, _, hspelling, _⟩ := exists_spelling_of_readToken hskip hread
                exact ⟨text, hspelling⟩
              · have hshorter := length_le_of_readToken (isBlank_of_skipBlanks hskip) hread
                have hskipped := length_skipBlanks_le comments false chars
                rw [hskip, List.length_cons] at hskipped
                exact ih after.length (by omega) hmem rfl

end Lexer

end ArityScript
