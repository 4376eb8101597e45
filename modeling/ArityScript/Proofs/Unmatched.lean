import ArityScript.Proofs.Rendering.Tokens

/-!
# Unmatched closing parentheses

The error for an unmatched closing parenthesis arises in two places.  Where a
form starts or where the whole source should have ended, nothing is open any
more, and the parenthesis has indeed none that opens it.  But it also arises
directly after a quote mark or a flag that still awaits its form; then a group
may be open that the refused parenthesis would have closed.

Within a group nothing else leads to the error.  The parenthesis right after an
opening one is an empty group, a call ends before the one that closes its group,
and after the form of a group it is taken.
-/

namespace ArityScript

/-- Some first part has more closing parentheses than opening ones. -/
def Overclosed (kinds : List TokenKind) : Prop :=
  ∃ n, (kinds.take n).count .opening < (kinds.take n).count .closing

theorem not_overclosed_iff {kinds : List TokenKind} :
    ¬ Overclosed kinds ↔
      ∀ n, (kinds.take n).count .closing ≤ (kinds.take n).count .opening := by
  simp only [Overclosed, not_exists, Nat.not_lt]

theorem Balanced.not_overclosed {kinds : List TokenKind} (hbalanced : Balanced kinds) :
    ¬ Overclosed kinds :=
  not_overclosed_iff.2 hbalanced.take_le

theorem not_overclosed_opening : ¬ Overclosed [.opening] := by
  rw [not_overclosed_iff]
  rintro (_ | n) <;> simp

theorem not_overclosed_append {left right : List TokenKind} (hleft : ¬ Overclosed left)
    (hright : ¬ Overclosed right) : ¬ Overclosed (left ++ right) := by
  rw [not_overclosed_iff] at hleft hright ⊢
  intro n
  have hfirst := hleft n
  have hsecond := hright (n - left.length)
  rw [List.take_append, List.count_append, List.count_append]
  omega

theorem overclosed_append_closing_iff {kinds : List TokenKind}
    (hbefore : ¬ Overclosed kinds) :
    Overclosed (kinds ++ [.closing]) ↔ kinds.count .closing = kinds.count .opening := by
  have htotal : kinds.count .closing ≤ kinds.count .opening := by
    have hall := not_overclosed_iff.1 hbefore kinds.length
    rwa [List.take_length] at hall
  constructor
  · rintro ⟨n, hn⟩
    by_cases hlength : n ≤ kinds.length
    · rw [List.take_append_of_le_length hlength] at hn
      exact absurd ⟨n, hn⟩ hbefore
    · rw [List.take_of_length_le (by simp; omega)] at hn
      simp only [List.count_append, List.count_cons, List.count_nil] at hn
      simp at hn
      omega
  · intro hcount
    refine ⟨kinds.length + 1, ?_⟩
    rw [List.take_of_length_le (by simp)]
    simp [hcount]

/-- A quote mark or a flag, after which a form has to come. -/
def TokenKind.awaitsForm : TokenKind → Bool
  | .quote | .flag _ => true
  | _ => false

theorem TokenKind.isParenthesis_of_awaitsForm {kind : TokenKind}
    (hkind : kind.awaitsForm = true) : kind.isParenthesis = false := by
  cases kind with
  | opening | closing => cases hkind
  | _ => rfl

/-- The last token is a quote mark or a flag. -/
def AwaitsForm (kinds : List TokenKind) : Prop :=
  ∃ kind, kinds.getLast? = some kind ∧ kind.awaitsForm = true

theorem AwaitsForm.append {left right : List TokenKind} (hright : AwaitsForm right) :
    AwaitsForm (left ++ right) := by
  obtain ⟨kind, hlast, hkind⟩ := hright
  exact ⟨kind, by rw [List.getLast?_append, hlast, Option.some_or], hkind⟩

instance decidableFailsWith {ε α : Type} [DecidableEq ε] (result : Except ε α) (error : ε) :
    Decidable (result = .error error) :=
  match result with
  | .ok _ => .isFalse nofun
  | .error other => decidable_of_iff (other = error) (by simp)

def Error.IsUnexpectedClose : Error → Prop
  | .parse error => error.cause.kind = .unexpectedClose
  | _ => False

namespace Reader

/-! ## Where the error arises -/

/-- An error for a closing parenthesis that follows a quote mark or a flag, with
no more parentheses closed than opened before it. -/
def BrokenOff (reader : Reader) (stream : Stream) (error : Error) : Prop :=
  ∃ before close after, stream.pending = before ++ close :: after ∧
    close.kind = .closing ∧ error = reader.errorAtToken .unmatchedClose close ∧
    ¬ Overclosed (before.map Token.kind) ∧ AwaitsForm (before.map Token.kind)

/-- An error for a closing parenthesis where a form should start: at once, or
after a quote mark or a flag further on. -/
def RefusesClose (reader : Reader) (stream : Stream) (error : Error) : Prop :=
  (∃ close after, stream.pending = close :: after ∧ close.kind = .closing ∧
    error = reader.errorAtToken .unmatchedClose close) ∨
  reader.BrokenOff stream error

section

variable {reader : Reader} {stream middle : Stream} {kinds : List TokenKind}
  {error : Error}

theorem BrokenOff.of_leaves (hleaves : stream.Leaves kinds middle)
    (hkinds : ¬ Overclosed kinds) (hbroken : reader.BrokenOff middle error) :
    reader.BrokenOff stream error := by
  obtain ⟨tokens, hpending, rfl, _⟩ := hleaves
  obtain ⟨before, close, after, hmiddle, hclose, rfl, hbefore, hawaits⟩ := hbroken
  refine ⟨tokens ++ before, close, after, ?_, hclose, rfl, ?_, ?_⟩
  · rw [hpending, hmiddle, List.append_assoc]
  · rw [List.map_append]
    exact not_overclosed_append hkinds hbefore
  · rw [List.map_append]
    exact hawaits.append

/-- A closing parenthesis refused after a quote mark or a flag follows one
directly, or follows a later one. -/
theorem RefusesClose.brokenOff_of_mark {kind : TokenKind}
    (hleaves : stream.Leaves [kind] middle) (hkind : kind.awaitsForm = true)
    (hrefuses : reader.RefusesClose middle error) : reader.BrokenOff stream error := by
  have hmark : ¬ Overclosed [kind] :=
    (Balanced.single (TokenKind.isParenthesis_of_awaitsForm hkind)).not_overclosed
  rcases hrefuses with ⟨close, after, hmiddle, hclose, rfl⟩ | hbroken
  · obtain ⟨tokens, hpending, hkinds, _⟩ := hleaves
    refine ⟨tokens, close, after, by rw [hpending, hmiddle], hclose, rfl, ?_, ?_⟩
    · rwa [hkinds]
    · exact ⟨kind, by rw [hkinds]; rfl, hkind⟩
  · exact hbroken.of_leaves hleaves hmark

theorem RefusesClose.brokenOff (hrefuses : reader.RefusesClose stream error)
    (hnext : stream.nextKind ≠ some .closing) : reader.BrokenOff stream error := by
  rcases hrefuses with ⟨close, after, hpending, hclose, _⟩ | hbroken
  · simp [Stream.nextKind, hpending, hclose] at hnext
  · exact hbroken

end

/-! ## Reading with the error -/

def BlamesCloses (reader : Reader) (readInner : Stream → Step Form) : Prop :=
  ∀ (stream final : Stream) (error : Error), readInner stream = (.error error, final) →
    error.IsUnexpectedClose → reader.RefusesClose stream error

theorem not_isUnexpectedClose_of_peek {stream rest : Stream} {error : Error}
    (hpeek : stream.peek = (.error error, rest)) : ¬ error.IsUnexpectedClose := by
  unfold Stream.peek at hpeek
  split at hpeek <;> cases hpeek
  exact id

theorem not_isUnexpectedClose_of_next {stream rest : Stream} {error : Error}
    (hnext : stream.next = (.error error, rest)) : ¬ error.IsUnexpectedClose := by
  unfold Stream.next at hnext
  split at hnext <;> cases hnext
  exact id

theorem closing_of_leftover {reader : Reader} {place : LeftoverPlace} {token : Token}
    (herror : (reader.leftover place token).IsUnexpectedClose) :
    token.kind = .closing ∧
      reader.leftover place token = reader.errorAtToken .unmatchedClose token := by
  unfold leftover at herror ⊢
  split
  next hkind => exact ⟨hkind, rfl⟩
  next hkind => simp [hkind, errorAtToken, errorAt, Error.IsUnexpectedClose,
    ParseCause.kind] at herror
  next hclosing hflag =>
    split at herror
    next hkind => exact absurd hkind hclosing
    next name hkind => exact absurd hkind (hflag name)
    next => cases place <;> cases herror

section

variable {reader : Reader} {readInner : Stream → Step Form} {stream middle final : Stream}
  {error : Error} {levels : Nat}

theorem brokenOff_of_readQuoted (hblames : reader.BlamesCloses readInner)
    (hfirst : stream.Leaves [.quote] middle)
    (hread : reader.readQuoted readInner middle = (.error error, final))
    (herror : error.IsUnexpectedClose) : reader.BrokenOff stream error := by
  unfold readQuoted at hread
  split at hread
  next hquoted =>
    cases hread
    unfold quotedMethod at hquoted
    split at hquoted
    next hpeek =>
      cases hquoted
      exact absurd herror (not_isUnexpectedClose_of_peek hpeek)
    · split at hquoted <;> cases hquoted
    · cases hquoted
  · cases hread
  next rest hquoted =>
    rcases quotedMethod_cases hquoted with ⟨_, _, hname, _⟩ | ⟨_, rfl, _⟩
    · cases hname
    split at hread
    next hinner =>
      cases hread
      exact (hblames _ _ _ hinner herror).brokenOff_of_mark hfirst rfl
    · cases hread

theorem brokenOff_of_readGroup (hblames : reader.BlamesCloses readInner) {start : Nat}
    (hfirst : stream.Leaves [.opening] middle)
    (hread : reader.readGroup readInner start middle = (.error error, final))
    (herror : error.IsUnexpectedClose) : reader.BrokenOff stream error := by
  unfold readGroup at hread
  split at hread
  next hpeek =>
    cases hread
    exact absurd herror (not_isUnexpectedClose_of_peek hpeek)
  · cases hread
    cases herror
  next token middle hother hpeek =>
    obtain ⟨rfl, rfl⟩ := of_peek_eq_ok hpeek
    have hnext : middle.nextKind ≠ some .closing := by
      intro hclosing
      obtain ⟨⟨_, start, stop⟩, hhead, rfl⟩ := Option.map_eq_some_iff.1 hclosing
      exact hother start stop hhead
    split at hread
    next hinner =>
      cases hread
      exact ((hblames _ _ _ hinner herror).brokenOff hnext).of_leaves hfirst
        not_overclosed_opening
    next =>
      split at hread
      next hlast =>
        cases hread
        exact absurd herror (not_isUnexpectedClose_of_next hlast)
      · cases hread
      next token _ hother _ =>
        cases hread
        obtain ⟨kind, start, stop⟩ := token
        obtain ⟨rfl, _⟩ := closing_of_leftover herror
        exact absurd rfl (hother start stop)
      · cases hread
        cases herror

/-- The ways in which reading a call's arguments fails: with the next token, for
want of an argument, or within the value of an option or a positional argument or
after it. -/
theorem readArguments_error_cases {method : String} {signature : Signature}
    {start steps count : Nat}
    (hread : reader.readArguments readInner method signature start steps count stream =
      (.error error, final)) :
    stream.peek = (.error error, final) ∨
    (∃ parameter, error = reader.lackingError method signature start count parameter) ∨
    (∃ fewer name middle, steps = fewer + 1 ∧ stream.Leaves [.flag name] middle ∧
      (readInner middle = (.error error, final) ∨
        ∃ value next, readInner middle = (.ok value, next) ∧
          reader.readArguments readInner method signature start fewer count next =
            (.error error, final))) ∨
    (∃ fewer, steps = fewer + 1 ∧ stream.nextKind ≠ some .closing ∧
      (readInner stream = (.error error, final) ∨
        ∃ argument next, readInner stream = (.ok argument, next) ∧
          reader.readArguments readInner method signature start fewer (count + 1) next =
            (.error error, final))) := by
  rw [readArguments] at hread
  split at hread
  next hpeek =>
    cases hread
    exact .inl hpeek
  next token stream hpeek =>
    obtain ⟨rfl, rfl⟩ := of_peek_eq_ok hpeek
    split at hread
    · cases hread
    next parameter _ =>
      cases hread
      exact .inr (.inl ⟨parameter, rfl⟩)
    next name fewer hcontinuation =>
      obtain ⟨hnext, _⟩ := of_continuation_eq_option hcontinuation
      obtain ⟨pending, fault⟩ := stream
      obtain ⟨token, hhead, hkind⟩ := Option.map_eq_some_iff.1 hnext
      obtain ⟨rest, rfl⟩ := List.head?_eq_some_iff.1 hhead
      have hfirst := Stream.Leaves.cons token rest fault
      rw [hkind] at hfirst
      refine .inr (.inr (.inl ⟨fewer, name, _, rfl, hfirst, ?_⟩))
      split at hread
      next hvalue =>
        cases hread
        exact .inl hvalue
      next value next hvalue =>
        split at hread
        next hothers =>
          cases hread
          exact .inr ⟨value, next, hvalue, hothers⟩
        · cases hread
    next fewer hcontinuation =>
      -- A closing parenthesis would have ended the call.
      have hnext : stream.nextKind ≠ some .closing := by
        intro hclosing
        rw [Stream.nextKind] at hclosing
        rw [hclosing, continuation] at hcontinuation
        split at hcontinuation <;> cases hcontinuation
      refine .inr (.inr (.inr ⟨fewer, rfl, hnext, ?_⟩))
      split at hread
      next hargument =>
        cases hread
        exact .inl hargument
      next argument next hargument =>
        split at hread
        next hothers =>
          cases hread
          exact .inr ⟨argument, next, hargument, hothers⟩
        · cases hread
    · cases hread

/-- The arguments before the error are those of layouts, whose parentheses are
balanced. -/
theorem brokenOff_of_readArguments (hblames : reader.BlamesCloses readInner)
    (hgives : GivesLayouts reader.signatures readInner levels) {method : String}
    {signature : Signature} {start steps count : Nat}
    (hread : reader.readArguments readInner method signature start steps count stream =
      (.error error, final))
    (herror : error.IsUnexpectedClose) : reader.BrokenOff stream error := by
  induction steps using Nat.strongRecOn generalizing count stream with
  | ind steps ih =>
      rcases readArguments_error_cases hread with
        hpeek | ⟨parameter, rfl⟩ |
        ⟨fewer, name, middle, rfl, hfirst, hvalue | ⟨value, next, hvalue, hothers⟩⟩ |
        ⟨fewer, rfl, hnext, hargument | ⟨argument, next, hargument, hothers⟩⟩
      · exact absurd herror (not_isUnexpectedClose_of_peek hpeek)
      · cases herror
      · exact (hblames _ _ _ hvalue herror).brokenOff_of_mark hfirst rfl
      · obtain ⟨layout, hleaves, _⟩ := hgives _ _ _ hvalue
        have hbroken := ih fewer (Nat.lt_succ_self fewer) hothers
        exact hbroken.of_leaves (hfirst.trans hleaves)
          (layout.balanced_kinds.cons rfl).not_overclosed
      · exact (hblames _ _ _ hargument herror).brokenOff hnext
      · obtain ⟨layout, hleaves, _⟩ := hgives _ _ _ hargument
        have hbroken := ih fewer (Nat.lt_succ_self fewer) hothers
        exact hbroken.of_leaves hleaves layout.balanced_kinds.not_overclosed

end

theorem readForm_blamesCloses (reader : Reader) (levels : Nat) :
    reader.BlamesCloses (reader.readForm levels) := by
  induction levels with
  | zero =>
      intro stream final error hread herror
      unfold readForm at hread
      split at hread
      next hnext =>
        cases hread
        exact absurd herror (not_isUnexpectedClose_of_next hnext)
      · cases hread
        cases herror
      · cases hread
        cases herror
  | succ levels ih =>
      intro stream final error hread herror
      obtain ⟨pending, fault⟩ := stream
      cases pending with
      | nil =>
          cases fault <;> simp only [readForm, Stream.next] at hread <;> cases hread <;>
            cases herror
      | cons token rest =>
          rw [readForm_cons] at hread
          have hfirst := Stream.Leaves.cons token rest fault
          unfold readFrom at hread
          split at hread
          · cases hread
          · cases hread
          · cases hread
          next hkind =>
            rw [hkind] at hfirst
            exact .inr (brokenOff_of_readQuoted ih hfirst hread herror)
          next hkind =>
            rw [hkind] at hfirst
            exact .inr (brokenOff_of_readGroup ih hfirst hread herror)
          next hkind =>
            cases hread
            exact .inl ⟨token, rest, rfl, hkind, rfl⟩
          · cases hread
            cases herror
          next name hkind =>
            split at hread
            · cases hread
            next signature _ =>
              split at hread
              next harguments =>
                cases hread
                have hname : ¬ Overclosed [token.kind] := by
                  rw [hkind]
                  exact (Balanced.single rfl).not_overclosed
                exact .inr ((brokenOff_of_readArguments ih
                  (readForm_givesLayouts reader levels) harguments herror).of_leaves hfirst
                  hname)
              · cases hread

theorem exists_close_of_readOnly {reader : Reader} {stream : Stream} {error : Error}
    (hread : reader.readOnly stream = .error error) (herror : error.IsUnexpectedClose) :
    ∃ before close after, stream.pending = before ++ close :: after ∧
      close.kind = .closing ∧ error = reader.errorAtToken .unmatchedClose close ∧
      ¬ Overclosed (before.map Token.kind) ∧
      (Balanced (before.map Token.kind) ∨ AwaitsForm (before.map Token.kind)) := by
  unfold readOnly at hread
  split at hread
  next hform =>
    cases hread
    rcases readForm_blamesCloses _ _ _ _ _ hform herror with
      ⟨close, after, hpending, hclose, heq⟩ | hbroken
    · exact ⟨[], close, after, hpending, hclose, heq, Balanced.nil.not_overclosed, .inl .nil⟩
    · obtain ⟨before, close, after, hpending, hclose, heq, hbefore, hawaits⟩ := hbroken
      exact ⟨before, close, after, hpending, hclose, heq, hbefore, .inr hawaits⟩
  next f rest hform =>
    obtain ⟨layout, ⟨before, hpending, hkinds, _⟩, _⟩ := readForm_givesLayouts _ _ _ _ _ hform
    have hbalanced : Balanced (before.map Token.kind) := hkinds ▸ layout.balanced_kinds
    split at hread
    next hpeek =>
      cases hread
      exact absurd herror (not_isUnexpectedClose_of_peek hpeek)
    · cases hread
    next token last hpeek =>
      cases hread
      obtain ⟨rfl, hhead⟩ := of_peek_eq_ok hpeek
      obtain ⟨after, hafter⟩ := List.head?_eq_some_iff.1 hhead.symm
      obtain ⟨hclose, heq⟩ := closing_of_leftover herror
      exact ⟨before, token, after, by rw [hpending, hafter], hclose, heq,
        hbalanced.not_overclosed, .inl hbalanced⟩

end Reader

/-- An error for an unmatched closing parenthesis is about a token of the source
that is one, with no more parentheses closed than opened before it.  It is indeed
unmatched, unless it follows a quote mark or a flag within a group. -/
theorem unexpectedClose_of_parse {signatures : Signatures} {comments : Bool}
    {source : String} {error : ParseError}
    (hparse : parse signatures comments source = .error (.parse error))
    (hkind : error.cause.kind = .unexpectedClose) :
    ∃ before close after,
      (tokenize comments source).tokens = before ++ close :: after ∧
      close.kind = .closing ∧
      error = ⟨.unmatchedClose,
        some (String.ofList (Text.snippet source.toList close.start)), some ")"⟩ ∧
      ¬ Overclosed (before.map Token.kind) ∧
      (Overclosed ((before ++ [close]).map Token.kind) ↔
        (AwaitsForm (before.map Token.kind) →
          (before.map Token.kind).count .closing =
            (before.map Token.kind).count .opening)) := by
  obtain ⟨before, close, after, hpending, hclose, heq, hbefore, hlast⟩ :=
    Reader.exists_close_of_readOnly hparse hkind
  have hreported := Error.parse.inj heq
  rw [hclose] at hreported
  refine ⟨before, close, after, hpending, hclose, hreported, hbefore, ?_⟩
  rw [List.map_append, List.map_singleton, hclose, overclosed_append_closing_iff hbefore]
  constructor
  · exact fun hcount _ => hcount
  · intro hcount
    rcases hlast with hbalanced | hawaits
    · exact hbalanced.count_eq
    · exact hcount hawaits

/-- A second closing parenthesis has no opening one. -/
theorem unexpectedClose_of_closed_twice :
    parse startSignatures false "(1))" =
        .error (.parse ⟨.unmatchedClose, some "(1))", some ")"⟩) ∧
      ∃ before close after,
        (tokenize false "(1))").tokens = before ++ close :: after ∧
        close.kind = .closing ∧
        (⟨.unmatchedClose, some "(1))", some ")"⟩ : ParseError) = ⟨.unmatchedClose,
          some (String.ofList (Text.snippet "(1))".toList close.start)), some ")"⟩ ∧
        ¬ Overclosed (before.map Token.kind) ∧
        (Overclosed ((before ++ [close]).map Token.kind) ↔
          (AwaitsForm (before.map Token.kind) →
            (before.map Token.kind).count .closing =
              (before.map Token.kind).count .opening)) := by
  have hparse : parse startSignatures false "(1))" =
      .error (.parse ⟨.unmatchedClose, some "(1))", some ")"⟩) := by
    decide +kernel
  exact ⟨hparse, unexpectedClose_of_parse hparse rfl⟩

/-- The parenthesis that closes a group with nothing but a quote mark in it is
called unmatched, and so is the one after a flag without its value. -/
theorem unexpectedClose_of_awaited_form :
    (parse startSignatures false "(')" =
        .error (.parse ⟨.unmatchedClose, some "(')", some ")"⟩) ∧
      ¬ Overclosed ((tokenize false "(')").tokens.map Token.kind)) ∧
    (parse startSignatures false "(+ --x )" =
        .error (.parse ⟨.unmatchedClose, some "(+ --x )", some ")"⟩) ∧
      ¬ Overclosed ((tokenize false "(+ --x )").tokens.map Token.kind)) := by
  have hquote : (tokenize false "(')").tokens.map Token.kind =
      [.opening, .quote, .closing] := by decide +kernel
  have hflag : (tokenize false "(+ --x )").tokens.map Token.kind =
      [.opening, .identifier "+", .flag "x", .closing] := by decide +kernel
  have hquoteBalanced : Balanced [.opening, .quote, .closing] :=
    .group (.single rfl)
  have hflagBalanced : Balanced [.opening, .identifier "+", .flag "x", .closing] :=
    .group (.cons rfl (.single rfl))
  rw [hquote, hflag]
  exact ⟨⟨by decide +kernel, hquoteBalanced.not_overclosed⟩, by decide +kernel,
    hflagBalanced.not_overclosed⟩

end ArityScript
