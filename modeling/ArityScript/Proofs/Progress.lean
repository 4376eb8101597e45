import ArityScript.Proofs.Streaming

/-!
# Reading to the end

A reader that is asked for form after form gets to the end of every source, however
malformed it is, as long as the questions go on after each error from where the error
left the stream.  Whenever there is a token, asking for a form takes at least one,
also if it fails.  The malformed token of a source is met once; it is reported when
it is met, and from then on there is nothing left to read.
-/

namespace ArityScript

/-! ## What a step leaves -/

namespace Reader

/-- What a reading step leaves of a stream.  It took some tokens and did not get as
far as the malformed one, or it reports the malformed token and leaves nothing. -/
inductive Step.Proceeds {α : Type} (stream : Stream) : Step α → Prop where
  | took {result : Except Error α} {rest : Stream} : rest.pending <:+ stream.pending →
      rest.fault = stream.fault → (∀ error, result ≠ .error (.lex error)) →
      Proceeds stream (result, rest)
  | broke {error : LexError} : stream.fault = some error →
      Proceeds stream (.error (.lex error), ⟨[], none⟩)

theorem ok_ne_lex {α : Type} (a : α) (error : LexError) :
    (.ok a : Except Error α) ≠ .error (.lex error) := by
  rintro ⟨⟩

theorem parse_ne_lex {α : Type} (failure : ParseError) (error : LexError) :
    (.error (.parse failure) : Except Error α) ≠ .error (.lex error) := by
  rintro ⟨⟩

namespace Step.Proceeds

variable {α β : Type} {stream middle : Stream} {step : Step α} {next : Step β}

theorem stay {result : Except Error α} (hresult : ∀ error, result ≠ .error (.lex error)) :
    Proceeds stream (result, stream) :=
  .took (List.suffix_refl _) rfl hresult

/-- The next step starts where a successful one left the stream. -/
theorem andThen {a : α} (hstep : step.Proceeds stream) (heq : step = (.ok a, middle))
    (hnext : next.Proceeds middle) : next.Proceeds stream := by
  subst heq
  cases hstep with
  | took hpending hfault _ =>
      cases hnext with
      | took hrest hkept hresult => exact .took (hrest.trans hpending) (hkept.trans hfault) hresult
      | broke hbroken => exact .broke (hfault ▸ hbroken)

/-- An error that is handed on. -/
theorem error {error : Error} (hstep : step.Proceeds stream)
    (heq : step = (.error error, middle)) :
    Proceeds stream ((.error error, middle) : Step β) := by
  subst heq
  cases hstep with
  | took hpending hfault herror =>
      exact .took hpending hfault fun other hother => herror other (by rw [Except.error.inj hother])
  | broke hbroken => exact .broke hbroken

/-- A result that is made from the value of a step. -/
theorem result {a : α} {result : Except Error β} (hstep : step.Proceeds stream)
    (heq : step = (.ok a, middle)) (hresult : ∀ error, result ≠ .error (.lex error)) :
    Proceeds stream (result, middle) :=
  hstep.andThen heq (.stay hresult)

end Step.Proceeds

theorem proceeds_peek (stream : Stream) : Step.Proceeds stream stream.peek := by
  unfold Stream.peek
  split
  · exact .stay (ok_ne_lex _)
  · exact .broke rfl
  · exact .stay (ok_ne_lex _)

theorem proceeds_next (stream : Stream) : Step.Proceeds stream stream.next := by
  unfold Stream.next
  split
  · exact .took (List.suffix_cons _ _) rfl (ok_ne_lex _)
  · exact .broke rfl
  · exact .stay (ok_ne_lex _)

theorem proceeds_drop (stream : Stream) {α : Type} (a : α) :
    Step.Proceeds stream ((.ok a, stream.drop) : Step α) := by
  unfold Stream.drop
  split
  · exact .took (List.suffix_cons _ _) rfl (ok_ne_lex _)
  · exact .stay (ok_ne_lex _)

section

variable (reader : Reader) {readInner : Stream → Step Form}

theorem leftover_ne_lex (place : LeftoverPlace) (token : Token) (error : LexError) :
    reader.leftover place token ≠ .lex error := by
  unfold leftover
  split <;> rintro ⟨⟩

theorem proceeds_quotedMethod (stream : Stream) :
    (reader.quotedMethod stream).Proceeds stream := by
  have hpeek := proceeds_peek stream
  unfold quotedMethod
  split
  next heq => exact hpeek.error heq
  next rest heq =>
    split
    · exact hpeek.andThen heq (proceeds_drop rest _)
    · exact hpeek.result heq (ok_ne_lex _)
  next heq => exact hpeek.result heq (ok_ne_lex _)

variable (hinner : ∀ stream, (readInner stream).Proceeds stream)

include hinner

theorem proceeds_readQuoted (stream : Stream) :
    (reader.readQuoted readInner stream).Proceeds stream := by
  have hquoted := reader.proceeds_quotedMethod stream
  unfold readQuoted
  split
  next heq => exact hquoted.error heq
  next heq => exact hquoted.result heq (ok_ne_lex _)
  next rest heq =>
    have hform := hinner rest
    refine hquoted.andThen heq ?_
    split
    next heq => exact hform.error heq
    next heq => exact hform.result heq (ok_ne_lex _)

theorem proceeds_readGroup (start : Nat) (stream : Stream) :
    (reader.readGroup readInner start stream).Proceeds stream := by
  have hpeek := proceeds_peek stream
  unfold readGroup
  split
  next heq => exact hpeek.error heq
  next heq => exact hpeek.result heq (parse_ne_lex _)
  next rest _ heq =>
    have hform := hinner rest
    refine hpeek.andThen heq ?_
    split
    next heq => exact hform.error heq
    next last heq =>
      have hclose := proceeds_next last
      refine hform.andThen heq ?_
      split
      next heq => exact hclose.error heq
      next heq => exact hclose.result heq (ok_ne_lex _)
      next token _ _ heq =>
        exact hclose.result heq fun error hother =>
          reader.leftover_ne_lex _ token error (Except.error.inj hother)
      next heq => exact hclose.result heq (parse_ne_lex _)

theorem proceeds_readArguments (method : String) (signature : Signature)
    (start steps count : Nat) (stream : Stream) :
    (reader.readArguments readInner method signature start steps count stream).Proceeds
      stream := by
  induction steps using Nat.strongRecOn generalizing count stream with
  | ind steps ih =>
      have hpeek := proceeds_peek stream
      rw [readArguments]
      split
      next heq => exact hpeek.error heq
      next rest heq =>
        refine hpeek.andThen heq ?_
        split
        · exact .stay (ok_ne_lex _)
        · exact .stay (parse_ne_lex _)
        next fewer _ =>
          have hvalue := hinner rest.drop
          refine (proceeds_drop rest ()).andThen rfl ?_
          split
          next heq => exact hvalue.error heq
          next next heq =>
            have hothers := ih fewer (Nat.lt_succ_self fewer) count next
            refine hvalue.andThen heq ?_
            split
            next heq => exact hothers.error heq
            next heq => exact hothers.result heq (ok_ne_lex _)
        next fewer _ =>
          have hargument := hinner rest
          split
          next heq => exact hargument.error heq
          next next heq =>
            have hothers := ih fewer (Nat.lt_succ_self fewer) (count + 1) next
            refine hargument.andThen heq ?_
            split
            next heq => exact hothers.error heq
            next heq => exact hothers.result heq (ok_ne_lex _)
        · exact .stay (ok_ne_lex _)

theorem proceeds_readFrom (token : Token) (stream : Stream) :
    (reader.readFrom readInner token stream).Proceeds stream := by
  unfold readFrom
  split
  case h_4 => exact reader.proceeds_readQuoted hinner stream
  case h_5 => exact reader.proceeds_readGroup hinner token.start stream
  case h_8 name _ =>
    split
    · exact .stay (ok_ne_lex _)
    next signature _ =>
      have harguments := reader.proceeds_readArguments hinner name signature token.start
        stream.size 0 stream
      split
      next heq => exact harguments.error heq
      next heq => exact harguments.result heq (ok_ne_lex _)
  all_goals exact .stay (by rintro _ ⟨⟩)

end

theorem proceeds_of_cons {reader : Reader} {levels : Nat}
    (hcons : ∀ token rest fault,
      (reader.readForm levels ⟨token :: rest, fault⟩).Proceeds ⟨rest, fault⟩)
    (stream : Stream) : (reader.readForm levels stream).Proceeds stream := by
  obtain ⟨pending, fault⟩ := stream
  cases pending with
  | cons token rest =>
      exact (proceeds_next ⟨token :: rest, fault⟩).andThen rfl (hcons token rest fault)
  | nil =>
      cases fault with
      | some error => cases levels <;> exact .broke rfl
      | none => cases levels <;> exact .stay (parse_ne_lex _)

/-- Where there is a token, reading a form takes it, whatever comes of it. -/
theorem proceeds_readForm_cons (reader : Reader) (levels : Nat) (token : Token)
    (rest : List Token) (fault : Option LexError) :
    (reader.readForm levels ⟨token :: rest, fault⟩).Proceeds ⟨rest, fault⟩ := by
  induction levels generalizing token rest fault with
  | zero => exact .stay (parse_ne_lex _)
  | succ levels ih =>
      rw [readForm_cons]
      exact reader.proceeds_readFrom (proceeds_of_cons ih) token ⟨rest, fault⟩

theorem proceeds_readForm (reader : Reader) (levels : Nat) (stream : Stream) :
    (reader.readForm levels stream).Proceeds stream :=
  proceeds_of_cons (reader.proceeds_readForm_cons levels) stream

end Reader

/-! ## Rounds -/

/-- The tokens that are still to be read and the malformed one, if there is one. -/
def Stream.remaining (stream : Stream) : Nat :=
  stream.pending.length + stream.fault.toList.length

namespace Reader

theorem Step.Proceeds.pending_suffix {α : Type} {stream : Stream} {step : Step α}
    (hstep : step.Proceeds stream) : step.2.pending <:+ stream.pending := by
  cases hstep with
  | took hpending _ _ => exact hpending
  | broke _ => exact List.nil_suffix

theorem Step.Proceeds.remaining_le {α : Type} {stream : Stream} {step : Step α}
    (hstep : step.Proceeds stream) : step.2.remaining ≤ stream.remaining := by
  cases hstep with
  | took hpending hfault _ =>
      have hlength := hpending.length_le
      simp only [Stream.remaining, hfault]
      omega
  | broke _ => exact Nat.zero_le _

theorem Step.Proceeds.eq_broken {α : Type} {stream : Stream} {step : Step α}
    (hstep : step.Proceeds stream) {error : LexError} (herror : step.1 = .error (.lex error)) :
    step.2 = ⟨[], none⟩ := by
  cases hstep with
  | took _ _ hresult => exact absurd herror (hresult error)
  | broke _ => rfl

theorem proceeds_isFinished (stream : Stream) : (isFinished stream).Proceeds stream := by
  have hpeek := proceeds_peek stream
  unfold isFinished
  split
  next heq => exact hpeek.error heq
  next heq => exact hpeek.result heq (ok_ne_lex _)

/-- A reader that goes on after failures has finished once there have been more rounds
than tokens, the malformed one included. -/
theorem answers_eq_append_finished (reader : Reader) {limit : Nat} {stream : Stream}
    (hlimit : stream.remaining < limit) :
    ∃ rounds : List Answer, reader.answers limit stream = rounds ++ [.finished] ∧
      rounds.length ≤ stream.remaining ∧ ∀ answer ∈ rounds, answer ≠ .finished := by
  induction limit generalizing stream with
  | zero => omega
  | succ limit ih =>
      obtain ⟨pending, fault⟩ := stream
      cases pending with
      | nil =>
          cases fault with
          | none => exact ⟨[], rfl, Nat.zero_le _, by simp⟩
          | some error =>
              -- The malformed token takes a round of its own.
              obtain ⟨rounds, hrounds, hlength, hopen⟩ :=
                @ih ⟨[], none⟩ (Nat.lt_of_succ_lt_succ hlimit)
              refine ⟨.failed (.lex error) :: rounds, ?_, Nat.succ_le_succ hlength, ?_⟩
              · rw [List.cons_append, ← hrounds]
                rfl
              · simpa using hopen
      | cons token rest =>
          have hnext := reader.proceeds_readForm_cons maxReadDepth token rest fault
          have hless : (reader.next ⟨token :: rest, fault⟩).2.remaining <
              Stream.remaining ⟨token :: rest, fault⟩ := by
            have hle := hnext.remaining_le
            simp only [Stream.remaining, List.length_cons] at hle ⊢
            rw [next]
            omega
          obtain ⟨rounds, hrounds, hlength, hopen⟩ :=
            @ih (reader.next ⟨token :: rest, fault⟩).2 (by omega)
          cases hform : reader.next ⟨token :: rest, fault⟩ with
          | mk result left =>
              rw [hform] at hrounds hlength hless
              cases result with
              | error error =>
                  refine ⟨.failed error :: rounds, ?_, by simp only [List.length_cons]; omega,
                    by simpa using hopen⟩
                  simp only [answers, isFinished, Stream.peek, Option.isNone_some, hform, hrounds,
                    List.cons_append]
              | ok form =>
                  refine ⟨.form form :: rounds, ?_, by simp only [List.length_cons]; omega,
                    by simpa using hopen⟩
                  simp only [answers, isFinished, Stream.peek, Option.isNone_some, hform, hrounds,
                    List.cons_append]

/-! ## After the malformed token -/

theorem reply_failed_lex {reader : Reader} {request : Request} {stream : Stream}
    {error : LexError} (hreply : (reader.reply request stream).1 = .failed (.lex error)) :
    (reader.reply request stream).2 = ⟨[], none⟩ := by
  cases request with
  | isFinished =>
      have hfinished := proceeds_isFinished stream
      simp only [reply] at hreply ⊢
      split at hreply
      next heq =>
        rw [heq] at hfinished
        exact hfinished.eq_broken (congrArg Except.error (Reply.failed.inj hreply))
      next => cases hreply
  | next =>
      have hform := reader.proceeds_readForm maxReadDepth stream
      simp only [reply, Reader.next] at hreply ⊢
      split at hreply
      next heq =>
        rw [heq] at hform
        exact hform.eq_broken (congrArg Except.error (Reply.failed.inj hreply))
      next => cases hreply

/-- The reply of a reader to which nothing is left. -/
def atEnd (reader : Reader) : Request → Reply
  | .isFinished => .finished true
  | .next => .failed reader.endOfInput

theorem replies_atEnd (reader : Reader) (requests : List Request) :
    reader.replies requests ⟨[], none⟩ = requests.map reader.atEnd := by
  induction requests with
  | nil => rfl
  | cons request requests ih =>
      have hreply : reader.reply request ⟨[], none⟩ = (reader.atEnd request, ⟨[], none⟩) := by
        cases request <;> rfl
      rw [replies, hreply, List.map_cons, ← ih]

end Reader

/-- Every source is read to its end, in at most two rounds more than there are tokens
before the end or the malformed token, if each round asks whether anything is left and,
unless that fails or nothing is, for the next form.  Asking for a form takes at least
one token if there is any.  After a malformed token has been reported, the reader has
finished and stays so. -/
theorem parseAll_finishes (signatures : Signatures) (comments : Bool) (source : String) :
    (∃ rounds : List Reader.Answer,
      parseAll signatures comments ((tokenize comments source).tokens.length + 2) source =
          rounds ++ [.finished] ∧
        rounds.length ≤ (tokenize comments source).tokens.length + 1 ∧
        ∀ answer ∈ rounds, answer ≠ .finished) ∧
    ∀ reader : Reader,
      (∀ (token : Token) (rest : List Token) (fault : Option LexError),
        (reader.next ⟨token :: rest, fault⟩).2.pending <:+ rest) ∧
      ∀ (request : Reader.Request) (stream : Stream) (error : LexError),
        (reader.reply request stream).1 = .failed (.lex error) →
        ∀ requests : List Reader.Request,
          reader.replies requests (reader.reply request stream).2 =
            requests.map reader.atEnd := by
  refine ⟨?_, fun reader => ⟨?_, ?_⟩⟩
  · have hremaining : (tokenize comments source).toStream.remaining ≤
        (tokenize comments source).tokens.length + 1 := by
      simp only [Tokens.toStream, Stream.remaining]
      cases (tokenize comments source).error <;> simp
    obtain ⟨rounds, hrounds, hlength, hopen⟩ :=
      Reader.answers_eq_append_finished ⟨source.toList, signatures⟩
        (Nat.lt_succ_of_le hremaining)
    exact ⟨rounds, hrounds, Nat.le_trans hlength hremaining, hopen⟩
  · intro token rest fault
    exact (reader.proceeds_readForm_cons maxReadDepth token rest fault).pending_suffix
  · intro request stream error hreply requests
    rw [Reader.reply_failed_lex hreply, Reader.replies_atEnd]

/-- Four tokens before a string without an end, with an error at the first of them and
one at the string. -/
theorem parseAll_finishes_unterminated :
    (tokenize false ") (+ 1 \"oops").tokens.length = 4 ∧
      (∃ rounds : List Reader.Answer,
        parseAll startSignatures false 6 ") (+ 1 \"oops" = rounds ++ [.finished] ∧
          rounds.length ≤ 5 ∧ ∀ answer ∈ rounds, answer ≠ .finished) ∧
      Reader.replies ⟨") (+ 1 \"oops".toList, startSignatures⟩
          [.isFinished, .next, .isFinished]
          ⟨[], some ⟨.unterminatedString, ") (+ 1 \"oops", "\"oops"⟩⟩ =
        [.failed (.lex ⟨.unterminatedString, ") (+ 1 \"oops", "\"oops"⟩),
          .failed (Reader.endOfInput ⟨") (+ 1 \"oops".toList, startSignatures⟩),
          .finished true] := by
  obtain ⟨hrounds, hreaders⟩ := parseAll_finishes startSignatures false ") (+ 1 \"oops"
  have hlength : (tokenize false ") (+ 1 \"oops").tokens.length = 4 := by decide +kernel
  rw [hlength] at hrounds
  have hlater := (hreaders ⟨") (+ 1 \"oops".toList, startSignatures⟩).2 .isFinished
    ⟨[], some ⟨.unterminatedString, ") (+ 1 \"oops", "\"oops"⟩⟩ _ rfl [.next, .isFinished]
  exact ⟨hlength, hrounds, congrArg (List.cons _) hlater⟩

end ArityScript
