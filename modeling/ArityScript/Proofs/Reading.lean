import ArityScript.Form.Reader
import ArityScript.Proofs.Discipline

/-!
# Errors of reading

Reading a source fails with an error of its tokens or of its forms, never with
one of evaluation.
-/

namespace ArityScript

/-- An error that is not one of evaluation. -/
def Error.OfReading : Error → Prop
  | .eval _ => False
  | _ => True

namespace Reader

def Step.Reads {α : Type} (step : Step α) : Prop :=
  Yields Error.OfReading (fun _ => True) step.1

theorem Step.Reads.error {α : Type} {step : Step α} (hreads : step.Reads) {error : Error}
    {rest : Stream} (heq : step = (.error error, rest)) : error.OfReading := by
  rw [heq] at hreads
  exact hreads

section

variable (reader : Reader) {readInner : Stream → Step Form}

theorem reads_peek (stream : Stream) : Step.Reads stream.peek := by
  unfold Stream.peek
  split <;> exact trivial

theorem reads_next (stream : Stream) : Step.Reads stream.next := by
  unfold Stream.next
  split <;> exact trivial

theorem leftover_ofReading (place : LeftoverPlace) (token : Token) :
    (reader.leftover place token).OfReading := by
  unfold leftover
  split <;> exact trivial

theorem reads_quotedMethod (stream : Stream) : (reader.quotedMethod stream).Reads := by
  have hpeek := reads_peek stream
  unfold quotedMethod
  split
  · next heq => exact hpeek.error heq
  · split <;> exact trivial
  · exact trivial

variable (hinner : ∀ stream, (readInner stream).Reads)

include hinner

theorem reads_readQuoted (stream : Stream) : (reader.readQuoted readInner stream).Reads := by
  have hquoted := reads_quotedMethod reader stream
  unfold readQuoted
  split
  · next heq => exact hquoted.error heq
  · exact trivial
  · next rest _ =>
      have hrest := hinner rest
      split
      · next heq => exact hrest.error heq
      · exact trivial

theorem reads_readGroup (start : Nat) (stream : Stream) :
    (reader.readGroup readInner start stream).Reads := by
  have hpeek := reads_peek stream
  unfold readGroup
  split
  · next heq => exact hpeek.error heq
  · exact trivial
  · next rest _ _ =>
      have hrest := hinner rest
      split
      · next heq => exact hrest.error heq
      · next final _ =>
          have hfinal := reads_next final
          split
          · next heq => exact hfinal.error heq
          · exact trivial
          · exact leftover_ofReading reader .beforeClose _
          · exact trivial

theorem reads_readArguments (method : String) (signature : Signature) (start steps count : Nat)
    (stream : Stream) :
    (reader.readArguments readInner method signature start steps count stream).Reads := by
  induction steps generalizing count stream with
  | zero =>
      have hpeek := reads_peek stream
      unfold readArguments
      split
      · next heq => exact hpeek.error heq
      · split
        case h_3 => contradiction
        case h_4 => contradiction
        all_goals exact trivial
  | succ steps ih =>
      have hpeek := reads_peek stream
      unfold readArguments
      split
      · next heq => exact hpeek.error heq
      · next rest _ =>
          split
          case h_3 others _ hsteps =>
            cases hsteps
            have hvalue := hinner rest.drop
            split
            · next heq => exact hvalue.error heq
            · next final _ =>
                have hothers := ih count final
                split
                · next heq => exact hothers.error heq
                · exact trivial
          case h_4 others _ hsteps =>
            cases hsteps
            have hargument := hinner rest
            split
            · next heq => exact hargument.error heq
            · next final _ =>
                have hothers := ih (count + 1) final
                split
                · next heq => exact hothers.error heq
                · exact trivial
          all_goals exact trivial

theorem reads_readFrom (token : Token) (stream : Stream) :
    (reader.readFrom readInner token stream).Reads := by
  unfold readFrom
  split
  case h_4 => exact reads_readQuoted reader hinner stream
  case h_5 => exact reads_readGroup reader hinner token.start stream
  case h_8 name _ =>
    split
    · exact trivial
    · next signature _ =>
        have harguments := reads_readArguments reader hinner name signature token.start
          stream.size 0 stream
        split
        · next heq => exact harguments.error heq
        · exact trivial
  all_goals exact trivial

end

theorem reads_readForm (reader : Reader) (levels : Nat) (stream : Stream) :
    (reader.readForm levels stream).Reads := by
  induction levels generalizing stream with
  | zero =>
      have hnext := reads_next stream
      unfold readForm
      split
      · next heq => exact hnext.error heq
      · exact trivial
      · exact trivial
  | succ levels ih =>
      have hnext := reads_next stream
      unfold readForm
      split
      · next heq => exact hnext.error heq
      · exact trivial
      · exact reads_readFrom reader ih _ _

end Reader

/-- A source text that cannot be read does not fail in its evaluation. -/
theorem parse_ofReading {signatures : Signatures} {comments : Bool} {source : String}
    {error : Error} (hparse : parse signatures comments source = .error error) : error.OfReading := by
  have hform := Reader.reads_readForm ⟨source.toList, signatures⟩ maxReadDepth
    (tokenize comments source).toStream
  unfold parse Reader.readOnly Reader.next at hparse
  split at hparse
  · next heq =>
      cases hparse
      exact hform.error heq
  · next rest _ =>
      have hpeek := Reader.reads_peek rest
      split at hparse
      · next heq =>
          cases hparse
          exact hpeek.error heq
      · cases hparse
      · cases hparse
        exact Reader.leftover_ofReading _ .afterExpression _

end ArityScript
