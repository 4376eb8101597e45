import ArityScript.Proofs.Binding.Arity
import ArityScript.Proofs.Lines
import ArityScript.Proofs.Places
import ArityScript.Proofs.Rendering.Tokens

/-!
# Reading form after form

A reader that has a stream is asked for the next form, or whether there is one,
in any order and as often as one likes.  When a source goes on in the next line
after a form that it holds alone, the reader gives this form and is then left
with the next line: it replies to everything as if it had been given that line
alone.

The form has to have ended with its line.  A call with a rest parameter ends only
with its group or with the source, so that outside of parentheses it would take
the forms of the next line, and a flag there might be taken by any call.
-/

namespace ArityScript

open Layout (kindsOfAll)

/-! ## Requests -/

namespace Reader

inductive Request where
  | isFinished
  | next
deriving DecidableEq, Repr

inductive Reply where
  | finished (answer : Bool)
  | form (form : Form)
  | failed (error : Error)

/-- A reply without the piece of the source that its error shows. -/
def Reply.unplaced : Reply → Reply
  | .failed error => .failed error.unplaced
  | reply => reply

def reply (reader : Reader) (request : Request) (stream : Stream) : Reply × Stream :=
  match request with
  | .isFinished =>
      match Reader.isFinished stream with
      | (.error error, rest) => (.failed error, rest)
      | (.ok answer, rest) => (.finished answer, rest)
  | .next =>
      match reader.next stream with
      | (.error error, rest) => (.failed error, rest)
      | (.ok form, rest) => (.form form, rest)

/-- The replies to requests that are made one after the other, each where the one
before it left the stream. -/
def replies (reader : Reader) : List Request → Stream → List Reply
  | [], _ => []
  | request :: requests, stream =>
      let (reply, rest) := reader.reply request stream
      reply :: reader.replies requests rest

theorem reply_unplaced (reader : Reader) (request : Request) (stream : Stream) :
    reader.unplaced.reply request stream.unplaced =
      ((reader.reply request stream).1.unplaced, (reader.reply request stream).2.unplaced) := by
  cases request with
  | isFinished =>
      simp only [reply, isFinished_unplaced]
      rcases isFinished stream with ⟨error | answer, rest⟩ <;> rfl
  | next =>
      simp only [reply, next, readForm_unplaced]
      rcases reader.readForm maxReadDepth stream with ⟨error | form, rest⟩ <;> rfl

theorem replies_unplaced (reader : Reader) (requests : List Request) (stream : Stream) :
    reader.unplaced.replies requests stream.unplaced =
      (reader.replies requests stream).map Reply.unplaced := by
  induction requests generalizing stream with
  | nil => rfl
  | cons request requests ih =>
      rw [replies, reply_unplaced, replies, List.map_cons, ← ih]

/-- What the replies say does not depend on where the source stands. -/
theorem replies_congr {reader other : Reader} {stream otherStream : Stream}
    (hsignatures : reader.signatures = other.signatures)
    (hstream : stream.unplaced = otherStream.unplaced) (requests : List Request) :
    (reader.replies requests stream).map Reply.unplaced =
      (other.replies requests otherStream).map Reply.unplaced := by
  have hreader : reader.unplaced = other.unplaced := by
    rw [unplaced, unplaced, hsignatures]
  rw [← replies_unplaced, ← replies_unplaced, hreader, hstream]

end Reader

/-- The replies of a reader to which a source text is given. -/
def repliesTo (signatures : Signatures) (comments : Bool) (source : String)
    (requests : List Reader.Request) : List Reader.Reply :=
  Reader.replies ⟨source.toList, signatures⟩ requests (tokenize comments source).toStream

/-! ## Calls that end with their line -/

variable {signatures : Signatures}

/-- The name of a method that takes all arguments up to the end of its group. -/
def TokenKind.takesRest (signatures : Signatures) : TokenKind → Bool
  | .identifier name => (signatures name).any fun signature => signature.rest.isSome
  | _ => false

/-- Every call of a method with a rest parameter stands within parentheses.  A name
directly after a quote mark is no call. -/
def RestCallsEnclosed (signatures : Signatures) (kinds : List TokenKind) : Prop :=
  ∀ i (_ : i < kinds.length), kinds[i].takesRest signatures = true →
    (kinds.take i).getLast? = some .quote ∨
      (kinds.take i).count .closing < (kinds.take i).count .opening

instance (signatures : Signatures) (kinds : List TokenKind) :
    Decidable (RestCallsEnclosed signatures kinds) :=
  inferInstanceAs (Decidable (∀ i (_ : i < kinds.length), _))

theorem RestCallsEnclosed.of_append {before after : List TokenKind} {kind : TokenKind}
    (henclosed : RestCallsEnclosed signatures (before ++ kind :: after))
    (htakes : kind.takesRest signatures = true) :
    before.getLast? = some .quote ∨ before.count .closing < before.count .opening := by
  have hlength : before.length < (before ++ kind :: after).length := by simp
  have hhere := henclosed before.length hlength (by simpa using htakes)
  rwa [List.take_left] at hhere

namespace Layout

mutual

/-- No call outside of groups has a rest parameter. -/
def RestEnclosed (signatures : Signatures) : Layout → Prop
  | .quoted inner => inner.RestEnclosed signatures
  | .call method arguments =>
      (TokenKind.identifier method).takesRest signatures = false ∧
        AllRestEnclosed signatures arguments
  | _ => True

def AllRestEnclosed (signatures : Signatures) : List Layout → Prop
  | [] => True
  | layout :: rest => layout.RestEnclosed signatures ∧ AllRestEnclosed signatures rest

end

mutual

/-- A quote mark is never the last token of a form. -/
theorem getLast?_kinds_ne_quote : ∀ {layout : Layout} (before : List TokenKind),
    layout.IsArgument signatures → (before ++ layout.kinds).getLast? ≠ some .quote
  | .literal v, before, hlayout => by
      obtain ⟨kind, hkind⟩ := Option.isSome_iff_exists.1 hlayout.isSome_tokenKind?
      have hliteral := Value.isLiteral_of_tokenKind? hkind
      rw [kinds, hkind, Option.toList_some, List.getLast?_concat]
      rintro ⟨rfl⟩
      cases hliteral
  | .variable _, before, _ => by simp [kinds]
  | .flag _, before, _ => by simp [kinds]
  | .quotedName _, before, _ => by simp [kinds]
  | .quoted inner, before, hlayout => by
      have hinner := getLast?_kinds_ne_quote (before ++ [.quote]) hlayout.of_quoted.2
      rwa [List.append_assoc] at hinner
  | .call method arguments, before, hlayout => by
      have harguments := getLast?_kindsOfAll_ne_quote (before ++ [.identifier method])
        hlayout.of_call.2 (by simp)
      rwa [List.append_assoc] at harguments
  | .group inner, before, _ => by
      rw [kinds, ← List.cons_append, ← List.append_assoc, List.getLast?_concat]
      simp

theorem getLast?_kindsOfAll_ne_quote : ∀ {layouts : List Layout} (before : List TokenKind),
    (∀ layout ∈ layouts, layout.IsArgument signatures) →
      before.getLast? ≠ some .quote → (before ++ kindsOfAll layouts).getLast? ≠ some .quote
  | [], before, _, hbefore => by rwa [kindsOfAll, List.append_nil]
  | layout :: rest, before, hlayouts, _ => by
      have hfirst := getLast?_kinds_ne_quote before (hlayouts layout List.mem_cons_self)
      have hrest := getLast?_kindsOfAll_ne_quote (before ++ layout.kinds)
        (fun other hother => hlayouts other (List.mem_cons_of_mem _ hother)) hfirst
      rwa [List.append_assoc] at hrest

end

mutual

/-- Where no parentheses are open, the tokens say which calls stand in none. -/
theorem restEnclosed_of_kinds : ∀ {layout : Layout} {before after : List TokenKind},
    layout.IsArgument signatures →
      RestCallsEnclosed signatures (before ++ (layout.kinds ++ after)) →
      before.count .closing = before.count .opening →
      (layout.isCall = true → before.getLast? ≠ some .quote) →
      layout.RestEnclosed signatures
  | .literal _, _, _, _, _, _, _ | .variable _, _, _, _, _, _, _ | .flag _, _, _, _, _, _, _
  | .quotedName _, _, _, _, _, _, _ | .group _, _, _, _, _, _, _ => trivial
  | .quoted inner, before, after, hlayout, henclosed, hcount, _ => by
      obtain ⟨hcall, hinner⟩ := hlayout.of_quoted
      refine @restEnclosed_of_kinds inner (before ++ [.quote]) after hinner ?_ ?_ ?_
      · rwa [List.append_assoc]
      · simpa using hcount
      · simp [hcall]
  | .call method arguments, before, after, hlayout, henclosed, hcount, hlast => by
      refine ⟨?_, ?_⟩
      · rw [← Bool.not_eq_true]
        intro htakes
        rcases henclosed.of_append htakes with hquote | hopen
        · exact hlast rfl hquote
        · omega
      · refine @allRestEnclosed_of_kinds arguments (before ++ [.identifier method]) after
          hlayout.of_call.2 ?_ ?_ (by simp)
        · rwa [List.append_assoc]
        · simpa using hcount

theorem allRestEnclosed_of_kinds : ∀ {layouts : List Layout} {before after : List TokenKind},
    (∀ layout ∈ layouts, layout.IsArgument signatures) →
      RestCallsEnclosed signatures (before ++ (kindsOfAll layouts ++ after)) →
      before.count .closing = before.count .opening →
      before.getLast? ≠ some .quote → AllRestEnclosed signatures layouts
  | [], _, _, _, _, _, _ => trivial
  | layout :: rest, before, after, hlayouts, henclosed, hcount, hlast => by
      have hfirst := hlayouts layout List.mem_cons_self
      rw [kindsOfAll, List.append_assoc] at henclosed
      refine ⟨restEnclosed_of_kinds hfirst henclosed hcount fun _ => hlast, ?_⟩
      refine @allRestEnclosed_of_kinds rest (before ++ layout.kinds) after
        (fun other hother => hlayouts other (List.mem_cons_of_mem _ hother)) ?_ ?_
        (getLast?_kinds_ne_quote before hfirst)
      · rwa [List.append_assoc]
      · have hbalanced := layout.balanced_kinds.count_eq
        rw [List.count_append, List.count_append]
        omega

end

theorem endsBefore_of_not_takesRest {signature : Signature} {method : String}
    {next : Option TokenKind}
    (htakes : (TokenKind.identifier method).takesRest signatures = false)
    (hsignature : signatures method = some signature)
    (hnext : ∀ name, next ≠ some (.flag name)) : signature.EndsBefore next := by
  have hrest : signature.rest = none := by
    simpa [TokenKind.takesRest, hsignature] using htakes
  cases next with
  | none => trivial
  | some kind =>
      cases kind with
      | closing => trivial
      | flag name => exact absurd rfl (hnext name)
      | _ => exact hrest

mutual

/-- Without calls that take the rest, a layout ends in the same way before any
token but a flag. -/
theorem Delimited.before : ∀ {layout : Layout} {next other : Option TokenKind},
    layout.Delimited signatures next → layout.RestEnclosed signatures →
      (∀ name, other ≠ some (.flag name)) → layout.Delimited signatures other
  | .literal _, _, _, _, _, _ | .variable _, _, _, _, _, _
  | .quotedName _, _, _, _, _, _ => trivial
  | .flag _, _, _, hdelimited, _, _ => hdelimited
  | .quoted _, _, _, ⟨hcall, hempty, hinner⟩, henclosed, hother =>
      ⟨hcall, hempty, hinner.before henclosed hother⟩
  | .call _ _, _, _, ⟨_, harguments⟩, ⟨htakes, henclosed⟩, hother =>
      ⟨fun _ hsignature => endsBefore_of_not_takesRest htakes hsignature hother,
        AllDelimited.before harguments henclosed hother⟩
  | .group _, _, _, hdelimited, _, _ => hdelimited

theorem AllDelimited.before : ∀ {layouts : List Layout} {next other : Option TokenKind},
    AllDelimited signatures layouts next → AllRestEnclosed signatures layouts →
      (∀ name, other ≠ some (.flag name)) → AllDelimited signatures layouts other
  | [], _, _, _, _, _ => trivial
  | layout :: rest, next, other, ⟨hfirst, hrest⟩, ⟨henclosed, hrestEnclosed⟩, hother => by
      refine ⟨hfirst.imp_right fun hdelimited => ?_, AllDelimited.before hrest hrestEnclosed hother⟩
      cases hhead : (kindsOfAll rest).head? with
      | none => exact hdelimited.before henclosed (by simpa using hother)
      | some kind => simpa [hhead] using hdelimited

end

end Layout

/-! ## The next line -/

theorem unplaced_toError (source : List Char) (fault : Lexer.Fault) :
    (fault.toError source).unplaced = ⟨fault.kind, "", String.ofList fault.found⟩ := rfl

/-- The stream of two lines starts with the tokens of the first, and what comes
then is the stream of the second at other places. -/
theorem toStream_of_lines {comments : Bool} {first second : String}
    (herror : (tokenize comments first).error = none) :
    ∃ rest : Stream,
      (tokenize comments (first ++ "\n" ++ second)).toStream =
        ⟨(tokenize comments first).tokens ++ rest.pending, rest.fault⟩ ∧
      rest.pending.map Token.kind = (tokenize comments second).tokens.map Token.kind ∧
      rest.fault.map LexError.unplaced =
        (tokenize comments second).error.map LexError.unplaced := by
  have hscan := Lexer.scan_lines second herror
  have htokens := congrArg Lexer.Scan.tokens hscan
  have hlater := congrArg Lexer.Scan.fault hscan
  simp only [Lexer.Scan.prepend, Lexer.Scan.shift] at htokens hlater
  refine ⟨⟨(tokenize comments second).tokens.map (Token.shift (first.utf8ByteSize + 1)),
    (tokenize comments (first ++ "\n" ++ second)).error⟩, ?_, ?_, ?_⟩
  · simp only [tokenize, Tokens.toStream, htokens]
  · simp only [List.map_map]
    rfl
  · simp only [tokenize, hlater, Option.map_map, Function.comp_def, unplaced_toError,
      Lexer.Fault.shift]

/-- A source that holds a form alone goes on in the next line: the form is read,
and then every sequence of requests gets the replies that it would get on the next
line alone, up to the piece of the source that an error shows.  The kind of an
error is part of its cause, which stays. -/
theorem replies_of_lines {comments : Bool} {first second : String} {f : Form}
    (hparse : parse signatures comments first = .ok f)
    (henclosed :
      RestCallsEnclosed signatures ((tokenize comments first).tokens.map Token.kind))
    (hvalid : (tokenize comments second).tokens = [] → (tokenize comments second).error = none)
    (hflag : ∀ name,
      (tokenize comments second).tokens.head?.map Token.kind ≠ some (.flag name))
    (requests : List Reader.Request) :
    (repliesTo signatures comments (first ++ "\n" ++ second) (.next :: requests)).map
        Reader.Reply.unplaced =
      .form f :: (repliesTo signatures comments second requests).map
        Reader.Reply.unplaced := by
  obtain ⟨herror, layout, hkinds, rfl, hconsistent, hdelimited, hdepth⟩ :=
    exists_layout_of_parse hparse
  obtain ⟨rest, hstream, hrestKinds, hrestFault⟩ := @toStream_of_lines _ _ second herror
  have hlayout : layout.IsArgument signatures := .inr ⟨none, hconsistent, hdelimited⟩
  have hclosed : layout.RestEnclosed signatures := by
    rw [hkinds] at henclosed
    exact @Layout.restEnclosed_of_kinds _ layout [] [] hlayout (by simpa using henclosed) rfl
      (by simp)
  have hends : layout.Delimited signatures (rest.pending.head?.map Token.kind) := by
    apply hdelimited.before hclosed
    rwa [← List.head?_map, hrestKinds, List.head?_map]
  have hquiet : rest.pending = [] → rest.fault = none := by
    intro hnil
    rw [hnil, List.map_nil, eq_comm, List.map_eq_nil_iff] at hrestKinds
    rwa [hvalid hrestKinds, Option.map_none, Option.map_eq_none_iff] at hrestFault
  let reader : Reader := ⟨(first ++ "\n" ++ second).toList, signatures⟩
  have hread := Reader.readForm_takesLayouts reader maxReadDepth layout
    (tokenize comments first).tokens rest.pending rest.fault hconsistent hends hdepth hkinds
    hquiet
  have hlater := @Reader.replies_congr reader ⟨second.toList, signatures⟩ rest
    (tokenize comments second).toStream rfl (Stream.unplaced_eq hrestKinds hrestFault) requests
  rw [repliesTo, repliesTo, ← hlater, hstream, Reader.replies, Reader.reply, Reader.next, hread]
  rfl

/-- A sum with a comment behind it, and a next line that goes wrong twice. -/
theorem replies_of_sum_line :
    parse startSignatures true "+ 1 (list 2) # sum" =
        .ok (.call "+" [.literal (.number 1), .call "list" [.literal (.number 2)]]) ∧
      RestCallsEnclosed startSignatures
        ((tokenize true "+ 1 (list 2) # sum").tokens.map Token.kind) ∧
      (repliesTo startSignatures true "+ 1 (list 2) # sum\n'+ ) \"x"
          [.next, .next, .next, .isFinished, .isFinished]).map Reader.Reply.unplaced =
        .form (.call "+" [.literal (.number 1), .call "list" [.literal (.number 2)]]) ::
          (repliesTo startSignatures true "'+ ) \"x"
            [.next, .next, .isFinished, .isFinished]).map Reader.Reply.unplaced := by
  have hparse : parse startSignatures true "+ 1 (list 2) # sum" =
      .ok (.call "+" [.literal (.number 1), .call "list" [.literal (.number 2)]]) :=
    eq_ok_of_toOption (by decide +kernel)
  have hkinds : (tokenize true "+ 1 (list 2) # sum").tokens.map Token.kind =
      [.identifier "+", .number 1, .opening, .identifier "list", .number 2, .closing] := by
    decide +kernel
  have hnext : (tokenize true "'+ ) \"x").tokens.map Token.kind =
      [.quote, .identifier "+", .closing] := by
    decide +kernel
  have henclosed : RestCallsEnclosed startSignatures
      ((tokenize true "+ 1 (list 2) # sum").tokens.map Token.kind) := by
    rw [hkinds]
    decide +kernel
  refine ⟨hparse, henclosed,
    @replies_of_lines _ _ _ "'+ ) \"x" _ hparse henclosed ?_ ?_ _⟩
  · intro hnil
    rw [hnil] at hnext
    cases hnext
  · intro name
    rw [← List.head?_map, hnext]
    simp

end ArityScript
