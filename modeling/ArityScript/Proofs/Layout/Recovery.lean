import ArityScript.Proofs.Layout.Reading

/-!
# Recovering layouts

Whatever form the reader gives, the tokens that it took are those of a delimited
layout of the form, and the form is consistent.  Together with the reading of
layouts this says exactly which sources are read, and as what.
-/

namespace ArityScript

open Layout (forms kindsOfAll depthOfAll)

variable {signatures : Signatures}

/-! ## What is left of a stream -/

/-- A stream starts with tokens of some kinds, and `final` is what follows. -/
def Stream.Leaves (stream : Stream) (kinds : List TokenKind) (final : Stream) : Prop :=
  ∃ tokens, stream.pending = tokens ++ final.pending ∧
    tokens.map Token.kind = kinds ∧ final.fault = stream.fault

/-- The kind of the token that comes next in a stream. -/
def Stream.nextKind (stream : Stream) : Option TokenKind :=
  stream.pending.head?.map Token.kind

namespace Stream

theorem Leaves.refl (stream : Stream) : stream.Leaves [] stream :=
  ⟨[], rfl, rfl, rfl⟩

theorem Leaves.cons (token : Token) (rest : List Token) (fault : Option LexError) :
    Leaves ⟨token :: rest, fault⟩ [token.kind] ⟨rest, fault⟩ :=
  ⟨[token], rfl, rfl, rfl⟩

theorem Leaves.trans {stream middle final : Stream} {kinds others : List TokenKind}
    (hfirst : stream.Leaves kinds middle) (hsecond : middle.Leaves others final) :
    stream.Leaves (kinds ++ others) final := by
  obtain ⟨tokens, hpending, hkinds, hfault⟩ := hfirst
  obtain ⟨otherTokens, hmiddle, hothers, hfinal⟩ := hsecond
  exact ⟨tokens ++ otherTokens, by rw [hpending, hmiddle, List.append_assoc],
    by rw [List.map_append, hkinds, hothers], hfinal.trans hfault⟩

theorem Leaves.nextKind_eq {stream final : Stream} {kinds : List TokenKind}
    (hleaves : stream.Leaves kinds final) :
    stream.nextKind = kinds.head?.or final.nextKind := by
  obtain ⟨tokens, hpending, hkinds, _⟩ := hleaves
  rw [nextKind, hpending]
  exact Reader.head?_append_of_kinds hkinds

theorem Leaves.length_eq {stream final : Stream} {kinds : List TokenKind}
    (hleaves : stream.Leaves kinds final) :
    stream.pending.length = kinds.length + final.pending.length := by
  obtain ⟨tokens, hpending, rfl, _⟩ := hleaves
  rw [hpending, List.length_append, List.length_map]

end Stream

namespace Reader

/-- What was taken from a stream are the tokens of a delimited layout of a
consistent form, nested up to some depth. -/
def Recovers (signatures : Signatures) (levels : Nat) (stream final : Stream)
    (f : Form) : Prop :=
  ∃ layout : Layout, stream.Leaves layout.kinds final ∧ layout.form = f ∧
    f.ArityConsistent signatures ∧ layout.Delimited signatures final.nextKind ∧
    layout.depth ≤ levels

/-- What was taken are delimited layouts of arguments with which a call ends. -/
def RecoversArguments (signatures : Signatures) (levels : Nat) (signature : Signature)
    (count : Nat) (stream final : Stream) (arguments : List Form) : Prop :=
  ∃ layouts : List Layout, stream.Leaves (kindsOfAll layouts) final ∧
    forms layouts = arguments ∧
    Form.ArgumentsConsistent signatures signature count arguments ∧
    Layout.AllDelimited signatures layouts final.nextKind ∧
    depthOfAll layouts ≤ levels ∧ signature.EndsBefore final.nextKind

def GivesLayouts (signatures : Signatures) (readInner : Stream → Step Form)
    (levels : Nat) : Prop :=
  ∀ (stream final : Stream) (f : Form), readInner stream = (.ok f, final) →
    Recovers signatures levels stream final f

/-! ## How a call goes on -/

theorem arity_le_of_not_pending {signature : Signature} {count : Nat}
    (hpending : signature.isPending count = false) :
    signature.arity ≤ count ∧ signature.rest = none := by
  simp only [Signature.isPending, Bool.or_eq_false_iff, decide_eq_false_iff_not,
    Option.isSome_eq_false_iff, Option.isNone_iff_eq_none] at hpending
  exact ⟨Nat.not_lt.1 hpending.1, hpending.2⟩

theorem of_continuation_eq_finish {signature : Signature} {count : Nat}
    {next : Option TokenKind}
    (hcontinuation : continuation signature count next = .finish) :
    signature.arity ≤ count ∧ signature.EndsBefore next := by
  have hfull : signature.required[count]? = none → signature.arity ≤ count :=
    List.getElem?_eq_none_iff.1
  cases next with
  | none =>
      simp only [continuation] at hcontinuation
      split at hcontinuation
      · contradiction
      · next hnone => exact ⟨hfull hnone, trivial⟩
  | some kind =>
      cases kind with
      | closing =>
          simp only [continuation] at hcontinuation
          split at hcontinuation
          · contradiction
          · next hnone => exact ⟨hfull hnone, trivial⟩
      | flag name =>
          simp only [continuation] at hcontinuation
          split at hcontinuation
          · contradiction
          · next hends =>
              simp only [Bool.or_eq_true, not_or, Bool.not_eq_true] at hends
              obtain ⟨harity, hrest⟩ := arity_le_of_not_pending hends.2
              exact ⟨harity, hrest, hends.1⟩
      | _ =>
          simp only [continuation] at hcontinuation
          split at hcontinuation
          · contradiction
          · next hends =>
              simp only [Bool.not_eq_true] at hends
              exact arity_le_of_not_pending hends

theorem of_continuation_eq_option {signature : Signature} {count : Nat}
    {next : Option TokenKind} {name : String}
    (hcontinuation : continuation signature count next = .option name) :
    next = some (.flag name) ∧
      (signature.declares name = true ∨ signature.isPending count = true) := by
  cases next with
  | none =>
      simp only [continuation] at hcontinuation
      split at hcontinuation <;> contradiction
  | some kind =>
      cases kind with
      | flag flag =>
          simp only [continuation] at hcontinuation
          split at hcontinuation
          · next htaken =>
              cases hcontinuation
              exact ⟨rfl, by simpa using htaken⟩
          · contradiction
      | _ =>
          simp only [continuation] at hcontinuation
          split at hcontinuation <;> contradiction

theorem of_continuation_eq_positional {signature : Signature} {count : Nat}
    {next : Option TokenKind}
    (hcontinuation : continuation signature count next = .positional) :
    next ≠ none ∧ signature.isPending count = true := by
  cases next with
  | none =>
      simp only [continuation] at hcontinuation
      split at hcontinuation <;> contradiction
  | some kind =>
      cases kind with
      | closing =>
          simp only [continuation] at hcontinuation
          split at hcontinuation <;> contradiction
      | flag name =>
          simp only [continuation] at hcontinuation
          split at hcontinuation <;> contradiction
      | _ =>
          simp only [continuation] at hcontinuation
          split at hcontinuation
          · next hpending => exact ⟨by simp, hpending⟩
          · contradiction

theorem of_peek_eq_ok {stream rest : Stream} {token : Option Token}
    (hpeek : stream.peek = (.ok token, rest)) :
    rest = stream ∧ token = stream.pending.head? := by
  obtain ⟨pending, fault⟩ := stream
  cases pending with
  | cons first pending =>
      simp only [Stream.peek, Prod.mk.injEq, Except.ok.injEq] at hpeek
      exact ⟨hpeek.2.symm, hpeek.1.symm⟩
  | nil =>
      cases fault with
      | none =>
          simp only [Stream.peek, Prod.mk.injEq, Except.ok.injEq] at hpeek
          exact ⟨hpeek.2.symm, hpeek.1.symm⟩
      | some error => simp [Stream.peek] at hpeek

/-- The three ways in which a call's arguments are read: there are none left, an
option with its value comes next, or a positional argument. -/
theorem readArguments_cases {reader : Reader} {readInner : Stream → Step Form}
    {method : String} {signature : Signature} {start steps count : Nat}
    {stream final : Stream} {arguments : List Form}
    (hread : reader.readArguments readInner method signature start steps count
      stream = (.ok arguments, final))
    (hsteps : stream.pending.length ≤ steps) :
    (arguments = [] ∧ final = stream ∧ signature.arity ≤ count ∧
      signature.EndsBefore stream.nextKind) ∨
    (∃ fewer token rest name value middle others,
      steps = fewer + 1 ∧ stream.pending = token :: rest ∧ token.kind = .flag name ∧
      (signature.declares name = true ∨ signature.isPending count = true) ∧
      readInner ⟨rest, stream.fault⟩ = (.ok value, middle) ∧
      reader.readArguments readInner method signature start fewer count middle =
        (.ok others, final) ∧
      arguments = .flag name :: value :: others) ∨
    (∃ fewer argument middle others,
      steps = fewer + 1 ∧ signature.isPending count = true ∧
      readInner stream = (.ok argument, middle) ∧
      reader.readArguments readInner method signature start fewer (count + 1) middle =
        (.ok others, final) ∧
      arguments = argument :: others) := by
  rw [readArguments] at hread
  split at hread
  · cases hread
  next token stream hpeek =>
    obtain ⟨rfl, rfl⟩ := of_peek_eq_ok hpeek
    split at hread
    next hcontinuation =>
      cases hread
      exact .inl ⟨rfl, rfl, of_continuation_eq_finish hcontinuation⟩
    · cases hread
    next flag fewer hcontinuation =>
      obtain ⟨hnext, htaken⟩ := of_continuation_eq_option hcontinuation
      obtain ⟨pending, fault⟩ := stream
      obtain ⟨token, hhead, hkind⟩ := Option.map_eq_some_iff.1 hnext
      obtain ⟨rest, rfl⟩ := List.head?_eq_some_iff.1 hhead
      split at hread
      · cases hread
      next value middle hvalue =>
        split at hread
        · cases hread
        next others last hothers =>
          cases hread
          exact .inr (.inl ⟨fewer, token, rest, flag, value, middle, others, rfl, rfl,
            hkind, htaken, hvalue, hothers, rfl⟩)
    next fewer hcontinuation =>
      obtain ⟨_, hpending⟩ := of_continuation_eq_positional hcontinuation
      split at hread
      · cases hread
      next argument middle hargument =>
        split at hread
        · cases hread
        next others last hothers =>
          cases hread
          exact .inr (.inr ⟨fewer, argument, middle, others, rfl, hpending, hargument,
            hothers, rfl⟩)
    next goesOn hfinish hlacking =>
      -- Without steps there are no tokens, so the call does not go on.
      have hnil : stream.pending = [] := by simpa using hsteps
      cases hcontinuation : continuation signature count none with
      | finish =>
          cases hread
          exact .inl ⟨rfl, rfl, by simpa [Stream.nextKind, hnil] using
            of_continuation_eq_finish hcontinuation⟩
      | lacking parameter => simp [hnil, hcontinuation] at hlacking
      | option flag => cases (of_continuation_eq_option hcontinuation).1
      | positional => exact absurd rfl (of_continuation_eq_positional hcontinuation).1

section

variable {levels count : Nat} {signature : Signature} {stream middle final : Stream}
  {arguments : List Form}

theorem RecoversArguments.nil (harity : signature.arity ≤ count)
    (hends : signature.EndsBefore stream.nextKind) :
    RecoversArguments signatures levels signature count stream stream [] := by
  refine ⟨[], .refl stream, rfl, ?_, trivial, Nat.zero_le _, hends⟩
  simpa [Form.ArgumentsConsistent] using harity

theorem RecoversArguments.option {token : Token} {rest : List Token}
    {fault : Option LexError} {name : String} {value : Form}
    (hkind : token.kind = .flag name)
    (htaken : signature.declares name = true ∨ signature.isPending count = true)
    (hvalue : Recovers signatures levels ⟨rest, fault⟩ middle value)
    (hothers : RecoversArguments signatures levels signature count middle final arguments) :
    RecoversArguments signatures levels signature count ⟨token :: rest, fault⟩ final
      (.flag name :: value :: arguments) := by
  obtain ⟨layout, hleaves, rfl, hconsistent, hdelimited, hdepth⟩ := hvalue
  obtain ⟨layouts, hotherLeaves, rfl, hotherConsistent, hotherDelimited, hotherDepth,
    hends⟩ := hothers
  have hflag := Stream.Leaves.cons token rest fault
  rw [hkind] at hflag
  rw [hotherLeaves.nextKind_eq] at hdelimited
  refine ⟨.flag name :: layout :: layouts, hflag.trans (hleaves.trans hotherLeaves),
    rfl, ?_, ?_, ?_, hends⟩
  · simp only [Form.ArgumentsConsistent]
    exact ⟨htaken, hconsistent, hotherConsistent⟩
  · exact ⟨.inl rfl, .inr hdelimited, hotherDelimited⟩
  · have hpos := layout.depth_pos
    simp only [depthOfAll, Layout.depth]
    omega

theorem RecoversArguments.positional {argument : Form}
    (hpending : signature.isPending count = true)
    (hargument : Recovers signatures levels stream middle argument)
    (hothers : RecoversArguments signatures levels signature (count + 1) middle final
      arguments) :
    RecoversArguments signatures levels signature count stream final
      (argument :: arguments) := by
  obtain ⟨layout, hleaves, rfl, hconsistent, hdelimited, hdepth⟩ := hargument
  obtain ⟨layouts, hotherLeaves, rfl, hotherConsistent, hotherDelimited, hotherDepth,
    hends⟩ := hothers
  have hflag := Layout.form_ne_flag hdelimited
  rw [hotherLeaves.nextKind_eq] at hdelimited
  refine ⟨layout :: layouts, hleaves.trans hotherLeaves, rfl, ?_, ?_, ?_, hends⟩
  · rw [Form.argumentsConsistent_cons hflag]
    exact ⟨hpending, hconsistent, hotherConsistent⟩
  · exact ⟨.inr hdelimited, hotherDelimited⟩
  · simp only [depthOfAll]
    omega

theorem Recovers.length_lt {f : Form} (hrecovers : Recovers signatures levels stream final f) :
    final.pending.length < stream.pending.length := by
  obtain ⟨layout, hleaves, rfl, hconsistent, hdelimited, _⟩ := hrecovers
  obtain ⟨kind, kinds, hfirst, _⟩ := Layout.kinds_eq_cons hconsistent hdelimited
  have hlength := hleaves.length_eq
  rw [hfirst, List.length_cons] at hlength
  omega

end

/-- The arguments that a call took are delimited layouts of consistent
arguments, and the call ended where it should. -/
theorem readArguments_givesLayouts {reader : Reader} {readInner : Stream → Step Form}
    {levels : Nat} (hgives : GivesLayouts reader.signatures readInner levels)
    (method : String) {signature : Signature} (start : Nat) {steps count : Nat}
    {stream final : Stream} {arguments : List Form}
    (hread : reader.readArguments readInner method signature start steps count
      stream = (.ok arguments, final))
    (hsteps : stream.pending.length ≤ steps) :
    RecoversArguments reader.signatures levels signature count stream final arguments := by
  induction steps using Nat.strongRecOn generalizing count stream arguments with
  | ind steps ih =>
      rcases readArguments_cases hread hsteps with
        ⟨rfl, rfl, harity, hends⟩ |
        ⟨fewer, token, rest, name, value, middle, others, rfl, hpending, hkind, htaken,
          hvalue, hothers, rfl⟩ |
        ⟨fewer, argument, middle, others, rfl, hpending, hargument, hothers, rfl⟩
      · exact .nil harity hends
      · obtain ⟨pending, fault⟩ := stream
        simp only at hpending hvalue
        subst pending
        have hrecovers := hgives _ _ _ hvalue
        have hlength := hrecovers.length_lt
        simp only [List.length_cons] at hsteps hlength
        have hrest := ih fewer (Nat.lt_succ_self fewer) hothers (by omega)
        exact .option hkind htaken hrecovers hrest
      · have hrecovers := hgives _ _ _ hargument
        have hlength := hrecovers.length_lt
        have hrest := ih fewer (Nat.lt_succ_self fewer) hothers (by omega)
        exact .positional hpending hrecovers hrest

/-! ## Whole forms -/

theorem quotedMethod_cases {reader : Reader} {stream rest : Stream} {name : Option String}
    (hquoted : reader.quotedMethod stream = (.ok name, rest)) :
    (∃ method token, name = some method ∧ token.kind = .identifier method ∧
      (reader.signatures method).isSome = true ∧
      stream = ⟨token :: rest.pending, rest.fault⟩) ∨
    (name = none ∧ rest = stream ∧
      ∀ method, stream.nextKind = some (.identifier method) →
        reader.signatures method = none) := by
  unfold quotedMethod at hquoted
  split at hquoted
  · cases hquoted
  next method start stop stream hpeek =>
    obtain ⟨rfl, hhead⟩ := of_peek_eq_ok hpeek
    obtain ⟨pending, fault⟩ := stream
    obtain ⟨others, rfl⟩ := List.head?_eq_some_iff.1 hhead.symm
    split at hquoted
    next hbound =>
      cases hquoted
      exact .inl ⟨method, ⟨.identifier method, start, stop⟩, rfl, rfl, hbound, rfl⟩
    next hunbound =>
      cases hquoted
      refine .inr ⟨rfl, rfl, ?_⟩
      intro other hnext
      simp only [Stream.nextKind, List.head?_cons, Option.map_some, Option.some.injEq,
        TokenKind.identifier.injEq] at hnext
      subst other
      simpa using hunbound
  next token stream hother hpeek =>
    obtain ⟨rfl, rfl⟩ := of_peek_eq_ok hpeek
    cases hquoted
    refine .inr ⟨rfl, rfl, ?_⟩
    intro method hnext
    obtain ⟨token, hhead, hkind⟩ := Option.map_eq_some_iff.1 hnext
    obtain ⟨kind, start, stop⟩ := token
    simp only at hkind
    subst kind
    exact (hother method start stop hhead).elim

theorem readGroup_cases {reader : Reader} {readInner : Stream → Step Form} {start : Nat}
    {stream final : Stream} {f : Form}
    (hread : reader.readGroup readInner start stream = (.ok f, final)) :
    ∃ close, close.kind = .closing ∧
      readInner stream = (.ok f, ⟨close :: final.pending, final.fault⟩) := by
  unfold readGroup at hread
  split at hread
  · cases hread
  · cases hread
  next hother hpeek =>
    obtain ⟨rfl, rfl⟩ := of_peek_eq_ok hpeek
    split at hread
    · cases hread
    next middle hinner =>
      obtain ⟨pending, fault⟩ := middle
      split at hread
      · cases hread
      next start stop last hnext =>
        cases hread
        cases pending with
        | nil => cases fault <;> simp [Stream.next] at hnext
        | cons close pending =>
            simp only [Stream.next, Prod.mk.injEq, Except.ok.injEq, Option.some.injEq]
              at hnext
            obtain ⟨rfl, rfl⟩ := hnext
            exact ⟨_, rfl, hinner⟩
      · cases hread
      · cases hread

theorem arityConsistent_quoted {f : Form} (hconsistent : f.ArityConsistent signatures) :
    (Form.quoted f).ArityConsistent signatures := by
  unfold Form.ArityConsistent
  split
  next => trivial
  next => trivial
  next method heq =>
    cases heq
    rw [Form.ArityConsistent] at hconsistent
    obtain ⟨signature, hsignature, _⟩ := hconsistent
    simp [hsignature]
  next heq => cases heq; exact hconsistent
  next => contradiction
  next => contradiction

theorem isCall_eq_false_of_kinds {layout : Layout} {next : Option TokenKind}
    (hconsistent : layout.form.ArityConsistent signatures)
    (hunbound : ∀ method, layout.kinds.head?.or next = some (.identifier method) →
      signatures method = none) :
    layout.isCall = false := by
  cases layout with
  | call method arguments =>
      simp only [Layout.form, Form.ArityConsistent] at hconsistent
      obtain ⟨signature, hsignature, _⟩ := hconsistent
      have hnone := hunbound method (by simp [Layout.kinds])
      simp [hnone] at hsignature
  | _ => rfl

theorem of_readQuoted {reader : Reader} {readInner : Stream → Step Form} {levels : Nat}
    (hgives : GivesLayouts reader.signatures readInner levels)
    {stream middle final : Stream} {f : Form}
    (hfirst : stream.Leaves [.quote] middle)
    (hread : reader.readQuoted readInner middle = (.ok f, final)) :
    Recovers reader.signatures (levels + 1) stream final f := by
  unfold readQuoted at hread
  split at hread
  · cases hread
  next method rest hquoted =>
    cases hread
    rcases quotedMethod_cases hquoted with
      ⟨name, token, hname, hkind, hbound, rfl⟩ | ⟨hname, _⟩
    · cases hname
      have hsecond := Stream.Leaves.cons token final.pending final.fault
      rw [hkind] at hsecond
      exact ⟨.quotedName method, hfirst.trans hsecond, rfl, hbound, trivial,
        Nat.le_add_left 1 _⟩
    · cases hname
  next rest hquoted =>
    rcases quotedMethod_cases hquoted with ⟨_, _, hname, _⟩ | ⟨_, rfl, hunbound⟩
    · cases hname
    split at hread
    · cases hread
    next inner last hinner =>
      cases hread
      obtain ⟨layout, hleaves, rfl, hconsistent, hdelimited, hdepth⟩ := hgives _ _ _ hinner
      rw [hleaves.nextKind_eq] at hunbound
      refine ⟨.quoted layout, hfirst.trans hleaves, rfl, arityConsistent_quoted hconsistent,
        ⟨isCall_eq_false_of_kinds hconsistent hunbound, ?_, hdelimited⟩,
        Nat.succ_le_succ hdepth⟩
      intro method signature hempty hsignature
      rw [hempty, Form.ArityConsistent] at hconsistent
      obtain ⟨other, hother, harity⟩ := hconsistent
      rw [hsignature, Option.some.injEq] at hother
      subst other
      simpa [Form.ArgumentsConsistent] using harity

theorem of_readGroup {reader : Reader} {readInner : Stream → Step Form} {levels : Nat}
    (hgives : GivesLayouts reader.signatures readInner levels) {start : Nat}
    {stream middle final : Stream} {f : Form}
    (hfirst : stream.Leaves [.opening] middle)
    (hread : reader.readGroup readInner start middle = (.ok f, final)) :
    Recovers reader.signatures (levels + 1) stream final f := by
  obtain ⟨close, hclose, hinner⟩ := readGroup_cases hread
  obtain ⟨layout, hleaves, rfl, hconsistent, hdelimited, hdepth⟩ := hgives _ _ _ hinner
  have hlast := Stream.Leaves.cons close final.pending final.fault
  rw [hclose] at hlast
  refine ⟨.group layout, hfirst.trans (hleaves.trans hlast), rfl, hconsistent, ?_,
    Nat.succ_le_succ hdepth⟩
  simpa [Layout.Delimited, Stream.nextKind, hclose] using hdelimited

section

variable {levels : Nat} {token : Token} {rest : List Token} {fault : Option LexError}

theorem Recovers.literal {v : Value} (hkind : v.tokenKind? = some token.kind) :
    Recovers signatures (levels + 1) ⟨token :: rest, fault⟩ ⟨rest, fault⟩ (.literal v) := by
  have hfirst := Stream.Leaves.cons token rest fault
  refine ⟨.literal v, ?_, rfl, ?_, trivial, Nat.le_add_left 1 levels⟩
  · rwa [Layout.kinds, hkind]
  · rw [Form.ArityConsistent, hkind]
    rfl

theorem Recovers.variable {name : String} (hkind : token.kind = .identifier name)
    (hunbound : signatures name = none) :
    Recovers signatures (levels + 1) ⟨token :: rest, fault⟩ ⟨rest, fault⟩
      (.variable name) := by
  have hfirst := Stream.Leaves.cons token rest fault
  rw [hkind] at hfirst
  exact ⟨.variable name, hfirst, rfl, hunbound, trivial, Nat.le_add_left 1 levels⟩

theorem Recovers.call {name : String} {signature : Signature} {final : Stream}
    {arguments : List Form} (hkind : token.kind = .identifier name)
    (hsignature : signatures name = some signature)
    (harguments : RecoversArguments signatures levels signature 0 ⟨rest, fault⟩ final
      arguments) :
    Recovers signatures (levels + 1) ⟨token :: rest, fault⟩ final (.call name arguments) := by
  obtain ⟨layouts, hleaves, rfl, hconsistent, hdelimited, hdepth, hends⟩ := harguments
  have hfirst := Stream.Leaves.cons token rest fault
  rw [hkind] at hfirst
  refine ⟨.call name layouts, hfirst.trans hleaves, rfl, ?_, ⟨?_, hdelimited⟩, ?_⟩
  · rw [Form.ArityConsistent]
    exact ⟨signature, hsignature, hconsistent⟩
  · intro other hother
    rw [hsignature, Option.some.injEq] at hother
    rwa [← hother]
  · simp only [Layout.depth]
    omega

end

/-- Every form that the reader gives was read from a delimited layout of it. -/
theorem readForm_givesLayouts (reader : Reader) (levels : Nat) :
    GivesLayouts reader.signatures (reader.readForm levels) levels := by
  induction levels with
  | zero =>
      intro stream final f hread
      rw [readForm] at hread
      split at hread <;> cases hread
  | succ levels ih =>
      intro stream final f hread
      obtain ⟨pending, fault⟩ := stream
      cases pending with
      | nil => cases fault <;> simp [readForm, Stream.next] at hread
      | cons token rest =>
          rw [readForm_cons] at hread
          have hfirst := Stream.Leaves.cons token rest fault
          unfold readFrom at hread
          split at hread
          next hkind =>
            cases hread
            exact .literal (by rw [hkind]; rfl)
          next hkind =>
            cases hread
            exact .literal (by rw [hkind]; rfl)
          next hkind =>
            cases hread
            exact .literal (by rw [hkind]; rfl)
          next hkind =>
            rw [hkind] at hfirst
            exact of_readQuoted ih hfirst hread
          next hkind =>
            rw [hkind] at hfirst
            exact of_readGroup ih hfirst hread
          · cases hread
          · cases hread
          next name hkind =>
            split at hread
            next hunbound =>
              cases hread
              exact .variable hkind hunbound
            next signature hsignature =>
              split at hread
              · cases hread
              next arguments last harguments =>
                cases hread
                exact .call hkind hsignature (readArguments_givesLayouts ih name token.start
                  harguments (Nat.le_refl _))

end Reader

/-- The tokens of a source that is read as a form are those of a layout of it. -/
theorem exists_layout_of_parse {comments : Bool} {source : String} {f : Form}
    (hparse : parse signatures comments source = .ok f) :
    (tokenize comments source).error = none ∧
      ∃ layout : Layout,
        (tokenize comments source).tokens.map Token.kind = layout.kinds ∧
        layout.form = f ∧ f.ArityConsistent signatures ∧
        layout.Delimited signatures none ∧ layout.depth ≤ maxReadDepth := by
  unfold parse Reader.readOnly at hparse
  split at hparse
  · cases hparse
  next form rest hnext =>
    split at hparse
    · cases hparse
    next last hpeek =>
      cases hparse
      obtain ⟨rfl, hhead⟩ := Reader.of_peek_eq_ok hpeek
      obtain ⟨pending, fault⟩ := last
      have hnil : pending = [] := by simpa using hhead.symm
      subst pending
      have hfault : fault = none := by
        cases fault with
        | none => rfl
        | some error => simp [Stream.peek] at hpeek
      obtain ⟨layout, ⟨tokens, hpending, hkinds, herror⟩, hform, hconsistent, hdelimited,
        hdepth⟩ := Reader.readForm_givesLayouts _ _ _ _ _ hnext
      simp only [Tokens.toStream, List.append_nil] at hpending herror
      exact ⟨by rw [← herror, hfault], layout, by rw [hpending, hkinds], hform,
        hconsistent, hdelimited, hdepth⟩
    · cases hparse

end ArityScript
