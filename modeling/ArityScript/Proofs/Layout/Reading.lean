import ArityScript.Proofs.Layout

/-!
# Reading layouts

The reader takes exactly the tokens of a delimited layout and gives its form.
The tokens after the layout are arbitrary; only the first of them matters,
because a call looks at it to see whether it goes on.
-/

namespace ArityScript

open Layout (forms kindsOfAll depthOfAll)

variable {signatures : Signatures}

/-! ## The first token of a layout -/

def TokenKind.StartsForm : TokenKind → Prop
  | .closing => False
  | .flag _ => False
  | _ => True

theorem Value.startsForm_of_tokenKind? {v : Value} {kind : TokenKind}
    (hkind : v.tokenKind? = some kind) : kind.StartsForm := by
  cases v with
  | number n | string s | bool b =>
      simp only [Value.tokenKind?, Option.some.injEq] at hkind
      subst kind
      trivial
  | list _ | range _ | placeholder | method _ | form _ =>
      simp [Value.tokenKind?] at hkind

namespace Layout

theorem depth_pos (layout : Layout) : 0 < layout.depth := by
  cases layout <;> simp [depth]

theorem kinds_eq_cons : ∀ {layout : Layout} {next : Option TokenKind},
    layout.form.ArityConsistent signatures → layout.Delimited signatures next →
      ∃ kind rest, layout.kinds = kind :: rest ∧ kind.StartsForm
  | .literal v, _, hconsistent, _ => by
      simp only [form, Form.ArityConsistent] at hconsistent
      obtain ⟨kind, hkind⟩ := Option.isSome_iff_exists.1 hconsistent
      exact ⟨kind, [], by simp [kinds, hkind], v.startsForm_of_tokenKind? hkind⟩
  | .variable name, _, _, _ => ⟨.identifier name, [], rfl, trivial⟩
  | .flag _, _, _, hdelimited => by simp [Delimited] at hdelimited
  | .quotedName method, _, _, _ => ⟨.quote, [.identifier method], rfl, trivial⟩
  | .quoted inner, _, _, _ => ⟨.quote, inner.kinds, rfl, trivial⟩
  | .call method arguments, _, _, _ =>
      ⟨.identifier method, kindsOfAll arguments, rfl, trivial⟩
  | .group inner, _, _, _ => ⟨.opening, inner.kinds ++ [.closing], rfl, trivial⟩

end Layout

/-- A quoted form is consistent by itself, unless it is a bare name. -/
theorem Form.ArityConsistent.of_quoted {f : Form}
    (hconsistent : (Form.quoted f).ArityConsistent signatures)
    (hempty : ∀ method signature, f = .call method [] →
      signatures method = some signature → signature.arity = 0) :
    f.ArityConsistent signatures := by
  unfold Form.ArityConsistent at hconsistent
  split at hconsistent
  next => contradiction
  next => contradiction
  next method heq =>
    cases heq
    obtain ⟨signature, hsignature⟩ := Option.isSome_iff_exists.1 hconsistent
    have harity := hempty method signature rfl hsignature
    rw [Form.ArityConsistent]
    exact ⟨signature, hsignature, by simp [Form.ArgumentsConsistent, harity]⟩
  next heq => cases heq; exact hconsistent
  next => contradiction
  next => contradiction

theorem Form.argumentsConsistent_cons {signature : Signature} {count : Nat}
    {argument : Form} {rest : List Form}
    (hflag : ∀ name, argument ≠ .flag name) :
    Form.ArgumentsConsistent signatures signature count (argument :: rest) ↔
      signature.isPending count = true ∧ argument.ArityConsistent signatures ∧
        Form.ArgumentsConsistent signatures signature (count + 1) rest := by
  cases argument with
  | flag name => exact absurd rfl (hflag name)
  | _ => simp only [Form.ArgumentsConsistent]

theorem Layout.isFlag_eq_false {layout : Layout}
    (hconsistent : layout.form.ArityConsistent signatures) :
    layout.isFlag = false := by
  cases layout with
  | flag name => simp [Layout.form, Form.ArityConsistent] at hconsistent
  | _ => rfl

theorem Layout.form_ne_flag : ∀ {layout : Layout} {next : Option TokenKind},
    layout.Delimited signatures next → ∀ name, layout.form ≠ .flag name
  | .flag _, _, hdelimited, _ => by simp [Layout.Delimited] at hdelimited
  | .group inner, _, hdelimited, name => by
      simp only [Layout.Delimited] at hdelimited
      exact Layout.form_ne_flag hdelimited name
  | .literal _, _, _, _ | .variable _, _, _, _ | .quotedName _, _, _, _
  | .quoted _, _, _, _ | .call _ _, _, _, _ => by simp [Layout.form]

namespace Reader

/-- An inner reader takes the layouts of up to some depth. -/
def TakesLayouts (signatures : Signatures) (readInner : Stream → Step Form)
    (levels : Nat) : Prop :=
  ∀ (layout : Layout) (tokens rest : List Token) (fault : Option LexError),
    layout.form.ArityConsistent signatures →
    layout.Delimited signatures (rest.head?.map Token.kind) →
    layout.depth ≤ levels →
    tokens.map Token.kind = layout.kinds →
    (rest = [] → fault = none) →
    readInner ⟨tokens ++ rest, fault⟩ = (.ok layout.form, ⟨rest, fault⟩)

theorem peek_eq_of_quiet {rest : List Token} {fault : Option LexError}
    (hquiet : rest = [] → fault = none) :
    (Stream.mk rest fault).peek = (.ok rest.head?, ⟨rest, fault⟩) := by
  cases rest with
  | nil => simp [hquiet rfl, Stream.peek]
  | cons token rest => rfl

theorem continuation_eq_finish {signature : Signature} {count : Nat}
    {next : Option TokenKind} (harity : signature.arity ≤ count)
    (hends : signature.EndsBefore next) :
    continuation signature count next = .finish := by
  have hmissing : signature.required[count]? = none :=
    List.getElem?_eq_none harity
  have hpending : signature.rest = none → signature.isPending count = false := by
    intro hrest
    simp [Signature.isPending, hrest, Nat.not_lt.2 harity]
  cases next with
  | none => simp [continuation, hmissing]
  | some kind =>
      cases kind with
      | closing => simp [continuation, hmissing]
      | flag name =>
          obtain ⟨hrest, hdeclares⟩ := hends
          simp [continuation, hdeclares, hpending hrest]
      | number _ | string _ | bool _ | identifier _ | quote | opening =>
          have hrest : signature.rest = none := hends
          simp [continuation, hpending hrest]

theorem continuation_eq_positional {signature : Signature} {count : Nat}
    {kind : TokenKind} (hpending : signature.isPending count = true)
    (hstarts : kind.StartsForm) :
    continuation signature count (some kind) = .positional := by
  cases kind <;> simp_all [continuation, TokenKind.StartsForm]

/-! ## One argument -/

theorem readArguments_finish {reader : Reader} {readInner : Stream → Step Form}
    {method : String} {signature : Signature} {start steps count : Nat}
    {rest : List Token} {fault : Option LexError}
    (hquiet : rest = [] → fault = none) (harity : signature.arity ≤ count)
    (hends : signature.EndsBefore (rest.head?.map Token.kind)) :
    reader.readArguments readInner method signature start steps count
      ⟨rest, fault⟩ = (.ok [], ⟨rest, fault⟩) := by
  rw [readArguments]
  simp only [peek_eq_of_quiet hquiet, continuation_eq_finish harity hends]

theorem readArguments_option {reader : Reader} {readInner : Stream → Step Form}
    {method : String} {signature : Signature} {start steps count : Nat}
    {token : Token} {rest : List Token} {fault : Option LexError}
    {name : String} {value : Form} {others : List Form} {middle final : Stream}
    (hkind : token.kind = .flag name)
    (htaken : signature.declares name = true ∨ signature.isPending count = true)
    (hvalue : readInner ⟨rest, fault⟩ = (.ok value, middle))
    (hothers : reader.readArguments readInner method signature start steps count
      middle = (.ok others, final)) :
    reader.readArguments readInner method signature start (steps + 1) count
      ⟨token :: rest, fault⟩ = (.ok (.flag name :: value :: others), final) := by
  have hcontinuation :
      continuation signature count (some token.kind) = .option name := by
    rw [hkind]
    rcases htaken with hdeclares | hpending
    · simp [continuation, hdeclares]
    · simp [continuation, hpending]
  rw [readArguments]
  simp only [Stream.peek, Stream.drop, Option.map_some, hcontinuation, hvalue, hothers]

theorem readArguments_positional {reader : Reader} {readInner : Stream → Step Form}
    {method : String} {signature : Signature} {start steps count : Nat}
    {token : Token} {rest : List Token} {fault : Option LexError}
    {argument : Form} {others : List Form} {middle final : Stream}
    (hstarts : token.kind.StartsForm) (hpending : signature.isPending count = true)
    (hargument : readInner ⟨token :: rest, fault⟩ = (.ok argument, middle))
    (hothers : reader.readArguments readInner method signature start steps (count + 1)
      middle = (.ok others, final)) :
    reader.readArguments readInner method signature start (steps + 1) count
      ⟨token :: rest, fault⟩ = (.ok (argument :: others), final) := by
  rw [readArguments]
  simp only [Stream.peek, Option.map_some, continuation_eq_positional hpending hstarts,
    hargument, hothers]

/-! ## All arguments and whole forms -/

theorem head?_append_of_kinds {tokens rest : List Token} {kinds : List TokenKind}
    (hkinds : tokens.map Token.kind = kinds) :
    (tokens ++ rest).head?.map Token.kind =
      kinds.head?.or (rest.head?.map Token.kind) := by
  subst kinds
  cases tokens <;> simp

theorem quiet_append {tokens rest : List Token} {fault : Option LexError}
    (hquiet : rest = [] → fault = none) : tokens ++ rest = [] → fault = none :=
  fun hnil => hquiet (List.append_eq_nil_iff.1 hnil).2

theorem readArguments_layouts {reader : Reader} {readInner : Stream → Step Form}
    {levels : Nat} (htakes : TakesLayouts reader.signatures readInner levels)
    (method : String) {signature : Signature} (start : Nat) {steps count : Nat}
    {arguments : List Layout} {tokens rest : List Token} {fault : Option LexError}
    (hconsistent :
      Form.ArgumentsConsistent reader.signatures signature count (forms arguments))
    (hdelimited :
      Layout.AllDelimited reader.signatures arguments (rest.head?.map Token.kind))
    (hdepth : depthOfAll arguments ≤ levels)
    (hkinds : tokens.map Token.kind = kindsOfAll arguments)
    (hquiet : rest = [] → fault = none)
    (hends : signature.EndsBefore (rest.head?.map Token.kind))
    (hsteps : tokens.length ≤ steps) :
    reader.readArguments readInner method signature start steps count
      ⟨tokens ++ rest, fault⟩ = (.ok (forms arguments), ⟨rest, fault⟩) := by
  induction arguments using arguments_induction Layout.isFlag
    generalizing steps count tokens with
  | nil =>
      have htokens : tokens = [] := by simpa [kindsOfAll] using hkinds
      have harity : signature.arity ≤ count := by
        simpa [forms, Form.ArgumentsConsistent] using hconsistent
      subst tokens
      exact readArguments_finish hquiet harity hends
  | dangling flag hflag =>
      obtain ⟨name, rfl⟩ := Layout.eq_flag_of_isFlag hflag
      simp [forms, Layout.form, Form.ArgumentsConsistent] at hconsistent
  | option flag value arguments hflag ih =>
      obtain ⟨name, rfl⟩ := Layout.eq_flag_of_isFlag hflag
      simp only [forms, Layout.form, Form.ArgumentsConsistent] at hconsistent
      obtain ⟨htaken, hvalue, hothers⟩ := hconsistent
      simp only [Layout.AllDelimited, Layout.isFlag_eq_false hvalue,
        Bool.false_eq_true, false_or] at hdelimited
      obtain ⟨_, hvalueDelimited, hdelimited⟩ := hdelimited
      simp only [depthOfAll, Nat.max_le] at hdepth
      obtain ⟨_, hvalueDepth, hdepth⟩ := hdepth
      simp only [kindsOfAll, Layout.kinds, List.singleton_append] at hkinds
      obtain ⟨token, tokens, rfl, hkind, hkinds⟩ := List.map_eq_cons_iff.1 hkinds
      obtain ⟨valueTokens, others, rfl, hvalueKinds, hothersKinds⟩ :=
        List.map_eq_append_iff.1 hkinds
      rw [← head?_append_of_kinds hothersKinds] at hvalueDelimited
      have hread := htakes value valueTokens (others ++ rest) fault hvalue
        hvalueDelimited hvalueDepth hvalueKinds (quiet_append hquiet)
      simp only [List.length_cons, List.length_append] at hsteps
      obtain ⟨steps, rfl⟩ : ∃ fewer, steps = fewer + 1 := ⟨steps - 1, by omega⟩
      have hothersRead := @ih steps count others hothers hdelimited hdepth hothersKinds (by omega)
      have hoption := readArguments_option hkind htaken hread hothersRead
      simpa [forms, Layout.form] using hoption
  | positional argument arguments hflag ih =>
      simp only [Layout.AllDelimited, hflag, Bool.false_eq_true, false_or] at hdelimited
      obtain ⟨hargumentDelimited, hdelimited⟩ := hdelimited
      simp only [forms,
        Form.argumentsConsistent_cons (Layout.form_ne_flag hargumentDelimited)]
        at hconsistent
      obtain ⟨hpending, hargument, hothers⟩ := hconsistent
      simp only [depthOfAll, Nat.max_le] at hdepth
      obtain ⟨hargumentDepth, hdepth⟩ := hdepth
      obtain ⟨kind, _, hfirst, hstarts⟩ :=
        Layout.kinds_eq_cons hargument hargumentDelimited
      obtain ⟨argumentTokens, others, rfl, hargumentKinds, hothersKinds⟩ :=
        List.map_eq_append_iff.1 hkinds
      rw [← head?_append_of_kinds hothersKinds] at hargumentDelimited
      have hread := htakes argument argumentTokens (others ++ rest) fault hargument
        hargumentDelimited hargumentDepth hargumentKinds (quiet_append hquiet)
      rw [hfirst] at hargumentKinds
      obtain ⟨token, argumentTokens, rfl, rfl, _⟩ := List.map_eq_cons_iff.1 hargumentKinds
      simp only [List.length_cons, List.length_append] at hsteps
      obtain ⟨steps, rfl⟩ : ∃ fewer, steps = fewer + 1 := ⟨steps - 1, by omega⟩
      have hothersRead := @ih steps (count + 1) others hothers hdelimited hdepth hothersKinds (by omega)
      have hpositional := readArguments_positional hstarts hpending hread hothersRead
      simpa [forms] using hpositional

/-- A quote mark quotes the form after it, unless a method's bare name follows. -/
theorem quotedMethod_eq_none {reader : Reader} {inner : Layout}
    {tokens rest : List Token} {fault : Option LexError}
    (hconsistent : inner.form.ArityConsistent reader.signatures)
    (hdelimited : inner.Delimited reader.signatures (rest.head?.map Token.kind))
    (hcall : inner.isCall = false)
    (hkinds : tokens.map Token.kind = inner.kinds) :
    reader.quotedMethod ⟨tokens ++ rest, fault⟩ = (.ok none, ⟨tokens ++ rest, fault⟩) := by
  obtain ⟨kind, kinds, hfirst, _⟩ := Layout.kinds_eq_cons hconsistent hdelimited
  rw [hfirst] at hkinds
  obtain ⟨⟨tokenKind, start, stop⟩, tokens, rfl, hkind, _⟩ := List.map_eq_cons_iff.1 hkinds
  simp only at hkind
  subst tokenKind
  cases kind with
  | identifier name =>
      have hvariable : reader.signatures name = none := by
        cases inner with
        | «variable» other =>
            simp only [Layout.kinds, List.cons.injEq, TokenKind.identifier.injEq] at hfirst
            obtain ⟨rfl, _⟩ := hfirst
            simpa [Layout.form, Form.ArityConsistent] using hconsistent
        | literal v =>
            cases v <;> simp [Layout.kinds, Value.tokenKind?] at hfirst
        | call method arguments => simp [Layout.isCall] at hcall
        | _ => simp [Layout.kinds] at hfirst
      simp [quotedMethod, Stream.peek, hvariable]
  | _ => simp [quotedMethod, Stream.peek]

theorem readGroup_of_inner (reader : Reader) {readInner : Stream → Step Form}
    (start : Nat) {tokens rest : List Token} {close : Token} {fault : Option LexError}
    {kind : TokenKind} {kinds : List TokenKind} {f : Form}
    (hkinds : tokens.map Token.kind = kind :: kinds) (hstarts : kind.StartsForm)
    (hclose : close.kind = .closing)
    (hread : readInner ⟨tokens ++ close :: rest, fault⟩ = (.ok f, ⟨close :: rest, fault⟩)) :
    reader.readGroup readInner start ⟨tokens ++ close :: rest, fault⟩ =
      (.ok f, ⟨rest, fault⟩) := by
  obtain ⟨⟨tokenKind, place, stop⟩, tokens, rfl, hkind, _⟩ := List.map_eq_cons_iff.1 hkinds
  obtain ⟨closeKind, closeStart, closeStop⟩ := close
  simp only at hkind hclose
  subst tokenKind closeKind
  simp only [List.cons_append] at hread ⊢
  cases kind <;>
    simp_all [readGroup, Stream.peek, Stream.next, TokenKind.StartsForm]

theorem readForm_cons (reader : Reader) (levels : Nat) (token : Token)
    (rest : List Token) (fault : Option LexError) :
    reader.readForm (levels + 1) ⟨token :: rest, fault⟩ =
      reader.readFrom (reader.readForm levels) token ⟨rest, fault⟩ := by
  rw [readForm]
  rfl

/-- The reader takes every delimited layout of a consistent form that is not
nested too deeply, and nothing of what follows it. -/
theorem readForm_takesLayouts (reader : Reader) (levels : Nat) :
    TakesLayouts reader.signatures (reader.readForm levels) levels := by
  induction levels with
  | zero =>
      intro layout tokens rest fault _ _ hdepth
      have hpos := layout.depth_pos
      omega
  | succ levels ih =>
      intro layout tokens rest fault hconsistent hdelimited hdepth hkinds hquiet
      obtain ⟨kind, kinds, hfirst, hstarts⟩ := Layout.kinds_eq_cons hconsistent hdelimited
      rw [hfirst] at hkinds
      obtain ⟨token, tokens, rfl, rfl, htokens⟩ := List.map_eq_cons_iff.1 hkinds
      rw [List.cons_append, readForm_cons]
      cases layout with
      | literal v =>
          cases v with
          | number n | string s | bool b =>
              simp only [Layout.kinds, Value.tokenKind?, Option.toList_some,
                List.cons.injEq] at hfirst
              obtain ⟨hkind, rfl⟩ := hfirst
              rw [List.map_eq_nil_iff] at htokens
              subst tokens
              simp [readFrom, ← hkind, Layout.form]
          | _ => simp [Layout.kinds, Value.tokenKind?] at hfirst
      | «variable» name =>
          simp only [Layout.kinds, List.cons.injEq] at hfirst
          obtain ⟨hkind, rfl⟩ := hfirst
          rw [List.map_eq_nil_iff] at htokens
          subst tokens
          have hunbound : reader.signatures name = none := by
            simpa [Layout.form, Form.ArityConsistent] using hconsistent
          simp [readFrom, ← hkind, hunbound, Layout.form]
      | flag name => simp [Layout.Delimited] at hdelimited
      | quotedName method =>
          simp only [Layout.kinds, List.cons.injEq] at hfirst
          obtain ⟨hkind, rfl⟩ := hfirst
          obtain ⟨⟨nameKind, start, stop⟩, after, rfl, hname, hafter⟩ :=
            List.map_eq_cons_iff.1 htokens
          rw [List.map_eq_nil_iff] at hafter
          simp only at hname
          subst after nameKind
          have hbound : (reader.signatures method).isSome := by
            simpa [Layout.form, Form.ArityConsistent] using hconsistent
          simp [readFrom, ← hkind, readQuoted, quotedMethod, Stream.peek, Stream.drop,
            hbound, Layout.form]
      | quoted inner =>
          simp only [Layout.kinds, List.cons.injEq] at hfirst
          obtain ⟨hkind, rfl⟩ := hfirst
          simp only [Layout.Delimited] at hdelimited
          obtain ⟨hcall, hempty, hinner⟩ := hdelimited
          have hinnerConsistent := Form.ArityConsistent.of_quoted hconsistent hempty
          have hquoted : reader.quotedMethod ⟨tokens ++ rest, fault⟩ =
              (.ok none, ⟨tokens ++ rest, fault⟩) :=
            quotedMethod_eq_none hinnerConsistent hinner hcall htokens
          simp only [Layout.depth] at hdepth
          have hread := ih inner tokens rest fault hinnerConsistent hinner (by omega)
            htokens hquiet
          simp only [readFrom, ← hkind, readQuoted, hquoted, hread, Layout.form]
      | call method arguments =>
          simp only [Layout.kinds, List.cons.injEq] at hfirst
          obtain ⟨hkind, rfl⟩ := hfirst
          simp only [Layout.form, Form.ArityConsistent] at hconsistent
          obtain ⟨signature, hsignature, harguments⟩ := hconsistent
          simp only [Layout.Delimited] at hdelimited
          obtain ⟨hends, hdelimited⟩ := hdelimited
          simp only [Layout.depth] at hdepth
          have hread := readArguments_layouts ih method token.start harguments hdelimited
            (by omega) htokens hquiet (hends signature hsignature)
            (Nat.le_add_right _ rest.length)
          simp only [readFrom, ← hkind, hsignature, Stream.size, List.length_append,
            hread, Layout.form]
      | group inner =>
          simp only [Layout.kinds, List.cons.injEq] at hfirst
          obtain ⟨hkind, rfl⟩ := hfirst
          simp only [Layout.form] at hconsistent
          simp only [Layout.Delimited] at hdelimited
          simp only [Layout.depth] at hdepth
          obtain ⟨innerTokens, closing, rfl, hinnerKinds, hclosing⟩ :=
            List.map_eq_append_iff.1 htokens
          obtain ⟨close, closing, rfl, hclose, hnil⟩ := List.map_eq_cons_iff.1 hclosing
          rw [List.map_eq_nil_iff] at hnil
          subst closing
          obtain ⟨innerKind, innerRest, hinnerFirst, hinnerStarts⟩ :=
            Layout.kinds_eq_cons hconsistent hdelimited
          have hread := ih inner innerTokens (close :: rest) fault hconsistent
            (by simpa [hclose] using hdelimited) (by omega) hinnerKinds (by simp)
          rw [hinnerFirst] at hinnerKinds
          have hgroup := readGroup_of_inner reader token.start hinnerKinds hinnerStarts
            hclose hread
          simpa [readFrom, ← hkind, Layout.form] using hgroup

theorem readOnly_layout {reader : Reader} {layout : Layout} {tokens : List Token}
    (hconsistent : layout.form.ArityConsistent reader.signatures)
    (hdelimited : layout.Delimited reader.signatures none)
    (hdepth : layout.depth ≤ maxReadDepth)
    (hkinds : tokens.map Token.kind = layout.kinds) :
    reader.readOnly ⟨tokens, none⟩ = .ok layout.form := by
  have hread := readForm_takesLayouts reader maxReadDepth layout tokens [] none
    hconsistent (by simpa using hdelimited) hdepth hkinds (fun _ => rfl)
  rw [List.append_nil] at hread
  simp only [readOnly, next, hread, Stream.peek]

end Reader

/-- The tokens of a delimited layout are those of no other form. -/
theorem Layout.form_eq_of_kinds_eq {layout other : Layout}
    (hconsistent : layout.form.ArityConsistent signatures)
    (hotherConsistent : other.form.ArityConsistent signatures)
    (hdelimited : layout.Delimited signatures none)
    (hotherDelimited : other.Delimited signatures none)
    (hkinds : layout.kinds = other.kinds) : layout.form = other.form := by
  let reader : Reader := ⟨[], signatures⟩
  let tokens := layout.kinds.map fun kind => Token.mk kind 0 0
  let levels := max layout.depth other.depth
  have htokens : tokens.map Token.kind = layout.kinds := by
    simp only [tokens, List.map_map, Function.comp_def, List.map_id']
  have hread := Reader.readForm_takesLayouts reader levels layout tokens [] none
    hconsistent hdelimited (Nat.le_max_left _ _) htokens (fun _ => rfl)
  have hreadOther := Reader.readForm_takesLayouts reader levels other tokens [] none
    hotherConsistent hotherDelimited (Nat.le_max_right _ _) (htokens.trans hkinds)
    (fun _ => rfl)
  rw [hread] at hreadOther
  simpa using hreadOther

/-- A source with the tokens of a delimited layout is read as its form. -/
theorem parse_of_kinds {comments : Bool} {source : String} {layout : Layout}
    (hconsistent : layout.form.ArityConsistent signatures)
    (hdelimited : layout.Delimited signatures none)
    (hdepth : layout.depth ≤ maxReadDepth)
    (hkinds : (tokenize comments source).tokens.map Token.kind = layout.kinds)
    (herror : (tokenize comments source).error = none) :
    parse signatures comments source = .ok layout.form := by
  unfold parse Tokens.toStream
  rw [herror]
  exact Reader.readOnly_layout hconsistent hdelimited hdepth hkinds

end ArityScript
