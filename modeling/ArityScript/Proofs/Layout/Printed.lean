import ArityScript.Proofs.Layout.Reading

/-!
# The printed layout

A form is printed in the layout that has parentheses around every call.  They
delimit the calls whatever follows, with one exception: a bare method name
after a quote mark becomes a call in parentheses, which lacks its arguments if
the method requires any.

No other layout of a consistent form has the tokens of a printed one, so that
reading them again cannot give anything else.
-/

namespace ArityScript

open Layout (forms kindsOfAll depthOfAll)

variable {signatures : Signatures}

/-! ## The printed layout -/

mutual

/-- The layout in which a form is printed. -/
def Form.layout : Form → Layout
  | .literal v => .literal v
  | .variable name => .variable name
  | .quoted f => .quoted f.layout
  | .call method arguments => .group (.call method (Form.layouts arguments))
  | .flag name => .flag name

def Form.layouts : List Form → List Layout
  | [] => []
  | f :: rest => f.layout :: Form.layouts rest

end

mutual

/-- Every method name that is quoted by itself requires no arguments. -/
def Form.QuotesComplete (signatures : Signatures) : Form → Prop
  | .quoted (.call method []) =>
      ∀ signature, signatures method = some signature → signature.arity = 0
  | .quoted f => f.QuotesComplete signatures
  | .call _ arguments => Form.AllQuoteComplete signatures arguments
  | _ => True

def Form.AllQuoteComplete (signatures : Signatures) : List Form → Prop
  | [] => True
  | f :: rest => f.QuotesComplete signatures ∧ Form.AllQuoteComplete signatures rest

end

mutual

theorem Form.form_layout : ∀ f : Form, f.layout.form = f
  | .literal _ | .variable _ | .flag _ => rfl
  | .quoted f => by rw [Form.layout, Layout.form, Form.form_layout f]
  | .call method arguments => by
      rw [Form.layout, Layout.form, Layout.form, Form.forms_layouts arguments]

theorem Form.forms_layouts : ∀ fs : List Form, forms (Form.layouts fs) = fs
  | [] => rfl
  | f :: rest => by
      rw [Form.layouts, forms, Form.form_layout f, Form.forms_layouts rest]

end

theorem Form.isCall_layout (f : Form) : f.layout.isCall = false := by
  cases f <;> rfl

theorem Form.isFlag_layout (f : Form) : f.layout.isFlag = f.isFlag := by
  cases f <;> rfl

theorem Form.quotesComplete_quoted {f : Form} :
    (Form.quoted f).QuotesComplete signatures ↔
      (∀ method signature, f = .call method [] →
        signatures method = some signature → signature.arity = 0) ∧
      f.QuotesComplete signatures := by
  cases f with
  | call method arguments =>
      cases arguments with
      | nil =>
          simp only [Form.QuotesComplete, Form.AllQuoteComplete, and_true]
          constructor
          · rintro hempty _ signature heq hsignature
            cases heq
            exact hempty signature hsignature
          · exact fun hempty signature => hempty method signature rfl
      | cons f rest => simp [Form.QuotesComplete]
  | _ => simp [Form.QuotesComplete]

/-! ## Parentheses around every call -/

theorem Form.allDelimited_layouts {signature : Signature} {count : Nat}
    {arguments : List Form} {next : Option TokenKind}
    (hdelimited : ∀ f ∈ arguments, ∀ next, f.ArityConsistent signatures →
      f.QuotesComplete signatures → f.layout.Delimited signatures next)
    (hconsistent : Form.ArgumentsConsistent signatures signature count arguments)
    (hcomplete : Form.AllQuoteComplete signatures arguments) :
    Layout.AllDelimited signatures (Form.layouts arguments) next := by
  induction arguments using arguments_induction Form.isFlag generalizing count with
  | nil => trivial
  | dangling flag hflag =>
      obtain ⟨name, rfl⟩ := Form.eq_flag_of_isFlag hflag
      simp [Form.ArgumentsConsistent] at hconsistent
  | option flag value rest hflag ih =>
      obtain ⟨name, rfl⟩ := Form.eq_flag_of_isFlag hflag
      simp only [Form.ArgumentsConsistent] at hconsistent
      simp only [Form.AllQuoteComplete] at hcomplete
      obtain ⟨_, hvalue, hrest⟩ := hconsistent
      obtain ⟨_, hvalueComplete, hrestComplete⟩ := hcomplete
      exact ⟨.inl rfl, .inr (hdelimited value (by simp) _ hvalue hvalueComplete),
        ih (fun f hf => hdelimited f (by simp [hf])) hrest hrestComplete⟩
  | positional argument rest hflag ih =>
      rw [Form.argumentsConsistent_cons (Form.ne_flag_of_isFlag hflag)] at hconsistent
      simp only [Form.AllQuoteComplete] at hcomplete
      obtain ⟨_, hargument, hrest⟩ := hconsistent
      exact ⟨.inr (hdelimited argument (by simp) _ hargument hcomplete.1),
        ih (fun f hf => hdelimited f (by simp [hf])) hrest hcomplete.2⟩

/-- Parentheses around every call delimit it, whatever follows. -/
theorem Form.delimited_layout {f : Form} {next : Option TokenKind}
    (hconsistent : f.ArityConsistent signatures)
    (hcomplete : f.QuotesComplete signatures) :
    f.layout.Delimited signatures next := by
  induction f using Form.induction_on generalizing next with
  | literal v => trivial
  | named name => trivial
  | quoted f ih =>
      obtain ⟨hempty, hinner⟩ := Form.quotesComplete_quoted.1 hcomplete
      refine ⟨f.isCall_layout, ?_, ih (hconsistent.of_quoted hempty) hinner⟩
      rw [f.form_layout]
      exact hempty
  | call method arguments ih =>
      rw [Form.ArityConsistent] at hconsistent
      rw [Form.QuotesComplete] at hcomplete
      obtain ⟨signature, hsignature, harguments⟩ := hconsistent
      exact ⟨fun _ _ => trivial, Form.allDelimited_layouts
        (fun f hf _ => ih f hf) harguments hcomplete⟩
  | flag name => simp [Form.ArityConsistent] at hconsistent

theorem Form.allQuoteComplete_of_delimited {arguments : List Form}
    {next : Option TokenKind}
    (hcomplete : ∀ f ∈ arguments, ∀ next, f.layout.Delimited signatures next →
      f.QuotesComplete signatures)
    (hdelimited : Layout.AllDelimited signatures (Form.layouts arguments) next) :
    Form.AllQuoteComplete signatures arguments := by
  induction arguments with
  | nil => trivial
  | cons f rest ih =>
      obtain ⟨hfirst, hrest⟩ := hdelimited
      refine ⟨?_, ih (fun f hf => hcomplete f (by simp [hf])) hrest⟩
      rcases hfirst with hflag | hfirst
      · rw [f.isFlag_layout] at hflag
        obtain ⟨name, rfl⟩ := Form.eq_flag_of_isFlag hflag
        trivial
      · exact hcomplete f (by simp) _ hfirst

/-- They delimit nothing else: a quoted name in parentheses lacks its arguments. -/
theorem Form.quotesComplete_of_delimited {f : Form} {next : Option TokenKind}
    (hdelimited : f.layout.Delimited signatures next) :
    f.QuotesComplete signatures := by
  induction f using Form.induction_on generalizing next with
  | literal v => trivial
  | named name => trivial
  | quoted f ih =>
      obtain ⟨_, hempty, hinner⟩ := hdelimited
      rw [f.form_layout] at hempty
      exact Form.quotesComplete_quoted.2 ⟨hempty, ih hinner⟩
  | call method arguments ih =>
      rw [Form.QuotesComplete]
      obtain ⟨_, harguments⟩ := hdelimited
      exact Form.allQuoteComplete_of_delimited (fun f hf _ => ih f hf) harguments
  | flag name => trivial

/-! ## Arguments -/

/-- A layout that may stand among the arguments of a call: a flag, or a layout
from which its form can be read. -/
def Layout.IsArgument (signatures : Signatures) (layout : Layout) : Prop :=
  layout.isFlag = true ∨
    ∃ next, layout.form.ArityConsistent signatures ∧ layout.Delimited signatures next

namespace Layout.IsArgument

theorem isSome_tokenKind? {v : Value}
    (hlayout : (Layout.literal v).IsArgument signatures) : v.tokenKind?.isSome = true := by
  rcases hlayout with hflag | ⟨_, hconsistent, _⟩
  · contradiction
  · exact hconsistent

theorem eq_none {name : String}
    (hlayout : (Layout.variable name).IsArgument signatures) : signatures name = none := by
  rcases hlayout with hflag | ⟨_, hconsistent, _⟩
  · contradiction
  · exact hconsistent

theorem isSome_of_quotedName {method : String}
    (hlayout : (Layout.quotedName method).IsArgument signatures) :
    (signatures method).isSome = true := by
  rcases hlayout with hflag | ⟨_, hconsistent, _⟩
  · contradiction
  · exact hconsistent

theorem of_quoted {inner : Layout}
    (hlayout : (Layout.quoted inner).IsArgument signatures) :
    inner.isCall = false ∧ inner.IsArgument signatures := by
  rcases hlayout with hflag | ⟨next, hconsistent, hcall, hempty, hinner⟩
  · contradiction
  · exact ⟨hcall, .inr ⟨next, hconsistent.of_quoted hempty, hinner⟩⟩

theorem of_group {inner : Layout}
    (hlayout : (Layout.group inner).IsArgument signatures) :
    inner.IsArgument signatures := by
  rcases hlayout with hflag | ⟨_, hconsistent, hinner⟩
  · contradiction
  · exact .inr ⟨_, hconsistent, hinner⟩

theorem of_arguments {signature : Signature} {count : Nat} {arguments : List Layout}
    {next : Option TokenKind}
    (hconsistent :
      Form.ArgumentsConsistent signatures signature count (forms arguments))
    (hdelimited : Layout.AllDelimited signatures arguments next) :
    ∀ layout ∈ arguments, layout.IsArgument signatures := by
  induction arguments using arguments_induction Layout.isFlag generalizing count with
  | nil => simp
  | dangling flag hflag =>
      obtain ⟨name, rfl⟩ := Layout.eq_flag_of_isFlag hflag
      simp [forms, Layout.form, Form.ArgumentsConsistent] at hconsistent
  | option flag value rest hflag ih =>
      obtain ⟨name, rfl⟩ := Layout.eq_flag_of_isFlag hflag
      simp only [forms, Layout.form, Form.ArgumentsConsistent] at hconsistent
      obtain ⟨_, hvalue, hothers⟩ := hconsistent
      obtain ⟨_, hvalueDelimited, hdelimited⟩ := hdelimited
      simp only [List.forall_mem_cons]
      refine ⟨.inl rfl, ?_, ih hothers hdelimited⟩
      exact hvalueDelimited.imp_right fun hdelimited => ⟨_, hvalue, hdelimited⟩
  | positional argument rest hflag ih =>
      obtain ⟨hargumentDelimited, hdelimited⟩ := hdelimited
      simp only [hflag, Bool.false_eq_true, false_or] at hargumentDelimited
      simp only [forms,
        Form.argumentsConsistent_cons (Layout.form_ne_flag hargumentDelimited)]
        at hconsistent
      obtain ⟨_, hargument, hothers⟩ := hconsistent
      simp only [List.forall_mem_cons]
      exact ⟨.inr ⟨_, hargument, hargumentDelimited⟩, ih hothers hdelimited⟩

theorem of_call {method : String} {arguments : List Layout}
    (hlayout : (Layout.call method arguments).IsArgument signatures) :
    (signatures method).isSome = true ∧
      ∀ layout ∈ arguments, layout.IsArgument signatures := by
  rcases hlayout with hflag | ⟨_, hconsistent, _, hdelimited⟩
  · contradiction
  · simp only [Layout.form, Form.ArityConsistent] at hconsistent
    obtain ⟨signature, hsignature, harguments⟩ := hconsistent
    exact ⟨by simp [hsignature], of_arguments harguments hdelimited⟩

/-- An argument does not start with a closing parenthesis. -/
theorem exists_kinds_eq_cons {layout : Layout} (hlayout : layout.IsArgument signatures) :
    ∃ kind rest, layout.kinds = kind :: rest ∧ kind ≠ .closing := by
  rcases hlayout with hflag | ⟨_, hconsistent, hdelimited⟩
  · obtain ⟨name, rfl⟩ := Layout.eq_flag_of_isFlag hflag
    exact ⟨.flag name, [], rfl, by simp⟩
  · obtain ⟨kind, rest, hkinds, hstarts⟩ := Layout.kinds_eq_cons hconsistent hdelimited
    refine ⟨kind, rest, hkinds, ?_⟩
    rintro rfl
    exact hstarts

end Layout.IsArgument

/-! ## The tokens of the printed layout -/

mutual

/-- Literals can be written, variables name no method and the names of calls do,
and all names satisfy `spelled`. -/
def Form.Written (signatures : Signatures) (spelled : TokenKind → Prop) : Form → Prop
  | .literal v => v.tokenKind?.isSome = true
  | .variable name => signatures name = none ∧ spelled (.identifier name)
  | .quoted f => f.Written signatures spelled
  | .call method arguments =>
      (signatures method).isSome = true ∧ spelled (.identifier method) ∧
        Form.AllWritten signatures spelled arguments
  | .flag name => spelled (.flag name)

def Form.AllWritten (signatures : Signatures) (spelled : TokenKind → Prop) :
    List Form → Prop
  | [] => True
  | f :: rest =>
      f.Written signatures spelled ∧ Form.AllWritten signatures spelled rest

end

variable {spelled : TokenKind → Prop}

mutual

theorem Layout.IsArgument.written_form : ∀ {layout : Layout},
    layout.IsArgument signatures → (∀ kind ∈ layout.kinds, spelled kind) →
      layout.form.Written signatures spelled
  | .literal _, hlayout, _ => hlayout.isSome_tokenKind?
  | .variable _, hlayout, hspelled => ⟨hlayout.eq_none, hspelled _ (by simp [Layout.kinds])⟩
  | .flag _, _, hspelled => hspelled _ (by simp [Layout.kinds])
  | .quotedName _, hlayout, hspelled =>
      ⟨hlayout.isSome_of_quotedName, hspelled _ (by simp [Layout.kinds]), trivial⟩
  | .quoted _, hlayout, hspelled =>
      hlayout.of_quoted.2.written_form fun kind hkind =>
        hspelled kind (by simp [Layout.kinds, hkind])
  | .call _ _, hlayout, hspelled =>
      ⟨hlayout.of_call.1, hspelled _ (by simp [Layout.kinds]),
        Layout.IsArgument.allWritten_forms hlayout.of_call.2 fun kind hkind =>
          hspelled kind (by simp [Layout.kinds, hkind])⟩
  | .group _, hlayout, hspelled =>
      hlayout.of_group.written_form fun kind hkind =>
        hspelled kind (by simp [Layout.kinds, hkind])

theorem Layout.IsArgument.allWritten_forms : ∀ {layouts : List Layout},
    (∀ layout ∈ layouts, layout.IsArgument signatures) →
      (∀ kind ∈ kindsOfAll layouts, spelled kind) →
        Form.AllWritten signatures spelled (forms layouts)
  | [], _, _ => trivial
  | layout :: rest, hlayouts, hspelled =>
      ⟨(hlayouts layout (by simp)).written_form fun kind hkind =>
          hspelled kind (by simp [kindsOfAll, hkind]),
        Layout.IsArgument.allWritten_forms
          (fun other hother => hlayouts other (by simp [hother])) fun kind hkind =>
            hspelled kind (by simp [kindsOfAll, hkind])⟩

end

def TokenKind.isLiteral : TokenKind → Bool
  | .number _ | .string _ | .bool _ => true
  | _ => false

theorem Value.isLiteral_of_tokenKind? {v : Value} {kind : TokenKind}
    (hkind : v.tokenKind? = some kind) : kind.isLiteral = true := by
  cases v <;> cases hkind <;> rfl

theorem Value.eq_of_tokenKind? {v w : Value} {kind : TokenKind}
    (hv : v.tokenKind? = some kind) (hw : w.tokenKind? = some kind) : v = w := by
  have heq := hv.trans hw.symm
  cases v <;> cases w <;> simp [Value.tokenKind?] at heq hv ⊢ <;> exact heq

theorem Form.exists_layout_kinds_eq_cons {f : Form} (hwritten : f.Written signatures spelled) :
    ∃ kind rest, f.layout.kinds = kind :: rest ∧ kind ≠ .closing := by
  cases f with
  | literal v =>
      obtain ⟨kind, hkind⟩ := Option.isSome_iff_exists.1 hwritten
      refine ⟨kind, [], by simp [Form.layout, Layout.kinds, hkind], ?_⟩
      rintro rfl
      exact v.startsForm_of_tokenKind? hkind
  | «variable» name => exact ⟨.identifier name, [], rfl, by simp⟩
  | quoted f => exact ⟨.quote, f.layout.kinds, rfl, by simp⟩
  | call method arguments => exact ⟨.opening, _, rfl, by simp⟩
  | flag name => exact ⟨.flag name, [], rfl, by simp⟩

namespace Layout.IsArgument

/-! An argument is known by the token with which it starts. -/

theorem literal_kinds_append_ne {w : Value} {kind : TokenKind} {rest others : List TokenKind}
    (hlayout : (Layout.literal w).IsArgument signatures)
    (hkind : kind.isLiteral = false) : (Layout.literal w).kinds ++ others ≠ kind :: rest := by
  obtain ⟨other, hother⟩ := Option.isSome_iff_exists.1 hlayout.isSome_tokenKind?
  intro hkinds
  simp only [Layout.kinds, hother, Option.toList_some, List.singleton_append,
    List.cons.injEq] at hkinds
  rw [hkinds.1] at hother
  rw [Value.isLiteral_of_tokenKind? hother] at hkind
  contradiction

variable {layout : Layout} {rest others : List TokenKind}

theorem eq_literal {v : Value} {kind : TokenKind} (hlayout : layout.IsArgument signatures)
    (hkind : v.tokenKind? = some kind) (hkinds : layout.kinds ++ others = kind :: rest) :
    layout = .literal v := by
  have hliteral := Value.isLiteral_of_tokenKind? hkind
  cases layout with
  | literal w =>
      obtain ⟨other, hother⟩ := Option.isSome_iff_exists.1 hlayout.isSome_tokenKind?
      simp only [Layout.kinds, hother, Option.toList_some, List.singleton_append,
        List.cons.injEq] at hkinds
      rw [hkinds.1] at hother
      rw [Value.eq_of_tokenKind? hother hkind]
  | _ =>
      simp only [Layout.kinds, List.cons_append, List.cons.injEq] at hkinds
      obtain ⟨rfl, _⟩ := hkinds
      contradiction

theorem of_identifier {name : String} (hlayout : layout.IsArgument signatures)
    (hkinds : layout.kinds ++ others = .identifier name :: rest) :
    layout = .variable name ∨
      ∃ arguments, layout = .call name arguments ∧ (signatures name).isSome = true ∧
        kindsOfAll arguments ++ others = rest := by
  cases layout with
  | literal w => exact absurd hkinds (hlayout.literal_kinds_append_ne rfl)
  | «variable» other =>
      simp only [Layout.kinds, List.singleton_append, List.cons.injEq,
        TokenKind.identifier.injEq] at hkinds
      rw [hkinds.1]
      exact .inl rfl
  | call method arguments =>
      simp only [Layout.kinds, List.cons_append, List.cons.injEq,
        TokenKind.identifier.injEq] at hkinds
      obtain ⟨rfl, hothers⟩ := hkinds
      exact .inr ⟨arguments, rfl, hlayout.of_call.1, hothers⟩
  | _ => simp [Layout.kinds] at hkinds

theorem of_quote (hlayout : layout.IsArgument signatures)
    (hkinds : layout.kinds ++ others = .quote :: rest) :
    (∃ inner, layout = .quoted inner ∧ inner.kinds ++ others = rest) ∨
      ∃ method, layout = .quotedName method ∧ .identifier method :: others = rest := by
  cases layout with
  | literal w => exact absurd hkinds (hlayout.literal_kinds_append_ne rfl)
  | quoted inner => exact .inl ⟨inner, rfl, (List.cons.inj hkinds).2⟩
  | quotedName method => exact .inr ⟨method, rfl, (List.cons.inj hkinds).2⟩
  | _ => simp [Layout.kinds] at hkinds

theorem of_opening (hlayout : layout.IsArgument signatures)
    (hkinds : layout.kinds ++ others = .opening :: rest) :
    ∃ inner, layout = .group inner ∧ inner.kinds ++ .closing :: others = rest := by
  cases layout with
  | literal w => exact absurd hkinds (hlayout.literal_kinds_append_ne rfl)
  | group inner =>
      simp only [Layout.kinds, List.cons_append, List.append_assoc, List.nil_append,
        List.cons.injEq, true_and] at hkinds
      exact ⟨inner, rfl, hkinds⟩
  | _ => simp [Layout.kinds] at hkinds

theorem eq_flag {name : String} (hlayout : layout.IsArgument signatures)
    (hkinds : layout.kinds ++ others = .flag name :: rest) : layout = .flag name := by
  cases layout with
  | literal w => exact absurd hkinds (hlayout.literal_kinds_append_ne rfl)
  | flag other =>
      simp only [Layout.kinds, List.singleton_append, List.cons.injEq,
        TokenKind.flag.injEq] at hkinds
      rw [hkinds.1]
  | _ => simp [Layout.kinds] at hkinds

end Layout.IsArgument

/-- A printed layout and another one agree if the tokens of both start the same
stream. -/
theorem Form.layouts_unique {arguments : List Form}
    (hunique : ∀ f ∈ arguments, ∀ {layout : Layout} {rest others : List TokenKind},
      f.Written signatures spelled → layout.IsArgument signatures →
        f.layout.kinds ++ rest = layout.kinds ++ others → layout = f.layout)
    {layouts : List Layout} {rest others : List TokenKind}
    (hwritten : Form.AllWritten signatures spelled arguments)
    (hlayouts : ∀ layout ∈ layouts, layout.IsArgument signatures)
    (hkinds : kindsOfAll (Form.layouts arguments) ++ .closing :: rest =
      kindsOfAll layouts ++ .closing :: others) :
    layouts = Form.layouts arguments := by
  induction arguments generalizing layouts with
  | nil =>
      cases layouts with
      | nil => rfl
      | cons layout layouts =>
          obtain ⟨kind, _, hfirst, hclosing⟩ :=
            (hlayouts layout (by simp)).exists_kinds_eq_cons
          simp only [Form.layouts, kindsOfAll, hfirst, List.nil_append, List.cons_append,
            List.cons.injEq] at hkinds
          exact absurd hkinds.1.symm hclosing
  | cons f arguments ih =>
      obtain ⟨hfirst, hrest⟩ := hwritten
      cases layouts with
      | nil =>
          obtain ⟨kind, _, hkind, hclosing⟩ := Form.exists_layout_kinds_eq_cons hfirst
          simp only [Form.layouts, kindsOfAll, hkind, List.nil_append, List.cons_append,
            List.cons.injEq] at hkinds
          exact absurd hkinds.1 hclosing
      | cons layout layouts =>
          simp only [Form.layouts, kindsOfAll, List.append_assoc] at hkinds
          have heq : layout = f.layout :=
            hunique f (by simp) hfirst (hlayouts layout (by simp)) hkinds
          subst heq
          have hothers := ih (fun f hf => hunique f (by simp [hf])) hrest
            (fun layout hlayout => hlayouts layout (by simp [hlayout]))
            (List.append_cancel_left hkinds)
          rw [Form.layouts, hothers]

/-- The only form whose tokens start with a name is a variable, which names no
method. -/
theorem Form.eq_none_of_layout_kinds {f : Form} {name : String} {rest others : List TokenKind}
    (hwritten : f.Written signatures spelled)
    (hkinds : f.layout.kinds ++ rest = .identifier name :: others) :
    signatures name = none := by
  cases f with
  | literal v =>
      obtain ⟨kind, hkind⟩ := Option.isSome_iff_exists.1 hwritten
      simp only [Form.layout, Layout.kinds, hkind, Option.toList_some,
        List.singleton_append, List.cons.injEq] at hkinds
      rw [hkinds.1] at hkind
      have hliteral := Value.isLiteral_of_tokenKind? hkind
      contradiction
  | «variable» other =>
      simp only [Form.layout, Layout.kinds, List.singleton_append, List.cons.injEq,
        TokenKind.identifier.injEq] at hkinds
      rw [← hkinds.1]
      exact hwritten.1
  | _ => simp [Form.layout, Layout.kinds] at hkinds

theorem Form.layout_unique {f : Form} {layout : Layout} {rest others : List TokenKind}
    (hwritten : f.Written signatures spelled) (hlayout : layout.IsArgument signatures)
    (hkinds : f.layout.kinds ++ rest = layout.kinds ++ others) : layout = f.layout := by
  induction f using Form.induction_on generalizing layout rest others with
  | literal v =>
      obtain ⟨kind, hkind⟩ := Option.isSome_iff_exists.1 hwritten
      simp only [Form.layout, Layout.kinds, hkind, Option.toList_some,
        List.singleton_append] at hkinds
      exact hlayout.eq_literal hkind hkinds.symm
  | named name =>
      rcases hlayout.of_identifier hkinds.symm with heq | ⟨arguments, _, hbound, _⟩
      · exact heq
      · rw [hwritten.1] at hbound
        contradiction
  | quoted f ih =>
      rcases hlayout.of_quote hkinds.symm with ⟨inner, rfl, hinner⟩ | ⟨method, rfl, hmethod⟩
      · rw [Form.layout, ih hwritten hlayout.of_quoted.2 hinner.symm]
      · have hbound := hlayout.isSome_of_quotedName
        rw [@Form.eq_none_of_layout_kinds _ _ f _ _ _ hwritten hmethod.symm] at hbound
        contradiction
  | call method arguments ih =>
      obtain ⟨hbound, _, harguments⟩ := hwritten
      simp only [Form.layout, Layout.kinds, List.cons_append, List.append_assoc,
        List.nil_append] at hkinds
      obtain ⟨inner, rfl, hinner⟩ := hlayout.of_opening hkinds.symm
      rcases hlayout.of_group.of_identifier hinner with rfl | ⟨layouts, rfl, _, hlayouts⟩
      · rw [hlayout.of_group.eq_none] at hbound
        contradiction
      · have heq := Form.layouts_unique (fun f hf _ _ _ => ih f hf) harguments
          hlayout.of_group.of_call.2 hlayouts.symm
        rw [Form.layout, heq]
  | flag name => exact hlayout.eq_flag hkinds.symm

end ArityScript
