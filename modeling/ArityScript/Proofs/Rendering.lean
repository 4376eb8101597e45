import ArityScript.Interactive.Session
import ArityScript.Proofs.Layout.Printed
import ArityScript.Proofs.Layout.Recovery
import ArityScript.Proofs.Spelling.Words

/-!
# Reading rendered forms

The text of a form spells its printed layout.  A form that was read from a
source is therefore read back from its text, unless one of two things stands in
the way: parentheses are levels of nesting, so that the text of a form may be
nested too deeply although its source was not; and a bare method name after a
quote mark is printed as a call in parentheses, which lacks its arguments if the
method requires any.  In both cases the text cannot be read at all.
-/

namespace ArityScript

open Lexer
open Layout (kindsOfAll)

variable {signatures : Signatures} {comments : Bool}

def Form.Legible (signatures : Signatures) (comments : Bool) (f : Form) : Prop :=
  f.Written signatures fun kind => ∃ text, Spelling comments kind text

theorem endsWord_closing (after : List Char) : EndsWord (')' :: after) := by
  intro c hc
  cases hc
  decide

theorem endsWord_textArguments (arguments : List Form) {after : List Char}
    (hends : EndsWord after) : EndsWord (Form.textArguments arguments ++ after) := by
  cases arguments with
  | nil => exact hends
  | cons f rest =>
      intro c hc
      cases hc
      decide

mutual

theorem Form.spells_text : ∀ {f : Form} {kinds : List TokenKind} {after : List Char},
    f.Legible signatures comments → EndsWord after → Spells comments kinds after →
      Spells comments (f.layout.kinds ++ kinds) (f.text ++ after)
  | .literal v, kinds, after, hlegible, hends, hafter => by
      obtain ⟨kind, hkind⟩ := Option.isSome_iff_exists.1 hlegible
      have hspelling := spelling_valueText comments hkind
      have hspells := Spells.token hspelling (fun _ => hends) hafter
      simpa [Form.layout, Layout.kinds, hkind, Form.text] using hspells
  | .variable name, kinds, after, ⟨_, _, hname⟩, hends, hafter =>
      .token hname.identifier_toList (fun _ => hends) hafter
  | .quoted f, kinds, after, hlegible, hends, hafter => by
      have hinner := Form.spells_text (f := f) hlegible hends hafter
      have hspells := Spells.token .quote (by simp [isWordKind]) hinner
      simpa [Form.layout, Layout.kinds, Form.text] using hspells
  | .call method arguments, kinds, after, ⟨_, ⟨_, hname⟩, harguments⟩, hends, hafter => by
      have hclosing := Spells.token .closing (by simp [isWordKind]) hafter
      have hinner := Form.spells_textArguments harguments (endsWord_closing after) hclosing
      have hcall := Spells.token hname.identifier_toList
        (fun _ => endsWord_textArguments arguments (endsWord_closing after)) hinner
      have hspells := Spells.token .opening (by simp [isWordKind]) hcall
      simpa [Form.layout, Layout.kinds, Form.text] using hspells
  | .flag name, kinds, after, ⟨_, hname⟩, hends, hafter =>
      .token hname.flag_toList (fun _ => hends) hafter

theorem Form.spells_textArguments :
    ∀ {arguments : List Form} {kinds : List TokenKind} {after : List Char},
      Form.AllWritten signatures (fun kind => ∃ text, Spelling comments kind text)
        arguments → EndsWord after → Spells comments kinds after →
      Spells comments (kindsOfAll (Form.layouts arguments) ++ kinds)
        (Form.textArguments arguments ++ after)
  | [], _, _, _, _, hafter => hafter
  | f :: rest, kinds, after, ⟨hlegible, hrest⟩, hends, hafter => by
      have hothers := Form.spells_textArguments hrest hends hafter
      have hfirst := Form.spells_text hlegible (endsWord_textArguments rest hends) hothers
      have hspells := @Spells.blank _ _ ' ' _ (by decide) hfirst
      simpa [Form.layouts, kindsOfAll, Form.textArguments] using hspells

end

/-- A form that was read has a layout from which it was read, and its names can
be spelled. -/
theorem legible_of_parse {source : String} {f : Form}
    (hparse : parse signatures comments source = .ok f) :
    f.ArityConsistent signatures ∧ f.Legible signatures comments := by
  obtain ⟨_, layout, hkinds, rfl, hconsistent, hdelimited, _⟩ :=
    exists_layout_of_parse hparse
  have hlayout : layout.IsArgument signatures := .inr ⟨none, hconsistent, hdelimited⟩
  refine ⟨hconsistent, hlayout.written_form fun kind hkind => ?_⟩
  rw [← hkinds] at hkind
  obtain ⟨token, htoken, rfl⟩ := List.mem_map.1 hkind
  exact exists_spelling_of_mem_scanFrom htoken

theorem spells_render {f : Form} (hlegible : f.Legible signatures comments) :
    Spells comments f.layout.kinds f.render.toList := by
  have hspells := Form.spells_text hlegible (by decide) Spells.nil
  simpa [Form.render] using hspells

/-! ## Reading the text again -/

theorem parse_render_of_quotesComplete {f : Form} (hconsistent : f.ArityConsistent signatures)
    (hlegible : f.Legible signatures comments) (hcomplete : f.QuotesComplete signatures)
    (hdepth : f.layout.depth ≤ maxReadDepth) :
    parse signatures comments f.render = .ok f := by
  obtain ⟨hkinds, herror⟩ := tokenize_of_spells (spells_render hlegible)
  have hread := @parse_of_kinds signatures comments f.render f.layout
    (by rwa [f.form_layout]) (Form.delimited_layout hconsistent hcomplete) hdepth hkinds
    herror
  rwa [f.form_layout] at hread

theorem quotesComplete_of_parse_render {f g : Form}
    (hlegible : f.Legible signatures comments)
    (hparse : parse signatures comments f.render = .ok g) :
    g = f ∧ f.QuotesComplete signatures ∧ f.layout.depth ≤ maxReadDepth := by
  obtain ⟨hkinds, _⟩ := tokenize_of_spells (spells_render hlegible)
  obtain ⟨_, layout, hlayoutKinds, rfl, hconsistent, hdelimited, hdepth⟩ :=
    exists_layout_of_parse hparse
  have hlayout : layout.IsArgument signatures := .inr ⟨none, hconsistent, hdelimited⟩
  rw [hkinds] at hlayoutKinds
  have heq : layout = f.layout :=
    @Form.layout_unique _ _ _ _ [] [] hlegible hlayout (by rw [hlayoutKinds])
  subst heq
  exact ⟨f.form_layout, Form.quotesComplete_of_delimited hdelimited, hdepth⟩

/-- Reading the text of a form that was read gives the form back, and nothing
else, exactly if no quoted method name requires arguments and the parentheses
around the calls are not nested too deeply. -/
theorem parse_render_eq_ok_iff {source : String} {f g : Form}
    (hparse : parse signatures comments source = .ok f) :
    parse signatures comments f.render = .ok g ↔
      g = f ∧ f.QuotesComplete signatures ∧ f.layout.depth ≤ maxReadDepth := by
  obtain ⟨hconsistent, hlegible⟩ := legible_of_parse hparse
  constructor
  · exact quotesComplete_of_parse_render hlegible
  · rintro ⟨rfl, hcomplete, hdepth⟩
    exact parse_render_of_quotesComplete hconsistent hlegible hcomplete hdepth

/-- The signatures at the start of a session. -/
def startSignatures : Signatures :=
  Interactive.start.store.signatures Interactive.start.env.chain

theorem startSignatures_plus :
    ∃ signature, startSignatures "+" = some signature ∧ signature.arity = 2 := by
  have hplus : (startSignatures "+").map Signature.arity = some 2 := by decide +kernel
  exact Option.map_eq_some_iff.1 hplus

theorem parse_quoted_plus :
    parse startSignatures false "'+" = .ok (.quoted (.call "+" [])) := by
  obtain ⟨signature, hsignature, _⟩ := startSignatures_plus
  have hname : Spells false [.identifier "+"] "+".toList :=
    @Spells.word _ _ _ "+".toList _ (by decide) rfl
      (by decide) .nil
  have hspells : Spells false [.quote, .identifier "+"] "'+".toList :=
    .token .quote (by simp [isWordKind]) hname
  have hconsistent : (Form.quoted (.call "+" [])).ArityConsistent startSignatures := by
    simp [Form.ArityConsistent, hsignature]
  obtain ⟨hkinds, herror⟩ := tokenize_of_spells hspells
  exact @parse_of_kinds _ _ _ (.quotedName "+") hconsistent trivial (by decide) hkinds
    herror

/-- A method name that was quoted by itself is printed as a call without its
arguments. -/
theorem parse_render_quoted_plus_ne_ok :
    parse startSignatures false "'+" = .ok (.quoted (.call "+" [])) ∧
      (Form.quoted (.call "+" [])).render = "'(+)" ∧
      ∀ g, parse startSignatures false "'(+)" ≠ .ok g := by
  refine ⟨parse_quoted_plus, rfl, fun g hparse => ?_⟩
  obtain ⟨_, hlegible⟩ := legible_of_parse parse_quoted_plus
  obtain ⟨_, hcomplete, _⟩ := quotesComplete_of_parse_render hlegible hparse
  obtain ⟨signature, hsignature, harity⟩ := startSignatures_plus
  have hempty : signature.arity = 0 := by
    simp only [Form.QuotesComplete] at hcomplete
    exact hcomplete signature hsignature
  omega

theorem parse_sum_eq_ok :
    parse (fun name => if name = "+" then some Builtin.operands else none) true
      "+ (1) 2" = .ok (.call "+" [.literal (.number 1), .literal (.number 2)]) := by
  have htwo : Spells true [.number 2] "2".toList :=
    @Spells.word _ _ _ "2".toList _ (by decide) rfl
      (by decide) .nil
  have hclosing : Spells true [.closing, .number 2] ") 2".toList :=
    @Spells.token _ _ _ [')'] _ .closing (by decide) (.blank (by decide) htwo)
  have hone : Spells true [.opening, .number 1, .closing, .number 2] "(1) 2".toList :=
    @Spells.token _ _ _ ['('] _ .opening (by decide)
      (@Spells.word _ _ _ "1".toList _ (by decide) rfl
        (by decide) hclosing)
  have hspells : Spells true
      [.identifier "+", .opening, .number 1, .closing, .number 2] "+ (1) 2".toList :=
    @Spells.word _ _ _ "+".toList _ (by decide) rfl
      (by decide) (.blank (by decide) hone)
  obtain ⟨hkinds, herror⟩ := tokenize_of_spells hspells
  refine @parse_of_kinds _ _ _
    (.call "+" [.group (.literal (.number 1)), .literal (.number 2)])
    ⟨Builtin.operands, rfl, by decide, rfl, by decide, rfl, Nat.le_refl 2⟩
    ⟨fun _ _ => trivial, .inr trivial, .inr trivial, trivial⟩ (by decide) hkinds herror

/-- A sum is read back from its text, which has other parentheses. -/
theorem parse_render_sum_eq_ok :
    parse (fun name => if name = "+" then some Builtin.operands else none) true
        "+ (1) 2" = .ok (.call "+" [.literal (.number 1), .literal (.number 2)]) ∧
      (Form.call "+" [.literal (.number 1), .literal (.number 2)]).render = "(+ 1 2)" ∧
      parse (fun name => if name = "+" then some Builtin.operands else none) true
        (Form.call "+" [.literal (.number 1), .literal (.number 2)]).render =
        .ok (.call "+" [.literal (.number 1), .literal (.number 2)]) := by
  refine ⟨parse_sum_eq_ok, by decide, (parse_render_eq_ok_iff parse_sum_eq_ok).2 ⟨rfl, ?_, ?_⟩⟩
  · exact ⟨trivial, trivial, trivial⟩
  · decide

end ArityScript
