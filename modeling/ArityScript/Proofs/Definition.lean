import ArityScript.Proofs.Binding.Arity
import ArityScript.Proofs.Framing

/-!
# Definitions from source texts

A definition is written as the word `def`, the name, the parameters and the body,
with a quote mark before each of them.  A quoted name is read as a call or as a
variable, depending on whether it names a method already; it is the same name
either way.  So a text of this kind defines what it says, whatever its names
stand for: shadowing a method, naming a parameter twice or after the method, and
redefining a method with another number of parameters are nothing special.
-/

namespace ArityScript

/-! ## Reading -/

/-- The tokens of a definition whose quoted body has the tokens `body`. -/
def definitionKinds (name : String) (parameters : List String) (body : List TokenKind) :
    List TokenKind :=
  .identifier "def" ::
    ((name :: parameters).flatMap (fun word => [.quote, .identifier word]) ++ body)

/-- What a quoted name is read as, without its quote mark. -/
def nameForm (signatures : Signatures) (name : String) : Form :=
  if (signatures name).isSome then .call name [] else .variable name

def nameLayout (signatures : Signatures) (name : String) : Layout :=
  if (signatures name).isSome then .quotedName name else .quoted (.variable name)

theorem name?_nameForm (signatures : Signatures) (name : String) :
    (nameForm signatures name).name? = some name := by
  unfold nameForm
  split <;> rfl

section

variable {signatures : Signatures}

theorem form_nameLayout (name : String) :
    (nameLayout signatures name).form = .quoted (nameForm signatures name) := by
  unfold nameLayout nameForm
  split <;> rfl

theorem kinds_nameLayout (name : String) :
    (nameLayout signatures name).kinds = [.quote, .identifier name] := by
  unfold nameLayout
  split <;> rfl

theorem arityConsistent_nameLayout (name : String) :
    (nameLayout signatures name).form.ArityConsistent signatures := by
  unfold nameLayout
  split
  · next hmethod => simpa [Layout.form, Form.ArityConsistent] using hmethod
  · next hmethod => simpa [Layout.form, Form.ArityConsistent] using hmethod

theorem delimited_nameLayout (name : String) (next : Option TokenKind) :
    (nameLayout signatures name).Delimited signatures next := by
  unfold nameLayout
  split
  · simp [Layout.Delimited]
  · simp [Layout.Delimited, Layout.isCall, Layout.form]

theorem Form.argumentsConsistent_ofRest (rest : String) {arguments : List Form} (count : Nat)
    (harguments : ∀ f ∈ arguments, f.ArityConsistent signatures) :
    Form.ArgumentsConsistent signatures (.ofRest rest) count arguments := by
  induction arguments generalizing count with
  | nil => simp [Form.ArgumentsConsistent, Signature.ofRest, Signature.arity]
  | cons argument others ih =>
      obtain ⟨hargument, hothers⟩ := List.forall_mem_cons.1 harguments
      have hflag := Form.ne_flag_of_isFlag hargument.isFlag_eq_false
      rw [Form.argumentsConsistent_cons hflag]
      exact ⟨by simp [Signature.isPending, Signature.ofRest], hargument, ih (count + 1) hothers⟩

/-- The layout of a definition, given one of its quoted body. -/
def definitionLayout (signatures : Signatures) (name : String) (parameters : List String)
    (body : Layout) : Layout :=
  .call "def" ((name :: parameters).map (nameLayout signatures) ++ [body])

theorem kindsOfAll_nameLayouts (names : List String) (body : Layout) :
    Layout.kindsOfAll (names.map (nameLayout signatures) ++ [body]) =
      names.flatMap (fun word => [.quote, .identifier word]) ++ body.kinds := by
  induction names with
  | nil => simp [Layout.kindsOfAll]
  | cons name rest ih =>
      simp only [List.map_cons, List.cons_append, Layout.kindsOfAll, ih, kinds_nameLayout,
        List.flatMap_cons, List.append_assoc]

theorem forms_nameLayouts (names : List String) (body : Layout) :
    Layout.forms (names.map (nameLayout signatures) ++ [body]) =
      names.map (fun name => .quoted (nameForm signatures name)) ++ [body.form] := by
  induction names with
  | nil => simp [Layout.forms]
  | cons name rest ih =>
      simp only [List.map_cons, List.cons_append, Layout.forms, ih, form_nameLayout]

theorem allDelimited_nameLayouts (names : List String) {body : Layout}
    (hbody : body.Delimited signatures none) :
    Layout.AllDelimited signatures (names.map (nameLayout signatures) ++ [body]) none := by
  induction names with
  | nil => simp [Layout.AllDelimited, Layout.kindsOfAll, hbody]
  | cons name rest ih =>
      simp only [List.map_cons, List.cons_append, Layout.AllDelimited]
      exact ⟨.inr (delimited_nameLayout name _), ih⟩

/-- A definition is read as the call of `def` with the names and the body it is
written with. -/
theorem parse_definition {comments : Bool} {source bodySource name rest : String}
    {parameters : List String} {body form : Form}
    (hdef : signatures "def" = some (.ofRest rest))
    (hkinds : (tokenize comments source).tokens.map Token.kind =
      definitionKinds name parameters ((tokenize comments bodySource).tokens.map Token.kind))
    (hbody : parse signatures comments bodySource = .ok (.quoted body))
    (hparse : parse signatures comments source = .ok form) :
    form = .call "def"
      (((name :: parameters).map (nameForm signatures) ++ [body]).map .quoted) := by
  obtain ⟨_, bodyLayout, hbodyKinds, hbodyForm, hbodyConsistent, hbodyDelimited, _⟩ :=
    exists_layout_of_parse hbody
  obtain ⟨_, layout, hlayoutKinds, rfl, hconsistent, hdelimited, _⟩ :=
    exists_layout_of_parse hparse
  have hform : (definitionLayout signatures name parameters bodyLayout).form = .call "def"
      (((name :: parameters).map (nameForm signatures) ++ [body]).map .quoted) := by
    rw [definitionLayout, Layout.form, forms_nameLayouts, hbodyForm]
    simp only [List.map_append, List.map_map, List.map_singleton, Function.comp_def]
  have hwhole : (definitionLayout signatures name parameters bodyLayout).form.ArityConsistent
      signatures := by
    simp only [definitionLayout, Layout.form, Form.ArityConsistent]
    refine ⟨_, hdef, Form.argumentsConsistent_ofRest rest 0 ?_⟩
    rw [forms_nameLayouts, List.forall_mem_append, hbodyForm]
    refine ⟨?_, by simpa using hbodyConsistent⟩
    intro f hf
    obtain ⟨word, _, rfl⟩ := List.mem_map.1 hf
    exact form_nameLayout word ▸ arityConsistent_nameLayout word
  have hends : (definitionLayout signatures name parameters bodyLayout).Delimited signatures
      none := by
    simp only [definitionLayout, Layout.Delimited]
    exact ⟨fun signature _ => trivial, allDelimited_nameLayouts _ hbodyDelimited⟩
  rw [← hform]
  refine Layout.form_eq_of_kinds_eq hconsistent hwhole hdelimited hends ?_
  rw [← hlayoutKinds, hkinds, definitionLayout, Layout.kinds, kindsOfAll_nameLayouts,
    hbodyKinds, definitionKinds]

end

/-! ## Evaluating -/

theorem Binding.collect_surplus {σ : Type} (method : String) {signature : Signature}
    {evaluate : Form → σ → Except Error Value × σ} {state : σ}
    (hrest : signature.rest.isSome = true)
    (hquoted : ∀ item, evaluate (.quoted item) state = (.ok (.form item), state))
    (items : List Form) (made : Partial) (hunfilled : made.unfilled = []) :
    collect method signature evaluate (items.map .quoted) made state =
      (.ok { made with surplus := (items.map .form).reverse ++ made.surplus }, state) := by
  induction items generalizing made with
  | nil => rfl
  | cons item rest ih =>
      have hflag : (Form.quoted item).isFlag = false := rfl
      have hplace : made.place? signature =
          some fun value => { made with surplus := value :: made.surplus } := by
        simp only [Partial.place?, hunfilled, hrest, if_true]
      have hothers := ih ⟨made.unfilled, made.bound, .form item :: made.surplus⟩ hunfilled
      simp only [List.map_cons, collect_placed _ _ _ _ _ hflag hplace, hquoted, hothers,
        List.reverse_cons, List.append_assoc, List.singleton_append]

theorem bindArguments_ofRest {σ : Type} (method rest : String)
    {evaluate : Form → σ → Except Error Value × σ} {state : σ}
    (hquoted : ∀ item, evaluate (.quoted item) state = (.ok (.form item), state))
    (items : List Form) :
    bindArguments method (.ofRest rest) evaluate (items.map .quoted) state =
      (.ok (NameMap.empty.insert rest (.list (items.map .form))), state) := by
  rw [bindArguments, Binding.collect_surplus method rfl hquoted items _ rfl]
  simp only [List.append_nil, Binding.complete, Signature.ofRest, List.foldl_nil,
    List.reverse_reverse]

namespace Builtin

theorem quotedName_form (role : String) {form : Form} {name : String}
    (hname : form.name? = some name) : quotedName role (.form form) = .ok name := by
  simp only [quotedName, Value.form?, Option.bind_some, hname]

theorem mapM_quotedName (role : String) {forms : List Form} {names : List String}
    (hnames : forms.map Form.name? = names.map some) :
    (forms.map Value.form).mapM (quotedName role) = .ok names := by
  induction forms generalizing names with
  | nil =>
      cases names with
      | nil => rfl
      | cons name rest => simp at hnames
  | cons form others ih =>
      cases names with
      | nil => simp at hnames
      | cons name rest =>
          simp only [List.map_cons, List.cons.injEq] at hnames
          rw [List.map_cons, List.mapM_cons, quotedName_form role hnames.1, ih hnames.2]
          rfl

/-- The method made of quoted names and a quoted body is bound where it is defined. -/
theorem run_definition (evaluate : Evaluator) (call : String) {nameOf : Form} (body : Form)
    {parameterForms : List Form} {name : String} {parameters : List String}
    (hname : nameOf.name? = some name)
    (hparameters : parameterForms.map Form.name? = parameters.map some)
    (chain : Chain) (store : Store) :
    (definition (NameMap.empty.insert "parts"
        (.list ((nameOf :: parameterForms ++ [body]).map .form)))).run evaluate call chain store =
      (.ok (.method (store.define chain name parameters body).1),
        (store.define chain name parameters body).2.bind chain name
          (.method (store.define chain name parameters body).1)) := by
  have hparts : Arguments.as (List Value) (NameMap.empty.insert "parts"
      (.list ((nameOf :: parameterForms ++ [body]).map .form))) "parts" =
        .ok ((nameOf :: parameterForms ++ [body]).map .form) := by
    simp only [Arguments.as, Arguments.value, NameMap.find?_insert, if_true, OfValue.ofValue?]
  have hlast : ((nameOf :: parameterForms ++ [body]).map Value.form).getLast? =
      some (.form body) := by
    rw [List.map_append, List.map_singleton, List.getLast?_concat]
  have hinit : ((nameOf :: parameterForms ++ [body]).map Value.form).dropLast =
      .form nameOf :: parameterForms.map .form := by
    rw [List.map_append, List.map_singleton, List.dropLast_concat, List.map_cons]
  simp only [definition, hparts, Program.attempt, hinit, hlast, quotedName_form _ hname,
    mapM_quotedName _ hparameters, bodyForm, Program.run]
  rfl

end Builtin

/-- What a definition leaves: a new method with the parameters as required ones,
bound to its name in the innermost frame of the scope, and nothing else. -/
structure Store.Defines (before : Store) (chain : Chain) (name : String)
    (parameters : List String) (body : Form) (ref : MethodRef) (after : Store) : Prop where
  fresh : before.method? ref = none
  method_eq : after.method? ref = some ⟨.ofRequired parameters, .defined body chain⟩
  bindings_eq : after.bindings chain.innermost =
    (before.bindings chain.innermost).insert name (.method ref)
  evolves : before.Evolves chain.innermost after
  frames_size_eq : after.frames.size = before.frames.size
  methods_size_eq : after.methods.size = before.methods.size + 1

theorem Store.defines_define (store : Store) {chain : Chain} (name : String)
    (parameters : List String) (body : Form)
    (hinnermost : chain.innermost < store.frames.size) :
    store.Defines chain name parameters body (store.define chain name parameters body).1
      ((store.define chain name parameters body).2.bind chain name
        (.method (store.define chain name parameters body).1)) where
  fresh := by simp [method?, define, addMethod]
  method_eq := by simp [method?, define, addMethod, bind]
  bindings_eq := bindings_bind_innermost name _ hinnermost
  evolves := by
    have hdefine := store.extends_define chain name parameters body
    exact hdefine.evolves.trans (evolves_bind _ chain name _)
  frames_size_eq := by simp [define, addMethod, bind]
  methods_size_eq := by simp [define, addMethod, bind]

theorem signatures_of_callee {store : Store} {chain : Chain} {name : String}
    {ref : MethodRef} {method : Method} (hcallee : callee store chain name = .ok (ref, method)) :
    store.signatures chain name = some method.signature := by
  unfold callee at hcallee
  split at hcallee
  · contradiction
  · next found hlookup =>
      split at hcallee
      · next hmethod =>
          cases hcallee
          simp [Store.signatures, Store.lookupMethod, hlookup, Value.method?, hmethod]
      · contradiction
  · contradiction

theorem evalAt_of_bound {levels : Nat} {chain : Chain} {name : String} {forms : List Form}
    {store bound : Store} {ref : MethodRef} {method : Method} {arguments : Arguments}
    (hcallee : callee store chain name = .ok (ref, method))
    (hbind : bindArguments name method.signature (evalAt levels chain) forms store =
      (.ok arguments, bound)) :
    evalAt (levels + 1) chain (.call name forms) store =
      ((invoke (evalAt levels) name ref method arguments chain bound).1.mapError
          (Error.inCall (.call name forms)),
        (invoke (evalAt levels) name ref method arguments chain bound).2) := by
  simp only [evalAt, evalCall, hcallee, hbind]

theorem evaluate_definition {store : Store} {chain : Chain} {comments : Bool}
    {source bodySource name : String} {parameters : List String} {body form : Form}
    {defRef : MethodRef}
    (hdef : callee store chain "def" =
      .ok (defRef, ⟨.ofRest "parts", .native Builtin.definition⟩))
    (hkinds : (tokenize comments source).tokens.map Token.kind =
      definitionKinds name parameters ((tokenize comments bodySource).tokens.map Token.kind))
    (hbody : parse (store.signatures chain) comments bodySource = .ok (.quoted body))
    (hparse : parse (store.signatures chain) comments source = .ok form) :
    evaluate comments source chain store =
      (.ok (.method (store.define chain name parameters body).1),
        (store.define chain name parameters body).2.bind chain name
          (.method (store.define chain name parameters body).1)) := by
  have hform := parse_definition (signatures_of_callee hdef) hkinds hbody hparse
  have hnames : (parameters.map (nameForm (store.signatures chain))).map Form.name? =
      parameters.map some := by
    rw [List.map_map]
    exact List.map_congr_left fun parameter _ => name?_nameForm _ parameter
  have hquoted : ∀ item, evalAt 255 chain (.quoted item) store = (.ok (.form item), store) :=
    fun _ => rfl
  have hbind := bindArguments_ofRest "def" "parts" hquoted
    ((name :: parameters).map (nameForm (store.signatures chain)) ++ [body])
  have hrun := Builtin.run_definition (evalAt 255) "def" body
    (name?_nameForm (store.signatures chain) name) hnames chain store
  have hcall := evalAt_of_bound hdef hbind
  rw [List.map_cons, invoke] at hcall
  simp only [hrun] at hcall
  rw [evaluate, hparse, hform]
  exact hcall

end ArityScript
