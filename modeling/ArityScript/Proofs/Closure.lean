import ArityScript.Proofs.Definition
import ArityScript.Proofs.NameMap

/-!
# Calls of defined methods

A method that was defined in a scope is called on literals by evaluating its body,
one level deeper, over the frames of that scope and a fresh frame with the
parameters.  The scope is shared and not copied, so the body sees what its frames
hold at the time of the call.  Of equal parameters the last one counts.

Calls with another number of literals, or with a flag, are refused while their
arguments are bound: the body is not entered, and the store stays as it was.
-/

namespace ArityScript

/-! ## Frames of parameters -/

/-- A store with one more frame, made for a method that was defined in a scope. -/
def Store.opened (store : Store) (scope : Chain) (frame : NameMap Value) : Store :=
  { store with frames := store.frames.push ⟨scope.root, frame⟩ }

theorem Store.bind_opened (store : Store) (scope : Chain) (frame : NameMap Value)
    (name : String) (value : Value) :
    (store.opened scope frame).bind (scope.push store.frames.size) name value =
      store.opened scope (frame.insert name value) := by
  have hframes : ((store.opened scope frame).bind (scope.push store.frames.size) name
      value).frames = (store.opened scope (frame.insert name value)).frames := by
    refine Array.ext_getElem? fun index => ?_
    simp only [opened, bind, Chain.push, Array.getElem?_modify, Array.getElem?_push]
    by_cases hindex : store.frames.size = index
    · simp [hindex]
    · simp [hindex, Ne.symm hindex]
  rw [opened, mk.injEq]
  exact ⟨hframes, rfl⟩

theorem Store.bindAll_enter (store : Store) (scope : Chain) (frame : NameMap Value) :
    (store.enter scope).2.bindAll (store.enter scope).1 frame = store.opened scope frame := by
  have hentries : ∀ (entries : List (String × Value)) (start : NameMap Value),
      entries.foldl (fun (current : Store) entry =>
          current.bind (scope.push store.frames.size) entry.1 entry.2)
        (store.opened scope start) = store.opened scope (start.insertAll entries) := by
    intro entries
    induction entries with
    | nil => exact fun start => rfl
    | cons entry rest ih =>
        intro start
        rw [List.foldl_cons, bind_opened, ih]
        rfl
  have hempty : (store.enter scope).2 = store.opened scope .empty := rfl
  rw [bindAll, hempty]
  exact (hentries frame.entries .empty).trans (by rw [NameMap.insertAll_entries])

theorem invoke_defined (evaluate : Evaluator) (call : String) (ref : MethodRef)
    (signature : Signature) (body : Form) (scope : Chain) (arguments : Arguments)
    (chain : Chain) (store : Store) :
    invoke evaluate call ref ⟨signature, .defined body scope⟩ arguments chain store =
      evaluate (scope.push store.frames.size) body (store.opened scope arguments) := by
  rw [← store.bindAll_enter scope arguments]
  rfl

/-! ## Arguments -/

@[simp] theorem Signature.required_ofRequired (names : List String) :
    (Signature.ofRequired names).required = names := rfl

section

variable {σ : Type} (method : String) (signature : Signature)
  {evaluate : Form → σ → Except Error Value × σ} {state : σ}

/-- Literals go to the required parameters in order, and what follows is bound
after them. -/
theorem Binding.collect_literals
    (hliteral : ∀ value, evaluate (.literal value) state = (.ok value, state))
    {values : List Value} {names : List String} (hlength : values.length ≤ names.length)
    (rest : List Form) (bound : Arguments) (surplus : List Value) :
    collect method signature evaluate (values.map .literal ++ rest)
        ⟨names, bound, surplus⟩ state =
      collect method signature evaluate rest
        ⟨names.drop values.length, bound.insertAll (names.zip values), surplus⟩ state := by
  induction values generalizing names bound with
  | nil => simp [NameMap.insertAll]
  | cons value values ih =>
      cases names with
      | nil => simp at hlength
      | cons name names =>
          have hflag : (Form.literal value).isFlag = false := rfl
          have hplace : Partial.place? ⟨name :: names, bound, surplus⟩ signature =
              some fun value => ⟨names, bound.insert name value, surplus⟩ := rfl
          have hrest := ih (Nat.le_of_succ_le_succ hlength) (bound.insert name value)
          simp only [List.map_cons, List.cons_append,
            collect_placed _ _ _ _ _ hflag hplace, hliteral, hrest]
          rfl

theorem bindArguments_literals
    (hliteral : ∀ value, evaluate (.literal value) state = (.ok value, state))
    {parameters : List String} {values : List Value}
    (hlength : values.length = parameters.length) :
    bindArguments method (.ofRequired parameters) evaluate (values.map .literal) state =
      (.ok (NameMap.empty.insertAll (parameters.zip values)), state) := by
  have hcollect := Binding.collect_literals method (.ofRequired parameters) hliteral
    (Nat.le_of_eq hlength) [] .empty []
  rw [List.append_nil, List.drop_of_length_le (Nat.le_of_eq hlength.symm)] at hcollect
  rw [bindArguments, Signature.required_ofRequired, hcollect]
  rfl

end

/-- The forms of a call that a method with required parameters alone does not take,
and why. -/
inductive Misfit (method : String) (parameters : List String) :
    List Form → EvalCause → Prop where
  | excess {values : List Value} (others : List Form) :
      parameters.length < values.length →
      Misfit method parameters (values.map .literal ++ others)
        (.tooManyArguments method parameters.length)
  | undeclared {values : List Value} (flag : String) (others : List Form) :
      values.length ≤ parameters.length →
      Misfit method parameters (values.map .literal ++ .flag flag :: others)
        (.unknownOption flag method)
  | lacking {values : List Value} {missing : String} :
      parameters[values.length]? = some missing →
      Misfit method parameters (values.map .literal)
        (.unfilledParameter method parameters.length missing)

theorem exists_misfit (method : String) {parameters : List String} {values : List Value}
    {others : List Form}
    (hothers : others = [] ∧ values.length ≠ parameters.length ∨
      ∃ flag rest, others = .flag flag :: rest) :
    ∃ cause, Misfit method parameters (values.map .literal ++ others) cause := by
  by_cases hexcess : parameters.length < values.length
  · exact ⟨_, .excess others hexcess⟩
  · rcases hothers with ⟨rfl, hlength⟩ | ⟨flag, rest, rfl⟩
    · have hlt : values.length < parameters.length := by omega
      rw [List.append_nil]
      exact ⟨_, .lacking (List.getElem?_eq_getElem hlt)⟩
    · exact ⟨_, .undeclared flag rest (Nat.not_lt.1 hexcess)⟩

section

variable {σ : Type} {method : String} {evaluate : Form → σ → Except Error Value × σ}
  {state : σ} {parameters : List String} {forms : List Form} {cause : EvalCause}

theorem bindArguments_misfit
    (hliteral : ∀ value, evaluate (.literal value) state = (.ok value, state))
    (hmisfit : Misfit method parameters forms cause) :
    bindArguments method (.ofRequired parameters) evaluate forms state =
      (.error (.eval (.inMethod method cause)), state) := by
  rw [bindArguments, Signature.required_ofRequired]
  cases hmisfit with
  | @excess values others hexcess =>
      -- The literals after the last parameter are met one by one; the first is refused.
      have hfirst : (values.take parameters.length).length = parameters.length :=
        List.length_take_of_le (Nat.le_of_lt hexcess)
      have hsplit : values.map Form.literal ++ others =
          (values.take parameters.length).map .literal ++ .literal values[parameters.length] ::
            ((values.drop (parameters.length + 1)).map .literal ++ others) := by
        rw [← List.cons_append, ← List.map_cons, ← List.drop_eq_getElem_cons hexcess,
          ← List.append_assoc, ← List.map_append, List.take_append_drop]
      have hflag : (Form.literal values[parameters.length]).isFlag = false := rfl
      rw [hsplit, Binding.collect_literals _ _ hliteral (Nat.le_of_eq hfirst), hfirst,
        List.drop_length, Binding.collect_eq_step, Binding.step_positional _ _ hflag]
      rfl
  | @undeclared values flag others hle =>
      rw [Binding.collect_literals _ _ hliteral hle, Binding.collect_eq_step,
        Binding.step_undeclared _ _ rfl]
  | @lacking values missing hmissing =>
      have hlt := (List.getElem?_eq_some_iff.1 hmissing).1
      have hcollect := Binding.collect_literals method (.ofRequired parameters) hliteral
        (Nat.le_of_lt hlt) [] .empty []
      rw [List.append_nil, List.drop_eq_getElem?_toList_append, hmissing] at hcollect
      rw [hcollect]
      rfl

theorem Binding.collect_of_failing {signature : Signature} {failure : EvalError}
    (hfails : ∀ form, evaluate form state = (.error (.eval failure), state))
    (hforms : forms ≠ []) (made : Partial) :
    ∃ refused : EvalError,
      collect method signature evaluate forms made state = (.error (.eval refused), state) := by
  rw [collect_eq_step]
  cases hstep : step method signature forms made with
  | done => exact absurd (eq_nil_of_step_eq_done hstep) hforms
  | refuse cause => exact ⟨_, rfl⟩
  | take form place rest =>
      simp only [hfails]
      exact ⟨failure, rfl⟩

theorem Misfit.ne_nil (hmisfit : Misfit method [] forms cause) : forms ≠ [] := by
  cases hmisfit with
  | @excess values others hexcess =>
      intro hnil
      have hvalues : values = [] := by simpa using (List.append_eq_nil_iff.1 hnil).1
      simp [hvalues] at hexcess
  | undeclared flag others hle => simp
  | lacking hmissing => simp at hmissing

theorem bindArguments_of_failing {failure : EvalError}
    (hfails : ∀ form, evaluate form state = (.error (.eval failure), state))
    (hmisfit : Misfit method parameters forms cause) :
    ∃ refused : EvalError, bindArguments method (.ofRequired parameters) evaluate forms state =
      (.error (.eval refused), state) := by
  by_cases hforms : forms = []
  · subst forms
    cases parameters with
    | nil => exact absurd rfl hmisfit.ne_nil
    | cons parameter rest => exact ⟨_, rfl⟩
  · obtain ⟨refused, hrefused⟩ := Binding.collect_of_failing hfails hforms
      ⟨parameters, .empty, []⟩
    refine ⟨refused, ?_⟩
    rw [bindArguments, Signature.required_ofRequired, hrefused]

end

/-! ## Calls -/

/-- In a store, calls of a name that stands for a method are calls of a closure: a
form over a scope, with parameters. -/
structure Store.IsClosure (store : Store) (ref : MethodRef) (name : String) (scope : Chain)
    (parameters : List String) (body : Form) : Prop where
  called : ∀ (levels : Nat) (caller : Chain) (values : List Value),
    store.lookup caller name = some (.method ref) → values.length = parameters.length →
    ∃ frame : NameMap Value,
      (∀ parameter, frame.find? parameter =
        (parameters.zip values).reverse.lookup parameter) ∧
      (evalAt (levels + 1) caller (.call name (values.map .literal)) store).1 =
        (evalAt levels (scope.push store.frames.size) body
          (store.opened scope frame)).1.mapError
            (Error.inCall (.call name (values.map .literal))) ∧
      (0 < levels →
        (evalAt (levels + 1) caller (.call name (values.map .literal)) store).2 =
          (evalAt levels (scope.push store.frames.size) body (store.opened scope frame)).2)
  refused : ∀ (levels : Nat) (caller : Chain) (values : List Value) (others : List Form),
    store.lookup caller name = some (.method ref) →
    (others = [] ∧ values.length ≠ parameters.length ∨
      ∃ flag rest, others = .flag flag :: rest) →
    ∃ failure : EvalError,
      evalAt (levels + 1) caller (.call name (values.map .literal ++ others)) store =
        (.error (.eval failure), store) ∧
      (0 < levels →
        Misfit name parameters (values.map .literal ++ others) failure.cause ∧
          failure.method = some name)

theorem callee_of_lookup {store : Store} {chain : Chain} {name : String} {ref : MethodRef}
    {method : Method} (hlookup : store.lookup chain name = some (.method ref))
    (hmethod : store.method? ref = some method) :
    callee store chain name = .ok (ref, method) := by
  simp only [callee, hlookup, hmethod]

theorem evalAt_of_refused {levels : Nat} {chain : Chain} {name : String} {forms : List Form}
    {store bound : Store} {ref : MethodRef} {method : Method} {error : Error}
    (hcallee : callee store chain name = .ok (ref, method))
    (hbind : bindArguments name method.signature (evalAt levels chain) forms store =
      (.error error, bound)) :
    evalAt (levels + 1) chain (.call name forms) store =
      (.error (Error.inCall (.call name forms) error), bound) := by
  simp only [evalAt, evalCall, hcallee, hbind]
  rfl

theorem Error.exists_inCall_eq (call : Form) (failure : EvalError) :
    ∃ context, Error.inCall call (.eval failure) =
      .eval ⟨failure.cause, failure.method, context⟩ := by
  obtain ⟨cause, method, context⟩ := failure
  cases context with
  | none => exact ⟨_, rfl⟩
  | some text => exact ⟨_, rfl⟩

/-- On the last level a call fails, as its body would, whether or not it has an
argument to evaluate. -/
theorem evalAt_one_eq {chain : Chain} {name : String} {values : List Value}
    {store : Store} {ref : MethodRef} {parameters : List String} {body : Form} {scope : Chain}
    (hcallee : callee store chain name =
      .ok (ref, ⟨.ofRequired parameters, .defined body scope⟩))
    (hlength : values.length = parameters.length) :
    (evalAt 1 chain (.call name (values.map .literal)) store).1 =
      .error (Error.inCall (.call name (values.map .literal))
        (.eval (.ofCause (.tooDeep maxEvalDepth)))) := by
  cases values with
  | nil =>
      have hnil : parameters = [] := List.eq_nil_of_length_eq_zero hlength.symm
      subst hnil
      have hbind : bindArguments name (.ofRequired []) (evalAt 0 chain) [] store =
          (.ok .empty, store) := rfl
      rw [List.map_nil, evalAt_of_bound hcallee hbind]
      rfl
  | cons value rest =>
      cases parameters with
      | nil => contradiction
      | cons parameter others =>
          have hbind : bindArguments name (.ofRequired (parameter :: others)) (evalAt 0 chain)
              ((value :: rest).map .literal) store =
                (.error (.eval (.ofCause (.tooDeep maxEvalDepth))), store) := rfl
          rw [evalAt_of_refused hcallee hbind]

theorem Store.isClosure_of_method? {store : Store} {ref : MethodRef} {scope : Chain}
    {parameters : List String} {body : Form} (name : String)
    (hmethod : store.method? ref = some ⟨.ofRequired parameters, .defined body scope⟩) :
    store.IsClosure ref name scope parameters body where
  called := by
    intro levels caller values hlookup hlength
    have hcallee := callee_of_lookup hlookup hmethod
    refine ⟨NameMap.empty.insertAll (parameters.zip values), ?_, ?_⟩
    · intro parameter
      rw [NameMap.find?_insertAll, NameMap.find?_empty, Option.or_none]
    · cases levels with
      | zero =>
          exact ⟨evalAt_one_eq hcallee hlength,
            fun hlevels => absurd hlevels (Nat.lt_irrefl 0)⟩
      | succ levels =>
          have hliteral : ∀ value, evalAt (levels + 1) caller (.literal value) store =
              (.ok value, store) := fun _ => rfl
          have hbind := bindArguments_literals name hliteral hlength
          rw [evalAt_of_bound hcallee hbind, invoke_defined]
          exact ⟨rfl, fun _ => rfl⟩
  refused := by
    intro levels caller values others hlookup hothers
    have hcallee := callee_of_lookup hlookup hmethod
    obtain ⟨cause, hmisfit⟩ := exists_misfit name hothers
    cases levels with
    | zero =>
        have hfails : ∀ form, evalAt 0 caller form store =
            (.error (.eval (.ofCause (.tooDeep maxEvalDepth))), store) := fun _ => rfl
        obtain ⟨failure, hbind⟩ := bindArguments_of_failing hfails hmisfit
        obtain ⟨context, hcontext⟩ := Error.exists_inCall_eq
          (.call name (values.map .literal ++ others)) failure
        refine ⟨⟨failure.cause, failure.method, context⟩, ?_,
          fun hlevels => absurd hlevels (Nat.lt_irrefl 0)⟩
        rw [evalAt_of_refused hcallee hbind, hcontext]
    | succ levels =>
        have hliteral : ∀ value, evalAt (levels + 1) caller (.literal value) store =
            (.ok value, store) := fun _ => rfl
        have hbind := bindArguments_misfit hliteral hmisfit
        exact ⟨_, evalAt_of_refused hcallee hbind, fun _ => ⟨hmisfit, rfl⟩⟩

/-- The text of a definition makes its method, binds it to its name in the innermost
frame and changes nothing else.  From then on, wherever the name stands for the
method, calling it with as many literals as there are parameters is evaluating the
body over the scope of the definition, and other calls are refused. -/
theorem definition_makes_closure {store : Store} {chain : Chain} {comments : Bool}
    {source bodySource name : String} {parameters : List String} {body form : Form}
    {defRef : MethodRef}
    (hinnermost : chain.innermost < store.frames.size)
    (hdef : callee store chain "def" =
      .ok (defRef, ⟨.ofRest "parts", .native Builtin.definition⟩))
    (hkinds : (tokenize comments source).tokens.map Token.kind =
      definitionKinds name parameters ((tokenize comments bodySource).tokens.map Token.kind))
    (hbody : parse (store.signatures chain) comments bodySource = .ok (.quoted body))
    (hparse : parse (store.signatures chain) comments source = .ok form) :
    ∃ ref after, evaluate comments source chain store = (.ok (.method ref), after) ∧
      store.Defines chain name parameters body ref after ∧
      ∀ later, after.Keeps (fun _ => False) later →
        later.IsClosure ref name chain parameters body := by
  have hdefines := store.defines_define name parameters body hinnermost
  refine ⟨_, _, evaluate_definition hdef hkinds hbody hparse, hdefines, ?_⟩
  intro later hlater
  have hid := (Array.getElem?_eq_some_iff.1 hdefines.method_eq).1
  exact Store.isClosure_of_method? name ((hlater.method_eq _ hid).trans hdefines.method_eq)

/-- A root frame with the method that defines methods. -/
def definingStore : Store where
  frames := #[⟨0, ⟨[("def", .method ⟨0, "def"⟩)], by simp⟩⟩]
  methods := #[⟨.ofRest "parts", .native Builtin.definition⟩]

/-- One parameter is named after a method and one is named twice. -/
theorem definition_makes_closure_pick :
    ∃ ref after, evaluate true "def 'pick 'def 'x 'x 'x" ⟨0, []⟩ definingStore =
        (.ok (.method ref), after) ∧
      (evalAt 2 ⟨0, []⟩ (.call "pick" [.literal (.number 1), .literal (.number 2),
        .literal (.number 3)]) after).1 = .ok (.number 3) := by
  have hbody : (parse (definingStore.signatures ⟨0, []⟩) true "'x").toOption =
      some (.quoted (.variable "x")) := by decide +kernel
  have hparse : (parse (definingStore.signatures ⟨0, []⟩) true
      "def 'pick 'def 'x 'x 'x").toOption =
        some (.call "def" [.quoted (.variable "pick"), .quoted (.call "def" []),
          .quoted (.variable "x"), .quoted (.variable "x"), .quoted (.variable "x")]) := by
    decide +kernel
  have hkinds : (tokenize true "def 'pick 'def 'x 'x 'x").tokens.map Token.kind =
      definitionKinds "pick" ["def", "x", "x"]
        ((tokenize true "'x").tokens.map Token.kind) := by decide +kernel
  obtain ⟨ref, after, hevaluate, hdefines, hlater⟩ := definition_makes_closure (by decide)
    rfl hkinds (eq_ok_of_toOption hbody) (eq_ok_of_toOption hparse)
  have hlookup : after.lookup ⟨0, []⟩ "pick" = some (.method ref) := by
    simp [Store.lookup, Store.lookupIn, Chain.frames, hdefines.bindings_eq]
  obtain ⟨frame, hframe, hresult, _⟩ := (hlater after (Store.Keeps.refl _ after)).called 1
    ⟨0, []⟩ [.number 1, .number 2, .number 3] hlookup rfl
  have hx : (after.opened ⟨0, []⟩ frame).lookup (Chain.push ⟨0, []⟩ after.frames.size) "x" =
      some (.number 3) := by
    have hlast : frame.find? "x" = some (.number 3) := hframe "x"
    simp [Store.lookup, Store.lookupIn, Chain.frames, Chain.push, Store.bindings,
      Store.opened, hlast]
  refine ⟨ref, after, hevaluate, hresult.trans ?_⟩
  rw [evalAt, hx]
  rfl

end ArityScript
