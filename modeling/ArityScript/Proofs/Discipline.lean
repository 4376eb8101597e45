import ArityScript.Proofs.Trace

/-!
# Rules that a run keeps

Rules say what the values, the forms and the errors of a run may be, and which
native methods it may use.  They are sensible if evaluation by itself stays
within them.  Then it is enough that the native methods do: from a store and a
form within the rules, each evaluation that is asked for is one of a form within
the rules in such a store, and so are its result and the store that it leaves.
-/

namespace ArityScript

/-- What the values, the forms, the errors and the native methods of a run may
be. -/
structure Rules where
  value : Value → Prop
  form : Form → Prop
  error : Error → Prop
  native : Native → Prop

variable {rules : Rules}

/-! ## What is within the rules -/

/-- What a result has to be, with a value and with a failure. -/
def Yields {ε α : Type} (bad : ε → Prop) (good : α → Prop) : Except ε α → Prop
  | .ok a => good a
  | .error failure => bad failure

theorem Yields.bind {ε α β : Type} {bad : ε → Prop} {good : α → Prop} {fine : β → Prop}
    {result : Except ε α} {next : α → Except ε β} (hresult : Yields bad good result)
    (hnext : ∀ a, good a → Yields bad fine (next a)) : Yields bad fine (result >>= next) := by
  cases result with
  | ok a => exact hnext a hresult
  | error failure => exact hresult

namespace Rules

/-- The forms among arguments that may be evaluated: of an option the form after
its flag, and every other form that is not a flag. -/
def arguments (rules : Rules) : List Form → Prop
  | [] => True
  | [.flag _] => True
  | .flag _ :: form :: rest => rules.form form ∧ rules.arguments rest
  | form :: rest => rules.form form ∧ rules.arguments rest

def failure (rules : Rules) : Failure → Prop
  | .error error => rules.error error
  | .host _ => True

abbrev result (rules : Rules) : Except Error Value → Prop :=
  Yields rules.error rules.value

abbrev outcome (rules : Rules) : Outcome → Prop :=
  Yields rules.failure rules.value

end Rules

def NameMap.Within (rules : Rules) (map : NameMap Value) : Prop :=
  ∀ entry ∈ map.entries, rules.value entry.2

/-- A program that stays within the rules as long as what it is given does. -/
inductive Program.Within (rules : Rules) : Program → Prop where
  | finish {outcome : Outcome} : rules.outcome outcome → Within rules (.finish outcome)
  | eval {form : Form} {next : Outcome → Program} : rules.form form →
      (∀ outcome, rules.outcome outcome → Within rules (next outcome)) →
      Within rules (.eval form next)
  | inScope {body : Program} {next : Outcome → Program} : Within rules body →
      (∀ outcome, rules.outcome outcome → Within rules (next outcome)) →
      Within rules (.inScope body next)
  | assign {name : String} {value : Value} {next : Program} : rules.value value →
      Within rules next → Within rules (.assign name value next)
  | lookup {name : String} {next : Option Value → Program} :
      (∀ found, (∀ value, found = some value → rules.value value) →
        Within rules (next found)) →
      Within rules (.lookup name next)
  | define {name : String} {parameters : List String} {body : Form}
      {next : Value → Program} : rules.form body →
      (∀ ref, Within rules (next (.method ref))) →
      Within rules (.define name parameters body next)
  | frameCount {next : Nat → Program} : (∀ count, Within rules (next count)) →
      Within rules (.frameCount next)
  | callName {next : String → Program} : (∀ name, Within rules (next name)) →
      Within rules (.callName next)

/-- The programs of a native method stay within the rules for arguments that are
within them. -/
def Native.Within (rules : Rules) (native : Native) : Prop :=
  ∀ arguments : Arguments, arguments.Within rules → (native arguments).Within rules

def Body.Within (rules : Rules) : Body → Prop
  | .native program => rules.native program
  | .defined form _ => rules.form form

structure Method.Within (rules : Rules) (method : Method) : Prop where
  default : ∀ option ∈ method.signature.optional, rules.value option.default
  body : method.body.Within rules

structure Store.Within (rules : Rules) (store : Store) : Prop where
  frame : ∀ (id : FrameId) (frame : Frame), store.frames[id]? = some frame →
    frame.bindings.Within rules
  method : ∀ method ∈ store.methods, method.Within rules

structure Recording.Within (rules : Rules) (recording : Recording) : Prop where
  store : recording.store.Within rules
  form : ∀ request ∈ recording.requests, rules.form request.form
  before : ∀ request ∈ recording.requests, request.store.Within rules

def Evaluator.Within (rules : Rules) (evaluate : Evaluator) : Prop :=
  ∀ (chain : Chain) (form : Form) (store : Store), rules.form form → store.Within rules →
    rules.result (evaluate chain form store).1 ∧ (evaluate chain form store).2.Within rules

/-- Rules that evaluation keeps if its native methods do. -/
structure Rules.Sensible (rules : Rules) : Prop where
  method : ∀ ref, rules.value (.method ref)
  list : ∀ items, (∀ item ∈ items, rules.value item) → rules.value (.list items)
  literal : ∀ value, rules.form (.literal value) → rules.value value
  quoted : ∀ form, rules.form (.quoted form) → rules.value (.form form)
  call : ∀ name forms, rules.form (.call name forms) → rules.arguments forms
  stray : ∀ name, rules.form (.flag name) → rules.error (.eval (.ofCause (.strayFlag name)))
  error : ∀ cause method, cause.kind ≠ .invalidForm → rules.error (.eval ⟨cause, method, none⟩)
  context : ∀ form error, rules.error error → rules.error (error.inCall form)
  native : ∀ native, rules.native native → native.Within rules

/-! ## Maps and stores -/

namespace NameMap

theorem Within.find? {map : NameMap Value} (hmap : map.Within rules) {name : String}
    {value : Value} (hfind : map.find? name = some value) : rules.value value := by
  obtain ⟨before, after, hentries, _⟩ := List.lookup_eq_some_iff.1 hfind
  exact hmap (name, value) (hentries ▸ by simp)

theorem within_empty (rules : Rules) : (empty : NameMap Value).Within rules := by
  intro entry hmem
  contradiction

theorem Within.insert {map : NameMap Value} (hmap : map.Within rules) (name : String)
    {value : Value} (hvalue : rules.value value) : (map.insert name value).Within rules := by
  intro entry hmem
  rcases mem_insertEntry hmem with rfl | hmem
  · exact hvalue
  · exact hmap entry hmem

end NameMap

namespace Store

variable {store : Store}

theorem within_empty (rules : Rules) : Store.empty.Within rules where
  frame id frame hframe := by simp [empty] at hframe
  method method hmem := by simp [empty] at hmem

theorem Within.bindings (hstore : store.Within rules) (frame : FrameId) :
    (store.bindings frame).Within rules := by
  unfold Store.bindings
  cases hcontent : store.frames[frame]? with
  | none => exact NameMap.within_empty rules
  | some content => exact hstore.frame frame content hcontent

theorem Within.lookup (hstore : store.Within rules) {chain : Chain} {name : String}
    {value : Value} (hlookup : store.lookup chain name = some value) : rules.value value := by
  obtain ⟨frame, _, hfind⟩ := List.exists_of_findSome?_eq_some hlookup
  exact (hstore.bindings frame).find? hfind

theorem Within.addFrame (hstore : store.Within rules) (root : FrameId) :
    (store.addFrame root).2.Within rules where
  frame id frame hframe := by
    simp only [Store.addFrame, Array.getElem?_push] at hframe
    split at hframe
    · cases hframe
      exact NameMap.within_empty rules
    · exact hstore.frame id frame hframe
  method := hstore.method

theorem Within.enter (hstore : store.Within rules) (chain : Chain) :
    (store.enter chain).2.Within rules :=
  hstore.addFrame chain.root

theorem Within.bind (hstore : store.Within rules) (chain : Chain) (name : String)
    {value : Value} (hvalue : rules.value value) : (store.bind chain name value).Within rules where
  frame id frame hframe := by
    simp only [Store.bind, Array.getElem?_modify] at hframe
    split at hframe
    · obtain ⟨content, hcontent, rfl⟩ := Option.map_eq_some_iff.1 hframe
      exact (hstore.frame id content hcontent).insert name hvalue
    · exact hstore.frame id frame hframe
  method := hstore.method

theorem Within.bindAll (hstore : store.Within rules) (chain : Chain) {map : NameMap Value}
    (hmap : map.Within rules) : (store.bindAll chain map).Within rules := by
  obtain ⟨entries, hsorted⟩ := map
  simp only [NameMap.Within, Store.bindAll] at hmap ⊢
  clear hsorted
  induction entries generalizing store with
  | nil => exact hstore
  | cons entry rest ih =>
      have hentry := hmap entry (by simp)
      exact ih (hstore.bind chain entry.1 hentry) fun other hmem => hmap other (by simp [hmem])

theorem Within.addMethod (hstore : store.Within rules) (name : String) {method : Method}
    (hmethod : method.Within rules) : (store.addMethod name method).2.Within rules where
  frame := hstore.frame
  method other hmem := by
    rcases Array.mem_push.1 hmem with hmem | rfl
    · exact hstore.method other hmem
    · exact hmethod

theorem Within.define (hstore : store.Within rules) (chain : Chain) (name : String)
    (parameters : List String) {body : Form} (hbody : rules.form body) :
    (store.define chain name parameters body).2.Within rules :=
  hstore.addMethod name ⟨by simp [Signature.ofRequired], hbody⟩

end Store

/-! ## Evaluations that are asked for -/

/-- An end within the rules: with a result as `good` says or with an error, and
with a recording within the rules. -/
inductive Rules.Ends {α : Type} (rules : Rules) (good : α → Prop) :
    Except Error α × Recording → Prop where
  | ok {a : α} {recording : Recording} : good a → recording.Within rules →
      Ends rules good (.ok a, recording)
  | error {error : Error} {recording : Recording} : rules.error error →
      recording.Within rules → Ends rules good (.error error, recording)

theorem Rules.Ends.recording {α : Type} {good : α → Prop}
    {outcome : Except Error α × Recording} (hends : rules.Ends good outcome) :
    outcome.2.Within rules := by
  cases hends with
  | ok _ hrecording => exact hrecording
  | error _ hrecording => exact hrecording

theorem Rules.Ends.result {outcome : Except Error Value × Recording}
    (hends : rules.Ends rules.value outcome) : rules.result outcome.1 := by
  cases hends with
  | ok hvalue _ => exact hvalue
  | error herror _ => exact herror

theorem Rules.Ends.of_inMethod (hsensible : rules.Sensible) (name : String)
    {outcome : Outcome} (houtcome : rules.outcome outcome) {recording : Recording}
    (hrecording : recording.Within rules) :
    rules.Ends rules.value (outcome.inMethod name, recording) := by
  cases outcome with
  | ok value => exact .ok houtcome hrecording
  | error failure =>
      cases failure with
      | error error => exact .error houtcome hrecording
      | host failure =>
          exact .error (hsensible.error _ _ (by simp [EvalCause.kind])) hrecording

theorem Rules.Sensible.result_mapError_inCall (hsensible : rules.Sensible) (form : Form)
    {result : Except Error Value} (hresult : rules.result result) :
    rules.result (result.mapError (Error.inCall form)) := by
  cases result with
  | ok value => exact hresult
  | error error => exact hsensible.context form error hresult

/-- An error of the language is one way for a native method to fail. -/
theorem Yields.mapError {α : Type} {good : α → Prop} {result : Except Error α}
    (hresult : Yields rules.error good result) :
    Yields rules.failure good (result.mapError .error) := by
  cases result with
  | ok value => exact hresult
  | error error => exact hresult

section

variable {evaluate : Evaluator} (hevaluate : evaluate.Within rules)
  {recording : Recording} (hrecording : recording.Within rules)

include hevaluate hrecording

theorem Evaluator.Within.record (chain : Chain) {form : Form} (hform : rules.form form) :
    rules.Ends rules.value (evaluate.record chain form recording) := by
  obtain ⟨hresult, hafter⟩ := hevaluate chain form recording.store hform hrecording.store
  unfold Evaluator.record
  cases heval : evaluate chain form recording.store with
  | mk result after =>
      rw [heval] at hresult hafter
      have hnoted : Recording.Within rules
          ⟨after, recording.requests ++ [⟨chain, form, recording.store⟩]⟩ := by
        refine ⟨hafter, ?_, ?_⟩
        · simpa [or_imp, forall_and] using ⟨hrecording.form, hform⟩
        · simpa [or_imp, forall_and] using ⟨hrecording.before, hrecording.store⟩
      cases result with
      | ok value => exact .ok hresult hnoted
      | error error => exact .error hresult hnoted

theorem Program.Within.record {program : Program} (hprogram : program.Within rules)
    (call : String) (chain : Chain) :
    rules.outcome (program.record evaluate call chain recording).1 ∧
      (program.record evaluate call chain recording).2.Within rules := by
  induction hprogram generalizing chain recording with
  | finish houtcome => exact ⟨houtcome, hrecording⟩
  | @eval form next hform _ ih =>
      have hends := hevaluate.record hrecording chain hform
      exact ih _ hends.result.mapError hends.recording chain
  | @inScope body next _ _ ihBody ihNext =>
      have hopened : Recording.Within rules
          { recording with store := (recording.store.enter chain).2 } :=
        ⟨hrecording.store.enter chain, hrecording.form, hrecording.before⟩
      obtain ⟨houtcome, hafter⟩ := ihBody hopened (recording.store.enter chain).1
      exact ihNext _ houtcome hafter chain
  | @assign name value next hvalue _ ih =>
      have hbound : Recording.Within rules
          { recording with store := recording.store.bind chain name value } :=
        ⟨hrecording.store.bind chain name hvalue, hrecording.form, hrecording.before⟩
      exact ih hbound chain
  | lookup _ ih => exact ih _ (fun _ => hrecording.store.lookup) hrecording chain
  | @define name parameters body next hbody _ ih =>
      have hdefined : Recording.Within rules
          { recording with store := (recording.store.define chain name parameters body).2 } :=
        ⟨hrecording.store.define chain name parameters hbody, hrecording.form,
          hrecording.before⟩
      exact ih _ hdefined chain
  | frameCount _ ih => exact ih _ hrecording chain
  | callName _ ih => exact ih _ hrecording chain

/-! ## Arguments -/

structure Binding.Partial.Within (rules : Rules) (made : Partial) : Prop where
  bound : made.bound.Within rules
  surplus : ∀ value ∈ made.surplus, rules.value value

namespace Binding

omit hevaluate hrecording in
theorem Partial.Within.place {made : Partial} (hmade : made.Within rules)
    {signature : Signature} {place : Value → Partial} (hplace : made.place? signature = some place)
    {value : Value} (hvalue : rules.value value) : (place value).Within rules := by
  unfold Partial.place? at hplace
  split at hplace
  · next parameter unfilled _ =>
      cases hplace
      exact ⟨hmade.bound.insert parameter hvalue, hmade.surplus⟩
  · split at hplace
    · cases hplace
      refine ⟨hmade.bound, fun other hmem => ?_⟩
      rcases List.mem_cons.1 hmem with rfl | hmem
      · exact hvalue
      · exact hmade.surplus other hmem
    · contradiction

omit hevaluate hrecording in
theorem within_of_step_eq_take {method : String} {signature : Signature} {forms : List Form}
    {made : Partial} {form : Form} {place : Value → Partial} {rest : List Form}
    (hstep : step method signature forms made = .take form place rest)
    (hforms : rules.arguments forms) (hmade : made.Within rules) :
    rules.form form ∧ rules.arguments rest ∧
      ∀ value, rules.value value → (place value).Within rules := by
  rcases step_eq_take hstep with ⟨name, rfl, rfl⟩ | ⟨rfl, hflag, hplace⟩
  · obtain ⟨hform, hrest⟩ := hforms
    exact ⟨hform, hrest, fun value hvalue =>
      ⟨hmade.bound.insert name hvalue, hmade.surplus⟩⟩
  · have hargument : rules.form form ∧ rules.arguments rest := by
      cases form with
      | flag name => contradiction
      | _ => exact hforms
    exact ⟨hargument.1, hargument.2, fun value hvalue => hmade.place hplace hvalue⟩

theorem within_collect (hsensible : rules.Sensible) (method : String) (signature : Signature)
    (chain : Chain) {forms : List Form} (hforms : rules.arguments forms) {made : Partial}
    (hmade : made.Within rules) :
    rules.Ends (Partial.Within rules)
      (collect method signature (evaluate.record chain) forms made recording) := by
  induction forms, made using steps_induction method signature generalizing recording with
  | next forms made ih =>
      rw [collect_eq_step]
      cases hstep : step method signature forms made with
      | done => exact .ok hmade hrecording
      | refuse cause =>
          have hkind := kind_of_step_eq_refuse hstep
          exact .error (hsensible.error cause (some method) hkind) hrecording
      | take form place rest =>
          obtain ⟨hform, hrest, hplaced⟩ := within_of_step_eq_take hstep hforms hmade
          have hends := hevaluate.record hrecording chain hform
          simp only
          generalize evaluate.record chain form recording = outcome at hends ⊢
          cases hends with
          | error herror hafter => exact .error herror hafter
          | ok hvalue hafter =>
              exact ih form place rest hstep _ hafter hrest (hplaced _ hvalue)

omit hevaluate hrecording in
theorem within_fillDefaults {options : List OptionalParameter}
    (hoptions : ∀ option ∈ options, rules.value option.default) {bound : Arguments}
    (hbound : bound.Within rules) : (options.foldl fillDefault bound).Within rules := by
  induction options generalizing bound with
  | nil => exact hbound
  | cons option rest ih =>
      have hfilled : (fillDefault bound option).Within rules := by
        unfold fillDefault
        split
        · exact hbound
        · exact hbound.insert option.name (hoptions option (by simp))
      exact ih (fun other hmem => hoptions other (by simp [hmem])) hfilled

end Binding

theorem within_bindArguments (hsensible : rules.Sensible) (name : String) {method : Method}
    (hmethod : method.Within rules) (chain : Chain) {forms : List Form}
    (hforms : rules.arguments forms) :
    rules.Ends (NameMap.Within rules)
      (bindArguments name method.signature (evaluate.record chain) forms recording) := by
  have hempty : Binding.Partial.Within rules ⟨method.signature.required, .empty, []⟩ :=
    ⟨NameMap.within_empty rules, by simp⟩
  have hcollect := Binding.within_collect hevaluate hrecording hsensible name method.signature
    chain hforms hempty
  unfold bindArguments
  generalize Binding.collect name method.signature (evaluate.record chain) forms
    ⟨method.signature.required, .empty, []⟩ recording = outcome at hcollect ⊢
  cases hcollect with
  | error herror hafter => exact .error herror hafter
  | @ok made after hmade hafter =>
      have hfilled := Binding.within_fillDefaults hmethod.default hmade.bound
      have hsurplus : rules.value (.list made.surplus.reverse) :=
        hsensible.list _ fun value hmem => hmade.surplus value (by simpa using hmem)
      simp only [Binding.complete]
      split
      · exact .error (hsensible.error _ _ (by simp [EvalCause.kind])) hafter
      · split
        · exact .ok hfilled hafter
        · exact .ok (hfilled.insert _ hsurplus) hafter

/-! ## Calls -/

theorem within_recordInvoke (hsensible : rules.Sensible) (call : String) (ref : MethodRef)
    {method : Method} (hmethod : method.Within rules) {arguments : Arguments}
    (harguments : arguments.Within rules) (chain : Chain) :
    rules.Ends rules.value
      (recordInvoke evaluate call ref method arguments chain recording) := by
  obtain ⟨signature, body⟩ := method
  have hbody := hmethod.body
  cases body with
  | native program =>
      have hprogram := hsensible.native program hbody arguments harguments
      obtain ⟨houtcome, hafter⟩ := hprogram.record hevaluate hrecording call chain
      exact .of_inMethod hsensible ref.name houtcome hafter
  | defined form scope =>
      have hentered := hrecording.store.enter scope
      have hbound : Recording.Within rules { recording with
          store := (recording.store.enter scope).2.bindAll (recording.store.enter scope).1
            arguments } :=
        ⟨hentered.bindAll _ harguments, hrecording.form, hrecording.before⟩
      exact hevaluate.record hbound (recording.store.enter scope).1 hbody

omit hevaluate hrecording in
theorem kind_of_callee {store : Store} {chain : Chain} {name : String} {cause : EvalCause}
    (hcallee : callee store chain name = .error cause) : cause.kind ≠ .invalidForm := by
  unfold callee at hcallee
  split at hcallee
  · cases hcallee
    simp [EvalCause.kind]
  · split at hcallee
    · cases hcallee
    · cases hcallee
      simp [EvalCause.kind]
  · cases hcallee
    simp [EvalCause.kind]

omit hevaluate hrecording in
theorem mem_of_callee {store : Store} {chain : Chain} {name : String} {ref : MethodRef}
    {method : Method} (hcallee : callee store chain name = .ok (ref, method)) :
    method ∈ store.methods := by
  unfold callee at hcallee
  split at hcallee
  · cases hcallee
  · split at hcallee
    · next hmethod =>
        cases hcallee
        exact Array.mem_of_getElem? hmethod
    · cases hcallee
  · cases hcallee

theorem within_recordCall (hsensible : rules.Sensible) (name : String) {forms : List Form}
    (hforms : rules.arguments forms) (chain : Chain) :
    rules.Ends rules.value (recordCall evaluate name forms chain recording) := by
  unfold recordCall
  split
  · next cause hcallee =>
      have hkind : cause.kind ≠ .invalidForm := kind_of_callee hcallee
      exact .error (hsensible.error cause (some name) hkind) hrecording
  · next ref method hcallee =>
      have hmethod := hrecording.store.method method (mem_of_callee hcallee)
      have hbound := within_bindArguments hevaluate hrecording hsensible name hmethod chain hforms
      generalize bindArguments name method.signature (evaluate.record chain) forms recording =
        outcome at hbound ⊢
      cases hbound with
      | error herror hafter => exact .error herror hafter
      | ok harguments hafter =>
          exact within_recordInvoke hevaluate hafter hsensible name ref hmethod harguments chain

end

theorem within_evalAt (hsensible : rules.Sensible) (levels : Nat) :
    (evalAt levels).Within rules := by
  induction levels with
  | zero =>
      intro chain form store _ hstore
      exact ⟨hsensible.error _ _ (by simp [EvalCause.kind]), hstore⟩
  | succ levels ih =>
      intro chain form store hform hstore
      cases form with
      | literal value => exact ⟨hsensible.literal value hform, hstore⟩
      | «variable» name =>
          rw [evalAt]
          split
          · next value hlookup => exact ⟨hstore.lookup hlookup, hstore⟩
          · exact ⟨hsensible.error _ _ (by simp [EvalCause.kind]), hstore⟩
      | quoted inner => exact ⟨hsensible.quoted inner hform, hstore⟩
      | call name forms =>
          have hforms := hsensible.call name forms hform
          have hstart : Recording.Within rules ⟨store, []⟩ := ⟨hstore, by simp, by simp⟩
          have hcall := within_recordCall ih hstart hsensible name hforms chain
          have heval := recordCall_evalCall (evalAt levels) name forms chain ⟨store, []⟩
          simp only [evalAt, heval]
          exact ⟨hsensible.result_mapError_inCall _ hcall.result, hcall.recording.store⟩
      | flag name => exact ⟨hsensible.stray name hform, hstore⟩

/-! ## Traces -/

theorem Evaluation.within_requests (hsensible : rules.Sensible) (evaluation : Evaluation)
    {store : Store} (hform : rules.form evaluation.form) (hstore : store.Within rules) :
    ∀ request ∈ evaluation.requests store,
      rules.form request.form ∧ request.store.Within rules := by
  intro request hmem
  obtain ⟨levels, chain, form⟩ := evaluation
  cases levels with
  | zero => contradiction
  | succ levels =>
      cases form with
      | call name forms =>
          have hforms := hsensible.call name forms hform
          have hstart : Recording.Within rules ⟨store, []⟩ := ⟨hstore, by simp, by simp⟩
          have hcall := within_recordCall (within_evalAt hsensible levels) hstart hsensible
            name hforms chain
          exact ⟨hcall.recording.form request hmem, hcall.recording.before request hmem⟩
      | _ => contradiction

/-- Whatever is entered in the course of an evaluation is within the rules. -/
theorem within_of_enter_mem_traceAt (hsensible : rules.Sensible) {levels : Nat} {chain : Chain}
    {form : Form} {store : Store} (hform : rules.form form) (hstore : store.Within rules)
    {evaluation : Evaluation} {before : Store}
    (hmem : .enter evaluation before ∈ traceAt levels chain form store) :
    rules.form evaluation.form ∧ before.Within rules := by
  induction levels generalizing chain form store with
  | zero =>
      simp only [traceAt, Evaluation.enter_mem_traced, List.not_mem_nil, or_false] at hmem
      obtain ⟨rfl, rfl⟩ := hmem
      exact ⟨hform, hstore⟩
  | succ levels ih =>
      simp only [traceAt, Evaluation.enter_mem_traced, List.mem_flatMap] at hmem
      rcases hmem with ⟨rfl, rfl⟩ | ⟨request, hrequest, hmem⟩
      · exact ⟨hform, hstore⟩
      · have hrequests := Evaluation.within_requests hsensible ⟨levels + 1, chain, form⟩ hform
          hstore
        obtain ⟨hform, hstore⟩ := hrequests request hrequest
        exact ih hform hstore hmem

end ArityScript
