import ArityScript.Proofs.Discipline.Builtin

/-!
# Forwarding of failures

A native method forwards failures if it ends with the error of an evaluation as
it is, as soon as the evaluation has failed.  The standard methods do, and so do
the binding of arguments and defined methods.  A call therefore either asks only
for evaluations that succeed, or it ends with the failure of the last one.
-/

namespace ArityScript

/-! ## Programs that forward failures -/

/-- A program that evaluates nothing. -/
inductive Program.Quiet : Program → Prop where
  | finish (outcome : Outcome) : Quiet (.finish outcome)
  | inScope {body : Program} {next : Outcome → Program} : Quiet body →
      (∀ outcome, Quiet (next outcome)) → Quiet (.inScope body next)
  | assign {name : String} {value : Value} {next : Program} : Quiet next →
      Quiet (.assign name value next)
  | lookup {name : String} {next : Option Value → Program} :
      (∀ found, Quiet (next found)) → Quiet (.lookup name next)
  | define {name : String} {parameters : List String} {body : Form}
      {next : Value → Program} : (∀ value, Quiet (next value)) →
      Quiet (.define name parameters body next)
  | frameCount {next : Nat → Program} : (∀ count, Quiet (next count)) →
      Quiet (.frameCount next)
  | callName {next : String → Program} : (∀ name, Quiet (next name)) →
      Quiet (.callName next)

/-- A program that ends with the error of an evaluation, as it is and at once,
also from inside a scope.  What it does about failures of its own is free. -/
inductive Program.Forwards : Program → Prop where
  | finish (outcome : Outcome) : Forwards (.finish outcome)
  | eval {form : Form} {next : Outcome → Program} :
      (∀ error, next (.error (.error error)) = .failWith error) →
      (∀ value, Forwards (next (.ok value))) → Forwards (.eval form next)
  | inScope {body : Program} {next : Outcome → Program} : Forwards body →
      (body.Quiet ∨ ∀ error, next (.error (.error error)) = .failWith error) →
      (∀ outcome, Forwards (next outcome)) → Forwards (.inScope body next)
  | assign {name : String} {value : Value} {next : Program} : Forwards next →
      Forwards (.assign name value next)
  | lookup {name : String} {next : Option Value → Program} :
      (∀ found, Forwards (next found)) → Forwards (.lookup name next)
  | define {name : String} {parameters : List String} {body : Form}
      {next : Value → Program} : (∀ value, Forwards (next value)) →
      Forwards (.define name parameters body next)
  | frameCount {next : Nat → Program} : (∀ count, Forwards (next count)) →
      Forwards (.frameCount next)
  | callName {next : String → Program} : (∀ name, Forwards (next name)) →
      Forwards (.callName next)

def Native.Forwards (native : Native) : Prop :=
  ∀ arguments, (native arguments).Forwards

namespace Program.Forwards

theorem attempt {α : Type} {result : Except Error α} {next : α → Program}
    (hnext : ∀ a, (next a).Forwards) : (Program.attempt result next).Forwards := by
  cases result with
  | ok a => exact hnext a
  | error error => exact .finish _

theorem evalOnly (form : Form) : (Program.evalOnly form).Forwards :=
  .eval (fun _ => rfl) fun _ => .finish _

theorem evalWith (name : String) (value : Value) (form : Form) {next : Value → Program}
    (hnext : ∀ value, (next value).Forwards) :
    (Program.evalWith name value form (Program.andThen next)).Forwards := by
  refine .inScope (.assign (evalOnly form)) (.inr fun _ => rfl) fun outcome => ?_
  cases outcome with
  | ok value => exact hnext value
  | error failure => exact .finish _

end Program.Forwards

namespace Builtin

theorem forwards_filterElements (form : Form) (elements : Elements) (kept : List Value) :
    (filterElements form elements kept).Forwards := by
  induction elements using Elements.uncons_induction generalizing kept with
  | nil elements huncons =>
      rw [filterElements_of_none huncons]
      exact .finish _
  | cons elements rest item huncons ih =>
      rw [filterElements_of_some huncons]
      apply Program.Forwards.evalWith
      intro value
      split
      · exact ih _
      · exact ih _
      · exact .finish _

theorem forwards_mapElements (form : Form) (elements : Elements) (mapped : List Value) :
    (mapElements form elements mapped).Forwards := by
  induction elements using Elements.uncons_induction generalizing mapped with
  | nil elements huncons =>
      rw [mapElements_of_none huncons]
      exact .finish _
  | cons elements rest item huncons ih =>
      rw [mapElements_of_some huncons]
      apply Program.Forwards.evalWith
      intro value
      exact ih _

open Program in
theorem forwards_choice : choice.Forwards := by
  intro arguments
  apply Forwards.attempt
  intro condition
  apply Forwards.attempt
  intro branch
  split
  · exact .evalOnly _
  · exact .finish _

open Program in
theorem forwards_definition : definition.Forwards := by
  intro arguments
  apply Forwards.attempt
  intro parts
  split
  · apply Forwards.attempt
    intro name
    apply Forwards.attempt
    intro parameters
    exact .define fun _ => .assign (.finish _)
  · exact .finish _

theorem forwards_of_mem : ∀ entry ∈ methods, entry.2.2.Forwards := by
  have hdata : ∀ compute, (Native.ofFunction compute).Forwards := fun _ _ => .finish _
  simp only [methods, List.forall_mem_cons, List.not_mem_nil, false_implies, implies_true,
    and_true]
  refine ⟨hdata _, hdata _, hdata _, hdata _, hdata _, hdata _, hdata _, hdata _, hdata _,
    hdata _, hdata _, hdata _, hdata _, hdata _, hdata _, hdata _, hdata _, hdata _,
    forwards_choice, ?makeList, hdata _, hdata _, ?filter, ?map, hdata _, hdata _,
    forwards_definition, ?assignment, ?scope⟩
  case makeList => exact fun _ => .attempt fun _ => .finish _
  case filter =>
    exact fun _ => .attempt fun _ => .attempt fun _ => .attempt fun _ =>
      forwards_filterElements _ _ _
  case map =>
    exact fun _ => .attempt fun _ => .attempt fun _ => .attempt fun _ =>
      forwards_mapElements _ _ _
  case assignment =>
    exact fun _ => .attempt fun _ => .attempt fun _ => .attempt fun _ => .assign (.finish _)
  case scope =>
    exact fun _ => .attempt fun form =>
      .inScope (.evalOnly form) (.inr fun _ => rfl) fun _ => .finish _

end Builtin

/-! ## Runs that forward failures -/

def Request.Succeeds (evaluate : Evaluator) (request : Request) : Prop :=
  ∃ value final, evaluate request.chain request.form request.store = (.ok value, final)

def Request.Fails (evaluate : Evaluator) (request : Request) (error : Error)
    (final : Store) : Prop :=
  evaluate request.chain request.form request.store = (.error error, final)

/-- No evaluation that has been asked for has failed. -/
def Recording.Clean (evaluate : Evaluator) (recording : Recording) : Prop :=
  ∀ request ∈ recording.requests, request.Succeeds evaluate

/-- A run ends with a value or a failure of its own if no evaluation has failed.
If one has, it was the last one, and the run ends with its error in the store
that it has left. -/
inductive Forwarded {ε α : Type} (evaluate : Evaluator) (own : ε → Prop) (wrap : Error → ε) :
    Except ε α × Recording → Prop where
  | ok {a : α} {recording : Recording} : recording.Clean evaluate →
      Forwarded evaluate own wrap (.ok a, recording)
  | own {failure : ε} {recording : Recording} : recording.Clean evaluate → own failure →
      Forwarded evaluate own wrap (.error failure, recording)
  | forwarded {earlier : List Request} {request : Request} {error : Error} {final : Store} :
      (∀ other ∈ earlier, other.Succeeds evaluate) → request.Fails evaluate error final →
      Forwarded evaluate own wrap (.error (wrap error), ⟨final, earlier ++ [request]⟩)

theorem Forwarded.imp {ε α : Type} {evaluate : Evaluator} {own raised : ε → Prop}
    {wrap : Error → ε} {outcome : Except ε α × Recording}
    (hforwarded : Forwarded evaluate own wrap outcome)
    (himp : ∀ failure, own failure → raised failure) :
    Forwarded evaluate raised wrap outcome := by
  cases hforwarded with
  | ok hclean => exact .ok hclean
  | own hclean hown => exact .own hclean (himp _ hown)
  | forwarded hearlier hfails => exact .forwarded hearlier hfails

theorem Forwarded.yields_of_clean {ε α : Type} {evaluate : Evaluator} {own : ε → Prop}
    {wrap : Error → ε} {outcome : Except ε α × Recording}
    (hforwarded : Forwarded evaluate own wrap outcome) (hclean : outcome.2.Clean evaluate) :
    Yields own (fun _ => True) outcome.1 := by
  cases hforwarded with
  | ok => exact trivial
  | own _ hown => exact hown
  | @forwarded _ request error final _ hfails =>
      obtain ⟨value, after, hsucceeds⟩ := hclean request (by simp)
      rw [Request.Fails, hsucceeds] at hfails
      cases hfails

theorem Program.Quiet.record_requests {program : Program} (hquiet : program.Quiet)
    (evaluate : Evaluator) (call : String) (chain : Chain) (recording : Recording) :
    (program.record evaluate call chain recording).2.requests = recording.requests := by
  induction hquiet generalizing chain recording with
  | finish outcome => rfl
  | inScope _ _ ihBody ihNext => rw [record, ihNext, ihBody]
  | assign _ ih => rw [record, ih]
  | lookup _ ih => rw [record, ih]
  | define _ ih => rw [record, ih]
  | frameCount _ ih => rw [record, ih]
  | callName _ ih => rw [record, ih]

/-- Rules that say only what errors a native method may raise by itself. -/
def Rules.raising (own : Error → Prop) : Rules :=
  ⟨fun _ => True, fun _ => True, own, fun _ => True⟩

/-- All native methods of a store are as `allowed` says. -/
def Store.Calls (store : Store) (allowed : Native → Prop) : Prop :=
  ∀ method ∈ store.methods, ∀ native, method.body = .native native → allowed native

/-- All native methods forward failures, and the errors that they raise are as
`own` says. -/
abbrev Store.Forwards (store : Store) (own : Error → Prop) : Prop :=
  store.Calls fun native => native.Forwards ∧ native.Within (.raising own)

section

variable {evaluate : Evaluator} {own : Error → Prop} {recording : Recording}
  (hclean : recording.Clean evaluate)

include hclean

theorem Evaluator.forwarded_record (chain : Chain) (form : Form) :
    Forwarded evaluate (fun _ => False) id (evaluate.record chain form recording) := by
  unfold Evaluator.record
  cases heval : evaluate chain form recording.store with
  | mk result after =>
      cases result with
      | error error => exact .forwarded hclean heval
      | ok value =>
          refine .ok fun request hmem => ?_
          rcases List.mem_append.1 hmem with hmem | hmem
          · exact hclean request hmem
          · rw [List.mem_singleton.1 hmem]
            exact ⟨value, after, heval⟩

omit hclean in
theorem Forwarded.mapError {outcome : Except Error Value × Recording}
    (hforwarded : Forwarded evaluate (fun _ => False) id outcome) :
    Forwarded evaluate (fun _ => False) Failure.error
      (outcome.1.mapError .error, outcome.2) := by
  cases hforwarded with
  | ok hafter => exact .ok hafter
  | own _ hfalse => exact hfalse.elim
  | forwarded hearlier hfails => exact .forwarded hearlier hfails

omit hclean in
/-- A program that goes on with an outcome forwards its failure, if it fails with any
error of the language that it is given. -/
theorem Forwarded.next {raised : Failure → Prop} {outcome : Outcome × Recording}
    {next : Outcome → Program} {call : String} {chain : Chain}
    (hforwarded : Forwarded evaluate raised Failure.error outcome)
    (hforward : ∀ error, next (.error (.error error)) = .failWith error)
    (hvalue : ∀ value (after : Recording), after.Clean evaluate →
      Forwarded evaluate (Rules.raising own).failure Failure.error
        ((next (.ok value)).record evaluate call chain after))
    (hown : ∀ failure (after : Recording), after.Clean evaluate → raised failure →
      Forwarded evaluate (Rules.raising own).failure Failure.error
        ((next (.error failure)).record evaluate call chain after)) :
    Forwarded evaluate (Rules.raising own).failure Failure.error
      ((next outcome.1).record evaluate call chain outcome.2) := by
  cases hforwarded with
  | ok hafter => exact hvalue _ _ hafter
  | own hafter hraised => exact hown _ _ hafter hraised
  | @forwarded _ _ error _ hearlier hfails =>
      rw [hforward]
      exact .forwarded hearlier hfails

theorem Program.Forwards.record {program : Program} (hforwards : program.Forwards)
    (hraises : program.Within (.raising own)) (call : String) (chain : Chain) :
    Forwarded evaluate (Rules.raising own).failure Failure.error
      (program.record evaluate call chain recording) := by
  induction hforwards generalizing chain recording with
  | finish outcome =>
      cases hraises with
      | finish houtcome =>
          cases outcome with
          | ok value => exact .ok hclean
          | error failure => exact .own hclean houtcome
  | @eval form next hforward _ ih =>
      cases hraises with
      | eval _ hnext =>
          have hform := (Evaluator.forwarded_record hclean chain form).mapError
          exact hform.next hforward
            (fun value after hafter => ih value hafter (hnext (.ok value) trivial) chain)
            (fun _ _ _ hfalse => hfalse.elim)
  | @inScope body next _ hforward _ ihBody ihNext =>
      cases hraises with
      | inScope hbody hnext =>
          have hopened : Recording.Clean evaluate
              { recording with store := (recording.store.enter chain).2 } := hclean
          have hrun := ihBody hopened hbody (recording.store.enter chain).1
          rcases hforward with hquiet | hforward
          · -- A body that asks for nothing may fail; what follows is free to go on.
            have hrequests := hquiet.record_requests evaluate call
              (recording.store.enter chain).1
              { recording with store := (recording.store.enter chain).2 }
            have hafter : (body.record evaluate call (recording.store.enter chain).1
                { recording with store := (recording.store.enter chain).2 }).2.Clean
                  evaluate := by
              unfold Recording.Clean
              rw [hrequests]
              exact hclean
            exact ihNext _ hafter (hnext _ (hrun.yields_of_clean hafter)) chain
          · exact hrun.next hforward
              (fun value after hafter =>
                ihNext (.ok value) hafter (hnext (.ok value) trivial) chain)
              (fun failure after hafter hown =>
                ihNext (.error failure) hafter (hnext (.error failure) hown) chain)
  | @assign name value next _ ih =>
      cases hraises with
      | assign _ hnext =>
          have hbound : Recording.Clean evaluate
              { recording with store := recording.store.bind chain name value } := hclean
          exact ih hbound hnext chain
  | lookup _ ih =>
      cases hraises with
      | lookup hnext => exact ih _ hclean (hnext _ fun _ _ => trivial) chain
  | @define name parameters body next _ ih =>
      cases hraises with
      | define _ hnext =>
          have hdefined : Recording.Clean evaluate { recording with
              store := (recording.store.define chain name parameters body).2 } := hclean
          exact ih _ hdefined (hnext _) chain
  | frameCount _ ih =>
      cases hraises with
      | frameCount hnext => exact ih _ hclean (hnext _) chain
  | callName _ ih =>
      cases hraises with
      | callName hnext => exact ih _ hclean (hnext _) chain

/-! ## Calls that forward failures -/

variable (howns : ∀ cause method, own (.eval ⟨cause, method, none⟩))

include howns

theorem Binding.forwarded_collect (method : String) (signature : Signature) (chain : Chain)
    (forms : List Form) (made : Partial) :
    Forwarded evaluate own id
      (collect method signature (evaluate.record chain) forms made recording) := by
  induction forms, made using steps_induction method signature generalizing recording with
  | next forms made ih =>
      rw [collect_eq_step]
      cases hstep : step method signature forms made with
      | done => exact .ok hclean
      | refuse cause => exact .own hclean (howns _ _)
      | take form place rest =>
          have hform := Evaluator.forwarded_record hclean chain form
          simp only
          generalize evaluate.record chain form recording = outcome at hform ⊢
          cases hform with
          | ok hafter => exact ih form place rest hstep _ hafter
          | own _ hfalse => exact hfalse.elim
          | forwarded hearlier hfails => exact .forwarded hearlier hfails

theorem forwarded_bindArguments (method : String) (signature : Signature) (chain : Chain)
    (forms : List Form) :
    Forwarded evaluate own id
      (bindArguments method signature (evaluate.record chain) forms recording) := by
  have hcollect := Binding.forwarded_collect hclean howns method signature chain forms
    ⟨signature.required, .empty, []⟩
  unfold bindArguments
  generalize Binding.collect method signature (evaluate.record chain) forms
    ⟨signature.required, .empty, []⟩ recording = outcome at hcollect ⊢
  cases hcollect with
  | @ok made after hafter =>
      simp only [Binding.complete]
      split
      · exact .own hafter (howns _ _)
      · split <;> exact .ok hafter
  | own hafter hown => exact .own hafter hown
  | forwarded hearlier hfails => exact .forwarded hearlier hfails

omit hclean in
theorem Forwarded.inMethod (name : String) {outcome : Outcome × Recording}
    (hforwarded : Forwarded evaluate (Rules.raising own).failure Failure.error outcome) :
    Forwarded evaluate own id (outcome.1.inMethod name, outcome.2) := by
  cases hforwarded with
  | ok hafter => exact .ok hafter
  | @own failure _ hafter hown =>
      cases failure with
      | error error => exact .own hafter hown
      | host failure => exact .own hafter (howns _ _)
  | forwarded hearlier hfails => exact .forwarded hearlier hfails

theorem forwarded_recordInvoke (call : String) (ref : MethodRef) {method : Method}
    (hnative : ∀ native, method.body = .native native →
      native.Forwards ∧ native.Within (.raising own))
    (arguments : Arguments) (chain : Chain) :
    Forwarded evaluate own id
      (recordInvoke evaluate call ref method arguments chain recording) := by
  obtain ⟨signature, body⟩ := method
  cases body with
  | native native =>
      obtain ⟨hforwards, hraises⟩ := hnative native rfl
      have hraises := hraises arguments fun _ _ => trivial
      have hrun := (hforwards arguments).record hclean hraises call chain
      exact hrun.inMethod howns ref.name
  | defined form scope =>
      have hbound : Recording.Clean evaluate { recording with
          store := (recording.store.enter scope).2.bindAll (recording.store.enter scope).1
            arguments } := hclean
      have hbody := Evaluator.forwarded_record hbound (recording.store.enter scope).1 form
      exact hbody.imp fun _ hfalse => hfalse.elim

/-- A call asks only for evaluations that succeed, or fails as the last one. -/
theorem forwarded_recordCall (name : String) (forms : List Form) (chain : Chain)
    (hstore : recording.store.Forwards own) :
    Forwarded evaluate own id (recordCall evaluate name forms chain recording) := by
  unfold recordCall
  split
  · exact .own hclean (howns _ _)
  · next ref method hcallee =>
      have hmethod : method ∈ recording.store.methods := mem_of_callee hcallee
      have hbind := forwarded_bindArguments hclean howns name method.signature chain forms
      generalize bindArguments name method.signature (evaluate.record chain) forms recording =
        outcome at hbind ⊢
      cases hbind with
      | ok hafter =>
          exact forwarded_recordInvoke hafter howns name ref (hstore method hmethod) _ chain
      | own hafter hown => exact .own hafter hown
      | forwarded hearlier hfails => exact .forwarded hearlier hfails

end

end ArityScript
