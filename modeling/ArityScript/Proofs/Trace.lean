import ArityScript.Proofs.Binding
import ArityScript.Proofs.Framing

/-!
# Traces

A call asks for evaluations: of its arguments, of the forms that its native
method evaluates, or of the body of its defined method.  They are recorded in
their order, each with the scope and the store in which it starts.  Recording
changes neither the result of a call nor its store.

The trace of an evaluation lists each evaluation in it twice, when it is entered
and when it is left.  What a call asks for is traced between the two.
-/

namespace ArityScript

/-- An evaluation that is asked for: of a form, in a scope and a store. -/
structure Request where
  chain : Chain
  form : Form
  store : Store

/-- A store, and the evaluations that have been asked for so far. -/
structure Recording where
  store : Store
  requests : List Request

/-- Evaluates a form and notes that it was asked for. -/
def Evaluator.record (evaluate : Evaluator) (chain : Chain) (form : Form)
    (recording : Recording) : Except Error Value × Recording :=
  match evaluate chain form recording.store with
  | (result, store) =>
      (result, ⟨store, recording.requests ++ [⟨chain, form, recording.store⟩]⟩)

def Program.record (evaluate : Evaluator) (call : String) :
    Program → Chain → Recording → Outcome × Recording
  | .finish outcome, _, recording => (outcome, recording)
  | .eval form next, chain, recording =>
      match evaluate.record chain form recording with
      | (result, recording) =>
          (next (result.mapError .error)).record evaluate call chain recording
  | .inScope body next, chain, recording =>
      match recording.store.enter chain with
      | (inner, store) =>
          match body.record evaluate call inner { recording with store } with
          | (outcome, recording) => (next outcome).record evaluate call chain recording
  | .assign name value next, chain, recording =>
      next.record evaluate call chain
        { recording with store := recording.store.bind chain name value }
  | .lookup name next, chain, recording =>
      (next (recording.store.lookup chain name)).record evaluate call chain recording
  | .define name parameters body next, chain, recording =>
      match recording.store.define chain name parameters body with
      | (ref, store) =>
          (next (.method ref)).record evaluate call chain { recording with store }
  | .frameCount next, chain, recording =>
      (next chain.depth).record evaluate call chain recording
  | .callName next, chain, recording =>
      (next call).record evaluate call chain recording

def recordInvoke (evaluate : Evaluator) (call : String) (ref : MethodRef) (method : Method)
    (arguments : Arguments) (chain : Chain) (recording : Recording) :
    Except Error Value × Recording :=
  match method.body with
  | .native program =>
      match (program arguments).record evaluate call chain recording with
      | (outcome, recording) => (outcome.inMethod ref.name, recording)
  | .defined form scope =>
      match recording.store.enter scope with
      | (inner, store) =>
          evaluate.record inner form
            { recording with store := store.bindAll inner arguments }

/-- Evaluates a call and notes all that it asks for. -/
def recordCall (evaluate : Evaluator) (name : String) (forms : List Form) (chain : Chain)
    (recording : Recording) : Except Error Value × Recording :=
  match callee recording.store chain name with
  | .error cause => (.error (.eval (.inMethod name cause)), recording)
  | .ok (ref, method) =>
      match bindArguments name method.signature (evaluate.record chain) forms recording with
      | (.error error, recording) => (.error error, recording)
      | (.ok arguments, recording) =>
          recordInvoke evaluate name ref method arguments chain recording

/-! ## Recording changes nothing -/

section

variable (evaluate : Evaluator)

theorem Program.record_run (call : String) (program : Program) (chain : Chain)
    (recording : Recording) :
    program.run evaluate call chain recording.store =
      ((program.record evaluate call chain recording).1,
        (program.record evaluate call chain recording).2.store) := by
  induction program generalizing chain recording with
  | finish outcome => rfl
  | eval form next ih => exact ih _ chain (evaluate.record chain form recording).2
  | inScope body next ihBody ihNext =>
      have hbody := ihBody (recording.store.enter chain).1
        { recording with store := (recording.store.enter chain).2 }
      simp only [run, record, hbody]
      exact ihNext _ chain _
  | assign name value next ih =>
      exact ih chain { recording with store := recording.store.bind chain name value }
  | lookup name next ih => exact ih _ chain recording
  | define name parameters body next ih =>
      exact ih _ chain
        { recording with store := (recording.store.define chain name parameters body).2 }
  | frameCount next ih => exact ih _ chain recording
  | callName next ih => exact ih _ chain recording

theorem bindArguments_record (method : String) (signature : Signature) (forms : List Form)
    (chain : Chain) (recording : Recording) :
    bindArguments method signature (evaluate chain) forms recording.store =
      ((bindArguments method signature (evaluate.record chain) forms recording).1,
        (bindArguments method signature (evaluate.record chain) forms recording).2.store) := by
  exact Binding.bindArguments_project method signature (evaluate.record chain)
    Recording.store (fun _ _ => rfl) forms recording

theorem recordInvoke_invoke (call : String) (ref : MethodRef) (method : Method)
    (arguments : Arguments) (chain : Chain) (recording : Recording) :
    invoke evaluate call ref method arguments chain recording.store =
      ((recordInvoke evaluate call ref method arguments chain recording).1,
        (recordInvoke evaluate call ref method arguments chain recording).2.store) := by
  obtain ⟨signature, body⟩ := method
  cases body with
  | native program => simp only [invoke, recordInvoke, Program.record_run]
  | defined form scope => rfl

theorem recordCall_evalCall (name : String) (forms : List Form) (chain : Chain)
    (recording : Recording) :
    evalCall evaluate name forms chain recording.store =
      ((recordCall evaluate name forms chain recording).1,
        (recordCall evaluate name forms chain recording).2.store) := by
  unfold evalCall recordCall
  cases callee recording.store chain name with
  | error cause => rfl
  | ok found =>
      simp only [bindArguments_record]
      cases bindArguments name found.2.signature (evaluate.record chain) forms recording with
      | mk result after =>
          cases result with
          | error error => rfl
          | ok arguments =>
              exact recordInvoke_invoke evaluate name found.1 found.2 arguments chain after

end

/-! ## Traces of evaluations -/

inductive Event where
  | enter (evaluation : Evaluation) (store : Store)
  | leave (evaluation : Evaluation) (result : Except Error Value) (store : Store)

/-- The evaluations that an evaluation asks for one level deeper. -/
def Evaluation.requests : Evaluation → Store → List Request
  | ⟨levels + 1, chain, .call name forms⟩, store =>
      (recordCall (evalAt levels) name forms chain ⟨store, []⟩).2.requests
  | _, _ => []

/-- What happens inside of an evaluation, from its entry to its exit. -/
def Evaluation.traced (evaluation : Evaluation) (store : Store) (inside : List Event) :
    List Event :=
  match evalAt evaluation.levels evaluation.chain evaluation.form store with
  | (result, final) => .enter evaluation store :: inside ++ [.leave evaluation result final]

theorem Evaluation.enter_mem_traced {evaluation other : Evaluation} {store before : Store}
    {inside : List Event} :
    .enter other before ∈ evaluation.traced store inside ↔
      (other = evaluation ∧ before = store) ∨ .enter other before ∈ inside := by
  simp [traced]

theorem Evaluation.leave_mem_traced {evaluation other : Evaluation} {store final : Store}
    {result : Except Error Value} {inside : List Event} :
    .leave other result final ∈ evaluation.traced store inside ↔
      .leave other result final ∈ inside ∨
        (other = evaluation ∧ (result, final) =
          evalAt evaluation.levels evaluation.chain evaluation.form store) := by
  simp [traced, Prod.ext_iff]

def traceAt : (levels : Nat) → Chain → Form → Store → List Event
  | 0, chain, form, store => Evaluation.traced ⟨0, chain, form⟩ store []
  | levels + 1, chain, form, store =>
      Evaluation.traced ⟨levels + 1, chain, form⟩ store <|
        (Evaluation.requests ⟨levels + 1, chain, form⟩ store).flatMap fun request =>
          traceAt levels request.chain request.form request.store

/-- What is entered is left, with the result and the store of the evaluation. -/
theorem leave_mem_traceAt {levels : Nat} {chain : Chain} {form : Form} {store : Store}
    {evaluation : Evaluation} {before : Store}
    (hmem : .enter evaluation before ∈ traceAt levels chain form store)
    {result : Except Error Value} {final : Store}
    (heval : evalAt evaluation.levels evaluation.chain evaluation.form before = (result, final)) :
    .leave evaluation result final ∈ traceAt levels chain form store := by
  induction levels generalizing chain form store with
  | zero =>
      simp only [traceAt, Evaluation.enter_mem_traced, List.not_mem_nil, or_false] at hmem
      obtain ⟨rfl, rfl⟩ := hmem
      exact Evaluation.leave_mem_traced.2 (.inr ⟨rfl, heval.symm⟩)
  | succ levels ih =>
      simp only [traceAt, Evaluation.enter_mem_traced, Evaluation.leave_mem_traced,
        List.mem_flatMap] at hmem ⊢
      rcases hmem with ⟨rfl, rfl⟩ | ⟨request, hrequest, hmem⟩
      · exact .inr ⟨rfl, heval.symm⟩
      · exact .inl ⟨request, hrequest, ih hmem⟩

/-- What is left was entered, and is left as the evaluation ends. -/
theorem enter_mem_traceAt {levels : Nat} {chain : Chain} {form : Form} {store : Store}
    {evaluation : Evaluation} {result : Except Error Value} {final : Store}
    (hmem : .leave evaluation result final ∈ traceAt levels chain form store) :
    ∃ before, .enter evaluation before ∈ traceAt levels chain form store ∧
      evalAt evaluation.levels evaluation.chain evaluation.form before = (result, final) := by
  induction levels generalizing chain form store with
  | zero =>
      simp only [traceAt, Evaluation.leave_mem_traced, List.not_mem_nil, false_or] at hmem
      obtain ⟨rfl, heval⟩ := hmem
      exact ⟨store, Evaluation.enter_mem_traced.2 (.inl ⟨rfl, rfl⟩), heval.symm⟩
  | succ levels ih =>
      simp only [traceAt, Evaluation.enter_mem_traced, Evaluation.leave_mem_traced,
        List.mem_flatMap] at hmem ⊢
      rcases hmem with ⟨request, hrequest, hmem⟩ | ⟨rfl, heval⟩
      · obtain ⟨before, hbefore, heval⟩ := ih hmem
        exact ⟨before, .inr ⟨request, hrequest, hbefore⟩, heval⟩
      · exact ⟨store, .inl ⟨rfl, rfl⟩, heval.symm⟩

end ArityScript
