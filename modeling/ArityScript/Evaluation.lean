import ArityScript.Binding
import ArityScript.Form.Reader
import ArityScript.Store

/-!
# Evaluation

A literal is its value, a variable the value it is bound to, a quoted form is
itself as data, and a call binds its arguments and runs its method.  A native
method runs its program in the scope of the call.  A defined method evaluates
its form in a fresh frame over the chain it was defined in, whatever the scope
of the call.

Every argument, every form evaluated by a program and every body of a defined
method is one level deeper than the call.  The levels are limited; `evalAt`
evaluates with a number of levels left and is the only recursion over them.
-/

namespace ArityScript

/-- The most levels of nested evaluation. -/
def maxEvalDepth : Nat := 256

/-- A way to evaluate forms: in a scope and a store, with a new store. -/
abbrev Evaluator := Chain → Form → Store → Except Error Value × Store

namespace Program

/-- Runs a program in a scope.  `evaluate` evaluates the forms it asks for, and
`call` is the name that is being called. -/
def run (evaluate : Evaluator) (call : String) :
    Program → Chain → Store → Outcome × Store
  | .finish outcome, _, store => (outcome, store)
  | .eval form next, chain, store =>
      match evaluate chain form store with
      | (result, store) => (next (result.mapError .error)).run evaluate call chain store
  | .inScope body next, chain, store =>
      match store.enter chain with
      | (inner, store) =>
          match body.run evaluate call inner store with
          | (outcome, store) => (next outcome).run evaluate call chain store
  | .assign name value next, chain, store =>
      next.run evaluate call chain (store.bind chain name value)
  | .lookup name next, chain, store =>
      (next (store.lookup chain name)).run evaluate call chain store
  | .define name parameters body next, chain, store =>
      match store.define chain name parameters body with
      | (ref, store) => (next (.method ref)).run evaluate call chain store
  | .frameCount next, chain, store =>
      (next chain.depth).run evaluate call chain store
  | .callName next, chain, store => (next call).run evaluate call chain store

end Program

/-- The result of a native call: a failure of the method's own is wrapped, with
the method's name. -/
def Outcome.inMethod (name : String) : Outcome → Except Error Value
  | .ok value => .ok value
  | .error (.error error) => .error error
  | .error (.host failure) =>
      .error (.eval (.inMethod name (.methodFailed name failure)))

/-- Runs a method on bound arguments in the scope of the call. -/
def invoke (evaluate : Evaluator) (call : String) (ref : MethodRef) (method : Method)
    (arguments : Arguments) (chain : Chain) (store : Store) :
    Except Error Value × Store :=
  match method.body with
  | .native program =>
      match (program arguments).run evaluate call chain store with
      | (outcome, store) => (outcome.inMethod ref.name, store)
  | .defined form scope =>
      match store.enter scope with
      | (inner, store) => evaluate inner form (store.bindAll inner arguments)

def callee (store : Store) (chain : Chain) (name : String) :
    Except EvalCause (MethodRef × Method) :=
  match store.lookup chain name with
  | none => .error (.unbound name)
  | some (.method ref) =>
      match store.method? ref with
      | some method => .ok (ref, method)
      | none => .error (.unbound name)
  | some value => .error (.notAMethod name value.typeName)

/-- Evaluates a call.  `evaluate` evaluates forms one level deeper. -/
def evalCall (evaluate : Evaluator) (name : String) (forms : List Form) (chain : Chain)
    (store : Store) : Except Error Value × Store :=
  match callee store chain name with
  | .error cause => (.error (.eval (.inMethod name cause)), store)
  | .ok (ref, method) =>
      match bindArguments name method.signature (evaluate chain) forms store with
      | (.error error, store) => (.error error, store)
      | (.ok arguments, store) =>
          invoke evaluate name ref method arguments chain store

def evalAt : (levels : Nat) → Evaluator
  | 0, _, _, store => (.error (.eval (.ofCause (.tooDeep maxEvalDepth))), store)
  | levels + 1, chain, form, store =>
      match form with
      | .literal value => (.ok value, store)
      | .variable name =>
          match store.lookup chain name with
          | some value => (.ok value, store)
          | none => (.error (.eval (.ofCause (.unbound name))), store)
      | .quoted inner => (.ok (.form inner), store)
      | .call name forms =>
          match evalCall (evalAt levels) name forms chain store with
          | (result, store) => (result.mapError (Error.inCall form), store)
      | .flag name => (.error (.eval (.ofCause (.strayFlag name))), store)

def eval (chain : Chain) (form : Form) (store : Store) : Except Error Value × Store :=
  evalAt maxEvalDepth chain form store

/-- Reads a source text as one form and evaluates it in a scope. -/
def evaluate (comments : Bool) (source : String) (chain : Chain) (store : Store) :
    Except Error Value × Store :=
  match parse (store.signatures chain) comments source with
  | .error error => (.error error, store)
  | .ok form => eval chain form store

end ArityScript
