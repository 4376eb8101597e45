import ArityScript.Evaluation

/-!
# Frame stacks

An environment at work keeps its frames on a stack, the root first, and
everything that is evaluated in it acts on this one stack.  Opening a scope
pushes a frame.  Leaving it, with a value or with an error, cuts the stack back
to the height it had before, whatever has been pushed meanwhile; the root is
never cut off.

A defined method does not run on the stack of its caller.  Its chain is put on a
stack of its own, which is given up when the method ends.
-/

namespace ArityScript

/-- The frames of an environment, the root first. -/
structure Stack where
  frames : List FrameId
  ne_nil : frames ≠ []
deriving DecidableEq

namespace Stack

def root (stack : Stack) : FrameId :=
  stack.frames.head stack.ne_nil

def innermost (stack : Stack) : FrameId :=
  stack.frames.getLast stack.ne_nil

def height (stack : Stack) : Nat :=
  stack.frames.length

def push (stack : Stack) (frame : FrameId) : Stack :=
  ⟨stack.frames ++ [frame], List.concat_ne_nil frame stack.frames⟩

/-- Cuts a stack to a height; the root stays at any height. -/
def truncate (stack : Stack) (height : Nat) : Stack where
  frames := stack.frames.take (max height 1)
  ne_nil := by
    have hheight : max height 1 ≠ 0 := by omega
    simp [List.take_eq_nil_iff, hheight, stack.ne_nil]

/-- The frames of a stack as they are searched for a name. -/
def chain (stack : Stack) : Chain :=
  ⟨stack.innermost, stack.frames.dropLast.reverse⟩

/-- A stack with the frames of a chain. -/
def ofChain (chain : Chain) : Stack :=
  ⟨chain.frames.reverse, by simp [Chain.frames]⟩

end Stack

/-- An environment at work: its stack, and the store that it shares with others. -/
structure Workspace where
  stack : Stack
  store : Store

namespace Workspace

def lookup (workspace : Workspace) (name : String) : Option Value :=
  workspace.store.lookup workspace.stack.chain name

def bind (workspace : Workspace) (name : String) (value : Value) : Workspace :=
  { workspace with store := workspace.store.bind workspace.stack.chain name value }

def bindAll (workspace : Workspace) (map : NameMap Value) : Workspace :=
  { workspace with store := workspace.store.bindAll workspace.stack.chain map }

/-- Makes a frame on behalf of the root and pushes it. -/
def pushFrame (workspace : Workspace) : Workspace :=
  match workspace.store.addFrame workspace.stack.root with
  | (frame, store) => ⟨workspace.stack.push frame, store⟩

/-- Runs an action with a fresh frame on the stack, and cuts the stack back when the
action has ended, whatever its result. -/
def inScope {α : Type} (action : Workspace → α × Workspace) (workspace : Workspace) :
    α × Workspace :=
  match action workspace.pushFrame with
  | (result, after) =>
      (result, { after with stack := after.stack.truncate workspace.stack.height })

end Workspace

/-- A way to evaluate forms on a stack. -/
abbrev StackEvaluator := Form → Workspace → Except Error Value × Workspace

/-- Runs a program on a stack.  `evaluate` evaluates the forms it asks for, and `call`
is the name that is being called. -/
def Program.work (evaluate : StackEvaluator) (call : String) :
    Program → Workspace → Outcome × Workspace
  | .finish outcome, workspace => (outcome, workspace)
  | .eval form next, workspace =>
      match evaluate form workspace with
      | (result, workspace) => (next (result.mapError .error)).work evaluate call workspace
  | .inScope body next, workspace =>
      match workspace.inScope (body.work evaluate call) with
      | (outcome, workspace) => (next outcome).work evaluate call workspace
  | .assign name value next, workspace => next.work evaluate call (workspace.bind name value)
  | .lookup name next, workspace =>
      (next (workspace.lookup name)).work evaluate call workspace
  | .define name parameters body next, workspace =>
      match workspace.store.define workspace.stack.chain name parameters body with
      | (ref, store) => (next (.method ref)).work evaluate call { workspace with store }
  | .frameCount next, workspace =>
      (next workspace.stack.height).work evaluate call workspace
  | .callName next, workspace => (next call).work evaluate call workspace

/-- Runs a method on bound arguments.  A defined method runs on a stack of its own, in a
scope over the chain it was defined in. -/
def invokeOn (evaluate : StackEvaluator) (call : String) (ref : MethodRef) (method : Method)
    (arguments : Arguments) (workspace : Workspace) : Except Error Value × Workspace :=
  match method.body with
  | .native program =>
      match (program arguments).work evaluate call workspace with
      | (outcome, workspace) => (outcome.inMethod ref.name, workspace)
  | .defined form scope =>
      match Workspace.inScope (fun inner => evaluate form (inner.bindAll arguments))
          ⟨.ofChain scope, workspace.store⟩ with
      | (result, after) => (result, { workspace with store := after.store })

/-- Evaluates a call on a stack.  `evaluate` evaluates forms one level deeper. -/
def evalCallOn (evaluate : StackEvaluator) (name : String) (forms : List Form)
    (workspace : Workspace) : Except Error Value × Workspace :=
  match callee workspace.store workspace.stack.chain name with
  | .error cause => (.error (.eval (.inMethod name cause)), workspace)
  | .ok (ref, method) =>
      match bindArguments name method.signature evaluate forms workspace with
      | (.error error, workspace) => (.error error, workspace)
      | (.ok arguments, workspace) => invokeOn evaluate name ref method arguments workspace

def evalOn : (levels : Nat) → StackEvaluator
  | 0, _, workspace => (.error (.eval (.ofCause (.tooDeep maxEvalDepth))), workspace)
  | levels + 1, form, workspace =>
      match form with
      | .literal value => (.ok value, workspace)
      | .variable name =>
          match workspace.lookup name with
          | some value => (.ok value, workspace)
          | none => (.error (.eval (.ofCause (.unbound name))), workspace)
      | .quoted inner => (.ok (.form inner), workspace)
      | .call name forms =>
          match evalCallOn (evalOn levels) name forms workspace with
          | (result, workspace) => (result.mapError (Error.inCall form), workspace)
      | .flag name => (.error (.eval (.ofCause (.strayFlag name))), workspace)

/-- Reads a source text as one form and evaluates it on a stack. -/
def evaluateOn (comments : Bool) (source : String) (workspace : Workspace) :
    Except Error Value × Workspace :=
  match parse (workspace.store.signatures workspace.stack.chain) comments source with
  | .error error => (.error error, workspace)
  | .ok form => evalOn maxEvalDepth form workspace

end ArityScript
