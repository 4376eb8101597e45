import ArityScript.Proofs.Binding
import ArityScript.Workspace

/-!
# Evaluation on a stack

A scope gives the stack back as it was exactly when its frames are still at the
bottom of what the scope has left, however many have been pushed on them.
Every evaluation gives its stack back: whether it succeeds or fails, the stack is
the same frame by frame, and the result and the store are those of the
evaluation in the chain that the stack holds.
-/

namespace ArityScript

/-! ## Stacks and their chains -/

namespace Stack

variable (stack : Stack)

theorem frames_chain : stack.chain.frames = stack.frames.reverse := by
  have hframes := List.dropLast_concat_getLast stack.ne_nil
  rw [← hframes, List.reverse_append, List.reverse_singleton]
  simp [Stack.chain, Chain.frames, innermost]

@[simp] theorem chain_ofChain (chain : Chain) : (ofChain chain).chain = chain := by
  simp [Stack.chain, ofChain, innermost, Chain.frames]

theorem chain_push (frame : FrameId) :
    (stack.push frame).chain = stack.chain.push frame := by
  rw [Chain.push, frames_chain]
  simp [Stack.chain, push, innermost]

theorem depth_chain : stack.chain.depth = stack.height := by
  rw [Chain.depth, frames_chain, List.length_reverse, height]

theorem root_chain : stack.chain.root = stack.root := by
  obtain ⟨frames, hne⟩ := stack
  cases frames with
  | nil => contradiction
  | cons root above =>
      cases above with
      | nil => rfl
      | cons frame above => simp [Stack.chain, Chain.root, Stack.root, List.getLastD_eq_getLast?]

/-- Cutting another stack to the height of this one gives this one exactly when its
frames are at the bottom of the other. -/
theorem truncate_eq_iff (other : Stack) :
    other.truncate stack.height = stack ↔ stack.frames <+: other.frames := by
  have hheight : max stack.height 1 = stack.frames.length :=
    Nat.max_eq_left (List.length_pos_iff.2 stack.ne_nil)
  rw [List.prefix_iff_eq_take, truncate, Stack.mk.injEq, hheight, eq_comm]

end Stack

/-! ## Scopes -/

namespace Workspace

variable {α : Type} (workspace : Workspace)

/-- Acts in the chain of the stack, and leaves the stack alone. -/
def inChain (action : Chain → Store → α × Store) : α × Workspace :=
  ((action workspace.stack.chain workspace.store).1,
    { workspace with store := (action workspace.stack.chain workspace.store).2 })

theorem chain_pushFrame : workspace.pushFrame.stack.chain =
    (workspace.store.enter workspace.stack.chain).1 := by
  rw [Store.enter, Stack.root_chain]
  exact workspace.stack.chain_push _

theorem store_pushFrame : workspace.pushFrame.store =
    (workspace.store.enter workspace.stack.chain).2 := by
  rw [Store.enter, Stack.root_chain]
  rfl

/-- A scope gives the stack back exactly when the action in it leaves the frames under
the scope in their places. -/
theorem stack_inScope_eq_iff (action : Workspace → α × Workspace) :
    (workspace.inScope action).2.stack = workspace.stack ↔
      workspace.stack.frames <+: (action workspace.pushFrame).2.stack.frames :=
  workspace.stack.truncate_eq_iff _

/-- An action that gives the stack of its scope back is one in the chain of this scope. -/
theorem inScope_eq_inChain {action : Workspace → α × Workspace}
    {inside : Chain → Store → α × Store}
    (haction : ∀ inner, action inner = inner.inChain inside) :
    workspace.inScope action = workspace.inChain fun chain store =>
      inside (store.enter chain).1 (store.enter chain).2 := by
  have hstack : (workspace.inScope action).2.stack = workspace.stack := by
    rw [stack_inScope_eq_iff, haction]
    exact List.prefix_append _ _
  simp only [inScope, haction] at hstack ⊢
  rw [hstack, inChain, inChain, chain_pushFrame, store_pushFrame]

end Workspace

/-! ## Evaluation -/

section

variable {evaluate : Evaluator} {evaluateOn : StackEvaluator}
  (hsame : ∀ form workspace, evaluateOn form workspace =
    workspace.inChain fun chain store => evaluate chain form store)

include hsame

theorem Program.work_eq_inChain (call : String) (program : Program) (workspace : Workspace) :
    program.work evaluateOn call workspace =
      workspace.inChain (program.run evaluate call) := by
  induction program generalizing workspace with
  | finish outcome => rfl
  | eval form next ih =>
      rw [work, hsame]
      exact ih _ _
  | inScope body next ihBody ihNext =>
      rw [work, workspace.inScope_eq_inChain ihBody]
      exact ihNext _ _
  | assign name value next ih => exact ih _
  | lookup name next ih => exact ih _ workspace
  | define name parameters body next ih => exact ih _ _
  | frameCount next ih =>
      rw [work, ih, ← workspace.stack.depth_chain]
      rfl
  | callName next ih => exact ih _ workspace

theorem bindArguments_eq_inChain (method : String) (signature : Signature)
    (forms : List Form) (workspace : Workspace) :
    bindArguments method signature evaluateOn forms workspace =
      workspace.inChain fun chain store =>
        bindArguments method signature (evaluate chain) forms store :=
  Binding.bindArguments_project method signature _ (Workspace.mk workspace.stack)
    (fun form store => hsame form ⟨workspace.stack, store⟩) forms workspace.store

theorem invokeOn_eq_inChain (call : String) (ref : MethodRef) (method : Method)
    (arguments : Arguments) (workspace : Workspace) :
    invokeOn evaluateOn call ref method arguments workspace =
      workspace.inChain (invoke evaluate call ref method arguments) := by
  obtain ⟨signature, body⟩ := method
  cases body with
  | native program =>
      simp only [invokeOn, Program.work_eq_inChain hsame]
      rfl
  | defined form scope =>
      have hinside : ∀ inner : Workspace, evaluateOn form (inner.bindAll arguments) =
          inner.inChain fun chain store =>
            evaluate chain form (store.bindAll chain arguments) :=
        fun inner => hsame form (inner.bindAll arguments)
      have hscope := Workspace.inScope_eq_inChain ⟨.ofChain scope, workspace.store⟩ hinside
      simp only [invokeOn, hscope, Workspace.inChain, Stack.chain_ofChain]
      rfl

theorem evalCallOn_eq_inChain (name : String) (forms : List Form) (workspace : Workspace) :
    evalCallOn evaluateOn name forms workspace =
      workspace.inChain (evalCall evaluate name forms) := by
  simp only [evalCallOn, Workspace.inChain, evalCall]
  cases callee workspace.store workspace.stack.chain name with
  | error cause => rfl
  | ok found =>
      simp only [bindArguments_eq_inChain hsame, Workspace.inChain]
      rcases bindArguments name found.2.signature (evaluate workspace.stack.chain) forms
        workspace.store with ⟨_ | arguments, after⟩
      · rfl
      · exact invokeOn_eq_inChain hsame name found.1 found.2 arguments ⟨workspace.stack, after⟩

end

/-- Evaluation gives its stack back. -/
theorem evalOn_eq_inChain (levels : Nat) (form : Form) (workspace : Workspace) :
    evalOn levels form workspace =
      workspace.inChain fun chain store => evalAt levels chain form store := by
  induction levels generalizing form workspace with
  | zero => rfl
  | succ levels ih =>
      cases form with
      | literal _ | quoted _ | flag _ => rfl
      | «variable» name =>
          simp only [evalOn, evalAt, Workspace.inChain, Workspace.lookup]
          cases workspace.store.lookup workspace.stack.chain name with
          | none => rfl
          | some value => rfl
      | call name forms =>
          rw [evalOn, evalCallOn_eq_inChain ih]
          rfl

theorem evaluateOn_eq_inChain (comments : Bool) (source : String) (workspace : Workspace) :
    evaluateOn comments source workspace = workspace.inChain (evaluate comments source) := by
  simp only [evaluateOn, Workspace.inChain, evaluate]
  cases parse (workspace.store.signatures workspace.stack.chain) comments source with
  | error error => rfl
  | ok form => exact evalOn_eq_inChain maxEvalDepth form workspace

end ArityScript
