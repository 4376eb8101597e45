import ArityScript.Interactive.Session
import ArityScript.Proofs.Iteration
import ArityScript.Proofs.Workspace

/-!
# What evaluation writes

All that evaluation writes to is the innermost frame of its scope: names are
bound or rebound there, and none is taken away.  Every other frame that exists
when an evaluation starts is the same when it ends, however it ends.  Methods
are only ever added.

Scopes and defined methods work in a frame of their own, which did not exist
before.  They change nothing that did, and what was bound in the frames of a
scope stays as it was when the scope was left.
-/

namespace ArityScript

namespace Store

/-- Frames and methods may have been added; all methods and some frames that
there were are the same. -/
structure Keeps (kept : FrameId → Prop) (before after : Store) : Prop where
  frames_size_le : before.frames.size ≤ after.frames.size
  frame_eq : ∀ frame < before.frames.size, kept frame →
    after.frames[frame]? = before.frames[frame]?
  methods_size_le : before.methods.size ≤ after.methods.size
  method_eq : ∀ id < before.methods.size, after.methods[id]? = before.methods[id]?

/-- Nothing that there was has changed. -/
abbrev Extends (before after : Store) : Prop :=
  Keeps (fun _ => True) before after

/-- Nothing has changed but for one frame, in which names may have been bound or
rebound. -/
structure Evolves (own : FrameId) (before after : Store) : Prop
    extends Keeps (fun frame => frame ≠ own) before after where
  root_eq : own < before.frames.size →
    after.frames[own]?.map Frame.root = before.frames[own]?.map Frame.root
  bound : ∀ name, ((before.bindings own).find? name).isSome = true →
    ((after.bindings own).find? name).isSome = true

variable {own : FrameId} {kept : FrameId → Prop} {before middle after : Store}

theorem bindings_eq {frame : FrameId} (heq : after.frames[frame]? = before.frames[frame]?) :
    after.bindings frame = before.bindings frame := by
  rw [bindings, heq, bindings]

theorem bindings_eq_empty {frame : FrameId} (hfresh : before.frames.size ≤ frame) :
    before.bindings frame = .empty := by
  rw [bindings, Array.getElem?_eq_none hfresh]

theorem Keeps.refl (kept : FrameId → Prop) (store : Store) : store.Keeps kept store where
  frames_size_le := Nat.le_refl _
  frame_eq _ _ _ := rfl
  methods_size_le := Nat.le_refl _
  method_eq _ _ := rfl

theorem Keeps.trans (hfirst : before.Keeps kept middle) (hsecond : middle.Keeps kept after) :
    before.Keeps kept after where
  frames_size_le := Nat.le_trans hfirst.frames_size_le hsecond.frames_size_le
  frame_eq frame hframe hkept := by
    have hmiddle := Nat.lt_of_lt_of_le hframe hfirst.frames_size_le
    rw [hsecond.frame_eq frame hmiddle hkept, hfirst.frame_eq frame hframe hkept]
  methods_size_le := Nat.le_trans hfirst.methods_size_le hsecond.methods_size_le
  method_eq id hid := by
    have hmiddle := Nat.lt_of_lt_of_le hid hfirst.methods_size_le
    rw [hsecond.method_eq id hmiddle, hfirst.method_eq id hid]

theorem Keeps.imp {others : FrameId → Prop} (hkeeps : before.Keeps kept after)
    (hkept : ∀ frame < before.frames.size, others frame → kept frame) :
    before.Keeps others after where
  frames_size_le := hkeeps.frames_size_le
  frame_eq frame hframe hothers := hkeeps.frame_eq frame hframe (hkept frame hframe hothers)
  methods_size_le := hkeeps.methods_size_le
  method_eq := hkeeps.method_eq

theorem Keeps.bindings_eq {frame : FrameId} (hkeeps : before.Keeps kept after)
    (hframe : frame < before.frames.size) (hkept : kept frame) :
    after.bindings frame = before.bindings frame :=
  Store.bindings_eq (hkeeps.frame_eq frame hframe hkept)

theorem Keeps.evolves (hextends : before.Extends after) : before.Evolves own after where
  toKeeps := hextends.imp fun _ _ _ => trivial
  root_eq hown := by rw [hextends.frame_eq own hown trivial]
  bound name hbound := by
    by_cases hown : own < before.frames.size
    · rwa [hextends.bindings_eq hown trivial]
    · rw [bindings_eq_empty (Nat.not_lt.1 hown)] at hbound
      contradiction

theorem Evolves.refl (own : FrameId) (store : Store) : store.Evolves own store :=
  (Keeps.refl _ store).evolves

theorem Evolves.trans (hfirst : before.Evolves own middle)
    (hsecond : middle.Evolves own after) : before.Evolves own after where
  toKeeps := hfirst.toKeeps.trans hsecond.toKeeps
  root_eq hown := by
    have hmiddle := Nat.lt_of_lt_of_le hown hfirst.frames_size_le
    rw [hsecond.root_eq hmiddle, hfirst.root_eq hown]
  bound name hbound := hsecond.bound name (hfirst.bound name hbound)

/-! ## Single steps -/

theorem extends_enter (store : Store) (chain : Chain) :
    store.Extends (store.enter chain).2 where
  frames_size_le := by simp [enter, addFrame]
  frame_eq frame hframe _ := by
    simp only [enter, addFrame]
    rw [Array.getElem?_push_lt hframe, Array.getElem?_eq_getElem hframe]
  methods_size_le := Nat.le_refl _
  method_eq _ _ := rfl

/-- Whatever happens in a scope that was opened, it changes no frame that existed
before. -/
theorem Evolves.extends_of_enter {chain : Chain} {store : Store}
    (hevolves : (store.enter chain).2.Evolves (store.enter chain).1.innermost after) :
    store.Extends after := by
  have hopened := (store.extends_enter chain).evolves.trans hevolves
  exact hopened.toKeeps.imp fun frame hframe _ => Nat.ne_of_lt hframe

theorem bindings_bind_innermost {store : Store} {chain : Chain} (name : String)
    (value : Value) (hinnermost : chain.innermost < store.frames.size) :
    (store.bind chain name value).bindings chain.innermost =
      (store.bindings chain.innermost).insert name value := by
  simp only [bindings, bind, Array.getElem?_modify, Array.getElem?_eq_getElem hinnermost]
  rfl

theorem evolves_bind (store : Store) (chain : Chain) (name : String) (value : Value) :
    store.Evolves chain.innermost (store.bind chain name value) where
  frames_size_le := by simp [bind]
  frame_eq frame _ hne := by
    simp [bind, Array.getElem?_modify, Ne.symm hne]
  root_eq hown := by
    simp [bind, Array.getElem?_modify, Array.getElem?_eq_getElem hown]
  bound other hbound := by
    by_cases hown : chain.innermost < store.frames.size
    · rw [bindings_bind_innermost name value hown, NameMap.find?_insert]
      split
      · rfl
      · exact hbound
    · rw [bindings_eq_empty (Nat.not_lt.1 hown)] at hbound
      contradiction
  methods_size_le := Nat.le_refl _
  method_eq _ _ := rfl

theorem evolves_bindAll (store : Store) (chain : Chain) (map : NameMap Value) :
    store.Evolves chain.innermost (store.bindAll chain map) := by
  unfold bindAll
  induction map.entries generalizing store with
  | nil => exact Evolves.refl _ store
  | cons entry rest ih =>
      have hfirst := store.evolves_bind chain entry.1 entry.2
      exact hfirst.trans (ih (store.bind chain entry.1 entry.2))

theorem extends_addMethod (store : Store) (name : String) (method : Method) :
    store.Extends (store.addMethod name method).2 where
  frames_size_le := Nat.le_refl _
  frame_eq _ _ _ := rfl
  methods_size_le := by simp [addMethod]
  method_eq id hid := by
    simp only [addMethod]
    rw [Array.getElem?_push_lt hid, Array.getElem?_eq_getElem hid]

theorem extends_define (store : Store) (chain : Chain) (name : String)
    (parameters : List String) (body : Form) :
    store.Extends (store.define chain name parameters body).2 :=
  store.extends_addMethod name ⟨.ofRequired parameters, .defined body chain⟩

end Store

/-! ## Evaluation -/

/-- A way to evaluate forms that writes only to the innermost frame. -/
def Evaluator.Framed (evaluate : Evaluator) : Prop :=
  ∀ (chain : Chain) (form : Form) (store : Store),
    store.Evolves chain.innermost (evaluate chain form store).2

section

variable {evaluate : Evaluator} (hframed : evaluate.Framed)

include hframed

theorem Program.evolves_run (call : String) (program : Program) (chain : Chain)
    (store : Store) :
    store.Evolves chain.innermost (program.run evaluate call chain store).2 := by
  induction program generalizing chain store with
  | finish outcome => exact Store.Evolves.refl _ store
  | eval form next ih =>
      rw [run]
      exact (hframed chain form store).trans (ih _ chain _)
  | inScope body next ihBody ihNext =>
      rw [run]
      have hbody := (ihBody (store.enter chain).1 (store.enter chain).2).extends_of_enter
      exact hbody.evolves.trans (ihNext _ chain _)
  | assign name value next ih =>
      rw [run]
      exact (store.evolves_bind chain name value).trans (ih chain _)
  | lookup name next ih => exact ih _ chain store
  | define name parameters body next ih =>
      rw [run]
      have hdefine := store.extends_define chain name parameters body
      exact hdefine.evolves.trans (ih _ chain _)
  | frameCount next ih => exact ih _ chain store
  | callName next ih => exact ih _ chain store

theorem Evaluator.Framed.evolves {chain : Chain} {form : Form} {store after : Store}
    {result : Except Error Value}
    (heval : evaluate chain form store = (result, after)) :
    store.Evolves chain.innermost after := by
  have hevolves := hframed chain form store
  rwa [heval] at hevolves

theorem Binding.evolves_collect (method : String) (signature : Signature)
    (chain : Chain) (forms : List Form) (made : Partial) (store : Store) :
    store.Evolves chain.innermost
      (collect method signature (evaluate chain) forms made store).2 := by
  fun_induction collect method signature (evaluate chain) forms made store with
  | case1 | case2 | case5 | case10 => exact Store.Evolves.refl _ _
  | case3 _ _ _ _ _ _ _ _ heval => exact hframed.evolves heval
  | case4 _ _ _ _ _ _ _ _ heval ih => exact (hframed.evolves heval).trans ih
  | case6 _ _ _ _ _ _ _ _ _ _ heval => exact hframed.evolves heval
  | case7 _ _ _ _ _ _ _ _ _ _ heval ih => exact (hframed.evolves heval).trans ih
  | case8 _ _ _ _ _ _ _ _ _ heval => exact hframed.evolves heval
  | case9 _ _ _ _ _ _ _ _ _ heval ih => exact (hframed.evolves heval).trans ih

theorem evolves_bindArguments (method : String) (signature : Signature) (chain : Chain)
    (forms : List Form) (store : Store) :
    store.Evolves chain.innermost
      (bindArguments method signature (evaluate chain) forms store).2 := by
  have hcollect := Binding.evolves_collect hframed method signature chain forms
    ⟨signature.required, .empty, []⟩ store
  unfold bindArguments
  split
  · next heq => rwa [heq] at hcollect
  · next heq => rwa [heq] at hcollect

/-- The body of a defined method changes nothing that existed before the call. -/
theorem extends_invoke_defined (call : String) (ref : MethodRef) (signature : Signature)
    (body : Form) (scope : Chain) (arguments : Arguments) (chain : Chain) (store : Store) :
    store.Extends
      (invoke evaluate call ref ⟨signature, .defined body scope⟩ arguments chain store).2 := by
  have hbound := (store.enter scope).2.evolves_bindAll (store.enter scope).1 arguments
  have hbody := hframed (store.enter scope).1 body
    ((store.enter scope).2.bindAll (store.enter scope).1 arguments)
  exact (hbound.trans hbody).extends_of_enter

theorem evolves_invoke (call : String) (ref : MethodRef) (method : Method)
    (arguments : Arguments) (chain : Chain) (store : Store) :
    store.Evolves chain.innermost
      (invoke evaluate call ref method arguments chain store).2 := by
  obtain ⟨signature, body⟩ := method
  cases body with
  | native program =>
      exact Program.evolves_run hframed call (program arguments) chain store
  | defined form scope =>
      have hextends := extends_invoke_defined hframed call ref signature form scope
        arguments chain store
      exact hextends.evolves

theorem evolves_evalCall (name : String) (forms : List Form) (chain : Chain)
    (store : Store) :
    store.Evolves chain.innermost (evalCall evaluate name forms chain store).2 := by
  unfold evalCall
  split
  · exact Store.Evolves.refl _ _
  · next ref method _ =>
      have hbind := evolves_bindArguments hframed name method.signature chain forms store
      split
      · next heq => rwa [heq] at hbind
      · next arguments after heq =>
          rw [heq] at hbind
          exact hbind.trans (evolves_invoke hframed name ref method arguments chain after)

end

theorem framed_evalAt (levels : Nat) : (evalAt levels).Framed := by
  induction levels with
  | zero => exact fun chain form store => Store.Evolves.refl _ store
  | succ levels ih =>
      intro chain form store
      cases form with
      | literal _ | quoted _ | flag _ => exact Store.Evolves.refl _ store
      | «variable» name =>
          rw [evalAt]
          split <;> exact Store.Evolves.refl _ store
      | call name forms => exact evolves_evalCall ih name forms chain store

theorem evolves_evaluate (comments : Bool) (source : String) (chain : Chain)
    (store : Store) :
    store.Evolves chain.innermost (evaluate comments source chain store).2 := by
  unfold evaluate
  split
  · exact Store.Evolves.refl _ store
  · next form _ => exact framed_evalAt maxEvalDepth chain form store

/-- A line of a session writes only to the innermost frame of its environment. -/
theorem Interactive.evolves_handle (state : State) (line : List Char) :
    state.store.Evolves state.env.chain.innermost (handle state line).2.store := by
  have hsame := Store.Evolves.refl state.env.chain.innermost state.store
  unfold handle
  split
  · exact hsame
  split
  · exact hsame
  split
  · exact hsame
  split
  · exact hsame
  split
  · exact hsame
  · exact evolves_evaluate true (String.ofList line) state.env.chain state.store

/-! ## Scopes -/

/-- A program that writes only in scopes of its own. -/
inductive Program.Scoped : Program → Prop where
  | finish (outcome : Outcome) : Scoped (.finish outcome)
  | inScope {body : Program} {next : Outcome → Program} :
      (∀ outcome, Scoped (next outcome)) → Scoped (.inScope body next)

namespace Program

theorem Scoped.extends_run {evaluate : Evaluator} (hframed : evaluate.Framed)
    {program : Program} (hscoped : program.Scoped) (call : String) (chain : Chain)
    (store : Store) :
    store.Extends (program.run evaluate call chain store).2 := by
  induction hscoped generalizing store with
  | finish outcome => exact Store.Keeps.refl _ store
  | @inScope body next _ ih =>
      rw [run]
      have hbody := Program.evolves_run hframed call body (store.enter chain).1
        (store.enter chain).2
      exact hbody.extends_of_enter.trans (ih _ _)

theorem Scoped.attempt {α : Type} {result : Except Error α} {next : α → Program}
    (hnext : ∀ a, (next a).Scoped) : (Program.attempt result next).Scoped := by
  cases result with
  | ok a => exact hnext a
  | error error => exact .finish _

theorem Scoped.andThen {next : Value → Program} (hnext : ∀ value, (next value).Scoped)
    (outcome : Outcome) : (Program.andThen next outcome).Scoped := by
  cases outcome with
  | ok value => exact hnext value
  | error failure => exact .finish _

end Program

namespace Builtin

open Program

theorem scoped_filterElements (form : Form) (elements : Elements) (kept : List Value) :
    (filterElements form elements kept).Scoped := by
  induction elements using Elements.uncons_induction generalizing kept with
  | nil elements huncons =>
      rw [filterElements_of_none huncons]
      exact .finish _
  | cons elements rest item huncons ih =>
      rw [filterElements_of_some huncons]
      refine .inScope (Scoped.andThen fun value => ?_)
      split
      · exact ih _
      · exact ih _
      · exact .finish _

theorem scoped_mapElements (form : Form) (elements : Elements) (mapped : List Value) :
    (mapElements form elements mapped).Scoped := by
  induction elements using Elements.uncons_induction generalizing mapped with
  | nil elements huncons =>
      rw [mapElements_of_none huncons]
      exact .finish _
  | cons elements rest item huncons ih =>
      rw [mapElements_of_some huncons]
      exact .inScope (Scoped.andThen fun value => ih _)

theorem scoped_of_mem {native : Native} (hmem : native ∈ [scope, filter, map])
    (arguments : Arguments) : (native arguments).Scoped := by
  simp only [List.mem_cons, List.not_mem_nil, or_false] at hmem
  rcases hmem with rfl | rfl | rfl
  · exact Scoped.attempt fun form => .inScope .finish
  · exact Scoped.attempt fun list => Scoped.attempt fun elements =>
      Scoped.attempt fun form => scoped_filterElements form elements []
  · exact Scoped.attempt fun list => Scoped.attempt fun elements =>
      Scoped.attempt fun form => scoped_mapElements form elements []

end Builtin

/-! ## Several evaluations -/

/-- An evaluation of a form in a scope, with the levels left to it. -/
structure Evaluation where
  levels : Nat
  chain : Chain
  form : Form

def Evaluation.store (evaluation : Evaluation) (store : Store) : Store :=
  (evalAt evaluation.levels evaluation.chain evaluation.form store).2

def evalAll (evaluations : List Evaluation) (store : Store) : Store :=
  evaluations.foldl (fun store evaluation => evaluation.store store) store

/-- A frame stays the same as long as nothing is evaluated in it. -/
theorem keeps_evalAll (evaluations : List Evaluation) (store : Store) :
    store.Keeps (fun frame => ∀ evaluation ∈ evaluations,
      frame ≠ evaluation.chain.innermost) (evalAll evaluations store) := by
  induction evaluations generalizing store with
  | nil => exact Store.Keeps.refl _ store
  | cons evaluation rest ih =>
      have hfirst := framed_evalAt evaluation.levels evaluation.chain evaluation.form store
      have hrest := ih (evaluation.store store)
      exact (hfirst.toKeeps.imp fun frame _ hframe => hframe evaluation (by simp)).trans
        (hrest.imp fun frame _ hframe other hother => hframe other (by simp [hother]))

theorem Store.lookupIn_append_of_bindings {before after : Store} {name : String}
    {inner : List FrameId} (outer : List FrameId) {value : Value}
    (hbindings : ∀ frame ∈ inner, after.bindings frame = before.bindings frame)
    (hlookup : before.lookupIn name inner = some value) :
    after.lookupIn name (inner ++ outer) = some value := by
  induction inner with
  | nil => simp [lookupIn] at hlookup
  | cons frame rest ih =>
      have hframe := hbindings frame (by simp)
      have hrest := ih fun other hother => hbindings other (by simp [hother])
      simp only [lookupIn, List.cons_append, List.findSome?_cons] at hlookup hrest ⊢
      rw [hframe]
      split
      · next found hfound => rwa [hfound] at hlookup
      · next hnone =>
          rw [hnone] at hlookup
          exact hrest hlookup

/-- The variables of a captured chain keep their values once the frames that
bind them have been left. -/
theorem lookup_evalAll (evaluations : List Evaluation) {store : Store} {scope : Chain}
    {inner outer : List FrameId} {name : String} {value : Value}
    (hscope : scope.frames = inner ++ outer)
    (hexists : ∀ frame ∈ inner, frame < store.frames.size)
    (hleft : ∀ frame ∈ inner, ∀ evaluation ∈ evaluations,
      frame ≠ evaluation.chain.innermost)
    (hlookup : store.lookupIn name inner = some value) :
    (evalAll evaluations store).lookup scope name = some value := by
  rw [Store.lookup, hscope]
  refine Store.lookupIn_append_of_bindings outer (fun frame hframe => ?_) hlookup
  exact (keeps_evalAll evaluations store).bindings_eq (hexists frame hframe)
    (hleft frame hframe)

/-- A root frame with the method that binds names, and a frame over it. -/
def leftScope : Store :=
  let (root, store) := Store.empty.addRoot
  let store := store.register root "set"
    ⟨.ofRequired ["name", "value"], .native Builtin.assignment⟩
  let (inner, store) := store.enter root
  store.bind inner "$x" (.number 5)

end ArityScript
