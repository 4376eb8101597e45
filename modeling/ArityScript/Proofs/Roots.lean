import ArityScript.Proofs.Discipline

/-!
# Roots of frames

All frames of a chain were made on behalf of the same root, which is the last
frame of the chain.  This holds of the scopes in which forms are evaluated and of
the chains that methods have captured.  Evaluation keeps it, because a new frame
gets the root of the chain that it is put on, and a new method captures the chain
in which it is defined.
-/

namespace ArityScript

/-! ## Roots -/

/-- The root on whose behalf a frame was made. -/
def Store.root? (store : Store) (frame : FrameId) : Option FrameId :=
  store.frames[frame]?.map Frame.root

/-- All frames of a chain exist and were made on behalf of its root. -/
def Chain.Rooted (store : Store) (chain : Chain) : Prop :=
  ∀ frame ∈ chain.frames, store.root? frame = some chain.root

/-- The roots of frames exist, and methods have captured chains with one root. -/
structure Store.Rooted (store : Store) : Prop where
  root_lt : ∀ frame root, store.root? frame = some root → root < store.frames.size
  scope : ∀ method ∈ store.methods, ∀ form scope, method.body = .defined form scope →
    scope.Rooted store

def Store.KeepsRoots (before after : Store) : Prop :=
  ∀ frame root, before.root? frame = some root → after.root? frame = some root

namespace Chain

theorem root_cons (innermost frame : FrameId) (rest : List FrameId) :
    (⟨innermost, frame :: rest⟩ : Chain).root = (⟨frame, rest⟩ : Chain).root :=
  List.getLastD_cons ..

theorem root_mem_frames (chain : Chain) : chain.root ∈ chain.frames := by
  obtain ⟨innermost, outer⟩ := chain
  induction outer generalizing innermost with
  | nil => exact List.mem_singleton_self innermost
  | cons frame rest ih =>
      rw [root_cons]
      exact List.mem_cons_of_mem innermost (ih frame)

@[simp] theorem root_push (chain : Chain) (frame : FrameId) :
    (chain.push frame).root = chain.root :=
  root_cons frame chain.innermost chain.outer

@[simp] theorem frames_push (chain : Chain) (frame : FrameId) :
    (chain.push frame).frames = frame :: chain.frames := rfl

theorem Rooted.mono {before after : Store} {chain : Chain} (hchain : chain.Rooted before)
    (hkeeps : before.KeepsRoots after) : chain.Rooted after :=
  fun frame hmem => hkeeps frame chain.root (hchain frame hmem)

/-- The chain without its innermost frame; the root is never taken away. -/
def pop : Chain → Chain
  | ⟨_, frame :: rest⟩ => ⟨frame, rest⟩
  | ⟨frame, []⟩ => ⟨frame, []⟩

theorem Rooted.pop {store : Store} {chain : Chain} (hchain : chain.Rooted store) :
    chain.pop.Rooted store := by
  obtain ⟨innermost, outer⟩ := chain
  cases outer with
  | nil => exact hchain
  | cons frame rest =>
      intro other hmem
      have hother := hchain other (List.mem_cons_of_mem _ hmem)
      rwa [root_cons] at hother

theorem root_pop (chain : Chain) : chain.pop.root = chain.root := by
  obtain ⟨innermost, outer⟩ := chain
  cases outer with
  | nil => rfl
  | cons frame rest => exact (root_cons innermost frame rest).symm

end Chain

namespace Store

variable {store : Store}

theorem lt_size_of_root? {frame root : FrameId} (hroot : store.root? frame = some root) :
    frame < store.frames.size := by
  obtain ⟨content, hcontent, _⟩ := Option.map_eq_some_iff.1 hroot
  exact (Array.getElem?_eq_some_iff.1 hcontent).1

theorem KeepsRoots.trans {before middle after : Store} (hfirst : before.KeepsRoots middle)
    (hsecond : middle.KeepsRoots after) : before.KeepsRoots after :=
  fun frame root hroot => hsecond frame root (hfirst frame root hroot)

theorem Evolves.keepsRoots {own : FrameId} {before after : Store}
    (hevolves : before.Evolves own after) : before.KeepsRoots after := by
  intro frame root hroot
  have hlt := lt_size_of_root? hroot
  by_cases hown : frame = own
  · subst hown
    rw [← hroot]
    exact hevolves.root_eq hlt
  · rw [← hroot, root?, root?, hevolves.frame_eq frame hlt hown]

@[simp] theorem root?_bind (chain : Chain) (name : String) (value : Value) (frame : FrameId) :
    (store.bind chain name value).root? frame = store.root? frame := by
  simp only [root?, bind, Array.getElem?_modify]
  split
  · cases store.frames[frame]? <;> rfl
  · rfl

@[simp] theorem root?_release (root frame : FrameId) :
    (store.release root).root? frame = store.root? frame := by
  simp only [root?, release, Array.getElem?_map, Option.map_map]
  congr 1
  funext content
  simp only [Function.comp_apply]
  split <;> rfl

theorem root?_addFrame (root frame : FrameId) :
    (store.addFrame root).2.root? frame =
      if frame = store.frames.size then some root else store.root? frame := by
  simp only [root?, addFrame, Array.getElem?_push]
  split <;> rfl

theorem keepsRoots_addFrame (root : FrameId) : store.KeepsRoots (store.addFrame root).2 := by
  intro frame other hother
  have hne : frame ≠ store.frames.size := by
    rintro rfl
    simp [root?] at hother
  rw [root?_addFrame, if_neg hne, hother]

theorem Rooted.addFrame (hstore : store.Rooted) {root : FrameId}
    (hroot : root ≤ store.frames.size) : (store.addFrame root).2.Rooted where
  root_lt frame other hother := by
    have hsize : (store.addFrame root).2.frames.size = store.frames.size + 1 := by
      simp [Store.addFrame]
    rw [hsize]
    rw [root?_addFrame] at hother
    split at hother
    · cases hother
      exact Nat.lt_succ_of_le hroot
    · exact Nat.lt_succ_of_lt (hstore.root_lt frame other hother)
  scope method hmem form scope hbody :=
    (hstore.scope method hmem form scope hbody).mono (keepsRoots_addFrame root)

theorem Rooted.bind (hstore : store.Rooted) (chain : Chain) (name : String) (value : Value) :
    (store.bind chain name value).Rooted where
  root_lt frame root hroot := by
    rw [root?_bind] at hroot
    simpa [Store.bind] using hstore.root_lt frame root hroot
  scope method hmem form scope hbody frame hframe := by
    rw [root?_bind]
    exact hstore.scope method hmem form scope hbody frame hframe

theorem Rooted.bindAll (hstore : store.Rooted) (chain : Chain) (map : NameMap Value) :
    (store.bindAll chain map).Rooted := by
  unfold Store.bindAll
  induction map.entries generalizing store with
  | nil => exact hstore
  | cons entry rest ih => exact ih (hstore.bind chain entry.1 entry.2)

theorem Rooted.release (hstore : store.Rooted) (root : FrameId) :
    (store.release root).Rooted where
  root_lt frame other hother := by
    rw [root?_release] at hother
    simpa [Store.release] using hstore.root_lt frame other hother
  scope method hmem form scope hbody frame hframe := by
    rw [root?_release]
    exact hstore.scope method hmem form scope hbody frame hframe

theorem Rooted.addMethod (hstore : store.Rooted) (name : String) {method : Method}
    (hmethod : ∀ form scope, method.body = .defined form scope → scope.Rooted store) :
    (store.addMethod name method).2.Rooted where
  root_lt := hstore.root_lt
  scope other hmem form scope hbody := by
    rcases Array.mem_push.1 hmem with hmem | rfl
    · exact hstore.scope other hmem form scope hbody
    · exact hmethod form scope hbody

section

variable {chain : Chain} (hstore : store.Rooted) (hchain : chain.Rooted store)

include hstore hchain

theorem Rooted.enter : (store.enter chain).2.Rooted := by
  have hlt := hstore.root_lt chain.root chain.root (hchain _ chain.root_mem_frames)
  exact hstore.addFrame (Nat.le_of_lt hlt)

omit hstore in
theorem rooted_enter : (store.enter chain).1.Rooted (store.enter chain).2 := by
  intro frame hmem
  have hpushed : (store.enter chain).1 = chain.push store.frames.size := rfl
  have hadded : (store.enter chain).2 = (store.addFrame chain.root).2 := rfl
  rw [hpushed, hadded, Chain.root_push, root?_addFrame]
  rw [hpushed, Chain.frames_push] at hmem
  rcases List.mem_cons.1 hmem with rfl | hmem
  · rw [if_pos rfl]
  · split
    · rfl
    · exact hchain frame hmem

theorem Rooted.define (name : String) (parameters : List String) (body : Form) :
    (store.define chain name parameters body).2.Rooted := by
  refine hstore.addMethod name ?_
  intro form scope hbody
  cases hbody
  exact hchain

end

end Store

/-! ## Evaluation -/

/-- A way to evaluate forms that keeps the roots of frames and methods in order. -/
def Evaluator.Rooted (evaluate : Evaluator) : Prop :=
  ∀ (chain : Chain) (form : Form) (store : Store), store.Rooted → chain.Rooted store →
    (evaluate chain form store).2.Rooted

section

variable {evaluate : Evaluator} (hframed : evaluate.Framed) (hrooted : evaluate.Rooted)
  {store : Store} (hstore : store.Rooted) {chain : Chain} (hchain : chain.Rooted store)

include hframed hrooted hstore hchain

theorem Program.rooted_run (call : String) (program : Program) :
    (program.run evaluate call chain store).2.Rooted := by
  induction program generalizing chain store with
  | finish outcome => exact hstore
  | eval form next ih =>
      have hkeeps := (hframed chain form store).keepsRoots
      exact ih _ (hrooted chain form store hstore hchain) (hchain.mono hkeeps)
  | inScope body next ihBody ihNext =>
      have hentered := hstore.enter hchain
      have hbody := ihBody hentered (Store.rooted_enter hchain)
      have hextends := (Program.evolves_run hframed call body (store.enter chain).1
        (store.enter chain).2).extends_of_enter
      have hevolves : store.Evolves chain.innermost _ := hextends.evolves
      exact ihNext _ hbody (hchain.mono hevolves.keepsRoots)
  | assign name value next ih =>
      have hkeeps := (store.evolves_bind chain name value).keepsRoots
      exact ih (hstore.bind chain name value) (hchain.mono hkeeps)
  | lookup name next ih => exact ih _ hstore hchain
  | define name parameters body next ih =>
      exact ih _ (hstore.define hchain name parameters body) hchain
  | frameCount next ih => exact ih _ hstore hchain
  | callName next ih => exact ih _ hstore hchain

theorem Binding.rooted_collect (method : String) (signature : Signature)
    (forms : List Form) (made : Partial) :
    (collect method signature (evaluate chain) forms made store).2.Rooted := by
  induction forms, made using steps_induction method signature generalizing store with
  | next forms made ih =>
      rw [collect_eq_step]
      cases hstep : step method signature forms made with
      | done => exact hstore
      | refuse cause => exact hstore
      | take form place rest =>
          have hafter := hrooted chain form store hstore hchain
          have hkeeps := (hframed chain form store).keepsRoots
          simp only
          generalize evaluate chain form store = outcome at hafter hkeeps ⊢
          obtain ⟨_ | value, after⟩ := outcome
          · exact hafter
          · exact ih form place rest hstep value hafter (hchain.mono hkeeps)

theorem rooted_bindArguments (method : String) (signature : Signature) (forms : List Form) :
    (bindArguments method signature (evaluate chain) forms store).2.Rooted := by
  have hcollect := Binding.rooted_collect hframed hrooted hstore hchain method signature forms
    ⟨signature.required, .empty, []⟩
  unfold bindArguments
  split
  · next heq => rwa [heq] at hcollect
  · next heq => rwa [heq] at hcollect

theorem rooted_invoke (call : String) (ref : MethodRef) {method : Method}
    (hmethod : ∀ form scope, method.body = .defined form scope → scope.Rooted store)
    (arguments : Arguments) :
    (invoke evaluate call ref method arguments chain store).2.Rooted := by
  obtain ⟨signature, body⟩ := method
  cases body with
  | native program =>
      exact Program.rooted_run hframed hrooted hstore hchain call (program arguments)
  | defined form scope =>
      have hscope := hmethod form scope rfl
      have hentered := Store.rooted_enter hscope
      have hkeeps := ((store.enter scope).2.evolves_bindAll (store.enter scope).1
        arguments).keepsRoots
      exact hrooted _ form _ ((hstore.enter hscope).bindAll _ arguments) (hentered.mono hkeeps)

theorem rooted_evalCall (name : String) (forms : List Form) :
    (evalCall evaluate name forms chain store).2.Rooted := by
  unfold evalCall
  split
  · exact hstore
  · next ref method hcallee =>
      have hmem : method ∈ store.methods := mem_of_callee hcallee
      have hbound := rooted_bindArguments hframed hrooted hstore hchain name method.signature
        forms
      have hkeeps := (evolves_bindArguments hframed name method.signature chain forms
        store).keepsRoots
      generalize bindArguments name method.signature (evaluate chain) forms store = outcome
        at hbound hkeeps ⊢
      obtain ⟨_ | arguments, after⟩ := outcome
      · exact hbound
      · refine rooted_invoke hframed hrooted hbound (hchain.mono hkeeps) name ref ?_ arguments
        intro form scope hbody
        exact (hstore.scope method hmem form scope hbody).mono hkeeps

end

theorem rooted_evalAt (levels : Nat) : (evalAt levels).Rooted := by
  induction levels with
  | zero => exact fun chain form store hstore _ => hstore
  | succ levels ih =>
      intro chain form store hstore hchain
      cases form with
      | literal _ | quoted _ | flag _ => exact hstore
      | «variable» name =>
          rw [evalAt]
          split <;> exact hstore
      | call name forms =>
          exact rooted_evalCall (framed_evalAt levels) ih hstore hchain name forms

end ArityScript
