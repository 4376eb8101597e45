import ArityScript.Proofs.Host
import ArityScript.Proofs.Registry

/-!
# Giving an environment up

When a host gives up an environment that owns its root, all frames that were made
on behalf of this root are empty, and nothing else has changed.  What has outlived
the owner, which are forks of it and chains that methods have captured, finds no
name until something is bound there again.  A host that gives up a fork changes
nothing.
-/

namespace ArityScript

/-- A store in which the frames of a root have been emptied. -/
structure Store.Released (root : FrameId) (before after : Store) : Prop where
  size_eq : after.frames.size = before.frames.size
  root_eq : ∀ frame, after.root? frame = before.root? frame
  emptied : ∀ frame, before.root? frame = some root → after.bindings frame = .empty
  kept : ∀ frame, before.root? frame ≠ some root → after.frames[frame]? = before.frames[frame]?
  methods_eq : after.methods = before.methods

/-- A registry of a root has one reference to each frame of the root that is alive,
and to empty what it refers to empties these frames, whenever frames have been freed. -/
def Store.ReleasedByRegistry (root : FrameId) (before after : Store) : Prop :=
  ∀ (grow : Nat → Nat) (lifetimes : Lifetimes),
    let registry := before.registry grow lifetimes root before.frames.size
    let alive := lifetimes.alive before.frames.size
    registry.entries.Nodup ∧
    ∀ frame, alive frame = true →
      (frame ∈ registry.entries ↔ before.root? frame = some root) ∧
      (registry.releaseAll alive before).frames[frame]? = after.frames[frame]?

def Deed.binds : Deed → Bool
  | .assign .. | .register .. | .eval .. | .evaluate .. => true
  | .fork | .enter | .leave | .define .. | .drop => false

namespace Host

/-- The frame in which a command may bind names. -/
def target? (host : Host) : Command → Option FrameId
  | .create => none
  | .act index deed =>
      if deed.binds then host.envs[index]?.map fun env => env.chain.innermost else none

/-- No command binds names in one of the frames. -/
def Spares (frames : List FrameId) : Host → List Command → Prop
  | _, [] => True
  | host, command :: rest =>
      (∀ frame ∈ frames, host.target? command ≠ some frame) ∧
        Spares frames (host.step command) rest

/-- A chain in which names can be looked up: that of an environment, or one that a
method has captured. -/
def Holds (host : Host) (chain : Chain) : Prop :=
  (∃ env ∈ host.envs, env.chain = chain) ∨
    ∃ method ∈ host.store.methods, ∃ form, method.body = .defined form chain

theorem Rooted.holds {host : Host} (hhost : host.Rooted) {chain : Chain}
    (hholds : host.Holds chain) : chain.Rooted host.store := by
  rcases hholds with ⟨env, hmem, rfl⟩ | ⟨method, hmem, form, hbody⟩
  · exact hhost.chain env hmem
  · exact hhost.store.scope method hmem form chain hbody

end Host

namespace Store

variable {store : Store} {chain : Chain}

theorem released_release (root : FrameId) : store.Released root (store.release root) where
  size_eq := by simp [release]
  root_eq := root?_release root
  emptied frame hroot := by
    rw [bindings, release_frames, if_pos hroot]
    cases store.frames[frame]? <;> rfl
  kept frame hroot := by rw [release_frames, if_neg hroot]
  methods_eq := rfl

theorem lookup_eq_none (hempty : ∀ frame ∈ chain.frames, store.bindings frame = .empty)
    (name : String) : store.lookup chain name = none := by
  rw [lookup, lookupIn, List.findSome?_eq_none_iff]
  intro frame hmem
  rw [hempty frame hmem, NameMap.find?_empty]

theorem lookupIn_congr {before after : Store} {frames : List FrameId}
    (hsame : ∀ frame ∈ frames, after.frames[frame]? = before.frames[frame]?) (name : String) :
    after.lookupIn name frames = before.lookupIn name frames := by
  induction frames with
  | nil => rfl
  | cons frame rest ih =>
      have hfirst := bindings_eq (hsame frame List.mem_cons_self)
      have hrest := ih fun other hmem => hsame other (List.mem_cons_of_mem frame hmem)
      simp only [lookupIn, List.findSome?_cons, hfirst] at hrest ⊢
      rw [hrest]

theorem lookup_bind_of_empty (hempty : ∀ frame ∈ chain.frames, store.bindings frame = .empty)
    (hexists : chain.innermost < store.frames.size) (name : String) (value : Value)
    (other : String) :
    (store.bind chain name value).lookup chain other =
      if name = other then some value else none := by
  have hinnermost : ((store.bind chain name value).bindings chain.innermost).find? other =
      if name = other then some value else none := by
    rw [bindings_bind_innermost name value hexists, hempty _ List.mem_cons_self]
    exact NameMap.find?_insert ..
  by_cases hname : name = other
  · rw [if_pos hname] at hinnermost ⊢
    simp only [lookup, lookupIn, Chain.frames, List.findSome?_cons, hinnermost]
  · rw [if_neg hname] at hinnermost ⊢
    rw [lookup, lookupIn, List.findSome?_eq_none_iff]
    intro frame hmem
    by_cases hframe : frame = chain.innermost
    · rw [hframe, hinnermost]
    · have hsame : (store.bind chain name value).frames[frame]? = store.frames[frame]? := by
        simp [bind, Array.getElem?_modify, Ne.symm hframe]
      rw [bindings_eq hsame, hempty frame hmem, NameMap.find?_empty]

end Store

theorem Environment.released_drop {env : Environment} (howner : env.owner = true)
    (store : Store) : store.Released env.chain.root (env.drop store) := by
  rw [drop, if_pos howner]
  exact Store.released_release env.chain.root

namespace Host

variable {host : Host} {frame : FrameId}

/-- Unless an environment is given up, a command changes no frame but the one in
which it may bind names. -/
theorem keeps_step {command : Command} (hdrop : ∀ index, command ≠ .act index .drop) :
    host.store.Keeps (fun frame => host.target? command ≠ some frame)
      (host.step command).store := by
  have hsame : ∀ {after : Store}, host.store.Extends after →
      host.store.Keeps (fun frame => host.target? command ≠ some frame) after :=
    fun hextends => hextends.imp fun _ _ _ => trivial
  cases command with
  | create => exact hsame (host.store.extends_enter ⟨host.store.frames.size, []⟩)
  | act index deed =>
      simp only [step]
      cases henv : host.envs[index]? with
      | none => exact Store.Keeps.refl _ host.store
      | some env =>
          have htarget : ∀ {after : Store}, deed.binds = true →
              host.store.Evolves env.chain.innermost after →
              host.store.Keeps (fun frame => host.target? (.act index deed) ≠ some frame)
                after := by
            intro after hbinds hevolves
            refine hevolves.toKeeps.imp fun frame _ hspared hinnermost => hspared ?_
            rw [target?, if_pos hbinds, henv, hinnermost]
            rfl
          cases deed with
          | fork | leave => exact Store.Keeps.refl _ host.store
          | enter => exact hsame (host.store.extends_enter env.chain)
          | define name parameters body =>
              exact hsame (host.store.extends_define env.chain name parameters body)
          | assign name value => exact htarget rfl (host.store.evolves_bind env.chain name value)
          | register name signature native =>
              have hadded := host.store.extends_addMethod name ⟨signature, .native native⟩
              exact htarget rfl (hadded.evolves.trans (Store.evolves_bind ..))
          | eval levels form => exact htarget rfl (framed_evalAt levels env.chain form host.store)
          | evaluate comments source =>
              exact htarget rfl (evolves_evaluate comments source env.chain host.store)
          | drop => exact absurd rfl (hdrop index)

theorem bindings_step_eq_empty {command : Command} (hframe : frame < host.store.frames.size)
    (hempty : host.store.bindings frame = .empty) (hspared : host.target? command ≠ some frame) :
    frame < (host.step command).store.frames.size ∧
      (host.step command).store.bindings frame = .empty := by
  by_cases hdrop : ∃ index, command = .act index .drop
  · obtain ⟨index, rfl⟩ := hdrop
    simp only [step]
    split
    · exact ⟨hframe, hempty⟩
    · next env _ =>
        simp only [perform]
        by_cases howner : env.owner = true
        · have hreleased := env.released_drop howner host.store
          refine ⟨hreleased.size_eq ▸ hframe, ?_⟩
          by_cases hroot : host.store.root? frame = some env.chain.root
          · exact hreleased.emptied frame hroot
          · rw [Store.bindings_eq (hreleased.kept frame hroot), hempty]
        · rw [Environment.drop, if_neg howner]
          exact ⟨hframe, hempty⟩
  · have hkeeps := host.keeps_step (not_exists.1 hdrop)
    refine ⟨Nat.lt_of_lt_of_le hframe hkeeps.frames_size_le, ?_⟩
    rw [hkeeps.bindings_eq hframe hspared, hempty]

theorem bindings_run_eq_empty {frames : List FrameId} {commands : List Command}
    (hspares : host.Spares frames commands) (hmem : frame ∈ frames)
    (hframe : frame < host.store.frames.size) (hempty : host.store.bindings frame = .empty) :
    (host.run commands).store.bindings frame = .empty := by
  induction commands generalizing host with
  | nil => exact hempty
  | cons command rest ih =>
      obtain ⟨hspared, hrest⟩ := hspares
      obtain ⟨hexists, hstill⟩ := bindings_step_eq_empty hframe hempty (hspared frame hmem)
      exact ih hrest hexists hstill

/-- When a host gives up an environment, the environments and methods that are
left are the same as before, and so are their chains.  If it was an owner, then

* the frames of its root have been emptied, and no others have changed; a registry
  of the root would have found all of them that are alive;
* other owners have other roots, and what is found in chains with other roots is
  the same as before;
* a chain with its root consists of frames of this root, in which no name is found
  until one is bound there, and then it is the only one.

If it was not an owner, nothing has changed in the store. -/
theorem drop_releases (commands : List Command) (index : Nat) (env : Environment)
    (henv : (start.run commands).envs[index]? = some env) :
    let before := start.run commands
    let after := before.step (.act index .drop)
    after.envs = before.envs.eraseIdx index ∧ after.store.methods = before.store.methods ∧
    (env.owner = true →
      before.store.Released env.chain.root after.store ∧
      before.store.ReleasedByRegistry env.chain.root after.store ∧
      (∀ other ∈ after.envs, other.owner = true → other.chain.root ≠ env.chain.root) ∧
      (∀ chain, after.Holds chain → chain.root ≠ env.chain.root → ∀ name,
        after.store.lookup chain name = before.store.lookup chain name) ∧
      ∀ chain, after.Holds chain → chain.root = env.chain.root →
        (∀ frame ∈ chain.frames, before.store.root? frame = some env.chain.root) ∧
        (∀ later, after.Spares chain.frames later → ∀ name,
          (after.run later).store.lookup chain name = none) ∧
        ∀ name value other, (after.store.bind chain name value).lookup chain other =
          if name = other then some value else none) ∧
    (env.owner = false → after.store = before.store) := by
  have hrooted := rooted_run_start commands
  have hafter := hrooted.step (.act index .drop)
  have hstep : (start.run commands).step (.act index .drop) =
      ⟨env.drop (start.run commands).store, (start.run commands).envs.eraseIdx index⟩ := by
    simp only [step, henv, perform]
  intro before after
  change before.step (.act index .drop) = _ at hstep
  have henvs : after.envs = before.envs.eraseIdx index := congrArg Host.envs hstep
  have hstore : after.store = env.drop before.store := congrArg Host.store hstep
  refine ⟨henvs, ?_, ?_, ?_⟩
  · rw [hstore, Environment.drop]
    split <;> rfl
  · intro howner
    have hreleased : before.store.Released env.chain.root after.store :=
      hstore ▸ env.released_drop howner before.store
    have hregistry : before.store.ReleasedByRegistry env.chain.root after.store := by
      intro grow lifetimes
      refine ⟨Store.nodup_registry _, fun frame halive => ?_⟩
      rw [hstore, Environment.drop, if_pos howner]
      exact ⟨Store.mem_registry_iff halive, Store.releaseAll_frames halive⟩
    -- The chains that are left have one root each, which they had before.
    have hroots : ∀ chain, after.Holds chain → ∀ frame ∈ chain.frames,
        before.store.root? frame = some chain.root := by
      intro chain hholds frame hmem
      rw [← hreleased.root_eq frame]
      exact hafter.holds hholds frame hmem
    refine ⟨hreleased, hregistry, ?_, ?_, ?_⟩
    · rw [henvs]
      exact fun other => hrooted.root_ne henv howner
    · intro chain hholds hother name
      refine Store.lookupIn_congr (fun frame hmem => hreleased.kept frame ?_) name
      rw [hroots chain hholds frame hmem]
      exact fun hsame => hother (Option.some.inj hsame)
    · intro chain hholds hroot
      have hframes := hroots chain hholds
      rw [hroot] at hframes
      have hexists : ∀ frame ∈ chain.frames, frame < after.store.frames.size :=
        fun frame hmem => Store.lt_size_of_root? (hafter.holds hholds frame hmem)
      have hempty : ∀ frame ∈ chain.frames, after.store.bindings frame = .empty :=
        fun frame hmem => hreleased.emptied frame (hframes frame hmem)
      refine ⟨hframes, ?_, ?_⟩
      · intro later hspares
        exact Store.lookup_eq_none fun frame hmem =>
          bindings_run_eq_empty hspares hmem (hexists frame hmem) (hempty frame hmem)
      · exact Store.lookup_bind_of_empty hempty (hexists _ List.mem_cons_self)
  · intro howner
    rw [hstore, Environment.drop, howner]
    rfl

/-- An environment is forked, a method is made in a scope of it, and another
environment stores this method. -/
theorem drop_releases_fork :
    let commands : List Command := [.create, .act 0 (.assign "x" (.number 1)), .act 0 .enter,
      .act 0 (.define "m" [] (.variable "x")), .act 0 .leave, .act 0 .fork, .create,
      .act 2 (.assign "m" (.method ⟨0, "m"⟩))]
    let before := start.run commands
    let after := before.step (.act 0 .drop)
    before.envs[0]? = some ⟨⟨0, []⟩, true⟩ ∧
    before.store.lookup ⟨1, [0]⟩ "x" = some (.number 1) ∧
    (∀ name, after.store.lookup ⟨0, []⟩ name = none) ∧
    (∀ name, after.store.lookup ⟨1, [0]⟩ name = none) ∧
    after.store.lookup ⟨2, []⟩ "m" = some (.method ⟨0, "m"⟩) := by
  intro commands before after
  have henv : before.envs[0]? = some ⟨⟨0, []⟩, true⟩ := rfl
  obtain ⟨-, -, howner, -⟩ := drop_releases commands 0 ⟨⟨0, []⟩, true⟩ henv
  obtain ⟨-, -, -, hother, hsame⟩ := howner rfl
  have hfork : after.Holds ⟨0, []⟩ := .inl ⟨⟨⟨0, []⟩, false⟩, List.mem_cons_self, rfl⟩
  have hmethod : after.store.methods[0]? =
      some ⟨.ofRequired [], .defined (.variable "x") ⟨1, [0]⟩⟩ := rfl
  have hscope : after.Holds ⟨1, [0]⟩ := .inr ⟨_, Array.mem_of_getElem? hmethod, _, rfl⟩
  have hsecond : after.Holds ⟨2, []⟩ :=
    .inl ⟨⟨⟨2, []⟩, true⟩, List.mem_cons_of_mem _ List.mem_cons_self, rfl⟩
  refine ⟨henv, rfl, ?_, ?_, ?_⟩
  · exact (hsame ⟨0, []⟩ hfork rfl).2.1 [] trivial
  · exact (hsame ⟨1, [0]⟩ hscope rfl).2.1 [] trivial
  · exact hother ⟨2, []⟩ hsecond (by decide) "m"

end Host

end ArityScript
