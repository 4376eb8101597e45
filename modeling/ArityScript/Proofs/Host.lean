import ArityScript.Proofs.Roots
import Mathlib.Data.List.Perm.Basic

/-!
# Hosts

A host makes environments, works in them and gives them up.  It may fork them,
open and leave scopes, store any value anywhere, and define and call methods.
Whatever it has done, each of its environments has a chain with one root, and no
two environments own the same root.
-/

namespace ArityScript

structure Host where
  store : Store
  envs : List Environment

/-- What a host does with one of its environments. -/
inductive Deed where
  | fork
  | enter
  | leave
  | assign (name : String) (value : Value)
  | register (name : String) (signature : Signature) (native : Native)
  /-- Makes a method, which may be stored in any environment then. -/
  | define (name : String) (parameters : List String) (body : Form)
  | eval (levels : Nat) (form : Form)
  | evaluate (comments : Bool) (source : String)
  | drop

inductive Command where
  | create
  /-- Does something with an environment, if there is one under this number. -/
  | act (index : Nat) (deed : Deed)

namespace Host

def start : Host :=
  ⟨.empty, []⟩

def perform (host : Host) (index : Nat) (env : Environment) : Deed → Host
  | .fork => ⟨host.store, host.envs ++ [env.fork]⟩
  | .enter =>
      match host.store.enter env.chain with
      | (chain, store) => ⟨store, host.envs.set index ⟨chain, env.owner⟩⟩
  | .leave => ⟨host.store, host.envs.set index ⟨env.chain.pop, env.owner⟩⟩
  | .assign name value => ⟨host.store.bind env.chain name value, host.envs⟩
  | .register name signature native =>
      ⟨host.store.register env.chain name ⟨signature, .native native⟩, host.envs⟩
  | .define name parameters body =>
      ⟨(host.store.define env.chain name parameters body).2, host.envs⟩
  | .eval levels form => ⟨(evalAt levels env.chain form host.store).2, host.envs⟩
  | .evaluate comments source =>
      ⟨(ArityScript.evaluate comments source env.chain host.store).2, host.envs⟩
  | .drop => ⟨env.drop host.store, host.envs.eraseIdx index⟩

def step (host : Host) : Command → Host
  | .create =>
      match Environment.create host.store with
      | (env, store) => ⟨store, host.envs ++ [env]⟩
  | .act index deed =>
      match host.envs[index]? with
      | none => host
      | some env => host.perform index env deed

def run (host : Host) (commands : List Command) : Host :=
  commands.foldl step host

end Host

/-! ## Owned roots -/

def Environment.ownedRoot? (env : Environment) : Option FrameId :=
  if env.owner then some env.chain.root else none

def ownedRoots (envs : List Environment) : List FrameId :=
  envs.filterMap Environment.ownedRoot?

theorem ownedRoots_set {envs : List Environment} {index : Nat} {env other : Environment}
    (henv : envs[index]? = some env) (hsame : other.ownedRoot? = env.ownedRoot?) :
    ownedRoots (envs.set index other) = ownedRoots envs := by
  induction envs generalizing index with
  | nil => rfl
  | cons first rest ih =>
      cases index with
      | zero =>
          obtain rfl : first = env := Option.some.inj henv
          simp [ownedRoots, List.filterMap_cons, hsame]
      | succ index =>
          have hrest : ownedRoots (rest.set index other) = ownedRoots rest := ih henv
          simp only [ownedRoots] at hrest
          simp only [ownedRoots, List.set_cons_succ, List.filterMap_cons, hrest]

/-- A store and environments whose chains have one root each, which is owned once
at most. -/
structure Host.Rooted (host : Host) : Prop where
  store : host.store.Rooted
  chain : ∀ env ∈ host.envs, env.chain.Rooted host.store
  nodup : (ownedRoots host.envs).Nodup

namespace Host

variable {host : Host}

theorem Rooted.changeStore (hhost : host.Rooted) {after : Store} (hafter : after.Rooted)
    (hkeeps : host.store.KeepsRoots after) : Rooted ⟨after, host.envs⟩ where
  store := hafter
  chain env hmem := (hhost.chain env hmem).mono hkeeps
  nodup := hhost.nodup

/-- An environment goes on with a chain of the same root. -/
theorem Rooted.changeChain (hhost : host.Rooted) {index : Nat} {env : Environment}
    (henv : host.envs[index]? = some env) {chain : Chain} (hchain : chain.Rooted host.store)
    (hroot : chain.root = env.chain.root) :
    Rooted ⟨host.store, host.envs.set index ⟨chain, env.owner⟩⟩ where
  store := hhost.store
  chain other hmem := by
    rcases List.mem_or_eq_of_mem_set hmem with hmem | rfl
    · exact hhost.chain other hmem
    · exact hchain
  nodup := by
    have hsame : Environment.ownedRoot? ⟨chain, env.owner⟩ = env.ownedRoot? := by
      simp only [Environment.ownedRoot?, hroot]
    rw [ownedRoots_set henv hsame]
    exact hhost.nodup

theorem Rooted.lt_size (hhost : host.Rooted) {root : FrameId}
    (hroot : root ∈ ownedRoots host.envs) : root < host.store.frames.size := by
  obtain ⟨env, hmem, howned⟩ := List.mem_filterMap.1 hroot
  have hchain := hhost.chain env hmem
  have hlt := hhost.store.root_lt _ _ (hchain _ env.chain.root_mem_frames)
  unfold Environment.ownedRoot? at howned
  split at howned
  · rwa [← Option.some.inj howned]
  · cases howned

theorem Rooted.fork (hhost : host.Rooted) {env : Environment} (hmem : env ∈ host.envs) :
    Rooted ⟨host.store, host.envs ++ [env.fork]⟩ where
  store := hhost.store
  chain other hother := by
    rcases List.mem_append.1 hother with hother | hother
    · exact hhost.chain other hother
    · rw [List.mem_singleton.1 hother]
      exact hhost.chain env hmem
  nodup := by
    have howned : ownedRoots (host.envs ++ [env.fork]) = ownedRoots host.envs := by
      simp [ownedRoots, Environment.ownedRoot?, Environment.fork]
    rw [howned]
    exact hhost.nodup

theorem Rooted.enter (hhost : host.Rooted) {index : Nat} {env : Environment}
    (henv : host.envs[index]? = some env) :
    Rooted ⟨(host.store.enter env.chain).2,
      host.envs.set index ⟨(host.store.enter env.chain).1, env.owner⟩⟩ := by
  have hchain := hhost.chain env (List.mem_of_getElem? henv)
  have hentered := hhost.changeStore (hhost.store.enter hchain)
    (Store.keepsRoots_addFrame env.chain.root)
  exact hentered.changeChain henv (Store.rooted_enter hchain) (Chain.root_push ..)

theorem Rooted.drop (hhost : host.Rooted) (index : Nat) (env : Environment) :
    Rooted ⟨env.drop host.store, host.envs.eraseIdx index⟩ := by
  have hstore : (env.drop host.store).Rooted ∧ host.store.KeepsRoots (env.drop host.store) := by
    unfold Environment.drop
    split
    · refine ⟨hhost.store.release _, fun frame root hroot => ?_⟩
      rwa [Store.root?_release]
    · exact ⟨hhost.store, fun frame root hroot => hroot⟩
  have hdropped := hhost.changeStore hstore.1 hstore.2
  have hsublist : (ownedRoots (host.envs.eraseIdx index)).Sublist (ownedRoots host.envs) :=
    (List.eraseIdx_sublist host.envs index).filterMap _
  exact ⟨hdropped.store, fun other hmem => hdropped.chain other (List.mem_of_mem_eraseIdx hmem),
    hhost.nodup.sublist hsublist⟩

theorem Rooted.create (hhost : host.Rooted) : (host.step .create).Rooted := by
  have hkeeps : host.store.KeepsRoots (host.store.addFrame host.store.frames.size).2 :=
    Store.keepsRoots_addFrame _
  have hstore := hhost.store.addFrame (Nat.le_refl host.store.frames.size)
  have hchanged := hhost.changeStore hstore hkeeps
  refine ⟨hchanged.store, ?_, ?_⟩
  · intro env hmem
    rcases List.mem_append.1 hmem with hmem | hmem
    · exact hchanged.chain env hmem
    · rw [List.mem_singleton.1 hmem]
      intro frame hframe
      rw [List.mem_singleton.1 hframe]
      exact (Store.root?_addFrame _ _).trans (if_pos rfl)
  · -- The new root is a frame that there was not, so that nobody owns it yet.
    have howned : ownedRoots (host.envs ++ [⟨⟨host.store.frames.size, []⟩, true⟩]) =
        ownedRoots host.envs ++ [host.store.frames.size] := by
      simp [ownedRoots, Environment.ownedRoot?, Chain.root]
    have hnew : host.store.frames.size ∉ ownedRoots host.envs := by
      intro hmem
      exact Nat.lt_irrefl _ (hhost.lt_size hmem)
    have hnodup : (ownedRoots (host.envs ++ [⟨⟨host.store.frames.size, []⟩, true⟩])).Nodup := by
      rw [howned, List.nodup_append]
      refine ⟨hhost.nodup, by simp, ?_⟩
      rintro root hroot _ hmem rfl
      rw [List.mem_singleton.1 hmem] at hroot
      exact hnew hroot
    exact hnodup

theorem Rooted.perform (hhost : host.Rooted) {index : Nat} {env : Environment}
    (henv : host.envs[index]? = some env) (deed : Deed) :
    (host.perform index env deed).Rooted := by
  have hmem := List.mem_of_getElem? henv
  have hchain := hhost.chain env hmem
  have hstore := hhost.store
  cases deed with
  | fork => exact hhost.fork hmem
  | enter => exact hhost.enter henv
  | leave => exact hhost.changeChain henv hchain.pop env.chain.root_pop
  | assign name value =>
      exact hhost.changeStore (hstore.bind env.chain name value)
        (host.store.evolves_bind env.chain name value).keepsRoots
  | register name signature native =>
      have hadded : (host.store.addMethod name ⟨signature, .native native⟩).2.Rooted := by
        refine hstore.addMethod name ?_
        intro form scope hbody
        cases hbody
      have hregistered := hadded.bind env.chain name (.method ⟨host.store.methods.size, name⟩)
      refine hhost.changeStore hregistered ?_
      intro frame root hroot
      exact (Store.root?_bind ..).trans hroot
  | define name parameters body =>
      exact hhost.changeStore (hstore.define hchain name parameters body) fun _ _ hroot => hroot
  | eval levels form =>
      exact hhost.changeStore (rooted_evalAt levels env.chain form host.store hstore hchain)
        (framed_evalAt levels env.chain form host.store).keepsRoots
  | evaluate comments source =>
      have hkeeps := (evolves_evaluate comments source env.chain host.store).keepsRoots
      refine hhost.changeStore ?_ hkeeps
      unfold ArityScript.evaluate
      split
      · exact hstore
      · exact rooted_evalAt maxEvalDepth env.chain _ host.store hstore hchain
  | drop => exact hhost.drop index env

theorem Rooted.step (hhost : host.Rooted) (command : Command) : (host.step command).Rooted := by
  cases command with
  | create => exact hhost.create
  | act index deed =>
      simp only [Host.step]
      split
      · exact hhost
      · next henv => exact hhost.perform henv deed

theorem Rooted.run (hhost : host.Rooted) (commands : List Command) :
    (host.run commands).Rooted := by
  induction commands generalizing host with
  | nil => exact hhost
  | cons command rest ih => exact ih (hhost.step command)

/-- Whatever a host has done, its store and its environments are in order. -/
theorem rooted_run_start (commands : List Command) : (start.run commands).Rooted := by
  have hstart : start.Rooted := by
    refine ⟨⟨?_, ?_⟩, ?_, ?_⟩ <;> simp [start, Store.empty, Store.root?, ownedRoots]
  exact hstart.run commands

theorem Rooted.root_ne (hhost : host.Rooted) {index : Nat} {env other : Environment}
    (henv : host.envs[index]? = some env) (howner : env.owner = true)
    (hmem : other ∈ host.envs.eraseIdx index) (hother : other.owner = true) :
    other.chain.root ≠ env.chain.root := by
  obtain ⟨hlt, rfl⟩ := List.getElem?_eq_some_iff.1 henv
  have hperm := (List.getElem_cons_eraseIdx_perm hlt).filterMap Environment.ownedRoot?
  have hnodup := hperm.nodup_iff.2 hhost.nodup
  have howned : host.envs[index].ownedRoot? = some host.envs[index].chain.root := if_pos howner
  rw [List.filterMap_cons_some howned, List.nodup_cons] at hnodup
  have hroot : other.chain.root ∈ ownedRoots (host.envs.eraseIdx index) :=
    List.mem_filterMap.2 ⟨other, hmem, if_pos hother⟩
  intro heq
  rw [heq] at hroot
  exact hnodup.1 hroot

end Host

end ArityScript
