import ArityScript.Proofs.Binding.Arity
import ArityScript.Proofs.Noninterference

/-!
# What an evaluation relies on

A store supports an evaluation if all that the evaluation can reach is there and
the native methods among it do not depend on numbers.  All that is reached then
corresponds to itself, in the store and in every one that extends it.  What an
evaluation leaves behind supports whatever goes on from its result, so that a
scope once supported stays so.
-/

namespace ArityScript

variable {pairs : Correspondence} {store store' after : Store} {roots : Item → Prop}

/-! ## Presence -/

/-- A store has the frame or the method of a number. -/
def Store.Has (store : Store) : Item → Prop
  | .frame id => id < store.frames.size
  | .method id => id < store.methods.size
  | .value _ => True
  | .form _ => True

theorem Store.Has.agreesOn {item : Item} (hhas : store.Has item)
    (hextends : store.Extends after) : store.AgreesOn after item := by
  cases item with
  | frame id =>
      exact ⟨hhas, Nat.lt_of_lt_of_le hhas hextends.frames_size_le,
        hextends.bindings_eq hhas trivial⟩
  | method id =>
      have hmethod : store.methods[id]? = some store.methods[id] :=
        Array.getElem?_eq_getElem hhas
      exact ⟨_, hmethod, (hextends.method_eq id hhas).trans hmethod⟩
  | value v => trivial
  | form f => trivial

theorem Store.Has.mono {kept : FrameId → Prop} (hkeeps : store.Keeps kept after) {item : Item}
    (hhas : store.Has item) : after.Has item := by
  cases item with
  | frame id => exact Nat.lt_of_lt_of_le hhas hkeeps.frames_size_le
  | method id => exact Nat.lt_of_lt_of_le hhas hkeeps.methods_size_le
  | value v => trivial
  | form f => trivial

/-- All that is reached exists, and the native methods that are reached are
standard ones or other uniform ones. -/
structure Store.Supports (store : Store) (roots : Item → Prop) : Prop where
  has : ∀ item, store.Reachable roots item → store.Has item
  native : ∀ id method program, store.Reachable roots (.method id) →
    store.methods[id]? = some method → method.body = .native program →
    (∃ entry ∈ Builtin.methods, entry.2.2 = program) ∨ program.Uniform

theorem Store.Supports.mono {fewer : Item → Prop} (hsupports : store.Supports roots)
    (hroots : ∀ item, fewer item → store.Reachable roots item) : store.Supports fewer where
  has item hitem :=
    hsupports.has item (hitem.of_closed (store.closed_reachable roots) hroots)
  native id method program hitem :=
    hsupports.native id method program (hitem.of_closed (store.closed_reachable roots) hroots)

/-- What a supporting store reaches corresponds to itself in every store that
extends it. -/
theorem Store.Supports.related (hsupports : store.Supports roots)
    (hextends : store.Extends after) :
    store.Related (.identity (store.Reachable roots)) after := by
  refine Store.related_identity (store.closed_reachable roots)
    (fun item hitem => (hsupports.has item hitem).agreesOn hextends) ?_
  intro id method program hid hmethod hbody
  rcases hsupports.native id method program hid hmethod hbody with ⟨entry, hmem, rfl⟩ | huniform
  · exact Builtin.uniform_of_mem entry hmem
  · exact huniform

/-! ## What has a partner -/

/-- Whatever has a partner in a correspondence. -/
def Correspondence.Covers (pairs : Correspondence) : Item → Prop
  | .frame a => ∃ b, pairs.frames a b
  | .method a => ∃ b, pairs.methods a b
  | .value v => ∃ w, v.Related pairs w
  | .form f => ∃ g, f.Related pairs g

theorem Correspondence.Covers.mono {more : Correspondence} (hle : pairs ≤ more) {item : Item}
    (hcovers : pairs.Covers item) : more.Covers item := by
  cases item with
  | frame a => exact hcovers.imp (hle.1 a)
  | method a => exact hcovers.imp (hle.2 a)
  | value v => exact hcovers.imp fun _ hrelated => hrelated.mono hle
  | form f => exact hcovers.imp fun _ hrelated => hrelated.mono hle

theorem Correspondence.covers_identity {reached : Item → Prop}
    (hclosed : store.Closed reached) {item : Item} (hitem : reached item) :
    (Correspondence.identity reached).Covers item := by
  cases item with
  | frame a => exact ⟨a, rfl, hitem⟩
  | method a => exact ⟨a, rfl, hitem⟩
  | value v => exact ⟨v, Value.related_identity hclosed hitem⟩
  | form f => exact ⟨f, Form.related_identity hclosed hitem⟩

theorem exists_of_forall₂ {α β : Type} {related : α → β → Prop} {left : List α}
    {right : List β} (hrelated : List.Forall₂ related left right) {a : α} (hmem : a ∈ left) :
    ∃ b, related a b := by
  have hpartner := hrelated.imp fun a b hab => And.intro (Exists.intro b hab) hab
  exact ((List.forall₂_and_left left right).1 hpartner).1 a hmem

theorem Store.Related.exists_method (hstores : store.Related pairs store') {id : Nat}
    (hcovers : pairs.Covers (.method id)) {method : Method}
    (hmethod : store.methods[id]? = some method) : ∃ method', method.Related pairs method' := by
  obtain ⟨b, hab⟩ := hcovers
  obtain ⟨found, method', hfound, _, hrelated⟩ := hstores.method id b hab
  obtain rfl := Option.some.inj (hmethod.symm.trans hfound)
  exact ⟨method', hrelated⟩

theorem Body.Related.exists_of_defined {form : Form} {scope : Chain} {body : Body}
    (hbody : (Body.defined form scope).Related pairs body) :
    ∃ form' scope', form.Related pairs form' ∧ scope.Related pairs scope' := by
  cases hbody with
  | defined hform hscope => exact ⟨_, _, hform, hscope⟩

theorem Body.Related.uniform {program : Native} {body : Body}
    (hbody : (Body.native program).Related pairs body) : program.Uniform := by
  cases hbody with
  | native huniform => exact huniform

/-- What is referred to by something with a partner has a partner itself. -/
theorem Store.Related.closed_covers (hstores : store.Related pairs store') :
    store.Closed pairs.Covers := by
  intro item next hcovers hrefers
  cases hrefers with
  | binding hmem =>
      obtain ⟨b, hab⟩ := hcovers
      obtain ⟨entry, hentry⟩ := exists_of_forall₂ (hstores.frame _ b hab).2.2 hmem
      exact ⟨entry.2, hentry.2⟩
  | item hmem =>
      obtain ⟨w, hw⟩ := hcovers
      cases w <;> simp only [Value.Related] at hw
      exact exists_of_forall₂ (Value.allRelated_iff.1 hw) hmem
  | data =>
      obtain ⟨w, hw⟩ := hcovers
      cases w <;> simp only [Value.Related] at hw
      exact ⟨_, hw⟩
  | reference =>
      obtain ⟨w, hw⟩ := hcovers
      cases w <;> simp only [Value.Related] at hw
      exact ⟨_, hw.1⟩
  | literal =>
      obtain ⟨g, hg⟩ := hcovers
      cases g <;> simp only [Form.Related] at hg
      exact ⟨_, hg⟩
  | quoted =>
      obtain ⟨g, hg⟩ := hcovers
      cases g <;> simp only [Form.Related] at hg
      exact ⟨_, hg⟩
  | argument hmem =>
      obtain ⟨g, hg⟩ := hcovers
      cases g <;> simp only [Form.Related] at hg
      exact exists_of_forall₂ (Form.allRelated_iff.1 hg.2) hmem
  | default hmethod hmem =>
      obtain ⟨_, hrelated⟩ := hstores.exists_method hcovers hmethod
      obtain ⟨option, hoption⟩ := exists_of_forall₂ hrelated.signature.optional hmem
      exact ⟨option.default, hoption.default⟩
  | body hmethod hbody =>
      obtain ⟨_, hrelated⟩ := hstores.exists_method hcovers hmethod
      obtain ⟨form, _, hform, _⟩ := (hbody ▸ hrelated.body).exists_of_defined
      exact ⟨form, hform⟩
  | captured hmethod hbody hmem =>
      obtain ⟨_, hrelated⟩ := hstores.exists_method hcovers hmethod
      obtain ⟨_, scope, _, hscope⟩ := (hbody ▸ hrelated.body).exists_of_defined
      exact exists_of_forall₂ hscope.frames hmem

/-- A store that corresponds to another one supports whatever has a partner. -/
theorem Store.Related.supports (hstores : store.Related pairs store')
    (hroots : ∀ item, roots item → pairs.Covers item) : store.Supports roots where
  has item hitem := by
    have hcovers := hitem.of_closed hstores.closed_covers hroots
    cases item with
    | frame a =>
        obtain ⟨b, hab⟩ := hcovers
        exact (hstores.frame a b hab).1
    | method a =>
        obtain ⟨b, hab⟩ := hcovers
        obtain ⟨method, _, hmethod, _⟩ := hstores.method a b hab
        exact (Array.getElem?_eq_some_iff.1 hmethod).1
    | value v => trivial
    | form f => trivial
  native id method program hitem hmethod hbody := by
    have hcovers := hitem.of_closed hstores.closed_covers hroots
    obtain ⟨_, hrelated⟩ := hstores.exists_method hcovers hmethod
    exact .inr (hbody ▸ hrelated.body).uniform

/-! ## Evaluation -/

/-- What an evaluation starts from: the frames of its scope, its forms, and the
values that it uses. -/
def evalRoots (chain : Chain) (forms : List Form) (values : List Value) : Item → Prop
  | .frame id => id ∈ chain.frames
  | .method _ => False
  | .value v => v ∈ values
  | .form f => f ∈ forms

section

variable {chain chain' : Chain} {forms : List Form} {values : List Value}

theorem Store.Related.supports_evalRoots (hstores : store.Related pairs store')
    (hchain : chain.Related pairs chain') (hforms : ∀ f ∈ forms, pairs.Covers (.form f))
    (hvalues : ∀ v ∈ values, pairs.Covers (.value v)) :
    store.Supports (evalRoots chain forms values) := by
  refine hstores.supports fun item hroot => ?_
  cases item with
  | frame a => exact exists_of_forall₂ hchain.frames hroot
  | method a => exact hroot.elim
  | value v => exact hvalues v hroot
  | form f => exact hforms f hroot

theorem Chain.related_reachable :
    chain.Related (.identity (store.Reachable (evalRoots chain forms values))) chain :=
  Chain.related_identity fun _ hmem => .root hmem

theorem Form.related_reachable {f : Form} (hmem : f ∈ forms) :
    f.Related (.identity (store.Reachable (evalRoots chain forms values))) f :=
  Form.related_identity (store.closed_reachable _) (.root hmem)

/-- An evaluation leaves a store that supports all that the one before it did, and
also its result. -/
theorem Store.Supports.evalAt (hsupports : store.Supports (evalRoots chain forms values))
    {f : Form} (hmem : f ∈ forms) (levels : Nat) :
    (evalAt levels chain f store).2.Supports (evalRoots chain forms values) ∧
      ∀ v, (evalAt levels chain f store).1 = .ok v →
        (evalAt levels chain f store).2.Supports (evalRoots chain forms (v :: values)) := by
  obtain ⟨more, hgrows, _, _, hresult, hafter⟩ := simulates_evalAt levels
    Chain.related_reachable (Form.related_reachable hmem)
    (hsupports.related (Store.Keeps.refl _ store))
  have hcovers : ∀ item, evalRoots chain forms values item → more.Covers item :=
    fun item hroot =>
      (Correspondence.covers_identity (store.closed_reachable _) (.root hroot)).mono hgrows.le
  have hchain : chain.Related more chain := Chain.related_reachable.mono hgrows.le
  refine ⟨hafter.supports hcovers, fun v hvalue => ?_⟩
  refine hafter.supports_evalRoots hchain (fun g => hcovers (.form g)) fun w hmem => ?_
  rcases List.mem_cons.1 hmem with rfl | hmem
  · rw [hvalue] at hresult
    cases hresult with
    | ok hrelated => exact ⟨_, hrelated⟩
  · exact hcovers (.value w) hmem

end

/-! ## Sources -/

/-- A form that a source denotes holds no methods. -/
theorem Form.related_of_quoted {signatures : Signatures} {f : Form}
    (hconsistent : (Form.quoted f).ArityConsistent signatures) : f.Related pairs f := by
  induction f using Form.induction_on with
  | literal v =>
      simp only [Form.ArityConsistent] at hconsistent
      cases v <;> simp [Value.tokenKind?] at hconsistent <;> simp [Form.Related, Value.Related]
  | named name => simp only [Form.Related]
  | quoted f ih =>
      simp only [Form.ArityConsistent] at hconsistent
      simp only [Form.Related]
      exact ih hconsistent
  | call method arguments ih =>
      simp only [Form.Related, Form.allRelated_iff, true_and]
      cases arguments with
      | nil => exact .nil
      | cons first rest =>
          simp only [Form.ArityConsistent] at hconsistent
          obtain ⟨signature, _, harguments⟩ := hconsistent
          refine List.forall₂_same.2 fun f hmem => ?_
          rcases harguments.arityConsistent f hmem with hflag | hf
          · obtain ⟨name, rfl⟩ := Form.eq_flag_of_isFlag hflag
            simp only [Form.Related]
          · exact ih f hmem (Reader.arityConsistent_quoted hf)
  | flag name => simp only [Form.Related]

theorem Form.related_of_parse {signatures : Signatures} {comments : Bool} {source : String}
    {f : Form} (hparse : parse signatures comments source = .ok f) : f.Related pairs f := by
  obtain ⟨_, _, _, _, hconsistent, _⟩ := exists_layout_of_parse hparse
  exact Form.related_of_quoted (Reader.arityConsistent_quoted hconsistent)

/-- A supported scope also supports what a source denotes. -/
theorem Store.Supports.parse {chain : Chain} {forms : List Form} {values : List Value}
    (hsupports : store.Supports (evalRoots chain forms values)) {comments : Bool}
    {source : String} {f : Form}
    (hparse : parse (store.signatures chain) comments source = .ok f) :
    store.Supports (evalRoots chain (f :: forms) values) := by
  refine (hsupports.related (.refl _ store)).supports_evalRoots Chain.related_reachable
    (fun g hmem => ?_) fun v hmem => ?_
  · rcases List.mem_cons.1 hmem with rfl | hmem
    · exact ⟨_, Form.related_of_parse hparse⟩
    · exact ⟨g, Form.related_reachable hmem⟩
  · exact ⟨v, Value.related_identity (store.closed_reachable _) (.root hmem)⟩

/-! ## The global environment -/

/-- All that anything in a store refers to is in it, and its native methods do not
depend on numbers. -/
def Store.Complete (store : Store) : Prop :=
  store.Related (.identity store.Has) store

theorem Correspondence.identity_le {reached more : Item → Prop}
    (hreached : ∀ item, reached item → more item) :
    Correspondence.identity reached ≤ .identity more :=
  ⟨fun _ _ h => ⟨h.1, hreached _ h.2⟩, fun _ _ h => ⟨h.1, hreached _ h.2⟩⟩

namespace Store.Complete

theorem empty : Store.empty.Complete where
  frame a _ hab := absurd hab.2 (Nat.not_lt_zero a)
  method a _ hab := absurd hab.2 (Nat.not_lt_zero a)

/-- A complete store stays so if what is added is complete. -/
theorem of_extends (hcomplete : store.Complete) (hextends : store.Extends after)
    (hframes : ∀ a, store.frames.size ≤ a → a < after.frames.size →
      (after.bindings a).Related (.identity after.Has) (after.bindings a))
    (hmethods : ∀ id method, store.methods.size ≤ id → after.methods[id]? = some method →
      method.Related (.identity after.Has) method) : after.Complete where
  frame := by
    rintro a _ ⟨rfl, ha⟩
    refine ⟨ha, ha, ?_⟩
    by_cases hold : a < store.frames.size
    · rw [hextends.bindings_eq hold trivial]
      have hbindings := (hcomplete.frame a a ⟨rfl, hold⟩).2.2
      exact hbindings.mono (Correspondence.identity_le fun item => Has.mono hextends)
    · exact hframes a (Nat.not_lt.1 hold) ha
  method := by
    rintro id _ ⟨rfl, hid⟩
    have hfound : after.methods[id]? = some after.methods[id] := Array.getElem?_eq_getElem hid
    refine ⟨_, _, hfound, hfound, ?_⟩
    by_cases hold : id < store.methods.size
    · obtain ⟨method, method', hmethod, hmethod', hrelated⟩ :=
        hcomplete.method id id ⟨rfl, hold⟩
      rw [hextends.method_eq id hold] at hfound
      obtain rfl := Option.some.inj (hmethod.symm.trans hfound)
      obtain rfl := Option.some.inj (hmethod'.symm.trans hfound)
      exact hrelated.mono (Correspondence.identity_le fun item => Has.mono hextends)
    · exact hmethods id _ (Nat.not_lt.1 hold) hfound

theorem addFrame (hcomplete : store.Complete) (root : FrameId) :
    (store.addFrame root).2.Complete := by
  apply hcomplete.of_extends (store.extends_enter ⟨root, []⟩)
  · intro a hold hnew
    obtain rfl : a = store.frames.size := by
      simp only [enter, Store.addFrame, Array.size_push] at hnew
      omega
    simp only [bindings, enter, Store.addFrame, Array.getElem?_push_size]
    exact NameMap.related_empty _
  · intro id method hold hmethod
    simp only [enter, Store.addFrame, Array.getElem?_eq_none hold] at hmethod
    cases hmethod

theorem addMethod (hcomplete : store.Complete) (name : String) {method : Method}
    (hmethod : method.Related (.identity store.Has) method) :
    (store.addMethod name method).2.Complete := by
  have hextends := store.extends_addMethod name method
  apply hcomplete.of_extends hextends
  · intro a hold hnew
    exact absurd hnew (Nat.not_lt.2 hold)
  · intro id found hold hfound
    obtain ⟨rfl⟩ : found = method := by
      simp only [Store.addMethod, Array.getElem?_push] at hfound
      split at hfound
      · exact (Option.some.inj hfound).symm
      · simp [Array.getElem?_eq_none hold] at hfound
    exact hmethod.mono (Correspondence.identity_le fun item => Has.mono hextends)

theorem bind (hcomplete : store.Complete) {chain : Chain}
    (hchain : ∀ frame ∈ chain.frames, frame < store.frames.size) (name : String) {v : Value}
    (hv : v.Related (.identity store.Has) v) : (store.bind chain name v).Complete := by
  have hbound := Store.Related.bind hcomplete (Chain.related_identity hchain) name hv
  have hhas : (store.bind chain name v).Has = store.Has := by
    funext item
    cases item <;> simp [Has, Store.bind]
  rwa [Complete, hhas]

/-- A native method that does not depend on numbers may be registered. -/
theorem register (hcomplete : store.Complete) {chain : Chain}
    (hchain : ∀ frame ∈ chain.frames, frame < store.frames.size) (name : String)
    {method : Method} (hmethod : method.Related (.identity store.Has) method) :
    (store.register chain name method).Complete := by
  have hadded := hcomplete.addMethod name hmethod
  refine hadded.bind hchain name ?_
  simp only [Value.Related, and_true]
  exact ⟨rfl, by simp [Has, Store.addMethod]⟩

end Store.Complete

namespace Builtin

theorem complete_registerAll {entries : List (String × Signature × Native)}
    (hentries : ∀ entry ∈ entries, ∀ pairs : Correspondence,
      Method.Related pairs ⟨entry.2.1, .native entry.2.2⟩ ⟨entry.2.1, .native entry.2.2⟩)
    {chain : Chain} (hchain : ∀ frame ∈ chain.frames, frame < store.frames.size)
    (hstore : store.Complete) :
    (entries.foldl (registerNative chain) store).Complete ∧
      (entries.foldl (registerNative chain) store).frames.size = store.frames.size := by
  induction entries generalizing store with
  | nil => exact ⟨hstore, rfl⟩
  | cons entry rest ih =>
      have hregistered := hstore.register hchain entry.1 (hentries entry (by simp) _)
      have hsize : (registerNative chain store entry).frames.size = store.frames.size := by
        simp [registerNative, Store.register, Store.addMethod, Store.bind]
      rw [List.foldl_cons, ← hsize]
      exact ih (fun other hmem => hentries other (by simp [hmem])) (by rwa [hsize]) hregistered

theorem related_methods (pairs : Correspondence) : ∀ entry ∈ methods,
    Method.Related pairs ⟨entry.2.1, .native entry.2.2⟩ ⟨entry.2.1, .native entry.2.2⟩ := by
  have hdefault : ∀ entry ∈ methods, ∀ option ∈ entry.2.1.optional,
      option.default.Related pairs option.default := by
    simp [methods, operands, Signature.ofRequired, Signature.ofRest, Signature.withOption,
      Value.Related]
  intro entry hmem
  have hoptional := List.forall₂_same.2 fun option hoption =>
    OptionalParameter.Related.mk rfl (hdefault entry hmem option hoption)
  exact ⟨⟨rfl, hoptional, rfl⟩, .native (uniform_of_mem entry hmem)⟩

/-- The global environment is complete, and so its scope is supported. -/
theorem supports_createGlobal :
    (createGlobal .empty).2.Supports (evalRoots (createGlobal .empty).1.chain [] []) := by
  have hroot := Store.Complete.empty.addFrame Store.empty.frames.size
  have hchain : ∀ frame ∈ (createGlobal .empty).1.chain.frames,
      frame < (Store.empty.addFrame Store.empty.frames.size).2.frames.size := by
    intro frame hmem
    obtain rfl := List.mem_singleton.1 hmem
    exact Nat.zero_lt_one
  obtain ⟨hregistered, hsize⟩ := complete_registerAll
    (fun entry hmem pairs => related_methods pairs entry hmem) hchain hroot
  rw [← hsize] at hchain
  have hcomplete : (createGlobal .empty).2.Complete := by
    refine hregistered.bind hchain placeholderName ?_
    simp only [Value.Related]
  have hpresent : ∀ frame ∈ (createGlobal .empty).1.chain.frames,
      (createGlobal .empty).2.Has (.frame frame) := fun frame hmem =>
    .mono (Store.evolves_bind _ _ placeholderName .placeholder).toKeeps (hchain frame hmem)
  exact Store.Related.supports_evalRoots hcomplete (Chain.related_identity hpresent) (by simp)
    (by simp)

end Builtin

/-! ## What is reached from the global environment -/

/-- What a host has come to that starts with the global environment: a scope, forms and
values.  It parses sources, evaluates forms in any scope, binds values and opens
scopes. -/
inductive Builtin.Reached : Chain → Store → List Form → List Value → Prop where
  | start : Reached (createGlobal .empty).1.chain (createGlobal .empty).2 [] []
  | parse {chain : Chain} {store : Store} {forms : List Form} {values : List Value}
      {comments : Bool} {source : String} {f : Form} :
      Reached chain store forms values →
        parse (store.signatures chain) comments source = .ok f →
          Reached chain store (f :: forms) values
  | unquote {chain : Chain} {store : Store} {forms : List Form} {values : List Value} {f : Form} :
      Reached chain store forms values → .form f ∈ values → Reached chain store (f :: forms) values
  | eval {chain : Chain} {store : Store} {forms : List Form} {values : List Value} {f : Form}
      (levels : Nat) :
      Reached chain store forms values → f ∈ forms →
        Reached chain (evalAt levels chain f store).2 forms values
  | result {chain : Chain} {store : Store} {forms : List Form} {values : List Value} {f : Form}
      {levels : Nat} {v : Value} :
      Reached chain store forms values → f ∈ forms → (evalAt levels chain f store).1 = .ok v →
        Reached chain (evalAt levels chain f store).2 forms (v :: values)
  | bind {chain : Chain} {store : Store} {forms : List Form} {values : List Value} {v : Value}
      (name : String) :
      Reached chain store forms values → v ∈ values →
        Reached chain (store.bind chain name v) forms values
  | enter {chain : Chain} {store : Store} {forms : List Form} {values : List Value} :
      Reached chain store forms values →
        Reached (store.enter chain).1 (store.enter chain).2 forms values

section

variable {chain : Chain} {forms : List Form} {values : List Value}

theorem Store.Supports.unquote (hsupports : store.Supports (evalRoots chain forms values))
    {f : Form} (hmem : .form f ∈ values) :
    store.Supports (evalRoots chain (f :: forms) values) := by
  refine hsupports.mono fun item hroot => ?_
  cases item with
  | form g =>
      rcases List.mem_cons.1 hroot with rfl | hroot
      · have hvalue : evalRoots chain forms values (.value (.form g)) := hmem
        exact .step (.root hvalue) .data
      · exact .root hroot
  | _ => exact .root hroot

theorem Store.Supports.bind (hsupports : store.Supports (evalRoots chain forms values))
    (name : String) {v : Value} (hmem : v ∈ values) :
    (store.bind chain name v).Supports (evalRoots chain forms values) := by
  have hvalue : ∀ w ∈ values,
      w.Related (.identity (store.Reachable (evalRoots chain forms values))) w :=
    fun w hmem => Value.related_identity (store.closed_reachable _) (.root hmem)
  have hstores := (hsupports.related (.refl _ store)).bind Chain.related_reachable name
    (hvalue v hmem)
  exact hstores.supports_evalRoots Chain.related_reachable
    (fun f hmem => ⟨f, Form.related_reachable hmem⟩) fun w hmem => ⟨w, hvalue w hmem⟩

theorem Store.Supports.enter (hsupports : store.Supports (evalRoots chain forms values)) :
    (store.enter chain).2.Supports (evalRoots (store.enter chain).1 forms values) := by
  obtain ⟨more, hgrows, _, _, hchain, hafter⟩ :=
    (hsupports.related (.refl _ store)).enter Chain.related_reachable
  have hcovers : ∀ item, evalRoots chain forms values item → more.Covers item :=
    fun item hroot =>
      (Correspondence.covers_identity (store.closed_reachable _) (.root hroot)).mono hgrows.le
  exact hafter.supports_evalRoots hchain (fun f => hcovers (.form f))
    fun v => hcovers (.value v)

/-- All that is reached from the global environment is supported, so that a call among
the forms may be evaluated. -/
theorem Builtin.Reached.supports (hreached : Reached chain store forms values) :
    store.Supports (evalRoots chain forms values) := by
  induction hreached with
  | start => exact supports_createGlobal
  | parse _ hparse ih => exact ih.parse hparse
  | unquote _ hmem ih => exact ih.unquote hmem
  | eval levels _ hmem ih => exact (ih.evalAt hmem levels).1
  | result _ hmem hvalue ih => exact (ih.evalAt hmem _).2 _ hvalue
  | bind name _ hmem ih => exact ih.bind name hmem
  | enter _ ih => exact ih.enter

theorem Builtin.Reached.supports_form (hreached : Reached chain store forms values) {f : Form}
    (hmem : f ∈ forms) : store.Supports (evalRoots chain [f] []) := by
  refine hreached.supports.mono fun item hroot => .root ?_
  cases item with
  | form g =>
      obtain rfl := List.mem_singleton.1 hroot
      exact hmem
  | value v => cases hroot
  | _ => exact hroot

/-- A source is evaluated as a host would do it in steps. -/
theorem Builtin.Reached.evaluate (hreached : Reached chain store forms values)
    (comments : Bool) (source : String) :
    ∃ more, Reached chain (evaluate comments source chain store).2 (more ++ forms) values := by
  unfold ArityScript.evaluate
  split
  · exact ⟨[], hreached⟩
  · next f hparse => exact ⟨[f], .eval maxEvalDepth (hreached.parse hparse) List.mem_cons_self⟩

end

end ArityScript
