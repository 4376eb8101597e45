import ArityScript.Proofs.Correspondence.Builtin
import ArityScript.Proofs.Correspondence.Evaluation

/-!
# Lexical scoping

A defined method sees the frames that it captured, its arguments, and what can
be reached from these.  Two calls of it in two stores that agree on all that is
reachable have the same result, and leave the reachable frames in agreement.
The scopes of the calls do not matter, and neither does anything else in the
stores.  Only the numbers of the frames and methods that the calls make may
differ.
-/

namespace ArityScript

/-! ## Reachability -/

/-- What may be reached in a store. -/
inductive Item where
  | frame (id : FrameId)
  | method (id : Nat)
  | value (v : Value)
  | form (f : Form)

/-- What is reached in one step: the bindings of a frame, the parts of a value
or a form, and what a method has captured and takes by default. -/
inductive Store.Refers (store : Store) : Item → Item → Prop where
  | binding {frame : FrameId} {name : String} {v : Value} :
      (name, v) ∈ (store.bindings frame).entries → Refers store (.frame frame) (.value v)
  | item {items : List Value} {v : Value} : v ∈ items →
      Refers store (.value (.list items)) (.value v)
  | data {f : Form} : Refers store (.value (.form f)) (.form f)
  | reference {ref : MethodRef} : Refers store (.value (.method ref)) (.method ref.id)
  | literal {v : Value} : Refers store (.form (.literal v)) (.value v)
  | quoted {f : Form} : Refers store (.form (.quoted f)) (.form f)
  | argument {method : String} {arguments : List Form} {f : Form} : f ∈ arguments →
      Refers store (.form (.call method arguments)) (.form f)
  | default {id : Nat} {method : Method} {option : OptionalParameter} :
      store.methods[id]? = some method → option ∈ method.signature.optional →
      Refers store (.method id) (.value option.default)
  | body {id : Nat} {method : Method} {form : Form} {scope : Chain} :
      store.methods[id]? = some method → method.body = .defined form scope →
      Refers store (.method id) (.form form)
  | captured {id : Nat} {method : Method} {form : Form} {scope : Chain} {frame : FrameId} :
      store.methods[id]? = some method → method.body = .defined form scope →
      frame ∈ scope.frames → Refers store (.method id) (.frame frame)

inductive Store.Reachable (store : Store) (roots : Item → Prop) : Item → Prop where
  | root {item : Item} : roots item → Reachable store roots item
  | step {item next : Item} : Reachable store roots item → store.Refers item next →
      Reachable store roots next

/-- What a call of a defined method starts from: its body, the frames that it
captured, and its arguments. -/
def callRoots (form : Form) (scope : Chain) (arguments : Arguments) : Item → Prop
  | .frame id => id ∈ scope.frames
  | .method _ => False
  | .value v => ∃ name, (name, v) ∈ arguments.entries
  | .form f => f = form

/-- Two stores have the same frame or method under a number. -/
def Store.AgreesOn (store store' : Store) : Item → Prop
  | .frame id => id < store.frames.size ∧ id < store'.frames.size ∧
      store'.bindings id = store.bindings id
  | .method id => ∃ method, store.methods[id]? = some method ∧
      store'.methods[id]? = some method
  | .value _ => True
  | .form _ => True

/-! ## What is reachable corresponds to itself -/

/-- The correspondence of what is reached with itself. -/
def Correspondence.identity (reached : Item → Prop) : Correspondence where
  frames a b := a = b ∧ reached (.frame a)
  methods a b := a = b ∧ reached (.method a)
  frames_iff := by
    rintro a _ c _ ⟨rfl, _⟩ ⟨rfl, _⟩
    rfl
  methods_iff := by
    rintro a _ c _ ⟨rfl, _⟩ ⟨rfl, _⟩
    rfl

/-- Nothing more is reached from what is reached. -/
def Store.Closed (store : Store) (reached : Item → Prop) : Prop :=
  ∀ item next, reached item → store.Refers item next → reached next

theorem Store.closed_reachable (store : Store) (roots : Item → Prop) :
    store.Closed (store.Reachable roots) :=
  fun _ _ hitem hrefers => .step hitem hrefers

variable {store store' : Store} {reached : Item → Prop}

mutual

theorem Value.related_identity (hclosed : store.Closed reached) :
    ∀ {v : Value}, reached (.value v) → v.Related (.identity reached) v
  | .number _, _ | .string _, _ | .bool _, _ | .range _, _ | .placeholder, _ => by
      simp [Value.Related]
  | .list items, hv => by
      simp only [Value.Related]
      exact Value.allRelated_identity hclosed fun v hmem => hclosed _ _ hv (.item hmem)
  | .method ref, hv => by
      simp only [Value.Related]
      exact ⟨⟨rfl, hclosed _ _ hv .reference⟩, trivial⟩
  | .form f, hv => by
      simp only [Value.Related]
      exact Form.related_identity hclosed (hclosed _ _ hv .data)

theorem Form.related_identity (hclosed : store.Closed reached) :
    ∀ {f : Form}, reached (.form f) → f.Related (.identity reached) f
  | .variable _, _ | .flag _, _ => by simp [Form.Related]
  | .literal v, hf => by
      simp only [Form.Related]
      exact Value.related_identity hclosed (hclosed _ _ hf .literal)
  | .quoted f, hf => by
      simp only [Form.Related]
      exact Form.related_identity hclosed (hclosed _ _ hf .quoted)
  | .call method arguments, hf => by
      simp only [Form.Related]
      exact ⟨trivial, Form.allRelated_identity hclosed
        fun f hmem => hclosed _ _ hf (.argument hmem)⟩

theorem Value.allRelated_identity (hclosed : store.Closed reached) :
    ∀ {vs : List Value}, (∀ v ∈ vs, reached (.value v)) →
      Value.AllRelated (.identity reached) vs vs
  | [], _ => by simp only [Value.AllRelated]
  | v :: rest, hvs => by
      simp only [Value.AllRelated]
      exact ⟨Value.related_identity hclosed (hvs v (by simp)),
        Value.allRelated_identity hclosed fun w hmem => hvs w (by simp [hmem])⟩

theorem Form.allRelated_identity (hclosed : store.Closed reached) :
    ∀ {fs : List Form}, (∀ f ∈ fs, reached (.form f)) →
      Form.AllRelated (.identity reached) fs fs
  | [], _ => by simp only [Form.AllRelated]
  | f :: rest, hfs => by
      simp only [Form.AllRelated]
      exact ⟨Form.related_identity hclosed (hfs f (by simp)),
        Form.allRelated_identity hclosed fun g hmem => hfs g (by simp [hmem])⟩

end

theorem NameMap.related_identity (hclosed : store.Closed reached) {map : NameMap Value}
    (hmap : ∀ name v, (name, v) ∈ map.entries → reached (.value v)) :
    map.Related (.identity reached) map := by
  unfold NameMap.Related
  rw [List.forall₂_same]
  exact fun entry hmem => ⟨rfl, Value.related_identity hclosed (hmap entry.1 entry.2 hmem)⟩

theorem Chain.related_identity {chain : Chain}
    (hframes : ∀ frame ∈ chain.frames, reached (.frame frame)) :
    chain.Related (.identity reached) chain where
  innermost := ⟨rfl, hframes _ (by simp [Chain.frames])⟩
  outer := List.forall₂_same.2 fun frame hmem =>
    ⟨rfl, hframes frame (by simp [Chain.frames, hmem])⟩

theorem Method.related_identity (hclosed : store.Closed reached) {id : Nat}
    {method : Method} (hid : reached (.method id)) (hmethod : store.methods[id]? = some method)
    (huniform : ∀ program, method.body = .native program → program.Uniform) :
    method.Related (.identity reached) method where
  signature := {
    required := rfl
    optional := List.forall₂_same.2 fun option hmem =>
      ⟨rfl, Value.related_identity hclosed (hclosed _ _ hid (.default hmethod hmem))⟩
    rest := rfl }
  body := by
    cases hbody : method.body with
    | native program => exact .native (huniform program hbody)
    | defined form scope =>
        exact .defined (Form.related_identity hclosed (hclosed _ _ hid (.body hmethod hbody)))
          (Chain.related_identity fun frame hmem =>
            hclosed _ _ hid (.captured hmethod hbody hmem))

/-- Stores that agree on what is reached correspond to each other in it. -/
theorem Store.related_identity (hclosed : store.Closed reached)
    (hagree : ∀ item, reached item → store.AgreesOn store' item)
    (huniform : ∀ id method program, reached (.method id) →
      store.methods[id]? = some method → method.body = .native program → program.Uniform) :
    store.Related (.identity reached) store' where
  frame := by
    rintro a _ ⟨rfl, ha⟩
    obtain ⟨hlt, hlt', hbindings⟩ := hagree _ ha
    refine ⟨hlt, hlt', ?_⟩
    rw [hbindings]
    exact NameMap.related_identity hclosed fun name v hmem => hclosed _ _ ha (.binding hmem)
  method := by
    rintro a _ ⟨rfl, ha⟩
    obtain ⟨method, hmethod, hmethod'⟩ := hagree _ ha
    exact ⟨method, method, hmethod, hmethod', Method.related_identity hclosed ha hmethod
      fun program => huniform a method program ha hmethod⟩

/-! ## Noninterference -/

/-- A correspondence of what is reached with itself, and otherwise only of frames
and methods that neither of two stores has. -/
structure Correspondence.Identifies (pairs : Correspondence) (reached : Item → Prop)
    (store store' : Store) : Prop where
  frame : ∀ a, reached (.frame a) → pairs.frames a a
  method : ∀ a, reached (.method a) → pairs.methods a a
  frames_fresh : ∀ a b, pairs.frames a b →
    (a = b ∧ reached (.frame a)) ∨ (store.frames.size ≤ a ∧ store'.frames.size ≤ b)
  methods_fresh : ∀ a b, pairs.methods a b →
    (a = b ∧ reached (.method a)) ∨ (store.methods.size ≤ a ∧ store'.methods.size ≤ b)

/-- A defined method has the same result in two stores that agree on all that it
can reach, whatever the scopes and the names of the two calls, and leaves all
that it can reach in agreement.  The native methods that it can reach have to
be standard ones or other uniform ones. -/
theorem invoke_noninterference {form : Form} {scope : Chain} {arguments : Arguments}
    (hagree : ∀ item, store.Reachable (callRoots form scope arguments) item →
      store.AgreesOn store' item)
    (hnative : ∀ id method program,
      store.Reachable (callRoots form scope arguments) (.method id) →
      store.methods[id]? = some method → method.body = .native program →
      (∃ entry ∈ Builtin.methods, entry.2.2 = program) ∨ program.Uniform)
    (levels : Nat) (signature : Signature) (call call' : String) (ref ref' : MethodRef)
    (chain chain' : Chain) :
    ∃ pairs : Correspondence,
      pairs.Identifies (store.Reachable (callRoots form scope arguments)) store store' ∧
      ResultRelated (Value.Related pairs)
        (invoke (evalAt levels) call ref ⟨signature, .defined form scope⟩ arguments chain
          store).1
        (invoke (evalAt levels) call' ref' ⟨signature, .defined form scope⟩ arguments
          chain' store').1 ∧
      Store.Related pairs
        (invoke (evalAt levels) call ref ⟨signature, .defined form scope⟩ arguments chain
          store).2
        (invoke (evalAt levels) call' ref' ⟨signature, .defined form scope⟩ arguments
          chain' store').2 := by
  have hclosed := store.closed_reachable (callRoots form scope arguments)
  have huniform : ∀ id method program,
      store.Reachable (callRoots form scope arguments) (.method id) →
      store.methods[id]? = some method → method.body = .native program →
      program.Uniform := by
    intro id method program hid hmethod hbody
    rcases hnative id method program hid hmethod hbody with ⟨entry, hmem, rfl⟩ | huniform
    · exact Builtin.uniform_of_mem entry hmem
    · exact huniform
  have hstores := Store.related_identity hclosed hagree huniform
  have hform := Form.related_identity hclosed (.root (rfl : form = form))
  have hscope : scope.Related
      (.identity (store.Reachable (callRoots form scope arguments))) scope :=
    Chain.related_identity fun frame hmem => .root hmem
  have harguments : NameMap.Related
      (.identity (store.Reachable (callRoots form scope arguments))) arguments arguments :=
    NameMap.related_identity hclosed fun name v hmem => .root ⟨name, hmem⟩
  obtain ⟨pairs, hgrows, _, _, hresult, hafter⟩ := simulated_invoke_defined
    (simulates_evalAt levels) call call' ref ref' signature signature hform hscope
    harguments chain chain' hstores
  refine ⟨pairs, ⟨?_, ?_, hgrows.frames_fresh, hgrows.methods_fresh⟩, hresult, hafter⟩
  · exact fun a ha => hgrows.le.1 a a ⟨rfl, ha⟩
  · exact fun a ha => hgrows.le.2 a a ⟨rfl, ha⟩

theorem Store.Reachable.of_closed {roots : Item → Prop} (hclosed : store.Closed reached)
    (hroots : ∀ item, roots item → reached item) {item : Item}
    (hitem : store.Reachable roots item) : reached item := by
  induction hitem with
  | root hroot => exact hroots _ hroot
  | step _ hrefers ih => exact hclosed _ _ ih hrefers

/-- A root frame with a sum and a number, and the frame of a caller that has
another number under the same name. -/
def callerStore (shadow : Number) : Store where
  frames := #[
    ⟨0, ⟨[("$x", .number 5), ("+", .method ⟨0, "+"⟩)], by decide⟩⟩,
    ⟨0, ⟨[("$x", .number shadow)], by simp⟩⟩]
  methods := #[⟨Builtin.operands, .native Builtin.add⟩]

def sumBody : Form := .call "+" [.variable "$x", .variable "$n"]

def sumArguments : Arguments := NameMap.empty.insert "$n" (.number 2)

def sumReached : Item → Prop
  | .frame id => id = 0
  | .method id => id = 0
  | .value v => v = .number 5 ∨ v = .number 2 ∨ v = .method ⟨0, "+"⟩
  | .form f => f = sumBody ∨ f = .variable "$x" ∨ f = .variable "$n"

theorem sumReached_of_reachable {shadow : Number} {item : Item}
    (hitem : (callerStore shadow).Reachable (callRoots sumBody ⟨0, []⟩ sumArguments) item) :
    sumReached item := by
  refine hitem.of_closed ?_ ?_
  · intro item next hreached hrefers
    cases hrefers with
    | binding hmem =>
        obtain rfl := hreached
        have hentries : ((callerStore shadow).bindings 0).entries =
            [("$x", .number 5), ("+", .method ⟨0, "+"⟩)] := rfl
        simp only [hentries, List.mem_cons, Prod.mk.injEq, List.not_mem_nil, or_false] at hmem
        rcases hmem with ⟨_, rfl⟩ | ⟨_, rfl⟩ <;> simp [sumReached]
    | item => simp [sumReached] at hreached
    | data => simp [sumReached] at hreached
    | reference =>
        simp only [sumReached, reduceCtorEq, Value.method.injEq, false_or] at hreached
        simp [sumReached, hreached]
    | literal => simp [sumReached, sumBody] at hreached
    | quoted => simp [sumReached, sumBody] at hreached
    | argument hmem =>
        simp only [sumReached, sumBody, Form.call.injEq, reduceCtorEq, or_false] at hreached
        rw [hreached.2] at hmem
        simp only [List.mem_cons, List.not_mem_nil, or_false] at hmem
        exact .inr hmem
    | default hmethod hmem =>
        obtain rfl := hreached
        obtain rfl := Option.some.inj hmethod
        contradiction
    | body hmethod hbody =>
        obtain rfl := hreached
        obtain rfl := Option.some.inj hmethod
        contradiction
    | captured hmethod hbody =>
        obtain rfl := hreached
        obtain rfl := Option.some.inj hmethod
        contradiction
  · intro item hroot
    cases item with
    | frame id => simpa [callRoots, sumReached, Chain.frames] using hroot
    | method id => exact hroot.elim
    | value v =>
        obtain ⟨name, hmem⟩ := hroot
        have hentries : sumArguments.entries = [("$n", .number 2)] := rfl
        simp only [hentries, List.mem_singleton, Prod.mk.injEq] at hmem
        simp [sumReached, hmem.2]
    | form f => exact .inl hroot

/-- The number that a caller has under a name does not matter. -/
theorem invoke_sum_noninterference :
    (invoke (evalAt 2) "f" ⟨1, "f"⟩ ⟨.ofRequired ["$n"], .defined sumBody ⟨0, []⟩⟩
        sumArguments ⟨1, [0]⟩ (callerStore 6)).1 = .ok (.number 7) ∧
      ∃ pairs : Correspondence,
        ResultRelated (Value.Related pairs)
          (invoke (evalAt 2) "f" ⟨1, "f"⟩ ⟨.ofRequired ["$n"], .defined sumBody ⟨0, []⟩⟩
            sumArguments ⟨1, [0]⟩ (callerStore 6)).1
          (invoke (evalAt 2) "g" ⟨1, "f"⟩ ⟨.ofRequired ["$n"], .defined sumBody ⟨0, []⟩⟩
            sumArguments ⟨0, []⟩ (callerStore 8)).1 := by
  have hagree : ∀ item, (callerStore 6).Reachable (callRoots sumBody ⟨0, []⟩ sumArguments)
      item → (callerStore 6).AgreesOn (callerStore 8) item := by
    intro item hitem
    have hreached := sumReached_of_reachable hitem
    cases item with
    | frame id =>
        obtain rfl := hreached
        exact ⟨by decide, by decide, rfl⟩
    | method id =>
        obtain rfl := hreached
        exact ⟨_, rfl, rfl⟩
    | value v => trivial
    | form f => trivial
  have hnative : ∀ id method program,
      (callerStore 6).Reachable (callRoots sumBody ⟨0, []⟩ sumArguments) (.method id) →
      (callerStore 6).methods[id]? = some method → method.body = .native program →
      (∃ entry ∈ Builtin.methods, entry.2.2 = program) ∨ program.Uniform := by
    intro id method program hid hmethod hbody
    obtain rfl : id = 0 := sumReached_of_reachable hid
    obtain rfl := Option.some.inj hmethod
    cases hbody
    exact .inl ⟨("+", Builtin.operands, Builtin.add), by simp [Builtin.methods], rfl⟩
  obtain ⟨pairs, _, hresult, _⟩ := invoke_noninterference hagree hnative 2
    (.ofRequired ["$n"]) "f" "g" ⟨1, "f"⟩ ⟨1, "f"⟩ ⟨1, [0]⟩ ⟨0, []⟩
  exact ⟨rfl, pairs, hresult⟩

end ArityScript
