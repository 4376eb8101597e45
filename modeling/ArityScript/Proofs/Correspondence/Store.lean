import ArityScript.Proofs.Correspondence.Program
import ArityScript.Proofs.Framing

/-!
# Corresponding stores

Two stores correspond when frames that are paired have corresponding bindings
and methods that are paired are alike.  Frames and methods without a partner do
not matter.  A step of two runs adds at most one pair, of a frame or a method
that neither run had before.
-/

namespace ArityScript

variable {pairs more : Correspondence}

/-! ## Methods and scopes -/

structure Chain.Related (pairs : Correspondence) (chain chain' : Chain) : Prop where
  innermost : pairs.frames chain.innermost chain'.innermost
  outer : List.Forall₂ pairs.frames chain.outer chain'.outer

structure OptionalParameter.Related (pairs : Correspondence)
    (option option' : OptionalParameter) : Prop where
  name : option.name = option'.name
  default : option.default.Related pairs option'.default

structure Signature.Related (pairs : Correspondence) (signature signature' : Signature) :
    Prop where
  required : signature.required = signature'.required
  optional : List.Forall₂ (OptionalParameter.Related pairs) signature.optional
    signature'.optional
  rest : signature.rest = signature'.rest

inductive Body.Related (pairs : Correspondence) : Body → Body → Prop where
  | native {program : Native} : program.Uniform → Related pairs (.native program) (.native program)
  | defined {form form' : Form} {scope scope' : Chain} : form.Related pairs form' →
      scope.Related pairs scope' → Related pairs (.defined form scope) (.defined form' scope')

structure Method.Related (pairs : Correspondence) (method method' : Method) : Prop where
  signature : method.signature.Related pairs method'.signature
  body : method.body.Related pairs method'.body

structure Store.Related (pairs : Correspondence) (store store' : Store) : Prop where
  frame : ∀ a b, pairs.frames a b → a < store.frames.size ∧ b < store'.frames.size ∧
    NameMap.Related pairs (store.bindings a) (store'.bindings b)
  method : ∀ a b, pairs.methods a b → ∃ method method', store.methods[a]? = some method ∧
    store'.methods[b]? = some method' ∧ method.Related pairs method'

theorem Chain.Related.mono (hle : pairs ≤ more) {chain chain' : Chain}
    (hchain : chain.Related pairs chain') : chain.Related more chain' where
  innermost := hle.1 _ _ hchain.innermost
  outer := hchain.outer.imp hle.1

theorem Chain.Related.frames {chain chain' : Chain} (hchain : chain.Related pairs chain') :
    List.Forall₂ pairs.frames chain.frames chain'.frames :=
  .cons hchain.innermost hchain.outer

theorem Chain.Related.depth_eq {chain chain' : Chain}
    (hchain : chain.Related pairs chain') : chain.depth = chain'.depth :=
  hchain.frames.length_eq

theorem Body.Related.mono (hle : pairs ≤ more) {body body' : Body}
    (hbody : body.Related pairs body') : body.Related more body' := by
  cases hbody with
  | native huniform => exact .native huniform
  | defined hform hscope => exact .defined (hform.mono hle) (hscope.mono hle)

theorem Signature.Related.mono (hle : pairs ≤ more) {signature signature' : Signature}
    (hsignature : signature.Related pairs signature') : signature.Related more signature' where
  required := hsignature.required
  optional := hsignature.optional.imp fun _ _ h => ⟨h.name, h.default.mono hle⟩
  rest := hsignature.rest

theorem Signature.Related.arity_eq {signature signature' : Signature}
    (hsignature : signature.Related pairs signature') : signature.arity = signature'.arity := by
  rw [Signature.arity, hsignature.required, Signature.arity]

theorem Signature.Related.declares_eq {signature signature' : Signature}
    (hsignature : signature.Related pairs signature') (name : String) :
    signature.declares name = signature'.declares name := by
  have hoptional := hsignature.optional
  unfold Signature.declares
  generalize signature.optional = options, signature'.optional = options' at hoptional ⊢
  induction hoptional with
  | nil => rfl
  | cons hoption _ ih => rw [List.any_cons, List.any_cons, hoption.name, ih]

theorem Method.Related.mono (hle : pairs ≤ more) {method method' : Method}
    (hmethod : method.Related pairs method') : method.Related more method' where
  signature := hmethod.signature.mono hle
  body := hmethod.body.mono hle

/-! ## New pairs -/

def Correspondence.withFrame (pairs : Correspondence) (frame frame' : FrameId)
    (hleft : ∀ b, ¬ pairs.frames frame b) (hright : ∀ a, ¬ pairs.frames a frame') :
    Correspondence where
  frames a b := pairs.frames a b ∨ (a = frame ∧ b = frame')
  methods := pairs.methods
  frames_iff := by
    rintro a b c d (hab | ⟨rfl, rfl⟩) (hcd | ⟨rfl, rfl⟩)
    · exact pairs.frames_iff hab hcd
    · constructor
      · rintro rfl
        exact absurd hab (hleft b)
      · rintro rfl
        exact absurd hab (hright a)
    · constructor
      · rintro rfl
        exact absurd hcd (hleft d)
      · rintro rfl
        exact absurd hcd (hright c)
    · simp
  methods_iff := pairs.methods_iff

def Correspondence.withMethod (pairs : Correspondence) (id id' : Nat)
    (hleft : ∀ b, ¬ pairs.methods id b) (hright : ∀ a, ¬ pairs.methods a id') :
    Correspondence where
  frames := pairs.frames
  methods a b := pairs.methods a b ∨ (a = id ∧ b = id')
  frames_iff := pairs.frames_iff
  methods_iff := by
    rintro a b c d (hab | ⟨rfl, rfl⟩) (hcd | ⟨rfl, rfl⟩)
    · exact pairs.methods_iff hab hcd
    · constructor
      · rintro rfl
        exact absurd hab (hleft b)
      · rintro rfl
        exact absurd hab (hright a)
    · constructor
      · rintro rfl
        exact absurd hcd (hleft d)
      · rintro rfl
        exact absurd hcd (hright c)
    · simp

/-- Only frames and methods that neither of two stores has are newly paired. -/
structure Correspondence.Grows (pairs more : Correspondence) (store store' : Store) :
    Prop where
  le : pairs ≤ more
  frames_fresh : ∀ a b, more.frames a b → pairs.frames a b ∨
    (store.frames.size ≤ a ∧ store'.frames.size ≤ b)
  methods_fresh : ∀ a b, more.methods a b → pairs.methods a b ∨
    (store.methods.size ≤ a ∧ store'.methods.size ≤ b)

/-- Two runs, from two stores to results with stores of their own, correspond in
their results and in the stores after them. -/
def Simulated {α β : Type} (related : Correspondence → α → β → Prop)
    (pairs : Correspondence) (store store' : Store) (out : α × Store) (out' : β × Store) :
    Prop :=
  ∃ more, pairs.Grows more store store' ∧
    store.Keeps (fun _ => False) out.2 ∧ store'.Keeps (fun _ => False) out'.2 ∧
    related more out.1 out'.1 ∧ out.2.Related more out'.2

namespace Simulated

variable {α β γ δ : Type} {related : Correspondence → α → β → Prop}
  {others : Correspondence → γ → δ → Prop} {store store' : Store}

theorem pure {a : α} {b : β} (hrelated : related pairs a b)
    (hstores : store.Related pairs store') :
    Simulated related pairs store store' (a, store) (b, store') :=
  ⟨pairs, ⟨le_refl pairs, fun _ _ => .inl, fun _ _ => .inl⟩, Store.Keeps.refl _ store,
    Store.Keeps.refl _ store', hrelated, hstores⟩

theorem bind {out : α × Store} {out' : β × Store} {final : γ × Store} {final' : δ × Store}
    (hfirst : Simulated related pairs store store' out out')
    (hnext : ∀ more, pairs ≤ more → related more out.1 out'.1 →
      out.2.Related more out'.2 → Simulated others more out.2 out'.2 final final') :
    Simulated others pairs store store' final final' := by
  obtain ⟨middle, hgrows, hkeeps, hkeeps', hrelated, hstores⟩ := hfirst
  obtain ⟨most, hmore, hlater, hlater', hothers, hfinal⟩ :=
    hnext middle hgrows.le hrelated hstores
  refine ⟨most, ⟨hgrows.le.trans hmore.le, ?_, ?_⟩, hkeeps.trans hlater,
    hkeeps'.trans hlater', hothers, hfinal⟩
  · intro a b hab
    rcases hmore.frames_fresh a b hab with hmiddle | ⟨ha, hb⟩
    · exact hgrows.frames_fresh a b hmiddle
    · exact .inr ⟨Nat.le_trans hkeeps.frames_size_le ha,
        Nat.le_trans hkeeps'.frames_size_le hb⟩
  · intro a b hab
    rcases hmore.methods_fresh a b hab with hmiddle | ⟨ha, hb⟩
    · exact hgrows.methods_fresh a b hmiddle
    · exact .inr ⟨Nat.le_trans hkeeps.methods_size_le ha,
        Nat.le_trans hkeeps'.methods_size_le hb⟩

/-- Going on after a result, unless it is a failure. -/
theorem bindResult {ε : Type} {out : Except ε α × Store} {out' : Except ε β × Store}
    {final : Except ε γ × Store} {final' : Except ε δ × Store}
    (hfirst : Simulated (fun more => ResultRelated (related more)) pairs store store' out out')
    (herror : ∀ failure after after', out = (.error failure, after) →
      out' = (.error failure, after') →
        final = (.error failure, after) ∧ final' = (.error failure, after'))
    (hok : ∀ (more : Correspondence) (a : α) (b : β) (after after' : Store), pairs ≤ more →
      out = (.ok a, after) → out' = (.ok b, after') → related more a b →
        after.Related more after' →
          Simulated (fun most => ResultRelated (others most)) more after after' final final') :
    Simulated (fun most => ResultRelated (others most)) pairs store store' final final' := by
  obtain ⟨result, after⟩ := out
  obtain ⟨result', after'⟩ := out'
  apply hfirst.bind
  intro more hle hresult hafter
  cases hresult with
  | error failure =>
      obtain ⟨rfl, rfl⟩ := herror failure after after' rfl rfl
      exact .pure (.error failure) hafter
  | ok hrelated => exact hok more _ _ after after' hle rfl rfl hrelated hafter

theorem of_keeps {middle middle' : Store} {final : γ × Store} {final' : δ × Store}
    (hkeeps : store.Keeps (fun _ => False) middle)
    (hkeeps' : store'.Keeps (fun _ => False) middle')
    (hlater : Simulated others pairs middle middle' final final') :
    Simulated others pairs store store' final final' := by
  obtain ⟨more, hgrows, hlast, hlast', hothers, hfinal⟩ := hlater
  refine ⟨more, ⟨hgrows.le, ?_, ?_⟩, hkeeps.trans hlast, hkeeps'.trans hlast', hothers,
    hfinal⟩
  · intro a b hab
    exact (hgrows.frames_fresh a b hab).imp_right fun ⟨ha, hb⟩ =>
      ⟨Nat.le_trans hkeeps.frames_size_le ha, Nat.le_trans hkeeps'.frames_size_le hb⟩
  · intro a b hab
    exact (hgrows.methods_fresh a b hab).imp_right fun ⟨ha, hb⟩ =>
      ⟨Nat.le_trans hkeeps.methods_size_le ha, Nat.le_trans hkeeps'.methods_size_le hb⟩

end Simulated

namespace Store.Related

variable {store store' : Store} (hstores : store.Related pairs store') {chain chain' : Chain}

include hstores

theorem bind (hchain : chain.Related pairs chain') (name : String) {value value' : Value}
    (hvalue : value.Related pairs value') :
    (store.bind chain name value).Related pairs (store'.bind chain' name value') := by
  have hbind := (store.evolves_bind chain name value).toKeeps
  have hbind' := (store'.evolves_bind chain' name value').toKeeps
  refine ⟨fun a b hab => ?_, hstores.method⟩
  obtain ⟨ha, hb, hbindings⟩ := hstores.frame a b hab
  refine ⟨Nat.lt_of_lt_of_le ha hbind.frames_size_le,
    Nat.lt_of_lt_of_le hb hbind'.frames_size_le, ?_⟩
  have hsame := pairs.frames_iff hab hchain.innermost
  by_cases heq : a = chain.innermost
  · obtain rfl := heq
    obtain rfl := hsame.1 rfl
    rw [bindings_bind_innermost name value ha, bindings_bind_innermost name value' hb]
    exact hbindings.insert name hvalue
  · have hne : b ≠ chain'.innermost := fun hb => heq (hsame.2 hb)
    rwa [hbind.bindings_eq ha heq, hbind'.bindings_eq hb hne]

theorem bindAll (hchain : chain.Related pairs chain') {map map' : NameMap Value}
    (hmaps : map.Related pairs map') :
    (store.bindAll chain map).Related pairs (store'.bindAll chain' map') := by
  unfold Store.bindAll
  unfold NameMap.Related at hmaps
  generalize map.entries = entries, map'.entries = entries' at hmaps ⊢
  induction hmaps generalizing store store' with
  | nil => exact hstores
  | cons hentry _ ih =>
      rw [List.foldl_cons, List.foldl_cons, ← hentry.1]
      exact ih (hstores.bind hchain _ hentry.2)

theorem lookupIn (name : String) {frames frames' : List FrameId}
    (hframes : List.Forall₂ pairs.frames frames frames') :
    Option.Rel (Value.Related pairs) (store.lookupIn name frames)
      (store'.lookupIn name frames') := by
  induction hframes with
  | nil => exact .none
  | @cons a b rest rest' hab _ ih =>
      have hfind := (hstores.frame a b hab).2.2.find? name
      simp only [Store.lookupIn, List.findSome?_cons] at ih ⊢
      generalize (store.bindings a).find? name = found,
        (store'.bindings b).find? name = found' at hfind ⊢
      cases hfind with
      | some hvalue => exact .some hvalue
      | none => exact ih

theorem lookup (hchain : chain.Related pairs chain') (name : String) :
    Option.Rel (Value.Related pairs) (store.lookup chain name)
      (store'.lookup chain' name) :=
  hstores.lookupIn name hchain.frames

theorem enter (hchain : chain.Related pairs chain') :
    Simulated Chain.Related pairs store store' (store.enter chain) (store'.enter chain') := by
  have henter := store.extends_enter chain
  have henter' := store'.extends_enter chain'
  have hleft : ∀ b, ¬ pairs.frames store.frames.size b := fun b hb =>
    Nat.lt_irrefl _ (hstores.frame _ b hb).1
  have hright : ∀ a, ¬ pairs.frames a store'.frames.size := fun a ha =>
    Nat.lt_irrefl _ (hstores.frame a _ ha).2.1
  have hle : pairs ≤ pairs.withFrame _ _ hleft hright := ⟨fun _ _ => .inl, fun _ _ h => h⟩
  refine ⟨pairs.withFrame _ _ hleft hright, ⟨hle, ?_, fun _ _ => .inl⟩, henter.imp (by simp),
    henter'.imp (by simp), ⟨.inr ⟨rfl, rfl⟩, ?_⟩, ?_, ?_⟩
  · rintro a b (hab | ⟨rfl, rfl⟩)
    · exact .inl hab
    · exact .inr ⟨Nat.le_refl _, Nat.le_refl _⟩
  · exact hchain.frames.imp hle.1
  · rintro a b (hab | ⟨rfl, rfl⟩)
    · obtain ⟨ha, hb, hbindings⟩ := hstores.frame a b hab
      rw [henter.bindings_eq ha trivial, henter'.bindings_eq hb trivial]
      exact ⟨Nat.lt_of_lt_of_le ha henter.frames_size_le,
        Nat.lt_of_lt_of_le hb henter'.frames_size_le, hbindings.mono hle⟩
    · refine ⟨by simp [Store.enter, addFrame], by simp [Store.enter, addFrame], ?_⟩
      simp only [bindings, Store.enter, addFrame, Array.getElem?_push_size]
      exact NameMap.related_empty _
  · intro a b hab
    obtain ⟨method, method', hmethod, hmethod', hrelated⟩ := hstores.method a b hab
    exact ⟨method, method', hmethod, hmethod', hrelated.mono hle⟩

theorem define (hchain : chain.Related pairs chain') (name : String)
    (parameters : List String) {body body' : Form} (hbody : body.Related pairs body') :
    Simulated (fun more ref ref' => (Value.method ref).Related more (.method ref')) pairs
      store store' (store.define chain name parameters body)
      (store'.define chain' name parameters body') := by
  have hdefine := store.extends_define chain name parameters body
  have hdefine' := store'.extends_define chain' name parameters body'
  have hleft : ∀ b, ¬ pairs.methods store.methods.size b := by
    intro b hb
    obtain ⟨method, _, hmethod, _⟩ := hstores.method _ b hb
    simp at hmethod
  have hright : ∀ a, ¬ pairs.methods a store'.methods.size := by
    intro a ha
    obtain ⟨_, method', _, hmethod', _⟩ := hstores.method a _ ha
    simp at hmethod'
  have hle : pairs ≤ pairs.withMethod _ _ hleft hright := ⟨fun _ _ h => h, fun _ _ => .inl⟩
  refine ⟨pairs.withMethod _ _ hleft hright, ⟨hle, fun _ _ => .inl, ?_⟩,
    hdefine.imp (by simp), hdefine'.imp (by simp), ?_, ?_, ?_⟩
  · rintro a b (hab | ⟨rfl, rfl⟩)
    · exact .inl hab
    · exact .inr ⟨Nat.le_refl _, Nat.le_refl _⟩
  · simp only [Value.Related]
    exact ⟨.inr ⟨rfl, rfl⟩, rfl⟩
  · intro a b hab
    obtain ⟨ha, hb, hbindings⟩ := hstores.frame a b hab
    exact ⟨ha, hb, hbindings.mono hle⟩
  · rintro a b (hab | ⟨rfl, rfl⟩)
    · obtain ⟨method, method', hmethod, hmethod', hrelated⟩ := hstores.method a b hab
      have ha : a < store.methods.size := (Array.getElem?_eq_some_iff.1 hmethod).1
      have hb : b < store'.methods.size := (Array.getElem?_eq_some_iff.1 hmethod').1
      refine ⟨method, method', ?_, ?_, hrelated.mono hle⟩
      · rw [hdefine.method_eq a ha, hmethod]
      · rw [hdefine'.method_eq b hb, hmethod']
    · refine ⟨⟨.ofRequired parameters, .defined body chain⟩,
        ⟨.ofRequired parameters, .defined body' chain'⟩, ?_, ?_, ⟨rfl, .nil, rfl⟩,
        .defined (hbody.mono hle) (hchain.mono hle)⟩
      · simp [Store.define, addMethod]
      · simp [Store.define, addMethod]

end Store.Related

end ArityScript
