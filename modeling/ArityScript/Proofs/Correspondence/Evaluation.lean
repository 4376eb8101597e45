import ArityScript.Proofs.Binding
import ArityScript.Proofs.Correspondence.Store

/-!
# Corresponding runs

From corresponding scopes, forms and stores, evaluation gives corresponding
results and leaves corresponding stores behind.  Each step of a program, of the
binding of arguments and of a call keeps the correspondence and adds to it what
both runs make anew.
-/

namespace ArityScript

variable {pairs more : Correspondence} {store store' : Store} {chain chain' : Chain}

/-- A way to evaluate forms that respects every correspondence. -/
def Evaluator.Simulates (evaluate : Evaluator) : Prop :=
  ∀ {pairs : Correspondence} {chain chain' : Chain} {form form' : Form}
    {store store' : Store}, chain.Related pairs chain' → form.Related pairs form' →
    store.Related pairs store' →
    Simulated (fun more => ResultRelated (Value.Related more)) pairs store store'
      (evaluate chain form store) (evaluate chain' form' store')

structure Binding.Partial.Related (pairs : Correspondence) (made made' : Partial) :
    Prop where
  unfilled : made.unfilled = made'.unfilled
  bound : NameMap.Related pairs made.bound made'.bound
  surplus : List.Forall₂ (Value.Related pairs) made.surplus made'.surplus

theorem Form.AllRelated.eq_flag {name : String} {forms : List Form}
    (h : Form.AllRelated pairs [.flag name] forms) : forms = [.flag name] := by
  obtain ⟨⟩ | ⟨f, ⟨⟩ | ⟨g, rest⟩⟩ := forms <;> simp only [Form.AllRelated] at h
  · obtain ⟨hflag, _⟩ := h
    cases f <;> simp only [Form.Related] at hflag
    rw [hflag]
  · exact h.2.elim

theorem Form.AllRelated.eq_option {name : String} {value : Form} {rest forms : List Form}
    (h : Form.AllRelated pairs (.flag name :: value :: rest) forms) :
    ∃ value' rest', forms = .flag name :: value' :: rest' ∧ value.Related pairs value' ∧
      Form.AllRelated pairs rest rest' := by
  obtain ⟨⟩ | ⟨f, ⟨⟩ | ⟨value', rest'⟩⟩ := forms <;> simp only [Form.AllRelated] at h
  · exact h.2.elim
  · obtain ⟨hflag, hvalue, hrest⟩ := h
    cases f <;> simp only [Form.Related] at hflag
    exact ⟨value', rest', by rw [hflag], hvalue, hrest⟩

theorem Form.Related.isFlag_eq {f g : Form} (h : f.Related pairs g) :
    f.isFlag = g.isFlag := by
  cases f <;> cases g <;> simp only [Form.Related] at h <;> rfl

namespace Binding

theorem Partial.Related.mono (hle : pairs ≤ more) {made made' : Partial}
    (hmade : made.Related pairs made') : made.Related more made' where
  unfilled := hmade.unfilled
  bound := hmade.bound.mono hle
  surplus := hmade.surplus.imp fun _ _ h => h.mono hle

theorem related_fillDefault {bound bound' : Arguments}
    {option option' : OptionalParameter} (hbound : NameMap.Related pairs bound bound')
    (hoption : option.Related pairs option') :
    NameMap.Related pairs (fillDefault bound option) (fillDefault bound' option') := by
  have hfind := hbound.find? option.name
  unfold fillDefault
  rw [← hoption.name]
  generalize bound.find? option.name = found, bound'.find? option.name = found' at hfind ⊢
  cases hfind with
  | some _ => exact hbound
  | none => exact hbound.insert _ hoption.default

theorem related_fillDefaults {bound bound' : Arguments}
    {options options' : List OptionalParameter}
    (hoptions : List.Forall₂ (OptionalParameter.Related pairs) options options')
    (hbound : NameMap.Related pairs bound bound') :
    NameMap.Related pairs (options.foldl fillDefault bound)
      (options'.foldl fillDefault bound') := by
  induction hoptions generalizing bound bound' with
  | nil => exact hbound
  | cons hoption _ ih => exact ih (related_fillDefault hbound hoption)

theorem related_complete (method : String) {signature signature' : Signature}
    (hsignature : signature.Related pairs signature') {made made' : Partial}
    (hmade : made.Related pairs made') :
    ResultRelated (NameMap.Related pairs) (complete method signature made)
      (complete method signature' made') := by
  have hfilled := related_fillDefaults hsignature.optional hmade.bound
  unfold complete
  rw [← hmade.unfilled, ← hsignature.arity_eq, ← hsignature.rest]
  split
  · exact .error _
  · split
    · exact .ok hfilled
    · next name _ =>
        refine .ok (hfilled.insert name ?_)
        simp only [Value.Related]
        exact Value.allRelated_iff.2 (List.rel_reverse hmade.surplus)

end Binding

theorem Outcome.Related.inMethod (name : String) {outcome outcome' : Outcome}
    (houtcome : outcome.Related pairs outcome') :
    ResultRelated (Value.Related pairs) (outcome.inMethod name) (outcome'.inMethod name) := by
  cases houtcome with
  | ok hvalue => exact .ok hvalue
  | error failure => cases failure <;> exact .error _

/-- Corresponding scopes find corresponding methods under a name. -/
theorem related_callee (hchain : chain.Related pairs chain')
    (hstores : store.Related pairs store') (name : String) :
    ResultRelated (fun found found' : MethodRef × Method =>
        found.1.name = found'.1.name ∧ found.2.Related pairs found'.2)
      (callee store chain name) (callee store' chain' name) := by
  have hlookup := hstores.lookup hchain name
  unfold callee
  generalize store.lookup chain name = found, store'.lookup chain' name = found' at hlookup ⊢
  cases hlookup with
  | none => exact .error _
  | @some v w hvalue =>
      have htype := hvalue.typeName_eq
      cases v <;> cases w <;> simp only [Value.Related] at hvalue
      case method ref ref' =>
        obtain ⟨method, method', hmethod, hmethod', hrelated⟩ := hstores.method _ _ hvalue.1
        simp only [Store.method?, hmethod, hmethod']
        exact .ok ⟨hvalue.2, hrelated⟩
      all_goals exact .error _

section

variable {evaluate : Evaluator} (hsimulates : evaluate.Simulates)

include hsimulates

/-! ## Programs -/

theorem Program.Related.run (call : String) {program program' : Program}
    (hprogram : program.Related pairs program') (hchain : chain.Related pairs chain')
    (hstores : store.Related pairs store') :
    Simulated Outcome.Related pairs store store' (program.run evaluate call chain store)
      (program'.run evaluate call chain' store') := by
  induction hprogram generalizing chain chain' store store' with
  | finish houtcome => exact .pure houtcome hstores
  | eval hform _ ih =>
      simp only [Program.run]
      apply (hsimulates hchain hform hstores).bind
      intro more hle hresult hafter
      exact ih more hle _ _ (hresult.mapError _) (hchain.mono hle) hafter
  | inScope _ _ ihBody ihNext =>
      simp only [Program.run]
      apply (hstores.enter hchain).bind
      intro inner hinner hopened hstores
      apply (ihBody inner hinner hopened hstores).bind
      intro more hle houtcome hafter
      have hmore := hinner.trans hle
      exact ihNext more hmore _ _ houtcome (hchain.mono hmore) hafter
  | assign name hvalue _ ih =>
      simp only [Program.run]
      exact .of_keeps ((store.evolves_bind chain name _).toKeeps.imp (by simp))
        ((store'.evolves_bind chain' name _).toKeeps.imp (by simp))
        (ih hchain (hstores.bind hchain name hvalue))
  | lookup name _ ih => exact ih _ _ (hstores.lookup hchain name) hchain hstores
  | define name parameters hbody _ ih =>
      simp only [Program.run]
      apply (hstores.define hchain name parameters hbody).bind
      intro more hle hmethod hafter
      exact ih more hle _ _ hmethod (hchain.mono hle) hafter
  | frameCount _ ih =>
      simp only [Program.run, hchain.depth_eq]
      exact ih _ hchain hstores
  | callName _ ih => exact ih call hchain hstores

/-! ## Arguments -/

theorem Binding.simulated_collect (method : String) {signature signature' : Signature}
    (hsignature : signature.Related pairs signature') {forms forms' : List Form}
    (hforms : Form.AllRelated pairs forms forms') (hchain : chain.Related pairs chain')
    {made made' : Partial} (hmade : made.Related pairs made')
    (hstores : store.Related pairs store') :
    Simulated (fun more => ResultRelated (Partial.Related more)) pairs store store'
      (collect method signature (evaluate chain) forms made store)
      (collect method signature' (evaluate chain') forms' made' store') := by
  induction forms using arguments_induction Form.isFlag
    generalizing pairs forms' made made' store store' with
  | nil =>
      cases forms' <;> simp only [Form.AllRelated] at hforms
      exact .pure (.ok hmade) hstores
  | dangling flag hflag =>
      obtain ⟨name, rfl⟩ := Form.eq_flag_of_isFlag hflag
      obtain rfl := Form.AllRelated.eq_flag hforms
      rw [collect, collect, ← hsignature.declares_eq]
      split <;> exact .pure (.error _) hstores
  | option flag value rest hflag ih =>
      obtain ⟨name, rfl⟩ := Form.eq_flag_of_isFlag hflag
      obtain ⟨value', rest', rfl, hvalue, hrest⟩ := Form.AllRelated.eq_option hforms
      rw [collect, collect, ← hsignature.declares_eq]
      split
      · apply (hsimulates hchain hvalue hstores).bindResult
          (fun failure after after' heq heq' => by simp only [heq, heq', and_self])
        intro more v w after after' hle heq heq' hrelated hafter
        have hmade := hmade.mono hle
        simp only [heq, heq']
        exact ih (hsignature.mono hle) (Form.allRelated_mono hle hrest) (hchain.mono hle)
          ⟨hmade.unfilled, hmade.bound.insert _ hrelated, hmade.surplus⟩ hafter
      · exact .pure (.error _) hstores
  | positional argument rest hflag ih =>
      cases forms' <;> simp only [Form.AllRelated] at hforms
      obtain ⟨hargument, hrest⟩ := hforms
      have hflag' := hargument.isFlag_eq.symm.trans hflag
      rw [collect_positional _ _ _ _ _ _ hflag, collect_positional _ _ _ _ _ _ hflag',
        ← hmade.unfilled, ← hsignature.rest, ← hsignature.arity_eq]
      split
      · apply (hsimulates hchain hargument hstores).bindResult
          (fun failure after after' heq heq' => by simp only [heq, heq', and_self])
        intro more v w after after' hle heq heq' hrelated hafter
        have hmade := hmade.mono hle
        simp only [heq, heq']
        exact ih (hsignature.mono hle) (Form.allRelated_mono hle hrest) (hchain.mono hle)
          ⟨rfl, hmade.bound.insert _ hrelated, hmade.surplus⟩ hafter
      · split
        · apply (hsimulates hchain hargument hstores).bindResult
            (fun failure after after' heq heq' => by simp only [heq, heq', and_self])
          intro more v w after after' hle heq heq' hrelated hafter
          have hmade := hmade.mono hle
          simp only [heq, heq']
          exact ih (hsignature.mono hle) (Form.allRelated_mono hle hrest)
            (hchain.mono hle) ⟨rfl, hmade.bound, .cons hrelated hmade.surplus⟩ hafter
        · exact .pure (.error _) hstores

theorem simulated_bindArguments (method : String) {signature signature' : Signature}
    (hsignature : signature.Related pairs signature') {forms forms' : List Form}
    (hforms : Form.AllRelated pairs forms forms') (hchain : chain.Related pairs chain')
    (hstores : store.Related pairs store') :
    Simulated (fun more => ResultRelated (NameMap.Related more)) pairs store store'
      (bindArguments method signature (evaluate chain) forms store)
      (bindArguments method signature' (evaluate chain') forms' store') := by
  have hmade : Binding.Partial.Related pairs ⟨signature.required, .empty, []⟩
      ⟨signature'.required, .empty, []⟩ :=
    ⟨hsignature.required, NameMap.related_empty pairs, .nil⟩
  have hcollect := Binding.simulated_collect hsimulates method hsignature hforms hchain
    hmade hstores
  unfold bindArguments
  apply hcollect.bindResult
    (fun failure after after' heq heq' => by simp only [heq, heq', and_self])
  intro more made made' after after' hle heq heq' hmade hafter
  simp only [heq, heq']
  exact .pure (Binding.related_complete method (hsignature.mono hle) hmade) hafter

/-! ## Calls -/

/-- The scope of the call has no part in the body of a defined method. -/
theorem simulated_invoke_defined (call call' : String) (ref ref' : MethodRef)
    (signature signature' : Signature) {form form' : Form} {scope scope' : Chain}
    (hform : form.Related pairs form') (hscope : scope.Related pairs scope')
    {arguments arguments' : Arguments}
    (harguments : NameMap.Related pairs arguments arguments') (chain chain' : Chain)
    (hstores : store.Related pairs store') :
    Simulated (fun more => ResultRelated (Value.Related more)) pairs store store'
      (invoke evaluate call ref ⟨signature, .defined form scope⟩ arguments chain store)
      (invoke evaluate call' ref' ⟨signature', .defined form' scope'⟩ arguments' chain'
        store') := by
  simp only [invoke]
  apply (hstores.enter hscope).bind
  intro more hle hinner hopened
  have hbound := hopened.bindAll hinner (harguments.mono hle)
  exact .of_keeps ((Store.evolves_bindAll _ _ arguments).toKeeps.imp (by simp))
    ((Store.evolves_bindAll _ _ arguments').toKeeps.imp (by simp))
    (hsimulates hinner (hform.mono hle) hbound)

theorem simulated_invoke (call : String) {ref ref' : MethodRef} (hname : ref.name = ref'.name)
    {method method' : Method} (hmethod : method.Related pairs method')
    {arguments arguments' : Arguments}
    (harguments : NameMap.Related pairs arguments arguments')
    (hchain : chain.Related pairs chain') (hstores : store.Related pairs store') :
    Simulated (fun more => ResultRelated (Value.Related more)) pairs store store'
      (invoke evaluate call ref method arguments chain store)
      (invoke evaluate call ref' method' arguments' chain' store') := by
  obtain ⟨signature, body⟩ := method
  obtain ⟨signature', body'⟩ := method'
  cases hmethod.body with
  | @native program huniform =>
      have hprogram := huniform pairs arguments arguments' harguments
      apply (hprogram.run hsimulates call hchain hstores).bind
      intro more hle houtcome hafter
      refine .pure ?_ hafter
      rw [← hname]
      exact houtcome.inMethod ref.name
  | @defined form form' scope scope' hform hscope =>
      exact simulated_invoke_defined hsimulates call call ref ref' signature signature' hform
        hscope harguments chain chain' hstores

theorem simulated_evalCall (name : String) {forms forms' : List Form}
    (hforms : Form.AllRelated pairs forms forms') (hchain : chain.Related pairs chain')
    (hstores : store.Related pairs store') :
    Simulated (fun more => ResultRelated (Value.Related more)) pairs store store'
      (evalCall evaluate name forms chain store)
      (evalCall evaluate name forms' chain' store') := by
  have hcallee := related_callee hchain hstores name
  unfold evalCall
  generalize callee store chain name = found, callee store' chain' name = found' at hcallee ⊢
  cases hcallee with
  | error cause => exact .pure (.error _) hstores
  | @ok found found' hfound =>
      obtain ⟨ref, method⟩ := found
      obtain ⟨ref', method'⟩ := found'
      obtain ⟨hname, hmethod⟩ := hfound
      apply (simulated_bindArguments hsimulates name hmethod.signature hforms hchain
        hstores).bindResult
        (fun failure after after' heq heq' => by simp only [heq, heq', and_self])
      intro more arguments arguments' after after' hle heq heq' harguments hafter
      simp only [heq, heq']
      exact simulated_invoke hsimulates name hname (hmethod.mono hle) harguments
        (hchain.mono hle) hafter

end

theorem Form.Related.inCall_eq {form form' : Form} (hform : form.Related pairs form') :
    Error.inCall form = Error.inCall form' := by
  funext error
  simp only [Error.inCall, hform.render_eq]

theorem simulates_evalAt (levels : Nat) : (evalAt levels).Simulates := by
  induction levels with
  | zero => exact fun hchain hform hstores => .pure (.error _) hstores
  | succ levels ih =>
      intro pairs chain chain' form form' store store' hchain hform hstores
      have hcall := hform.inCall_eq
      cases form <;> cases form' <;> simp only [Form.Related] at hform
      case literal.literal v w => exact .pure (.ok hform) hstores
      case variable.variable name other =>
        subst hform
        have hlookup := hstores.lookup hchain name
        simp only [evalAt]
        generalize store.lookup chain name = found,
          store'.lookup chain' name = found' at hlookup ⊢
        cases hlookup with
        | some hvalue => exact .pure (.ok hvalue) hstores
        | none => exact .pure (.error _) hstores
      case quoted.quoted f g =>
        have hvalue : (Value.form f).Related pairs (.form g) := by
          simpa only [Value.Related] using hform
        exact .pure (.ok hvalue) hstores
      case call.call name forms other forms' =>
        obtain ⟨rfl, hforms⟩ := hform
        simp only [evalAt, hcall]
        apply (simulated_evalCall ih name hforms hchain hstores).bind
        intro more hle hresult hafter
        exact .pure (hresult.mapError _) hafter
      case flag.flag name other =>
        subst hform
        exact .pure (.error _) hstores

end ArityScript
