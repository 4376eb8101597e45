import ArityScript.Proofs.Binding
import ArityScript.Proofs.Layout.Recovery
import ArityScript.Proofs.Parentheses

/-!
# Reading and binding agree on arguments

The reader decides by a signature how many arguments a call takes, and binding
decides by it what the arguments are.  For a call that was read, binding by the
same signature finds an argument for every required parameter and none too many,
and every flag has its value.  All that can go wrong is that the evaluation of an
argument fails, or that a flag is not declared: the reader keeps such a flag
where the call still takes positional arguments.
-/

namespace ArityScript

/-! ## The calls in a form -/

/-- A call in a form. -/
structure CallNode where
  /-- Whether a quote mark stands directly before the call. -/
  quoted : Bool
  method : String
  arguments : List Form

namespace Form

mutual

def callsFrom (quoted : Bool) : Form → List CallNode
  | .quoted f => f.callsFrom true
  | .call method arguments => ⟨quoted, method, arguments⟩ :: callsOfAll arguments
  | _ => []

def callsOfAll : List Form → List CallNode
  | [] => []
  | f :: rest => f.callsFrom false ++ callsOfAll rest

end

/-- All calls in a form, those in quoted forms and among arguments included. -/
def calls (f : Form) : List CallNode :=
  f.callsFrom false

/-- The forms among arguments that are to be evaluated: the positional ones and
the values of options, in their order. -/
def valueForms (arguments : List Form) : List Form :=
  arguments.filter fun f => !f.isFlag

theorem valueForms_flag (name : String) (rest : List Form) :
    valueForms (.flag name :: rest) = valueForms rest := rfl

theorem valueForms_cons {f : Form} {rest : List Form} (hflag : f.isFlag = false) :
    valueForms (f :: rest) = f :: valueForms rest := by
  simp [valueForms, hflag]

theorem mem_callsOfAll {node : CallNode} {arguments : List Form} :
    node ∈ callsOfAll arguments ↔ ∃ f ∈ arguments, node ∈ f.callsFrom false := by
  induction arguments with
  | nil => simp [callsOfAll]
  | cons f rest ih => simp [callsOfAll, ih]

end Form

/-- A quoted method name stands for the method, not for a call of it. -/
def CallNode.IsBareName (node : CallNode) : Prop :=
  node.quoted = true ∧ node.arguments = []

variable {signatures : Signatures} {signature : Signature}

theorem Form.ArgumentsConsistent.arityConsistent {count : Nat} {arguments : List Form}
    (hconsistent : Form.ArgumentsConsistent signatures signature count arguments) :
    ∀ f ∈ arguments, f.isFlag = true ∨ f.ArityConsistent signatures := by
  induction arguments using arguments_induction Form.isFlag generalizing count with
  | nil => simp
  | dangling flag hflag =>
      obtain ⟨name, rfl⟩ := Form.eq_flag_of_isFlag hflag
      simp [Form.ArgumentsConsistent] at hconsistent
  | option flag value rest hflag ih =>
      obtain ⟨name, rfl⟩ := Form.eq_flag_of_isFlag hflag
      simp only [Form.ArgumentsConsistent] at hconsistent
      obtain ⟨_, hvalue, hrest⟩ := hconsistent
      simp only [List.forall_mem_cons]
      exact ⟨.inl hflag, .inr hvalue, ih hrest⟩
  | positional argument rest hflag ih =>
      rw [Form.argumentsConsistent_cons (Form.ne_flag_of_isFlag hflag)] at hconsistent
      obtain ⟨_, hargument, hrest⟩ := hconsistent
      simp only [List.forall_mem_cons]
      exact ⟨.inr hargument, ih hrest⟩

theorem Form.ArityConsistent.isFlag_eq_false {f : Form}
    (hconsistent : f.ArityConsistent signatures) : f.isFlag = false := by
  cases f with
  | flag name => simp [Form.ArityConsistent] at hconsistent
  | _ => rfl

/-- Every call in a consistent form has the arguments that its method takes,
unless it is a bare name. -/
theorem Form.argumentsConsistent_of_mem_callsFrom {f : Form} :
    ∀ {quoted : Bool}, (Form.quoted f).ArityConsistent signatures →
      (quoted = false → f.ArityConsistent signatures) →
      ∀ node ∈ f.callsFrom quoted, ∃ signature, signatures node.method = some signature ∧
        ((node.IsBareName → signature.arity = 0) →
          Form.ArgumentsConsistent signatures signature 0 node.arguments) := by
  induction f using Form.induction_on with
  | literal _ | named _ | flag _ => simp [callsFrom]
  | quoted f ih =>
      intro quoted hconsistent _
      simp only [Form.ArityConsistent] at hconsistent
      exact ih hconsistent (by simp)
  | call method arguments ih =>
      intro quoted hconsistent hunquoted node hnode
      simp only [callsFrom, List.mem_cons, mem_callsOfAll] at hnode
      cases arguments with
      | nil =>
          have hself : node = ⟨quoted, method, []⟩ := by simpa using hnode
          subst node
          cases quoted with
          | false =>
              have hcall := hunquoted rfl
              simp only [Form.ArityConsistent] at hcall
              obtain ⟨signature, hsignature, harguments⟩ := hcall
              exact ⟨signature, hsignature, fun _ => harguments⟩
          | true =>
              simp only [Form.ArityConsistent] at hconsistent
              obtain ⟨signature, hsignature⟩ := Option.isSome_iff_exists.1 hconsistent
              refine ⟨signature, hsignature, fun hbare => ?_⟩
              have harity := hbare ⟨rfl, rfl⟩
              simp [Form.ArgumentsConsistent, harity]
      | cons first rest =>
          simp only [Form.ArityConsistent] at hconsistent
          obtain ⟨signature, hsignature, harguments⟩ := hconsistent
          obtain rfl | ⟨f, hf, hnode⟩ := hnode
          · exact ⟨signature, hsignature, fun _ => harguments⟩
          · rcases harguments.arityConsistent f hf with hflag | hargument
            · obtain ⟨name, rfl⟩ := Form.eq_flag_of_isFlag hflag
              simp [callsFrom] at hnode
            · exact ih f hf (Reader.arityConsistent_quoted hargument) (fun _ => hargument) node hnode

/-! ## Binding consistent arguments -/

section

variable {σ : Type} {method : String} {evaluate : Form → σ → Except Error Value × σ}

/-- How binding may end: with the arguments, with an error of the evaluation of
a form, or at a flag that the signature does not declare. -/
inductive Binding.Ends (method : String) (signature : Signature)
    (evaluate : Form → σ → Except Error Value × σ) (forms : List Form) {α : Type} :
    Except Error α × σ → Prop where
  | bound (result : α) (final : σ) : Ends method signature evaluate forms (.ok result, final)
  | failed {form : Form} {state final : σ} {error : Error} :
      form ∈ Form.valueForms forms → evaluate form state = (.error error, final) →
      Ends method signature evaluate forms (.error error, final)
  | undeclared {flag : String} (final : σ) :
      .flag flag ∈ forms → signature.declares flag = false →
      Ends method signature evaluate forms
        (.error (.eval (.inMethod method (.unknownOption flag method))), final)

namespace Binding

theorem Ends.mono {α : Type} {forms others : List Form} {outcome : Except Error α × σ}
    (hends : Ends method signature evaluate forms outcome)
    (hforms : ∀ f ∈ forms, f ∈ others) : Ends method signature evaluate others outcome := by
  cases hends with
  | bound result final => exact .bound result final
  | @failed form _ _ _ hform heval =>
      have hmem : form ∈ Form.valueForms others := by
        simp only [Form.valueForms, List.mem_filter] at hform ⊢
        exact ⟨hforms form hform.1, hform.2⟩
      exact .failed hmem heval
  | undeclared final hflag hdeclares => exact .undeclared final (hforms _ hflag) hdeclares

/-- A call that is pending after some positional arguments has a place for one
more. -/
theorem exists_place_of_isPending {count : Nat} {made : Partial}
    (hunfilled : made.unfilled = signature.required.drop count)
    (hpending : signature.isPending count = true) :
    ∃ place, made.place? signature = some place ∧
      ∀ value, (place value).unfilled = signature.required.drop (count + 1) := by
  have hnext : signature.required.drop (count + 1) = made.unfilled.tail := by
    rw [hunfilled, List.tail_drop]
  unfold Partial.place?
  split
  · next parameter unfilled hcons =>
      refine ⟨_, rfl, fun value => ?_⟩
      rw [hnext, hcons, List.tail_cons]
  · next hnil =>
      have hfull : signature.arity ≤ count := by
        rw [hnil, eq_comm, List.drop_eq_nil_iff] at hunfilled
        exact hunfilled
      have hrest : signature.rest.isSome = true := by
        simpa [Signature.isPending, Nat.not_lt.2 hfull] using hpending
      rw [if_pos hrest]
      refine ⟨_, rfl, fun value => ?_⟩
      rw [hnext, hnil, List.tail_nil]

/-- What is to be shown of binding forms in a state: it ends in one of the three
ways, it ends with no required parameter unfilled, and without an undeclared flag
and without a failure it has evaluated each value form once, in order. -/
structure Agrees (method : String) (signature : Signature)
    (evaluate : Form → σ → Except Error Value × σ) (forms : List Form) (state : σ)
    (outcome : Except Error Partial × σ) : Prop where
  ends : Ends method signature evaluate forms outcome
  unfilled : ∀ made final, outcome = (.ok made, final) → made.unfilled = []
  succeeds : (∀ flag, .flag flag ∈ forms → signature.declares flag = true) →
    (∀ form state, ∃ value final, evaluate form state = (.ok value, final)) →
    ∃ made, outcome = (.ok made, (Form.valueForms forms).foldl
      (fun state form => (evaluate form state).2) state)

/-- One form is evaluated, and binding goes on with the others. -/
theorem Agrees.step {forms rest : List Form} {form : Form} {place : Value → Partial}
    {state : σ} (hvalues : Form.valueForms forms = form :: Form.valueForms rest)
    (hrest : ∀ f ∈ rest, f ∈ forms)
    (hnext : ∀ value next, Agrees method signature evaluate rest next
      (collect method signature evaluate rest (place value) next)) :
    Agrees method signature evaluate forms state
      (match evaluate form state with
        | (.error error, state) => (.error error, state)
        | (.ok value, state) =>
            collect method signature evaluate rest (place value) state) := by
  have hmem : form ∈ Form.valueForms forms := by simp [hvalues]
  cases heval : evaluate form state with
  | mk result next =>
      cases result with
      | error error =>
          refine ⟨.failed hmem heval, fun _ _ heq => (by cases heq), ?_⟩
          intro _ hsucceeds
          obtain ⟨value, final, hvalue⟩ := hsucceeds form state
          rw [heval] at hvalue
          cases hvalue
      | ok value =>
          have hagrees := hnext value next
          refine ⟨hagrees.ends.mono hrest, hagrees.unfilled, ?_⟩
          intro hdeclared hsucceeds
          have hothers := hagrees.succeeds
            (fun flag hflag => hdeclared flag (hrest _ hflag)) hsucceeds
          rw [hvalues, List.foldl_cons, heval]
          exact hothers

/-- Binding consistent arguments, of which `count` positional ones have been
bound. -/
theorem agrees_collect {count : Nat} {forms : List Form}
    (hconsistent : Form.ArgumentsConsistent signatures signature count forms)
    {made : Partial} (hunfilled : made.unfilled = signature.required.drop count)
    (state : σ) :
    Agrees method signature evaluate forms state
      (collect method signature evaluate forms made state) := by
  induction forms using arguments_induction Form.isFlag
    generalizing count made state with
  | nil =>
      have harity : signature.arity ≤ count := by
        simpa [Form.ArgumentsConsistent] using hconsistent
      have hfull : made.unfilled = [] := by
        rw [hunfilled, List.drop_eq_nil_iff]
        exact harity
      refine ⟨.bound made state, fun result final heq => ?_, fun _ _ => ⟨made, rfl⟩⟩
      cases heq
      exact hfull
  | dangling flag hflag =>
      obtain ⟨name, rfl⟩ := Form.eq_flag_of_isFlag hflag
      simp [Form.ArgumentsConsistent] at hconsistent
  | option flag form rest hflag ih =>
      obtain ⟨name, rfl⟩ := Form.eq_flag_of_isFlag hflag
      simp only [Form.ArgumentsConsistent] at hconsistent
      obtain ⟨_, hform, hrest⟩ := hconsistent
      by_cases hdeclares : signature.declares name = true
      · rw [collect_eq_step, step_option form rest made hdeclares]
        have hvalues : Form.valueForms (.flag name :: form :: rest) =
            form :: Form.valueForms rest := by
          rw [Form.valueForms_flag, Form.valueForms_cons hform.isFlag_eq_false]
        refine .step hvalues (by simp +contextual) fun value next => ?_
        have hsame : (made.withOption name value).unfilled = signature.required.drop count :=
          hunfilled
        exact ih hrest hsame next
      · rw [Bool.not_eq_true] at hdeclares
        rw [collect_eq_step, step_undeclared _ _ hdeclares]
        refine ⟨.undeclared state (by simp) hdeclares, fun _ _ heq => (by cases heq), ?_⟩
        intro hdeclared _
        have hdeclared := hdeclared name (by simp)
        rw [hdeclares] at hdeclared
        contradiction
  | positional argument rest hflag ih =>
      rw [Form.argumentsConsistent_cons (Form.ne_flag_of_isFlag hflag)] at hconsistent
      obtain ⟨hpending, _, hrest⟩ := hconsistent
      obtain ⟨place, hplace, hplaced⟩ := exists_place_of_isPending hunfilled hpending
      rw [collect_placed _ _ _ _ _ hflag hplace]
      have hvalues : Form.valueForms (argument :: rest) =
          argument :: Form.valueForms rest := Form.valueForms_cons hflag
      exact .step hvalues (by simp +contextual) fun value next => ih hrest (hplaced value) next

end Binding

/-- Binding consistent arguments ends in one of the three ways.  It succeeds,
after one evaluation of each value form in their order, if the flags are declared
and no evaluation fails. -/
theorem Form.ArgumentsConsistent.bindArguments {forms : List Form}
    (hconsistent : Form.ArgumentsConsistent signatures signature 0 forms) (state : σ) :
    Binding.Ends method signature evaluate forms
        (bindArguments method signature evaluate forms state) ∧
      ((∀ flag, .flag flag ∈ forms → signature.declares flag = true) →
        (∀ form state, ∃ value final, evaluate form state = (.ok value, final)) →
        ∃ bound, bindArguments method signature evaluate forms state =
          (.ok bound, (Form.valueForms forms).foldl
            (fun state form => (evaluate form state).2) state)) := by
  have hagrees : Binding.Agrees method signature evaluate forms state
      (Binding.collect method signature evaluate forms
        ⟨signature.required, .empty, []⟩ state) :=
    Binding.agrees_collect hconsistent rfl state
  have hcomplete : ∀ made : Binding.Partial, made.unfilled = [] →
      ∃ bound, Binding.complete method signature made = .ok bound := by
    intro made hunfilled
    unfold Binding.complete
    rw [hunfilled]
    cases signature.rest with
    | none => exact ⟨_, rfl⟩
    | some name => exact ⟨_, rfl⟩
  unfold ArityScript.bindArguments
  cases hcollect : Binding.collect method signature evaluate forms
      ⟨signature.required, .empty, []⟩ state with
  | mk result final =>
      rw [hcollect] at hagrees
      cases result with
      | error error =>
          constructor
          · cases hagrees.ends with
            | failed hform heval => exact .failed hform heval
            | undeclared _ hflag hdeclares => exact .undeclared final hflag hdeclares
          · intro hdeclared hsucceeds
            obtain ⟨made, hmade⟩ := hagrees.succeeds hdeclared hsucceeds
            cases hmade
      | ok made =>
          obtain ⟨bound, hbound⟩ := hcomplete made (hagrees.unfilled made final rfl)
          constructor
          · simp only [hbound]
            exact .bound bound final
          · intro hdeclared hsucceeds
            obtain ⟨made', hmade⟩ := hagrees.succeeds hdeclared hsucceeds
            cases hmade
            exact ⟨bound, by simp only [hbound]⟩

end

/-- Every call that was read, other than a bare name whose method requires
arguments, is bound by the signature by which it was read: with any evaluation,
binding gives the arguments, or fails as the evaluation of one of them does, or
at a flag that is not declared.  If all flags are declared and no evaluation
fails, it gives the arguments and has evaluated each value form once, in the
order of the source; the state may be anything, also a list of what has been
evaluated. -/
theorem bindArguments_of_parse {comments : Bool} {source : String} {f : Form}
    (hparse : parse signatures comments source = .ok f) {node : CallNode}
    (hnode : node ∈ f.calls) :
    ∃ signature, signatures node.method = some signature ∧
      ((node.IsBareName → signature.arity = 0) →
        ∀ {σ : Type} (evaluate : Form → σ → Except Error Value × σ) (state : σ),
          Binding.Ends node.method signature evaluate node.arguments
              (bindArguments node.method signature evaluate node.arguments state) ∧
            ((∀ flag, .flag flag ∈ node.arguments → signature.declares flag = true) →
              (∀ form state, ∃ value final, evaluate form state = (.ok value, final)) →
              ∃ bound,
                bindArguments node.method signature evaluate node.arguments state =
                  (.ok bound, (Form.valueForms node.arguments).foldl
                    (fun state form => (evaluate form state).2) state))) := by
  obtain ⟨_, layout, _, _, hconsistent, _⟩ := exists_layout_of_parse hparse
  have hcall := Form.argumentsConsistent_of_mem_callsFrom
    (Reader.arityConsistent_quoted hconsistent) (fun _ => hconsistent) node hnode
  obtain ⟨signature, hsignature, harguments⟩ := hcall
  exact ⟨signature, hsignature, fun hbare _ evaluate state =>
    (harguments hbare).bindArguments state⟩

def rangeCall : Form :=
  .call ".." [.flag "step", .literal (.number 4), .literal (.number 1),
    .literal (.number 20)]

theorem eq_ok_of_toOption {ε α : Type} {result : Except ε α} {a : α}
    (hresult : result.toOption = some a) : result = .ok a := by
  cases result with
  | ok value => exact congrArg _ (Option.some.inj hresult)
  | error error => contradiction

/-- The value of the option is evaluated where it stands, before the bounds. -/
theorem bindArguments_range :
    parse sampleSignatures true ".. --step 4 1 20" = .ok rangeCall ∧
      ∃ signature, sampleSignatures ".." = some signature ∧
        ∃ bound, bindArguments ".." signature
            (fun form (log : List Form) => (.ok .placeholder, log ++ [form]))
            [.flag "step", .literal (.number 4), .literal (.number 1),
              .literal (.number 20)] [] =
          (.ok bound,
            [.literal (.number 4), .literal (.number 1), .literal (.number 20)]) := by
  have hparse : parse sampleSignatures true ".. --step 4 1 20" = .ok rangeCall :=
    eq_ok_of_toOption (by decide +kernel)
  have hnode : ⟨false, "..", [.flag "step", .literal (.number 4), .literal (.number 1),
      .literal (.number 20)]⟩ ∈ rangeCall.calls := .head _
  obtain ⟨signature, hsignature, hbinds⟩ := bindArguments_of_parse hparse hnode
  have hdeclares : signature.declares "step" = true := by
    have hsame : signature = (Signature.ofRequired ["low", "high"]).withOption "step"
        (.number 1) := by
      simpa [sampleSignatures] using hsignature.symm
    rw [hsame]
    decide
  obtain ⟨_, hsucceeds⟩ := hbinds (by simp [CallNode.IsBareName])
    (fun form (log : List Form) => (.ok .placeholder, log ++ [form])) []
  refine ⟨hparse, signature, hsignature, hsucceeds ?_ fun form log => ⟨_, _, rfl⟩⟩
  intro flag hflag
  obtain rfl : flag = "step" := by simpa using hflag
  exact hdeclares

end ArityScript
