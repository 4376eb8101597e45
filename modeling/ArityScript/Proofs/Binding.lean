import ArityScript.Binding
import ArityScript.Proofs.Layout

/-!
# Steps of binding

Arguments are bound one item at a time: an option is a flag with the form after
it, and any other form is a positional argument.  Each item is refused or has
its form evaluated, and binding goes on with what the value adds.  Which of the
two it is does not depend on any evaluation.
-/

namespace ArityScript.Binding

/-- What the value of the next positional argument adds to what has been bound,
if the signature admits one more. -/
def Partial.place? (made : Partial) (signature : Signature) : Option (Value → Partial) :=
  match made.unfilled with
  | parameter :: unfilled => some fun value =>
      { made with unfilled, bound := made.bound.insert parameter value }
  | [] =>
      if signature.rest.isSome then some fun value =>
        { made with surplus := value :: made.surplus }
      else none

/-- What the value of an option adds to what has been bound. -/
def Partial.withOption (made : Partial) (name : String) (value : Value) : Partial :=
  { made with bound := made.bound.insert name value }

inductive Step where
  | done
  | refuse (cause : EvalCause)
  /-- Evaluates a form, puts its value in its place and goes on with the rest. -/
  | take (form : Form) (place : Value → Partial) (rest : List Form)

/-- The next step of binding forms. -/
def step (method : String) (signature : Signature) : List Form → Partial → Step
  | [], _ => .done
  | .flag name :: rest, made =>
      if signature.declares name then
        match rest with
        | [] => .refuse (.flagWithoutValue name method)
        | form :: rest => .take form (made.withOption name) rest
      else .refuse (.unknownOption name method)
  | form :: rest, made =>
      match made.place? signature with
      | none => .refuse (.tooManyArguments method signature.arity)
      | some place => .take form place rest

section

variable {method : String} {signature : Signature}

theorem step_positional {argument : Form} (rest : List Form) (made : Partial)
    (hflag : argument.isFlag = false) :
    step method signature (argument :: rest) made =
      match made.place? signature with
      | none => .refuse (.tooManyArguments method signature.arity)
      | some place => .take argument place rest := by
  cases argument with
  | flag name => contradiction
  | _ => rfl

theorem step_flag (name : String) (rest : List Form) (made : Partial) :
    step method signature (.flag name :: rest) made =
      if signature.declares name then
        match rest with
        | [] => .refuse (.flagWithoutValue name method)
        | form :: rest => .take form (made.withOption name) rest
      else .refuse (.unknownOption name method) := rfl

theorem step_undeclared {name : String} (rest : List Form) (made : Partial)
    (hdeclares : signature.declares name = false) :
    step method signature (.flag name :: rest) made = .refuse (.unknownOption name method) := by
  rw [step_flag, hdeclares]
  rfl

theorem step_option {name : String} (form : Form) (rest : List Form) (made : Partial)
    (hdeclares : signature.declares name = true) :
    step method signature (.flag name :: form :: rest) made =
      .take form (made.withOption name) rest := by
  rw [step_flag, if_pos hdeclares]

/-- What is taken is the value of an option or a positional argument. -/
theorem step_eq_take {forms : List Form} {made : Partial} {form : Form}
    {place : Value → Partial} {rest : List Form}
    (hstep : step method signature forms made = .take form place rest) :
    (∃ name, forms = .flag name :: form :: rest ∧ place = made.withOption name) ∨
      (forms = form :: rest ∧ form.isFlag = false ∧ made.place? signature = some place) := by
  cases forms with
  | nil => cases hstep
  | cons first others =>
      cases hflag : first.isFlag with
      | false =>
          rw [step_positional others made hflag] at hstep
          split at hstep
          · cases hstep
          · next hplace =>
              cases hstep
              exact .inr ⟨rfl, hflag, hplace⟩
      | true =>
          obtain ⟨name, rfl⟩ := Form.eq_flag_of_isFlag hflag
          rw [step_flag] at hstep
          split at hstep
          · cases others with
            | nil => cases hstep
            | cons value rest =>
                cases hstep
                exact .inl ⟨name, rfl, rfl⟩
          · cases hstep

theorem eq_nil_of_step_eq_done {forms : List Form} {made : Partial}
    (hstep : step method signature forms made = .done) : forms = [] := by
  unfold step at hstep
  split at hstep
  · rfl
  · split at hstep
    · split at hstep <;> cases hstep
    · cases hstep
  · split at hstep <;> cases hstep

theorem kind_of_step_eq_refuse {forms : List Form} {made : Partial} {cause : EvalCause}
    (hstep : step method signature forms made = .refuse cause) :
    cause.kind ≠ .invalidForm := by
  unfold step at hstep
  split at hstep
  · cases hstep
  · split at hstep
    · split at hstep <;> cases hstep
      simp [EvalCause.kind]
    · cases hstep
      simp [EvalCause.kind]
  · split at hstep <;> cases hstep
    simp [EvalCause.kind]

/-- Binding, one step after the other: the hypothesis is for what is left when a
form has been taken. -/
@[elab_as_elim]
theorem steps_induction (method : String) (signature : Signature)
    {motive : List Form → Partial → Prop}
    (next : ∀ forms made, (∀ form place rest,
      step method signature forms made = .take form place rest →
        ∀ value, motive rest (place value)) → motive forms made)
    (forms : List Form) (made : Partial) : motive forms made := by
  induction hlength : forms.length using Nat.strongRecOn generalizing forms made with
  | ind length ih =>
      refine next forms made fun form place rest hstep value => ?_
      have hshorter : rest.length < length := by
        rw [← hlength]
        rcases step_eq_take hstep with ⟨name, rfl, _⟩ | ⟨rfl, _⟩
        · simp only [List.length_cons]
          omega
        · exact Nat.lt_succ_self rest.length
      exact ih rest.length hshorter rest (place value) rfl

end

section

variable {σ : Type} (method : String) (signature : Signature)
  (evaluate : Form → σ → Except Error Value × σ)

theorem collect_positional {argument : Form} (rest : List Form)
    (made : Partial) (state : σ) (hflag : argument.isFlag = false) :
    collect method signature evaluate (argument :: rest) made state =
      match made.unfilled with
      | parameter :: unfilled =>
          match evaluate argument state with
          | (.error error, state) => (.error error, state)
          | (.ok value, state) =>
              collect method signature evaluate rest
                { made with unfilled, bound := made.bound.insert parameter value } state
      | [] =>
          if signature.rest.isSome then
            match evaluate argument state with
            | (.error error, state) => (.error error, state)
            | (.ok value, state) =>
                collect method signature evaluate rest
                  { made with surplus := value :: made.surplus } state
          else
            (.error (.eval (.inMethod method (.tooManyArguments method signature.arity))),
              state) := by
  cases argument with
  | flag name => contradiction
  | _ => rfl

theorem collect_eq_step (forms : List Form) (made : Partial) (state : σ) :
    collect method signature evaluate forms made state =
      match step method signature forms made with
      | .done => (.ok made, state)
      | .refuse cause => (.error (.eval (.inMethod method cause)), state)
      | .take form place rest =>
          match evaluate form state with
          | (.error error, state) => (.error error, state)
          | (.ok value, state) =>
              collect method signature evaluate rest (place value) state := by
  cases forms with
  | nil => rfl
  | cons first others =>
      cases hflag : first.isFlag with
      | true =>
          obtain ⟨name, rfl⟩ := Form.eq_flag_of_isFlag hflag
          rw [step_flag]
          cases others with
          | nil =>
              rw [collect]
              split <;> rfl
          | cons form rest =>
              rw [collect]
              split <;> rfl
      | false =>
          rw [step_positional others made hflag, collect_positional _ _ _ _ _ _ hflag]
          obtain ⟨unfilled, bound, surplus⟩ := made
          cases unfilled with
          | nil =>
              simp only [Partial.place?]
              split <;> rfl
          | cons parameter unfilled => rfl

theorem collect_placed {argument : Form} (rest : List Form) {made : Partial} (state : σ)
    {place : Value → Partial} (hflag : argument.isFlag = false)
    (hplace : made.place? signature = some place) :
    collect method signature evaluate (argument :: rest) made state =
      match evaluate argument state with
      | (.error error, state) => (.error error, state)
      | (.ok value, state) =>
          collect method signature evaluate rest (place value) state := by
  rw [collect_eq_step, step_positional rest made hflag, hplace]

/-- Binding sees of a state only what the evaluation of forms sees of it. -/
theorem collect_project {τ : Type} (project : σ → τ)
    {evaluate' : Form → τ → Except Error Value × τ}
    (hproject : ∀ form state, evaluate' form (project state) =
      ((evaluate form state).1, project (evaluate form state).2))
    (forms : List Form) (made : Partial) (state : σ) :
    collect method signature evaluate' forms made (project state) =
      ((collect method signature evaluate forms made state).1,
        project (collect method signature evaluate forms made state).2) := by
  induction forms, made using steps_induction method signature generalizing state with
  | next forms made ih =>
      rw [collect_eq_step, collect_eq_step]
      cases hstep : step method signature forms made with
      | done => rfl
      | refuse cause => rfl
      | take form place rest =>
          simp only [hproject]
          rcases evaluate form state with ⟨_ | value, after⟩
          · rfl
          · exact ih form place rest hstep value after

theorem bindArguments_project {τ : Type} (project : σ → τ)
    {evaluate' : Form → τ → Except Error Value × τ}
    (hproject : ∀ form state, evaluate' form (project state) =
      ((evaluate form state).1, project (evaluate form state).2))
    (forms : List Form) (state : σ) :
    bindArguments method signature evaluate' forms (project state) =
      ((bindArguments method signature evaluate forms state).1,
        project (bindArguments method signature evaluate forms state).2) := by
  unfold bindArguments
  rw [collect_project method signature evaluate project hproject]
  rcases collect method signature evaluate forms ⟨signature.required, .empty, []⟩ state with
    ⟨_ | made, after⟩
  · rfl
  · rfl

end

end ArityScript.Binding
