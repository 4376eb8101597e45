import ArityScript.Proofs.Forwarding

/-!
# Propagation of failures

An error that leaves a call is the error of everything around the call: nothing
more is entered after it and nothing more is written.  The first call that is
left with an error is the innermost one in which the error was raised, and the
one whose text the error carries.

A call is meant here with levels left to it.  A call at the limit is refused
before anything is looked at, as any other form.
-/

namespace ArityScript

/-- A call that is evaluated with levels left to it. -/
def Evaluation.IsCall (evaluation : Evaluation) : Prop :=
  ∃ levels chain name forms, evaluation = ⟨levels + 1, chain, .call name forms⟩

theorem Error.inCall_inCall (outer inner : Form) (error : Error) :
    (error.inCall inner).inCall outer = error.inCall inner := by
  obtain _ | _ | ⟨cause, method, _ | context⟩ := error <;> rfl

theorem Error.exists_raised {form : Form} {error : Error} {failure : EvalError}
    (herror : error.inCall form = .eval failure) :
    ∃ raised, error = .eval raised ∧ failure = { raised with
      context := some (raised.context.getD ("while evaluating: " ++ form.render)) } := by
  obtain _ | _ | ⟨cause, method, _ | context⟩ := error <;> cases herror
  · exact ⟨_, rfl, rfl⟩
  · exact ⟨_, rfl, rfl⟩

theorem evalAt_call (levels : Nat) (chain : Chain) (name : String) (forms : List Form)
    (store : Store) :
    evalAt (levels + 1) chain (.call name forms) store =
      ((recordCall (evalAt levels) name forms chain ⟨store, []⟩).1.mapError
          (Error.inCall (.call name forms)),
        (recordCall (evalAt levels) name forms chain ⟨store, []⟩).2.store) := by
  have hcall := recordCall_evalCall (evalAt levels) name forms chain ⟨store, []⟩
  simp only [evalAt, hcall]

theorem Error.inCall_of_evalAt {levels : Nat} {chain : Chain} {name : String}
    {forms : List Form} {store final : Store} {error : Error}
    (heval : evalAt (levels + 1) chain (.call name forms) store = (.error error, final))
    (outer : Form) : error.inCall outer = error := by
  rw [evalAt_call] at heval
  cases hresult : (recordCall (evalAt levels) name forms chain ⟨store, []⟩).1 with
  | ok value =>
      rw [hresult] at heval
      cases heval
  | error raised =>
      rw [hresult] at heval
      have hraised := Except.error.inj (Prod.mk.inj heval).1
      rw [← hraised, Error.inCall_inCall]

/-! ## Suffixes -/

theorem cons_suffix_append {α : Type} {a : α} {rest left right : List α}
    (hsuffix : a :: rest <:+ left ++ right) :
    a :: rest <:+ right ∨ ∃ middle, rest = middle ++ right ∧ a :: middle <:+ left := by
  induction left with
  | nil => exact .inl hsuffix
  | cons first others ih =>
      rw [List.cons_append, List.suffix_cons_iff] at hsuffix
      rcases hsuffix with heq | hsuffix
      · cases heq
        exact .inr ⟨others, rfl, List.suffix_refl _⟩
      · rcases ih hsuffix with hright | ⟨middle, hrest, hmiddle⟩
        · exact .inl hright
        · exact .inr ⟨middle, hrest, hmiddle.trans (List.suffix_cons first others)⟩

theorem exists_suffix_of_mem {α : Type} {a : α} {list : List α} (hmem : a ∈ list) :
    ∃ rest, a :: rest <:+ list := by
  obtain ⟨before, rest, rfl⟩ := List.append_of_mem hmem
  exact ⟨rest, List.suffix_append before (a :: rest)⟩

theorem Evaluation.leave_suffix_traced {evaluation other : Evaluation} {store final : Store}
    {result : Except Error Value} {inside later : List Event}
    (hsuffix : .leave other result final :: later <:+ evaluation.traced store inside) :
    (later = [] ∧ other = evaluation ∧
        evalAt evaluation.levels evaluation.chain evaluation.form store = (result, final)) ∨
      ∃ middle last, later = middle ++ [.leave evaluation last.1 last.2] ∧
        evalAt evaluation.levels evaluation.chain evaluation.form store = last ∧
        .leave other result final :: middle <:+ inside := by
  simp only [traced, List.cons_append, List.suffix_cons_iff, List.cons.injEq, reduceCtorEq,
    false_and, false_or] at hsuffix
  rcases cons_suffix_append hsuffix with hlast | ⟨middle, hrest, hmiddle⟩
  · simp only [List.suffix_cons_iff, List.cons.injEq, Event.leave.injEq, List.suffix_nil,
      reduceCtorEq, or_false] at hlast
    obtain ⟨⟨rfl, hresult, hfinal⟩, rfl⟩ := hlast
    exact .inl ⟨rfl, rfl, Prod.ext hresult.symm hfinal.symm⟩
  · exact .inr ⟨middle, _, hrest, rfl, hmiddle⟩

/-! ## Stores whose methods forward failures -/

/-- Rules that say only which native methods are used. -/
def Rules.calling (allowed : Native → Prop) : Rules :=
  ⟨fun _ => True, fun _ => True, fun _ => True, allowed⟩

theorem Program.within_of_forall {rules : Rules} (hvalue : ∀ value, rules.value value)
    (hform : ∀ form, rules.form form) (herror : ∀ error, rules.error error)
    (program : Program) : program.Within rules := by
  induction program with
  | finish outcome =>
      refine .finish ?_
      cases outcome with
      | ok value => exact hvalue value
      | error failure =>
          cases failure with
          | error error => exact herror error
          | host failure => exact trivial
  | eval form next ih => exact .eval (hform form) fun outcome _ => ih outcome
  | inScope body next ihBody ihNext => exact .inScope ihBody fun outcome _ => ihNext outcome
  | assign name value next ih => exact .assign (hvalue value) ih
  | lookup name next ih => exact .lookup fun found _ => ih found
  | define name parameters body next ih => exact .define (hform body) fun ref => ih _
  | frameCount next ih => exact .frameCount ih
  | callName next ih => exact .callName ih

theorem Rules.arguments_of_forall {rules : Rules} (hform : ∀ form, rules.form form)
    (forms : List Form) : rules.arguments forms := by
  induction forms using arguments_induction Form.isFlag with
  | nil => exact trivial
  | dangling flag hflag =>
      obtain ⟨name, rfl⟩ := Form.eq_flag_of_isFlag hflag
      exact trivial
  | option flag form rest hflag ih =>
      obtain ⟨name, rfl⟩ := Form.eq_flag_of_isFlag hflag
      exact ⟨hform form, ih⟩
  | positional argument rest hflag ih =>
      cases argument with
      | flag name => contradiction
      | _ => exact ⟨hform _, ih⟩

theorem Rules.sensible_calling (allowed : Native → Prop) :
    (Rules.calling allowed).Sensible where
  method _ := trivial
  list _ _ := trivial
  literal _ _ := trivial
  quoted _ _ := trivial
  call _ forms _ := arguments_of_forall (fun _ => trivial) forms
  stray _ _ := trivial
  error _ _ _ := trivial
  context _ _ _ := trivial
  native native _ arguments _ :=
    Program.within_of_forall (fun _ => trivial) (fun _ => trivial) (fun _ => trivial)
      (native arguments)

theorem Store.Calls.within {store : Store} {allowed : Native → Prop}
    (hcalls : store.Calls allowed) : store.Within (.calling allowed) where
  frame _ _ _ _ _ := trivial
  method method hmem := by
    refine ⟨fun _ _ => trivial, ?_⟩
    cases hbody : method.body with
    | native native => exact hcalls method hmem native hbody
    | defined form scope => exact trivial

theorem Store.Within.calls {store : Store} {allowed : Native → Prop}
    (hwithin : store.Within (.calling allowed)) : store.Calls allowed := by
  intro method hmem native hbody
  have hmethod := (hwithin.method method hmem).body
  rw [hbody] at hmethod
  exact hmethod

section

variable {own : Error → Prop} (howns : ∀ cause method, own (.eval ⟨cause, method, none⟩))

include howns

theorem Store.Forwards.recordCall {store : Store} (hstore : store.Forwards own) (levels : Nat)
    (name : String) (forms : List Form) (chain : Chain) :
    Forwarded (evalAt levels) own id
      (ArityScript.recordCall (evalAt levels) name forms chain ⟨store, []⟩) := by
  have hclean : Recording.Clean (evalAt levels) ⟨store, []⟩ := by
    intro request hmem
    contradiction
  exact forwarded_recordCall hclean howns name forms chain hstore

omit howns in
theorem Store.Forwards.request {store : Store} (hstore : store.Forwards own)
    (evaluation : Evaluation) {request : Request}
    (hrequest : request ∈ evaluation.requests store) : request.store.Forwards own :=
  (evaluation.within_requests (Rules.sensible_calling _) trivial hstore.within request
    hrequest).2.calls

/-! ## Everything after a failure -/

/-- The exit of a call with an error. -/
def Event.IsFailedCall (event : Event) : Prop :=
  ∃ evaluation error final, evaluation.IsCall ∧ event = .leave evaluation (.error error) final

/-- An error is raised in a call in which no other call fails, and gets the text of
the call as its context unless it has one. -/
structure RaisedIn (own : Error → Prop) (earlier : List Event) (innermost : Evaluation)
    (error : EvalError) (final : Store) : Prop where
  first : ∀ event ∈ earlier, ¬ event.IsFailedCall
  raised : ∃ levels chain name forms before raised,
    innermost = ⟨levels + 1, chain, .call name forms⟩ ∧ .enter innermost before ∈ earlier ∧
      evalCall (evalAt levels) name forms chain before = (.error (.eval raised), final) ∧
      own (.eval raised) ∧ error = { raised with
        context := some (raised.context.getD ("while evaluating: " ++ innermost.form.render)) }

omit howns in
theorem inCall_of_leave_mem {levels : Nat} {chain : Chain} {form : Form} {store : Store}
    {evaluation : Evaluation} {error : Error} {final : Store} (hcall : evaluation.IsCall)
    (hmem : .leave evaluation (.error error) final ∈ traceAt levels chain form store)
    (outer : Form) : error.inCall outer = error := by
  obtain ⟨levels, chain, name, forms, rfl⟩ := hcall
  obtain ⟨before, _, heval⟩ := enter_mem_traceAt hmem
  exact Error.inCall_of_evalAt heval outer

omit howns in
theorem leave_of_failed_request {levels : Nat} {outcome : Except Error Value × Recording}
    (hforwarded : Forwarded (evalAt levels) own id outcome) {evaluation : Evaluation}
    {error : Error} {final : Store}
    (hrequests : ∀ request ∈ outcome.2.requests, ∀ rest,
      .leave evaluation (.error error) final :: rest <:+
        traceAt levels request.chain request.form request.store →
      evalAt levels request.chain request.form request.store = (.error error, final) ∧
        ∀ event ∈ rest, ∃ outer, event = .leave outer (.error error) final)
    {middle : List Event}
    (hsuffix : .leave evaluation (.error error) final :: middle <:+
      outcome.2.requests.flatMap fun request =>
        traceAt levels request.chain request.form request.store) :
    (outcome.1, outcome.2.store) = (.error error, final) ∧
      ∀ event ∈ middle, ∃ outer, event = .leave outer (.error error) final := by
  have habsent : ∀ earlier ⊆ outcome.2.requests,
      (∀ request ∈ earlier, request.Succeeds (evalAt levels)) → ∀ rest,
      ¬ .leave evaluation (.error error) final :: rest <:+ earlier.flatMap fun request =>
        traceAt levels request.chain request.form request.store := by
    intro earlier hsubset hsucceeds rest hrest
    obtain ⟨request, hrequest, hmem⟩ := List.mem_flatMap.1 (hrest.mem List.mem_cons_self)
    obtain ⟨others, hothers⟩ := exists_suffix_of_mem hmem
    obtain ⟨value, after, hvalue⟩ := hsucceeds request hrequest
    have hfails := (hrequests request (hsubset hrequest) others hothers).1
    rw [hvalue] at hfails
    cases hfails
  cases hforwarded with
  | ok hclean => exact (habsent _ (List.Subset.refl _) hclean middle hsuffix).elim
  | own hclean _ => exact (habsent _ (List.Subset.refl _) hclean middle hsuffix).elim
  | @forwarded earlier request raised after hearlier hfails =>
      rw [List.flatMap_append, List.flatMap_singleton] at hsuffix
      rcases cons_suffix_append hsuffix with hlast | ⟨rest, _, hrest⟩
      · obtain ⟨heval, hothers⟩ := hrequests request (by simp) middle hlast
        have hsame : (Except.error raised, after) = (.error error, final) := hfails.symm.trans heval
        exact ⟨hsame, hothers⟩
      · exact (habsent earlier (by simp) hearlier rest hrest).elim

/-- After a call has been left with an error, all evaluations around it are left
with the same error and the same store. -/
theorem leave_of_failed_call {levels : Nat} {chain : Chain} {form : Form} {store : Store}
    (hstore : store.Forwards own) {evaluation : Evaluation} {error : Error} {final : Store}
    {later : List Event} (hcall : evaluation.IsCall)
    (hsuffix : .leave evaluation (.error error) final :: later <:+
      traceAt levels chain form store) :
    evalAt levels chain form store = (.error error, final) ∧
      ∀ event ∈ later, ∃ outer, event = .leave outer (.error error) final := by
  induction levels generalizing chain form store later with
  | zero =>
      rcases Evaluation.leave_suffix_traced hsuffix with ⟨_, rfl, _⟩ | ⟨_, _, _, _, hinside⟩
      · obtain ⟨_, _, _, _, heq⟩ := hcall
        cases heq
      · simp at hinside
  | succ levels ih =>
      have houter := inCall_of_leave_mem hcall (hsuffix.mem List.mem_cons_self)
      rcases Evaluation.leave_suffix_traced hsuffix with
        ⟨rfl, rfl, heval⟩ | ⟨middle, last, rfl, heval, hinside⟩
      · exact ⟨heval, by simp⟩
      · cases form with
        | call name forms =>
            have hforwarded := hstore.recordCall howns levels name forms chain
            have hended := leave_of_failed_request hforwarded (fun request hrequest rest hrest =>
              ih (hstore.request ⟨levels + 1, chain, .call name forms⟩ hrequest) hrest) hinside
            obtain ⟨hended, hmiddle⟩ := hended
            obtain ⟨hresult, hfinal⟩ := Prod.mk.inj hended
            have hlast : last = (.error error, final) := by
              have hcall := evalAt_call levels chain name forms store
              rw [hresult, hfinal] at hcall
              have hsame := houter (.call name forms)
              rw [← heval, ← hsame]
              exact hcall
            refine ⟨by rw [heval, hlast], fun event hmem => ?_⟩
            rcases List.mem_append.1 hmem with hmem | hmem
            · exact hmiddle event hmem
            · rw [List.mem_singleton.1 hmem, hlast]
              exact ⟨_, rfl⟩
        | _ => simp [Evaluation.requests] at hinside

/-! ## The innermost call -/

omit howns in
theorem RaisedIn.enlarge {earlier more : List Event} {innermost : Evaluation}
    {error : EvalError} {final : Store} (hraised : RaisedIn own earlier innermost error final)
    (hfirst : ∀ event ∈ more, ¬ event.IsFailedCall) (hsubset : earlier ⊆ more) :
    RaisedIn own more innermost error final := by
  obtain ⟨levels, chain, name, forms, before, raised, heq, hentered, hrest⟩ := hraised.raised
  exact ⟨hfirst, levels, chain, name, forms, before, raised, heq, hsubset hentered, hrest⟩

theorem not_failedCall_of_succeeds {levels : Nat} {request : Request}
    (hstore : request.store.Forwards own) (hsucceeds : request.Succeeds (evalAt levels)) :
    ∀ event ∈ traceAt levels request.chain request.form request.store,
      ¬ event.IsFailedCall := by
  rintro _ hmem ⟨evaluation, error, final, hcall, rfl⟩
  obtain ⟨later, hsuffix⟩ := exists_suffix_of_mem hmem
  obtain ⟨value, after, hvalue⟩ := hsucceeds
  have hfails := (leave_of_failed_call howns hstore hcall hsuffix).1
  rw [hvalue] at hfails
  cases hfails

omit howns in
theorem traceAt_of_not_call {levels : Nat} {chain : Chain} {form : Form} (store : Store)
    (hcall : ¬ Evaluation.IsCall ⟨levels, chain, form⟩) :
    traceAt levels chain form store = Evaluation.traced ⟨levels, chain, form⟩ store [] := by
  cases levels with
  | zero => rfl
  | succ levels =>
      cases form with
      | call name forms => exact (hcall ⟨levels, chain, name, forms, rfl⟩).elim
      | _ => rfl

omit howns in
theorem not_failedCall_of_not_call {levels : Nat} {chain : Chain} {form : Form} (store : Store)
    (hcall : ¬ Evaluation.IsCall ⟨levels, chain, form⟩) :
    ∀ event ∈ traceAt levels chain form store, ¬ event.IsFailedCall := by
  rintro _ hmem ⟨evaluation, error, final, hother, rfl⟩
  rw [traceAt_of_not_call store hcall, Evaluation.leave_mem_traced] at hmem
  rcases hmem with hmem | ⟨rfl, _⟩
  · contradiction
  · exact hcall hother

theorem own_of_not_call {levels : Nat} {chain : Chain} {form : Form} {store final : Store}
    {error : Error} (hcall : ¬ Evaluation.IsCall ⟨levels, chain, form⟩)
    (heval : evalAt levels chain form store = (.error error, final)) : own error := by
  cases levels with
  | zero =>
      cases heval
      exact howns _ _
  | succ levels =>
      cases form with
      | literal _ | quoted _ => cases heval
      | «variable» name =>
          simp only [evalAt] at heval
          split at heval
          · cases heval
          · cases heval
            exact howns _ _
      | call name forms => exact (hcall ⟨levels, chain, name, forms, rfl⟩).elim
      | flag name =>
          cases heval
          exact howns _ _

omit howns in
theorem not_failedCall_enter {evaluation : Evaluation} {store : Store} {inside : List Event}
    (hinside : ∀ event ∈ inside, ¬ event.IsFailedCall) :
    ∀ event ∈ .enter evaluation store :: inside, ¬ event.IsFailedCall := by
  intro event hmem
  rcases List.mem_cons.1 hmem with rfl | hmem
  · rintro ⟨_, _, _, _, heq⟩
    cases heq
  · exact hinside event hmem

omit howns in
theorem not_failedCall_append {earlier later : List Event}
    (hearlier : ∀ event ∈ earlier, ¬ event.IsFailedCall)
    (hlater : ∀ event ∈ later, ¬ event.IsFailedCall) :
    ∀ event ∈ earlier ++ later, ¬ event.IsFailedCall := by
  intro event hmem
  rcases List.mem_append.1 hmem with hmem | hmem
  · exact hearlier event hmem
  · exact hlater event hmem

theorem not_failedCall_of_requests {levels : Nat} {requests : List Request}
    (hstore : ∀ request ∈ requests, request.store.Forwards own)
    (hsucceeds : ∀ request ∈ requests, request.Succeeds (evalAt levels)) :
    ∀ event ∈ requests.flatMap fun request =>
        traceAt levels request.chain request.form request.store,
      ¬ event.IsFailedCall := by
  intro event hmem
  obtain ⟨request, hrequest, hmem⟩ := List.mem_flatMap.1 hmem
  exact not_failedCall_of_succeeds howns (hstore request hrequest)
    (hsucceeds request hrequest) event hmem

omit howns in
theorem traceAt_failed_call {levels : Nat} {chain : Chain} {name : String} {forms : List Form}
    {store final : Store} {error : Error}
    (heval : evalAt (levels + 1) chain (.call name forms) store = (.error error, final)) :
    traceAt (levels + 1) chain (.call name forms) store =
      (.enter ⟨levels + 1, chain, .call name forms⟩ store ::
        (recordCall (evalAt levels) name forms chain ⟨store, []⟩).2.requests.flatMap
          fun request => traceAt levels request.chain request.form request.store) ++
      [.leave ⟨levels + 1, chain, .call name forms⟩ (.error error) final] := by
  simp only [traceAt, Evaluation.traced, heval]
  rfl

omit howns in
theorem RaisedIn.of_evalCall {levels : Nat} {chain : Chain} {name : String} {forms : List Form}
    {store final : Store} {inside : List Event} {raised : EvalError}
    (hinside : ∀ event ∈ inside, ¬ event.IsFailedCall)
    (hcall : evalCall (evalAt levels) name forms chain store = (.error (.eval raised), final))
    (hown : own (.eval raised)) :
    RaisedIn own (.enter ⟨levels + 1, chain, .call name forms⟩ store :: inside)
      ⟨levels + 1, chain, .call name forms⟩
      { raised with context := some (raised.context.getD
          ("while evaluating: " ++ (Form.call name forms).render)) }
      final :=
  ⟨not_failedCall_enter hinside, levels, chain, name, forms, store, raised, rfl,
    List.mem_cons_self, hcall, hown, rfl⟩

/-- A failure of a call was raised in the first call that is left with it. -/
theorem exists_innermost {levels : Nat} {chain : Chain} {name : String} {forms : List Form}
    {store final : Store} (hstore : store.Forwards own) {error : EvalError}
    (heval : evalAt (levels + 1) chain (.call name forms) store = (.error (.eval error), final)) :
    ∃ earlier innermost later,
      traceAt (levels + 1) chain (.call name forms) store =
        earlier ++ .leave innermost (.error (.eval error)) final :: later ∧
      RaisedIn own earlier innermost error final := by
  induction levels using Nat.strongRecOn generalizing chain name forms store with
  | ind levels ih =>
      have hforwarded := hstore.recordCall howns levels name forms chain
      have hrecorded := recordCall_evalCall (evalAt levels) name forms chain ⟨store, []⟩
      have hrequests : ∀ request ∈ (recordCall (evalAt levels) name forms chain
          ⟨store, []⟩).2.requests, request.store.Forwards own :=
        fun request => hstore.request ⟨levels + 1, chain, .call name forms⟩
      have htrace := traceAt_failed_call heval
      rw [evalAt_call] at heval
      generalize recordCall (evalAt levels) name forms chain ⟨store, []⟩ = outcome
        at hforwarded hrecorded hrequests htrace heval
      cases hforwarded with
      | ok => cases heval
      | own hclean hown =>
          obtain ⟨hresult, rfl⟩ := Prod.mk.inj heval
          have hcontext := Except.error.inj hresult
          obtain ⟨raised, rfl, rfl⟩ := Error.exists_raised hcontext
          have hinside := not_failedCall_of_requests howns hrequests hclean
          exact ⟨_, _, [], htrace, .of_evalCall hinside hrecorded hown⟩
      | @forwarded earlier request failure after hearlier hfails =>
          obtain ⟨hresult, rfl⟩ := Prod.mk.inj heval
          have hcontext : Error.inCall (.call name forms) failure = .eval error :=
            Except.error.inj hresult
          obtain ⟨raised, rfl, herror⟩ := Error.exists_raised hcontext
          have hbefore := not_failedCall_of_requests howns
            (fun request hmem => hrequests request (by simp [hmem])) hearlier
          rw [List.flatMap_append, List.flatMap_singleton] at htrace
          by_cases hcall : Evaluation.IsCall ⟨levels, request.chain, request.form⟩
          · obtain ⟨scope, form, before⟩ := request
            obtain ⟨inner, scope, called, arguments, heq⟩ := hcall
            cases heq
            have hsettled := Error.inCall_of_evalAt hfails (.call name forms)
            have hsame : raised = error := by
              rw [hsettled] at hcontext
              exact Error.eval.inj hcontext
            rw [hsame] at hfails
            have hinner := hrequests ⟨scope, .call called arguments, before⟩ (by simp)
            obtain ⟨within, innermost, later, hwithin, hraised⟩ :=
              ih inner (Nat.lt_succ_self inner) hinner hfails
            have hinside := not_failedCall_append hbefore hraised.first
            refine ⟨.enter ⟨inner + 1 + 1, chain, .call name forms⟩ store :: (_ ++ within),
              innermost, later ++ [.leave ⟨inner + 1 + 1, chain, .call name forms⟩
                (.error (.eval error)) after], ?_,
              hraised.enlarge (not_failedCall_enter hinside) (by simp)⟩
            rw [htrace, hwithin]
            simp only [List.cons_append, List.append_assoc]
          · -- What was forwarded is no failure of a call, so it is this call that raises it.
            have hrequest := not_failedCall_of_not_call request.store hcall
            have hinside := not_failedCall_append hbefore hrequest
            subst herror
            exact ⟨_, _, [], htrace,
              .of_evalCall hinside hrecorded (own_of_not_call howns hcall hfails)⟩

end

/-! ## Propagation -/

/-- An error that has not been given a context. -/
def Error.Bare : Error → Prop
  | .eval error => error.context = none
  | _ => True

theorem Rules.structural_raising : (Rules.raising Error.Bare).Structural where
  number _ := trivial
  string _ := trivial
  bool _ := trivial
  range _ := trivial
  method _ := trivial
  list _ := by simp [raising]
  form _ := Iff.rfl
  literal _ _ := trivial
  error _ _ _ := rfl

/-- A standard method, or another one that forwards failures. -/
def Native.Transparent (native : Native) : Prop :=
  (∃ entry ∈ Builtin.methods, entry.2.2 = native) ∨ native.Forwards

/-- A standard method, or another one whose own errors have no context. -/
def Native.RaisesBare (native : Native) : Prop :=
  (∃ entry ∈ Builtin.methods, entry.2.2 = native) ∨ native.Within (.raising Error.Bare)

theorem Store.Calls.forwards {store : Store} (hstore : store.Calls Native.Transparent) :
    store.Forwards fun _ => True := by
  intro method hmem native hbody
  refine ⟨?_, fun arguments _ => ?_⟩
  · rcases hstore method hmem native hbody with ⟨entry, hentry, rfl⟩ | hforwards
    · exact Builtin.forwards_of_mem entry hentry
    · exact hforwards
  · exact Program.within_of_forall (fun _ => trivial) (fun _ => trivial) (fun _ => trivial)
      (native arguments)

theorem Store.Calls.forwards_bare {store : Store} (hstore : store.Calls Native.Transparent)
    (hbare : store.Calls Native.RaisesBare) : store.Forwards Error.Bare := by
  intro method hmem native hbody
  obtain ⟨hforwards, _⟩ := hstore.forwards method hmem native hbody
  rcases hbare method hmem native hbody with ⟨entry, hentry, rfl⟩ | hraises
  · exact ⟨hforwards, Builtin.within_of_mem Rules.structural_raising entry hentry⟩
  · exact ⟨hforwards, hraises⟩

theorem RaisedIn.imp {own others : Error → Prop} {earlier : List Event}
    {innermost : Evaluation} {error : EvalError} {final : Store}
    (hraised : RaisedIn own earlier innermost error final)
    (himp : ∀ error, own error → others error) :
    RaisedIn others earlier innermost error final := by
  obtain ⟨levels, chain, name, forms, before, raised, heq, hentered, hcall, hown, hcontext⟩ :=
    hraised.raised
  exact ⟨hraised.first, levels, chain, name, forms, before, raised, heq, hentered, hcall,
    himp _ hown, hcontext⟩

theorem RaisedIn.context_isSome {own : Error → Prop} {earlier : List Event}
    {innermost : Evaluation} {error : EvalError} {final : Store}
    (hraised : RaisedIn own earlier innermost error final) : error.context.isSome = true := by
  obtain ⟨_, _, _, _, _, raised, _, _, _, _, rfl⟩ := hraised.raised
  rfl

theorem RaisedIn.context_eq {earlier : List Event} {innermost : Evaluation}
    {error : EvalError} {final : Store}
    (hraised : RaisedIn Error.Bare earlier innermost error final) :
    error.context = some ("while evaluating: " ++ innermost.form.render) := by
  obtain ⟨_, _, _, _, _, raised, _, _, _, hbare, rfl⟩ := hraised.raised
  have hnone : raised.context = none := hbare
  simp only [hnone, Option.getD_none]

theorem evalAt_of_host_failure {levels : Nat} {chain : Chain} {name : String}
    {forms : List Form} {store bound final : Store} {ref : MethodRef} {signature : Signature}
    {native : Native} {arguments : Arguments} {failure : HostFailure}
    (hcallee : callee store chain name = .ok (ref, ⟨signature, .native native⟩))
    (hbind : bindArguments name signature (evalAt levels chain) forms store =
      (.ok arguments, bound))
    (hrun : (native arguments).run (evalAt levels) name chain bound =
      (.error (.host failure), final)) :
    evalAt (levels + 1) chain (.call name forms) store =
      (.error (.eval ⟨.methodFailed ref.name failure, some ref.name,
        some ("while evaluating: " ++ (Form.call name forms).render)⟩), final) := by
  simp only [evalAt, evalCall, hcallee, hbind, invoke, hrun]
  rfl

/-- What leaves a call as an error is the result of the whole evaluation, and after
it there are only exits with the same error and the same store.  The context of an
error of evaluation is the text of the innermost call, the first one that is left
with it; only a native method may have given it another one.  A failure of a
native method's own is wrapped by this method, once. -/
theorem failures_propagate {store : Store} (hstore : store.Calls Native.Transparent)
    (levels : Nat) (chain : Chain) (form : Form) :
    (∀ (evaluation : Evaluation) (error : Error) (final : Store) (later : List Event),
      evaluation.IsCall →
      .leave evaluation (.error error) final :: later <:+ traceAt levels chain form store →
      evalAt levels chain form store = (.error error, final) ∧
        ∀ event ∈ later, ∃ outer, event = .leave outer (.error error) final) ∧
    (∀ (evaluation : Evaluation) (error : EvalError) (final : Store), evaluation.IsCall →
      .leave evaluation (.error (.eval error)) final ∈ traceAt levels chain form store →
      ∃ earlier innermost later,
        traceAt levels chain form store =
          earlier ++ .leave innermost (.error (.eval error)) final :: later ∧
        RaisedIn (fun _ => True) earlier innermost error final ∧
        error.context.isSome = true ∧
        (store.Calls Native.RaisesBare →
          error.context = some ("while evaluating: " ++ innermost.form.render))) ∧
    ∀ (inner : Nat) (scope : Chain) (name : String) (forms : List Form) (before : Store)
      (ref : MethodRef) (signature : Signature) (native : Native) (arguments : Arguments)
      (bound final : Store) (failure : HostFailure),
      .enter ⟨inner + 1, scope, .call name forms⟩ before ∈ traceAt levels chain form store →
      callee before scope name = .ok (ref, ⟨signature, .native native⟩) →
      bindArguments name signature (evalAt inner scope) forms before = (.ok arguments, bound) →
      (native arguments).run (evalAt inner) name scope bound =
        (.error (.host failure), final) →
      evalAt levels chain form store =
        (.error (.eval ⟨.methodFailed ref.name failure, some ref.name,
          some ("while evaluating: " ++ (Form.call name forms).render)⟩), final) := by
  have howns : ∀ cause method, (fun _ => True) (Error.eval ⟨cause, method, none⟩) :=
    fun _ _ => trivial
  refine ⟨?_, ?_, ?_⟩
  · intro evaluation error final later hcall hsuffix
    exact leave_of_failed_call howns hstore.forwards hcall hsuffix
  · intro evaluation error final hcall hmem
    obtain ⟨later, hsuffix⟩ := exists_suffix_of_mem hmem
    have heval := (leave_of_failed_call howns hstore.forwards hcall hsuffix).1
    by_cases hwhole : Evaluation.IsCall ⟨levels, chain, form⟩
    · obtain ⟨levels, chain, name, forms, heq⟩ := hwhole
      cases heq
      by_cases hbare : store.Calls Native.RaisesBare
      · obtain ⟨earlier, innermost, later, htrace, hraised⟩ :=
          exists_innermost (fun _ _ => rfl) (hstore.forwards_bare hbare) heval
        exact ⟨earlier, innermost, later, htrace, hraised.imp fun _ _ => trivial,
          hraised.context_isSome, fun _ => hraised.context_eq⟩
      · obtain ⟨earlier, innermost, later, htrace, hraised⟩ :=
          exists_innermost howns hstore.forwards heval
        exact ⟨earlier, innermost, later, htrace, hraised, hraised.context_isSome,
          fun hraises => (hbare hraises).elim⟩
    · exact (not_failedCall_of_not_call store hwhole _ hmem ⟨_, _, _, hcall, rfl⟩).elim
  · intro inner scope name forms before ref signature native arguments bound final failure
      hentered hcallee hbind hrun
    have hleft := leave_mem_traceAt hentered (evalAt_of_host_failure hcallee hbind hrun)
    obtain ⟨later, hsuffix⟩ := exists_suffix_of_mem hleft
    exact (leave_of_failed_call howns hstore.forwards ⟨_, _, _, _, rfl⟩ hsuffix).1

/-- A root frame with two native methods that fail: one with an error of evaluation that
has a context of its own, the other with an error of parsing. -/
def annotatingStore : Store where
  frames := #[⟨0, ⟨[("annotated", .method ⟨0, "annotated"⟩),
    ("broken", .method ⟨1, "broken"⟩)], by decide⟩⟩]
  methods := #[⟨.ofRequired [], .native fun _ =>
      .failWith (.eval ⟨.reported .typeMismatch "wrong unit", none, some "third line"⟩)⟩,
    ⟨.ofRequired [], .native fun _ =>
      .failWith (.parse ⟨.reported .invalidSyntax "bad text", none, none⟩)⟩]

/-- A native method may give its own error a context, which then is not the text of the
innermost call, and an error of parsing leaves a call without one. -/
theorem raised_context_kept :
    annotatingStore.Calls Native.Transparent ∧
      (∃ error : EvalError, evalAt 2 ⟨0, []⟩ (.call "annotated" []) annotatingStore =
          (.error (.eval error), annotatingStore) ∧
        traceAt 2 ⟨0, []⟩ (.call "annotated" []) annotatingStore =
          [.enter ⟨2, ⟨0, []⟩, .call "annotated" []⟩ annotatingStore,
            .leave ⟨2, ⟨0, []⟩, .call "annotated" []⟩ (.error (.eval error)) annotatingStore] ∧
        error.context ≠
          some ("while evaluating: " ++ (Form.call "annotated" []).render)) ∧
      ∃ error : Error, evalAt 2 ⟨0, []⟩ (.call "broken" []) annotatingStore =
          (.error error, annotatingStore) ∧ error.context? = none := by
  have hstore : annotatingStore.Calls Native.Transparent := by
    intro method hmem native hbody
    simp only [annotatingStore, List.mem_toArray, List.mem_cons, List.not_mem_nil,
      or_false] at hmem
    rcases hmem with rfl | rfl <;> cases hbody
    · exact .inr fun _ => .finish _
    · exact .inr fun _ => .finish _
  exact ⟨hstore, ⟨_, rfl, rfl, by decide⟩, _, rfl, rfl⟩

/-- A root frame with three arithmetic methods. -/
def arithmeticStore : Store where
  frames := #[⟨0, ⟨[("*", .method ⟨1, "*"⟩), ("+", .method ⟨0, "+"⟩),
    ("/", .method ⟨2, "/"⟩)], by decide⟩⟩]
  methods := #[⟨Builtin.operands, .native Builtin.add⟩,
    ⟨Builtin.operands, .native Builtin.multiply⟩, ⟨Builtin.operands, .native Builtin.divide⟩]

/-- The quotient of three and zero. -/
def undefinedQuotient : Form :=
  .call "/" [.literal (.number 3), .literal (.number 0)]

/-- The division is wrapped once and named by the sum around the product. -/
theorem failures_propagate_division :
    evalAt 4 ⟨0, []⟩ (.call "+" [.literal (.number 1),
        .call "*" [.literal (.number 2), undefinedQuotient]]) arithmeticStore =
      (.error (.eval ⟨.methodFailed "/" .divisionByZero, some "/",
        some "while evaluating: (/ 3 0)"⟩), arithmeticStore) := by
  have hstore : arithmeticStore.Calls Native.Transparent := by
    intro method hmem native hbody
    simp only [arithmeticStore, List.mem_toArray, List.mem_cons, List.not_mem_nil,
      or_false] at hmem
    rcases hmem with rfl | rfl | rfl <;> cases hbody
    · exact .inl ⟨("+", Builtin.operands, Builtin.add), by simp [Builtin.methods], rfl⟩
    · exact .inl ⟨("*", Builtin.operands, Builtin.multiply), by simp [Builtin.methods], rfl⟩
    · exact .inl ⟨("/", Builtin.operands, Builtin.divide), by simp [Builtin.methods], rfl⟩
  obtain ⟨_, _, hhost⟩ := failures_propagate hstore 4 ⟨0, []⟩ (.call "+"
    [.literal (.number 1), .call "*" [.literal (.number 2), undefinedQuotient]])
  refine hhost 1 ⟨0, []⟩ "/" [.literal (.number 3), .literal (.number 0)] arithmeticStore
    ⟨2, "/"⟩ Builtin.operands Builtin.divide
    ((NameMap.empty.insert "a" (.number 3)).insert "b" (.number 0)) arithmeticStore
    arithmeticStore .divisionByZero ?_ rfl rfl rfl
  -- The sum, its first argument, the product and its first argument come before.
  exact .tail _ (.tail _ (.tail _ (.tail _ (.tail _ (.tail _ (.head _))))))

end ArityScript
