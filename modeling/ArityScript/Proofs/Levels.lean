import ArityScript.Proofs.Binding.Arity
import ArityScript.Proofs.Propagation

/-!
# Levels of evaluation

The number of levels that are left to an evaluation is only a limit.  With more
levels left it goes on in the same way, unless one of the evaluations in it had
none left and was refused.

A native method relays the limit if it fails with it as soon as an evaluation
that it asks for has done so.  The standard methods do, and so do the binding of
arguments and defined methods.  Then a refused evaluation makes the whole one
fail, so that its result either is the one with more levels or says that the
limit was reached.
-/

namespace ArityScript

/-- A failure of the kind that a refused evaluation has. -/
def Error.IsDepthLimit : Error → Prop
  | .eval error => error.cause.kind = .depthLimit
  | _ => False

theorem Error.IsDepthLimit.inCall {error : Error} (hlimit : error.IsDepthLimit)
    (form : Form) : (error.inCall form).IsDepthLimit := by
  obtain _ | _ | ⟨cause, method, _ | context⟩ := error <;> exact hlimit

/-! ## Requests that have been recorded stay recorded -/

section

variable {evaluate : Evaluator}

theorem Program.record_append (call : String) (program : Program) (chain : Chain)
    (store : Store) (earlier : List Request) :
    program.record evaluate call chain ⟨store, earlier⟩ =
      ((program.record evaluate call chain ⟨store, []⟩).1,
        ⟨(program.record evaluate call chain ⟨store, []⟩).2.store,
          earlier ++ (program.record evaluate call chain ⟨store, []⟩).2.requests⟩) := by
  induction program generalizing chain store earlier with
  | finish outcome => simp [record]
  | eval form next ih =>
      let request : Request := ⟨chain, form, store⟩
      have hnext := ih ((evaluate chain form store).1.mapError .error) chain
        (evaluate chain form store).2
      simp only [record, Evaluator.record]
      rw [hnext (earlier ++ [request]), hnext ([] ++ [request])]
      simp
  | inScope body next ihBody ihNext =>
      simp only [record]
      rw [ihBody _ _ earlier]
      simp only
      generalize body.record evaluate call (store.enter chain).1
        ⟨(store.enter chain).2, []⟩ = outcome
      obtain ⟨outcome, after, requests⟩ := outcome
      simp only
      rw [ihNext outcome chain after (earlier ++ requests),
        ihNext outcome chain after requests]
      simp
  | assign name value next ih => exact ih chain _ earlier
  | lookup name next ih => exact ih _ chain store earlier
  | define name parameters body next ih => exact ih _ chain _ earlier
  | frameCount next ih => exact ih _ chain store earlier
  | callName next ih => exact ih _ chain store earlier

theorem Program.requests_subset_record (call : String) (program : Program) (chain : Chain)
    (recording : Recording) :
    recording.requests ⊆ (program.record evaluate call chain recording).2.requests := by
  obtain ⟨store, requests⟩ := recording
  rw [record_append]
  exact List.subset_append_left _ _

theorem Binding.requests_subset_collect (method : String) (signature : Signature)
    (chain : Chain) (forms : List Form) (made : Partial) (recording : Recording) :
    recording.requests ⊆
      (collect method signature (evaluate.record chain) forms made recording).2.requests := by
  induction forms, made using steps_induction method signature generalizing recording with
  | next forms made ih =>
      rw [collect_eq_step]
      cases hstep : step method signature forms made with
      | done => exact List.Subset.refl _
      | refuse cause => exact List.Subset.refl _
      | take form place rest =>
          have hrecorded : recording.requests ⊆
              (evaluate.record chain form recording).2.requests :=
            List.subset_append_left _ _
          simp only
          generalize evaluate.record chain form recording = outcome at hrecorded ⊢
          obtain ⟨_ | value, after⟩ := outcome
          · exact hrecorded
          · exact List.Subset.trans hrecorded (ih form place rest hstep value after)

theorem requests_subset_recordInvoke (call : String) (ref : MethodRef) (method : Method)
    (arguments : Arguments) (chain : Chain) (recording : Recording) :
    recording.requests ⊆
      (recordInvoke evaluate call ref method arguments chain recording).2.requests := by
  obtain ⟨signature, body⟩ := method
  cases body with
  | native native => exact (native arguments).requests_subset_record call chain recording
  | defined form scope => exact List.subset_append_left _ _

end

/-! ## Two evaluators that agree -/

/-- Two runs with recordings are the same, unless the first one has asked for an
evaluation that is as `differs` says. -/
def Coincide {α : Type} (differs : Request → Prop) (first second : α × Recording) : Prop :=
  first = second ∨ ∃ request ∈ first.2.requests, differs request

section

variable {evaluate other : Evaluator} {differs : Request → Prop}
  (hagree : ∀ chain form store, evaluate chain form store = other chain form store ∨
    differs ⟨chain, form, store⟩)

include hagree

theorem Evaluator.coincide_record (chain : Chain) (form : Form) (recording : Recording) :
    Coincide differs (evaluate.record chain form recording)
      (other.record chain form recording) := by
  rcases hagree chain form recording.store with heq | hdiffers
  · left
    simp only [Evaluator.record, heq]
  · exact .inr ⟨_, List.mem_append_right _ (List.mem_singleton_self _), hdiffers⟩

theorem Program.coincide_record (call : String) (program : Program) (chain : Chain)
    (recording : Recording) :
    Coincide differs (program.record evaluate call chain recording)
      (program.record other call chain recording) := by
  induction program generalizing chain recording with
  | finish outcome => exact .inl rfl
  | eval form next ih =>
      simp only [record]
      rcases Evaluator.coincide_record hagree chain form recording with
        heq | ⟨request, hmem, hdiffers⟩
      · rw [← heq]
        exact ih _ chain _
      · exact .inr ⟨request, requests_subset_record call _ chain _ hmem, hdiffers⟩
  | inScope body next ihBody ihNext =>
      simp only [record]
      rcases ihBody (recording.store.enter chain).1
          { recording with store := (recording.store.enter chain).2 } with
        heq | ⟨request, hmem, hdiffers⟩
      · rw [← heq]
        exact ihNext _ chain _
      · exact .inr ⟨request, requests_subset_record call _ chain _ hmem, hdiffers⟩
  | assign name value next ih => exact ih chain _
  | lookup name next ih => exact ih _ chain recording
  | define name parameters body next ih => exact ih _ chain _
  | frameCount next ih => exact ih _ chain recording
  | callName next ih => exact ih _ chain recording

theorem Binding.coincide_collect (method : String) (signature : Signature) (chain : Chain)
    (forms : List Form) (made : Partial) (recording : Recording) :
    Coincide differs (collect method signature (evaluate.record chain) forms made recording)
      (collect method signature (other.record chain) forms made recording) := by
  induction forms, made using steps_induction method signature generalizing recording with
  | next forms made ih =>
      rw [collect_eq_step, collect_eq_step]
      cases hstep : step method signature forms made with
      | done => exact .inl rfl
      | refuse cause => exact .inl rfl
      | take form place rest =>
          simp only
          rcases Evaluator.coincide_record hagree chain form recording with
            heq | ⟨request, hmem, hdiffers⟩
          · rw [← heq]
            generalize evaluate.record chain form recording = outcome
            obtain ⟨_ | value, after⟩ := outcome
            · exact .inl rfl
            · exact ih form place rest hstep value after
          · generalize evaluate.record chain form recording = outcome at hmem ⊢
            obtain ⟨_ | value, after⟩ := outcome
            · exact .inr ⟨request, hmem, hdiffers⟩
            · exact .inr ⟨request,
                requests_subset_collect method signature chain rest _ after hmem, hdiffers⟩

theorem coincide_bindArguments (method : String) (signature : Signature) (chain : Chain)
    (forms : List Form) (recording : Recording) :
    Coincide differs
      (bindArguments method signature (evaluate.record chain) forms recording)
      (bindArguments method signature (other.record chain) forms recording) := by
  unfold bindArguments
  rcases Binding.coincide_collect hagree method signature chain forms
      ⟨signature.required, .empty, []⟩ recording with heq | ⟨request, hmem, hdiffers⟩
  · rw [heq]
    exact .inl rfl
  · generalize Binding.collect method signature (evaluate.record chain) forms
      ⟨signature.required, .empty, []⟩ recording = outcome at hmem ⊢
    obtain ⟨_ | made, after⟩ := outcome <;> exact .inr ⟨request, hmem, hdiffers⟩

theorem coincide_recordInvoke (call : String) (ref : MethodRef) (method : Method)
    (arguments : Arguments) (chain : Chain) (recording : Recording) :
    Coincide differs (recordInvoke evaluate call ref method arguments chain recording)
      (recordInvoke other call ref method arguments chain recording) := by
  obtain ⟨signature, body⟩ := method
  cases body with
  | native native =>
      simp only [recordInvoke]
      rcases (native arguments).coincide_record hagree call chain recording with
        heq | hdiffers
      · rw [heq]
        exact .inl rfl
      · exact .inr hdiffers
  | defined form scope => exact Evaluator.coincide_record hagree _ form _

theorem coincide_recordCall (name : String) (forms : List Form) (chain : Chain)
    (recording : Recording) :
    Coincide differs (recordCall evaluate name forms chain recording)
      (recordCall other name forms chain recording) := by
  unfold recordCall
  split
  · exact .inl rfl
  · next ref method _ =>
      rcases coincide_bindArguments hagree name method.signature chain forms recording with
        heq | ⟨request, hmem, hdiffers⟩
      · rw [← heq]
        generalize bindArguments name method.signature (evaluate.record chain) forms
          recording = outcome
        obtain ⟨_ | arguments, after⟩ := outcome
        · exact .inl rfl
        · exact coincide_recordInvoke hagree name ref method arguments chain after
      · generalize bindArguments name method.signature (evaluate.record chain) forms
          recording = outcome at hmem ⊢
        obtain ⟨_ | arguments, after⟩ := outcome
        · exact .inr ⟨request, hmem, hdiffers⟩
        · have hkept : after.requests ⊆
              (recordInvoke evaluate name ref method arguments chain after).2.requests :=
            requests_subset_recordInvoke name ref method arguments chain after
          exact .inr ⟨request, hkept hmem, hdiffers⟩

end

/-! ## More levels -/

/-- In the course of an evaluation another one is entered with no level left. -/
def ReachesLimit (levels : Nat) (chain : Chain) (form : Form) (store : Store) : Prop :=
  ∃ evaluation before, evaluation.levels = 0 ∧
    .enter evaluation before ∈ traceAt levels chain form store

theorem ReachesLimit.zero (chain : Chain) (form : Form) (store : Store) :
    ReachesLimit 0 chain form store :=
  ⟨⟨0, chain, form⟩, store, rfl, Evaluation.enter_mem_traced.2 (.inl ⟨rfl, rfl⟩)⟩

theorem ReachesLimit.of_request {levels : Nat} {chain : Chain} {form : Form} {store : Store}
    {request : Request}
    (hrequest : request ∈ Evaluation.requests ⟨levels + 1, chain, form⟩ store)
    (hreaches : ReachesLimit levels request.chain request.form request.store) :
    ReachesLimit (levels + 1) chain form store := by
  obtain ⟨evaluation, before, hlevels, hmem⟩ := hreaches
  refine ⟨evaluation, before, hlevels, Evaluation.enter_mem_traced.2 (.inr ?_)⟩
  exact List.mem_flatMap.2 ⟨request, hrequest, hmem⟩

theorem ReachesLimit.exists_request {levels : Nat} {chain : Chain} {form : Form}
    {store : Store} (hreaches : ReachesLimit (levels + 1) chain form store) :
    ∃ request ∈ Evaluation.requests ⟨levels + 1, chain, form⟩ store,
      ReachesLimit levels request.chain request.form request.store := by
  obtain ⟨evaluation, before, hlevels, hmem⟩ := hreaches
  rcases Evaluation.enter_mem_traced.1 hmem with ⟨rfl, _⟩ | hmem
  · cases hlevels
  · obtain ⟨request, hrequest, hmem⟩ := List.mem_flatMap.1 hmem
    exact ⟨request, hrequest, evaluation, before, hlevels, hmem⟩

theorem evalAt_eq_or_reachesLimit {levels more : Nat} (hle : levels ≤ more) (chain : Chain)
    (form : Form) (store : Store) :
    evalAt levels chain form store = evalAt more chain form store ∨
      ReachesLimit levels chain form store := by
  induction levels generalizing more chain form store with
  | zero => exact .inr (.zero chain form store)
  | succ levels ih =>
      obtain ⟨more, rfl⟩ := Nat.exists_eq_add_of_le' (Nat.le_trans (Nat.le_add_left 1 _) hle)
      have hagree := fun chain form store => @ih more (by omega) chain form store
      cases form with
      | call name forms =>
          have hcall : Coincide (fun request =>
              ReachesLimit levels request.chain request.form request.store)
              (recordCall (evalAt levels) name forms chain ⟨store, []⟩)
              (recordCall (evalAt more) name forms chain ⟨store, []⟩) :=
            coincide_recordCall hagree name forms chain ⟨store, []⟩
          rcases hcall with heq | ⟨request, hmem, hreaches⟩
          · left
            rw [evalAt_call, evalAt_call, heq]
          · exact .inr (.of_request hmem hreaches)
      | _ => exact .inl rfl

/-! ## Relaying the limit -/

/-- An evaluation that is asked for fails at the limit. -/
def Request.IsRefused (evaluate : Evaluator) (request : Request) : Prop :=
  ∃ error final, request.Fails evaluate error final ∧ error.IsDepthLimit

/-- A native method that fails with the limit whenever an evaluation that it asks
for has failed with it. -/
def Native.Relays (native : Native) : Prop :=
  ∀ (evaluate : Evaluator) (call : String) (arguments : Arguments) (chain : Chain)
    (store : Store),
    (∃ request ∈ ((native arguments).record evaluate call chain ⟨store, []⟩).2.requests,
      request.IsRefused evaluate) →
    ∃ error : Error, error.IsDepthLimit ∧
      ((native arguments).record evaluate call chain ⟨store, []⟩).1 = .error (.error error)

theorem Request.not_isRefused_of_succeeds {evaluate : Evaluator} {request : Request}
    (hsucceeds : request.Succeeds evaluate) : ¬ request.IsRefused evaluate := by
  rintro ⟨error, final, hfails, _⟩
  obtain ⟨value, after, hvalue⟩ := hsucceeds
  rw [Request.Fails, hvalue] at hfails
  cases hfails

theorem Forwarded.of_isRefused {ε α : Type} {evaluate : Evaluator} {own : ε → Prop}
    {wrap : Error → ε} {outcome : Except ε α × Recording}
    (hforwarded : Forwarded evaluate own wrap outcome) {request : Request}
    (hmem : request ∈ outcome.2.requests) (hrefused : request.IsRefused evaluate) :
    ∃ error : Error, error.IsDepthLimit ∧ outcome.1 = .error (wrap error) := by
  cases hforwarded with
  | ok hclean => exact (request.not_isRefused_of_succeeds (hclean request hmem) hrefused).elim
  | own hclean _ =>
      exact (request.not_isRefused_of_succeeds (hclean request hmem) hrefused).elim
  | @forwarded earlier last error final hearlier hfails =>
      rcases List.mem_append.1 hmem with hmem | hmem
      · exact (request.not_isRefused_of_succeeds (hearlier request hmem) hrefused).elim
      · obtain rfl := List.mem_singleton.1 hmem
        obtain ⟨raised, after, hraised, hlimit⟩ := hrefused
        rw [Request.Fails, hfails] at hraised
        cases hraised
        exact ⟨error, hlimit, rfl⟩

theorem Native.Forwards.relays {native : Native} (hforwards : native.Forwards) :
    native.Relays := by
  rintro evaluate call arguments chain store ⟨request, hmem, hrefused⟩
  have hclean : Recording.Clean evaluate ⟨store, []⟩ := by
    intro request hmem
    contradiction
  have hraises : (native arguments).Within (.raising fun _ => True) :=
    Program.within_of_forall (fun _ => trivial) (fun _ => trivial) (fun _ => trivial) _
  have hrun := (hforwards arguments).record hclean hraises call chain
  exact hrun.of_isRefused hmem hrefused

/-- A standard method, or another one that relays the limit. -/
def Native.RespectsLimit (native : Native) : Prop :=
  (∃ entry ∈ Builtin.methods, entry.2.2 = native) ∨ native.Relays

theorem Native.RespectsLimit.relays {native : Native} (hrespects : native.RespectsLimit) :
    native.Relays := by
  rcases hrespects with ⟨entry, hmem, rfl⟩ | hrelays
  · have hforwards : entry.2.2.Forwards := Builtin.forwards_of_mem entry hmem
    exact hforwards.relays
  · exact hrelays

section

variable {evaluate : Evaluator} {recording : Recording}

theorem exists_limit_of_recordInvoke (hclean : recording.Clean evaluate) (call : String)
    (ref : MethodRef) {method : Method}
    (hnative : ∀ native, method.body = .native native → native.Relays)
    (arguments : Arguments) (chain : Chain) {request : Request}
    (hmem : request ∈
      (recordInvoke evaluate call ref method arguments chain recording).2.requests)
    (hrefused : request.IsRefused evaluate) :
    ∃ error : Error, error.IsDepthLimit ∧
      (recordInvoke evaluate call ref method arguments chain recording).1 = .error error := by
  obtain ⟨store, requests⟩ := recording
  obtain ⟨signature, body⟩ := method
  cases body with
  | native native =>
      simp only [recordInvoke] at hmem ⊢
      rw [Program.record_append] at hmem ⊢
      rcases List.mem_append.1 hmem with hmem | hmem
      · exact (request.not_isRefused_of_succeeds (hclean request hmem) hrefused).elim
      · obtain ⟨error, hlimit, houtcome⟩ := hnative native rfl evaluate call arguments chain
          store ⟨request, hmem, hrefused⟩
        refine ⟨error, hlimit, ?_⟩
        simp only [houtcome]
        rfl
  | defined form scope =>
      have hbound : Recording.Clean evaluate
          ⟨(store.enter scope).2.bindAll (store.enter scope).1 arguments, requests⟩ := hclean
      have hbody := Evaluator.forwarded_record hbound (store.enter scope).1 form
      exact hbody.of_isRefused hmem hrefused

theorem exists_limit_of_recordCall (name : String) (forms : List Form) (chain : Chain)
    {store : Store} (hstore : store.Calls Native.RespectsLimit) {request : Request}
    (hmem : request ∈ (recordCall evaluate name forms chain ⟨store, []⟩).2.requests)
    (hrefused : request.IsRefused evaluate) :
    ∃ error : Error, error.IsDepthLimit ∧
      (recordCall evaluate name forms chain ⟨store, []⟩).1 = .error error := by
  have hclean : Recording.Clean evaluate ⟨store, []⟩ := by
    intro request hmem
    contradiction
  unfold recordCall at hmem ⊢
  split at hmem
  · contradiction
  · next ref method hcallee =>
      have hmethod : method ∈ store.methods := mem_of_callee hcallee
      have hbind : Forwarded evaluate (fun _ => True) id
          (bindArguments name method.signature (evaluate.record chain) forms ⟨store, []⟩) :=
        forwarded_bindArguments hclean (fun _ _ => trivial) name method.signature chain forms
      generalize bindArguments name method.signature (evaluate.record chain) forms
        ⟨store, []⟩ = outcome at hbind hmem ⊢
      cases hbind with
      | ok hafter =>
          have hnative := fun native hbody => (hstore method hmethod native hbody).relays
          exact exists_limit_of_recordInvoke hafter name ref hnative _ chain hmem hrefused
      | own hafter hown =>
          exact (request.not_isRefused_of_succeeds (hafter request hmem) hrefused).elim
      | @forwarded earlier last error final hearlier hfails =>
          have hforwarded : @Forwarded Error Value evaluate (fun _ => True) id
              (.error error, ⟨final, earlier ++ [last]⟩) := .forwarded hearlier hfails
          exact hforwarded.of_isRefused hmem hrefused

end

theorem ReachesLimit.exists_limit {levels : Nat} {chain : Chain} {form : Form}
    {store : Store} (hstore : store.Calls Native.RespectsLimit)
    (hreaches : ReachesLimit levels chain form store) :
    ∃ error final, evalAt levels chain form store = (.error error, final) ∧
      error.IsDepthLimit := by
  induction levels generalizing chain form store with
  | zero => exact ⟨_, store, rfl, rfl⟩
  | succ levels ih =>
      obtain ⟨request, hrequest, hreaches⟩ := hreaches.exists_request
      have hkept := Evaluation.within_requests (Rules.sensible_calling Native.RespectsLimit)
        ⟨levels + 1, chain, form⟩ trivial hstore.within request hrequest
      have hrefused : request.IsRefused (evalAt levels) := ih hkept.2.calls hreaches
      cases form with
      | call name forms =>
          obtain ⟨error, hlimit, hcall⟩ :=
            exists_limit_of_recordCall name forms chain hstore hrequest hrefused
          rw [evalAt_call, hcall]
          exact ⟨_, _, rfl, hlimit.inCall _⟩
      | _ => contradiction

/-! ## Depths -/

/-- A native method that evaluates a number and goes on with the placeholder if it
cannot. -/
def lenientStore : Store where
  frames := #[⟨0, ⟨[("try", .method ⟨0, "try"⟩)], by simp⟩⟩]
  methods := #[⟨.ofRequired [], .native fun _ => .eval (.literal (.number 1)) fun
    | .ok value => .done value
    | .error _ => .done .placeholder⟩]

/-- Makes a method in a scope of its own. -/
def makesMethod : Form :=
  .call "scope" [.quoted (.call "def" [.quoted (.variable "f"), .literal (.number 1)])]

/-- Evaluating a form at some depth gives what evaluating it at any smaller depth
gives, with the same store, unless an evaluation in it reaches the limit.  With
the standard methods, defined methods and others that relay the limit, it fails
with the limit then; so what succeeds at some depth succeeds in the same way at
the top. -/
theorem depth_only_limits {depth shallower : Nat} (hle : shallower ≤ depth) (chain : Chain)
    (form : Form) (store : Store) :
    (evalAt (maxEvalDepth - depth) chain form store =
        evalAt (maxEvalDepth - shallower) chain form store ∨
      ReachesLimit (maxEvalDepth - depth) chain form store) ∧
    (store.Calls Native.RespectsLimit →
      (evalAt (maxEvalDepth - depth) chain form store =
          evalAt (maxEvalDepth - shallower) chain form store ∨
        ∃ error final, evalAt (maxEvalDepth - depth) chain form store = (.error error, final) ∧
          error.IsDepthLimit) ∧
      ∀ value final, evalAt (maxEvalDepth - depth) chain form store = (.ok value, final) →
        eval chain form store = (.ok value, final)) := by
  have hmore : maxEvalDepth - depth ≤ maxEvalDepth - shallower := by omega
  have hsame := evalAt_eq_or_reachesLimit hmore chain form store
  refine ⟨hsame, fun hstore => ⟨?_, ?_⟩⟩
  · rcases hsame with heq | hreaches
    · exact .inl heq
    · exact .inr (hreaches.exists_limit hstore)
  · intro value final hvalue
    have htop : maxEvalDepth - depth ≤ maxEvalDepth := by omega
    rcases evalAt_eq_or_reachesLimit htop chain form store with heq | hreaches
    · rw [eval, ← heq, hvalue]
    · obtain ⟨error, after, herror, _⟩ := hreaches.exists_limit hstore
      rw [hvalue] at herror
      cases herror

/-- A native method that does not relay the limit has another result at the depth at
which its own evaluation is refused, and does not fail.  A method that is made at one
depth is not the one that is made at another, after it. -/
theorem lenient_depends_on_depth :
    evalAt (maxEvalDepth - 254) ⟨0, []⟩ (.call "try" []) lenientStore =
        (.ok (.number 1), lenientStore) ∧
      evalAt (maxEvalDepth - 255) ⟨0, []⟩ (.call "try" []) lenientStore =
        (.ok .placeholder, lenientStore) ∧
      ¬ (evalAt (maxEvalDepth - 255) ⟨0, []⟩ (.call "try" []) lenientStore =
            evalAt (maxEvalDepth - 254) ⟨0, []⟩ (.call "try" []) lenientStore ∨
          ∃ error final, evalAt (maxEvalDepth - 255) ⟨0, []⟩ (.call "try" []) lenientStore =
            (.error error, final) ∧ error.IsDepthLimit) ∧
      (eval ⟨0, []⟩ (.call "=" [makesMethod, .call "first" [.call "list" [makesMethod]]])
        (Builtin.createGlobal .empty).2).1 = .ok (.bool false) := by
  have hshallow : evalAt (maxEvalDepth - 254) ⟨0, []⟩ (.call "try" []) lenientStore =
      (.ok (.number 1), lenientStore) := rfl
  have hdeep : evalAt (maxEvalDepth - 255) ⟨0, []⟩ (.call "try" []) lenientStore =
      (.ok .placeholder, lenientStore) := rfl
  have hdistinct : (eval ⟨0, []⟩ (.call "="
      [makesMethod, .call "first" [.call "list" [makesMethod]]])
      (Builtin.createGlobal .empty).2).1.toOption = some (.bool false) := by decide +kernel
  refine ⟨hshallow, hdeep, ?_, eq_ok_of_toOption hdistinct⟩
  rw [hshallow, hdeep]
  rintro (heq | ⟨error, final, heq, _⟩)
  · cases (Prod.mk.inj heq).1
  · cases (Prod.mk.inj heq).1

/-- A sum is the same at the top and with two levels left, and is refused with one. -/
theorem depth_only_limits_sum :
    eval ⟨0, []⟩ (.call "+" [.literal (.number 1), .literal (.number 2)]) arithmeticStore =
        (.ok (.number 3), arithmeticStore) ∧
      evalAt 1 ⟨0, []⟩ (.call "+" [.literal (.number 1), .literal (.number 2)])
          arithmeticStore =
        (.error (.eval ⟨.tooDeep maxEvalDepth, none, some "while evaluating: (+ 1 2)"⟩),
          arithmeticStore) ∧
      ∃ error final, evalAt (maxEvalDepth - 255) ⟨0, []⟩
          (.call "+" [.literal (.number 1), .literal (.number 2)]) arithmeticStore =
            (.error error, final) ∧ error.IsDepthLimit := by
  have hstore : arithmeticStore.Calls Native.RespectsLimit := by
    intro method hmem native hbody
    simp only [arithmeticStore, List.mem_toArray, List.mem_cons, List.not_mem_nil,
      or_false] at hmem
    rcases hmem with rfl | rfl | rfl <;> cases hbody
    · exact .inl ⟨("+", Builtin.operands, Builtin.add), by simp [Builtin.methods], rfl⟩
    · exact .inl ⟨("*", Builtin.operands, Builtin.multiply), by simp [Builtin.methods], rfl⟩
    · exact .inl ⟨("/", Builtin.operands, Builtin.divide), by simp [Builtin.methods], rfl⟩
  have hdeep : evalAt (maxEvalDepth - 254) ⟨0, []⟩
      (.call "+" [.literal (.number 1), .literal (.number 2)]) arithmeticStore =
        (.ok (.number 3), arithmeticStore) := rfl
  obtain ⟨_, htop⟩ := (depth_only_limits (Nat.zero_le 254) ⟨0, []⟩
    (.call "+" [.literal (.number 1), .literal (.number 2)]) arithmeticStore).2 hstore
  have hrefused := ((depth_only_limits (Nat.le_succ 254) ⟨0, []⟩
    (.call "+" [.literal (.number 1), .literal (.number 2)]) arithmeticStore).2 hstore).1
  refine ⟨htop _ _ hdeep, rfl, hrefused.resolve_left ?_⟩
  intro heq
  have hresult := congrArg Prod.fst heq
  rw [hdeep] at hresult
  cases hresult

end ArityScript
