import ArityScript.Json.Exchange
import ArityScript.Proofs.Binding.Arity
import ArityScript.Proofs.Discipline.Builtin
import ArityScript.Proofs.Reading

/-!
# Flags are never evaluated

A form is paired if flags stand only among the arguments of calls, each directly
before the form of its value.  Whatever is read from a source is paired.  Binding
evaluates the form after a flag and never the flag, by whatever signature the
method has by then.  So all forms that are kept anywhere stay paired, and the
mark of an option is never evaluated as a form.
-/

namespace ArityScript

/-! ## Paired forms -/

mutual

def Value.Paired : Value → Prop
  | .list items => Value.AllPaired items
  | .form f => f.Paired
  | _ => True

def Form.Paired : Form → Prop
  | .literal v => v.Paired
  | .variable _ => True
  | .quoted f => f.Paired
  | .call _ arguments => Form.ArgumentsPaired arguments
  | .flag _ => False

def Value.AllPaired : List Value → Prop
  | [] => True
  | v :: rest => v.Paired ∧ Value.AllPaired rest

def Form.ArgumentsPaired : List Form → Prop
  | [] => True
  | [.flag _] => False
  | .flag _ :: f :: rest => f.Paired ∧ Form.ArgumentsPaired rest
  | f :: rest => f.Paired ∧ Form.ArgumentsPaired rest

end

theorem Value.allPaired_iff {vs : List Value} :
    Value.AllPaired vs ↔ ∀ v ∈ vs, v.Paired := by
  induction vs with
  | nil => simp [AllPaired]
  | cons v rest ih => simp [AllPaired, ih]

theorem Form.argumentsPaired_cons {f : Form} {rest : List Form} (hflag : f.isFlag = false) :
    Form.ArgumentsPaired (f :: rest) ↔ f.Paired ∧ Form.ArgumentsPaired rest := by
  cases f with
  | flag name => contradiction
  | _ => simp only [ArgumentsPaired]

/-! ## Forms that are read -/

variable {signatures : Signatures} {signature : Signature}

theorem Value.paired_of_tokenKind? {v : Value} (hkind : v.tokenKind?.isSome = true) :
    v.Paired := by
  cases v with
  | list items => contradiction
  | form f => contradiction
  | _ => simp only [Paired]

theorem Form.ArgumentsConsistent.paired {count : Nat} {arguments : List Form}
    (hconsistent : Form.ArgumentsConsistent signatures signature count arguments)
    (hpaired : ∀ f ∈ arguments, f.ArityConsistent signatures → f.Paired) :
    Form.ArgumentsPaired arguments := by
  induction arguments using arguments_induction Form.isFlag generalizing count with
  | nil => simp only [Form.ArgumentsPaired]
  | dangling flag hflag =>
      obtain ⟨name, rfl⟩ := Form.eq_flag_of_isFlag hflag
      simp [Form.ArgumentsConsistent] at hconsistent
  | option flag value rest hflag ih =>
      obtain ⟨name, rfl⟩ := Form.eq_flag_of_isFlag hflag
      simp only [Form.ArgumentsConsistent] at hconsistent
      obtain ⟨_, hvalue, hrest⟩ := hconsistent
      have hrest := ih hrest fun f hmem => hpaired f (by simp [hmem])
      rw [Form.ArgumentsPaired]
      exact ⟨hpaired value (by simp) hvalue, hrest⟩
  | positional argument rest hflag ih =>
      rw [Form.argumentsConsistent_cons (Form.ne_flag_of_isFlag hflag)] at hconsistent
      obtain ⟨_, hargument, hrest⟩ := hconsistent
      have hrest := ih hrest fun f hmem => hpaired f (by simp [hmem])
      rw [Form.argumentsPaired_cons hflag]
      exact ⟨hpaired argument (by simp) hargument, hrest⟩

theorem Form.paired_of_quoted {f : Form}
    (hconsistent : (Form.quoted f).ArityConsistent signatures) : f.Paired := by
  induction f using Form.induction_on with
  | literal v =>
      simp only [Form.ArityConsistent] at hconsistent
      simp only [Paired]
      exact Value.paired_of_tokenKind? hconsistent
  | named name => simp only [Paired]
  | quoted f ih =>
      simp only [Form.ArityConsistent] at hconsistent
      simp only [Paired]
      exact ih hconsistent
  | call method arguments ih =>
      simp only [Paired]
      cases arguments with
      | nil => simp only [ArgumentsPaired]
      | cons first rest =>
          simp only [Form.ArityConsistent] at hconsistent
          obtain ⟨signature, _, harguments⟩ := hconsistent
          exact harguments.paired fun f hmem hf => ih f hmem (Reader.arityConsistent_quoted hf)
  | flag name => simp [Form.ArityConsistent] at hconsistent

theorem Form.paired_of_parse {comments : Bool} {source : String} {f : Form}
    (hparse : parse signatures comments source = .ok f) : f.Paired := by
  obtain ⟨_, layout, _, _, hconsistent, _⟩ := exists_layout_of_parse hparse
  exact Form.paired_of_quoted (Reader.arityConsistent_quoted hconsistent)

/-! ## Data -/

mutual

/-- Data without methods and forms. -/
def Value.Plain : Value → Prop
  | .list items => Value.AllPlain items
  | .method _ => False
  | .form _ => False
  | _ => True

def Value.AllPlain : List Value → Prop
  | [] => True
  | v :: rest => v.Plain ∧ Value.AllPlain rest

end

mutual

theorem Value.Plain.paired : ∀ {v : Value}, v.Plain → v.Paired
  | .list items, hplain => by
      simp only [Plain] at hplain
      simp only [Paired]
      exact Value.AllPlain.allPaired hplain
  | .form f, hplain => by simp [Plain] at hplain
  | .number _, _ | .string _, _ | .bool _, _ | .range _, _ | .placeholder, _
  | .method _, _ => by simp only [Paired]

theorem Value.AllPlain.allPaired : ∀ {vs : List Value}, Value.AllPlain vs → Value.AllPaired vs
  | [], _ => by simp only [AllPaired]
  | v :: rest, hplain => by
      simp only [AllPlain] at hplain
      simp only [AllPaired]
      exact ⟨hplain.1.paired, Value.AllPlain.allPaired hplain.2⟩

end

section

variable {lib : JsonLibrary}

mutual

theorem JsonLibrary.plain_toValue : ∀ {json : Json lib.Num} {v : Value},
    lib.toValue json = .ok v → v.Plain
  | .null, v, heq | .bool _, v, heq | .string _, v, heq => by
      cases heq
      simp only [Value.Plain]
  | .number n, v, heq => by
      simp only [toValue] at heq
      split at heq
      · cases heq
        simp only [Value.Plain]
      · cases heq
  | .array items, v, heq => by
      simp only [toValue] at heq
      split at heq
      · next values hitems =>
          cases heq
          simp only [Value.Plain]
          exact JsonLibrary.allPlain_toValues hitems
      · cases heq
  | .object _, v, heq => by cases heq

theorem JsonLibrary.allPlain_toValues : ∀ {items : List (Json lib.Num)} {vs : List Value},
    lib.toValues items = .ok vs → Value.AllPlain vs
  | [], vs, heq => by
      cases heq
      simp only [Value.AllPlain]
  | item :: rest, vs, heq => by
      simp only [toValues] at heq
      split at heq
      · cases heq
      · next v hitem =>
          split at heq
          · cases heq
          · next values hrest =>
              cases heq
              simp only [Value.AllPlain]
              exact ⟨JsonLibrary.plain_toValue hitem, JsonLibrary.allPlain_toValues hrest⟩

end

theorem JsonLibrary.plain_of_parse {text : String} {v : Value} (hjson : lib.parse text = .ok v) :
    v.Plain := by
  unfold parse at hjson
  split at hjson
  · exact JsonLibrary.plain_toValue hjson
  · cases hjson

end

/-! ## Paired runs -/

/-- An error that no evaluation of a flag raises. -/
def Error.IsRegular (error : Error) : Prop :=
  ∀ failure, error = .eval failure → failure.cause.kind ≠ .invalidForm

/-- Paired values and forms, and the standard methods. -/
def Rules.paired : Rules where
  value := Value.Paired
  form := Form.Paired
  error := Error.IsRegular
  native native := ∃ entry ∈ Builtin.methods, entry.2.2 = native

theorem Error.isRegular_eval {cause : EvalCause} (hkind : cause.kind ≠ .invalidForm)
    (method : Option String) : (Error.eval ⟨cause, method, none⟩).IsRegular := by
  intro failure heq
  cases heq
  exact hkind

theorem Error.IsRegular.inCall {error : Error} (hregular : error.IsRegular) (form : Form) :
    (error.inCall form).IsRegular := by
  intro failure heq
  obtain _ | _ | ⟨cause, method, _ | context⟩ := error <;> cases heq
  · exact hregular ⟨cause, method, none⟩ rfl
  · exact hregular _ rfl

theorem Form.ArgumentsPaired.arguments {forms : List Form}
    (hpaired : Form.ArgumentsPaired forms) : Rules.paired.arguments forms := by
  induction forms using arguments_induction Form.isFlag with
  | nil => exact trivial
  | dangling flag hflag =>
      obtain ⟨name, rfl⟩ := Form.eq_flag_of_isFlag hflag
      exact trivial
  | option flag form rest hflag ih =>
      obtain ⟨name, rfl⟩ := Form.eq_flag_of_isFlag hflag
      rw [Form.ArgumentsPaired] at hpaired
      exact ⟨hpaired.1, ih hpaired.2⟩
  | positional argument rest hflag ih =>
      rw [Form.argumentsPaired_cons hflag] at hpaired
      cases argument with
      | flag name => contradiction
      | _ => exact ⟨hpaired.1, ih hpaired.2⟩

theorem Rules.structural_paired : Rules.paired.Structural where
  number _ := by simp only [paired, Value.Paired]
  string _ := by simp only [paired, Value.Paired]
  bool _ := by simp only [paired, Value.Paired]
  range _ := by simp only [paired, Value.Paired]
  method _ := by simp only [paired, Value.Paired]
  list _ := by simp only [paired, Value.Paired, Value.allPaired_iff]
  form _ := by simp only [paired, Value.Paired]
  literal _ hvalue := by simpa only [paired, Form.Paired] using hvalue
  error _ method hkind := Error.isRegular_eval hkind method

theorem Rules.sensible_paired : Rules.paired.Sensible where
  method _ := by simp only [paired, Value.Paired]
  list _ := (Rules.structural_paired.list _).2
  literal _ hform := by simpa only [paired, Form.Paired] using hform
  quoted _ hform := by simpa only [paired, Form.Paired, Value.Paired] using hform
  call _ forms hform := by
    simp only [paired, Form.Paired] at hform
    exact hform.arguments
  stray _ hform := by simp [paired, Form.Paired] at hform
  error _ method hkind := Error.isRegular_eval hkind method
  context form _ hregular := hregular.inCall form
  native native hnative := by
    obtain ⟨entry, hmem, rfl⟩ := hnative
    exact Builtin.within_of_mem Rules.structural_paired entry hmem

/-- A store to which source texts and plain data lead from the global environment,
in whatever scopes they are evaluated and stored. -/
inductive Store.OfSources : Store → Prop where
  | start : OfSources (Builtin.createGlobal .empty).2
  | evaluate {store : Store} (comments : Bool) (source : String) (chain : Chain) :
      OfSources store → OfSources (evaluate comments source chain store).2
  | plain {store : Store} (chain : Chain) (name : String) {value : Value} : value.Plain →
      OfSources store → OfSources (store.bind chain name value)
  | json {store : Store} (chain : Chain) (name text : String) {value : Value} :
      parseJson text = .ok value → OfSources store → OfSources (store.bind chain name value)

theorem within_evaluate {rules : Rules} (hsensible : rules.Sensible) {store : Store}
    (hstore : store.Within rules)
    (hparse : ∀ {signatures comments source form},
      parse signatures comments source = .ok form → rules.form form)
    (comments : Bool) (source : String) (chain : Chain) :
    (evaluate comments source chain store).2.Within rules := by
  unfold evaluate
  split
  · exact hstore
  · next form hform =>
      exact (within_evalAt hsensible maxEvalDepth chain form store (hparse hform) hstore).2

theorem Store.OfSources.within {store : Store} (hstore : store.OfSources) :
    store.Within .paired := by
  induction hstore with
  | start =>
      have hplaceholder : Rules.paired.value .placeholder := by
        simp only [Rules.paired, Value.Paired]
      exact Builtin.within_createGlobal Rules.structural_paired hplaceholder
        fun entry hmem => ⟨entry, hmem, rfl⟩
  | evaluate comments source chain _ ih =>
      exact within_evaluate Rules.sensible_paired ih Form.paired_of_parse comments source chain
  | plain chain name hplain _ ih => exact ih.bind chain name hplain.paired
  | json chain name text hjson _ ih =>
      exact ih.bind chain name (JsonLibrary.plain_of_parse hjson).paired

/-- In the course of any evaluation of a source text, no flag is evaluated, and so
the evaluation does not fail with an invalid form. -/
theorem flag_not_evaluated {store : Store} (hstore : store.OfSources) (comments : Bool)
    (source : String) (chain : Chain) :
    (∀ failure, (evaluate comments source chain store).1 = .error (.eval failure) →
      failure.cause.kind ≠ .invalidForm) ∧
    ∀ form, parse (store.signatures chain) comments source = .ok form →
      ∀ evaluation before,
        .enter evaluation before ∈ traceAt maxEvalDepth chain form store →
        ∀ name, evaluation.form ≠ .flag name := by
  have hwithin := hstore.within
  constructor
  · intro failure hfailure
    unfold evaluate at hfailure
    split at hfailure
    · next error hparse =>
        cases hfailure
        exact (parse_ofReading hparse).elim
    · next form hparse =>
        have hform : Rules.paired.form form := Form.paired_of_parse hparse
        have hresult := (within_evalAt Rules.sensible_paired maxEvalDepth chain form store hform
          hwithin).1
        have heval : (evalAt maxEvalDepth chain form store).1 = .error (.eval failure) := hfailure
        rw [heval] at hresult
        exact hresult failure rfl
  · intro form hparse evaluation before hentered name hflag
    have hform : Rules.paired.form form := Form.paired_of_parse hparse
    have hpaired := (within_of_enter_mem_traceAt Rules.sensible_paired hform hwithin hentered).1
    rw [hflag] at hpaired
    simp [Rules.paired, Form.Paired] at hpaired

/-- A method whose body gives an option a value. -/
def strided : Store :=
  (evaluate true "def 'stride '(.. --step 4 1 20)" ⟨0, []⟩ (Builtin.createGlobal .empty).2).2

/-- The method that the body calls is made anew without the option. -/
def redefined : Store :=
  (evaluate true "def '.. 'a 'b 'a" ⟨0, []⟩ strided).2

/-- The call in the old body is not taken for an evaluation of its flag. -/
theorem redefined_stride :
    redefined.OfSources ∧
      (evaluate true "stride" ⟨0, []⟩ redefined).1 ≠ .error (.eval
        ⟨.strayFlag "step", none, some "while evaluating: (.. --step 4 1 20)"⟩) := by
  have hstrided : strided.OfSources := Store.OfSources.start.evaluate true _ ⟨0, []⟩
  have hstore : redefined.OfSources := hstrided.evaluate true _ ⟨0, []⟩
  obtain ⟨hregular, _⟩ := flag_not_evaluated hstore true "stride" ⟨0, []⟩
  refine ⟨hstore, fun hfails => ?_⟩
  exact hregular _ hfails rfl

end ArityScript
