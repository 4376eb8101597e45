import ArityScript.Proofs.Discipline
import ArityScript.Proofs.Iteration

/-!
# The standard methods keep rules

The standard methods take lists and quoted forms apart and put lists together,
and otherwise pass on what they are given.  They stay within rules that hold of
a list if they hold of its items, of a quoted form as data if they hold of the
form, and of everything without parts.
-/

namespace ArityScript

/-- Rules for lists and quoted forms by what these are made of. -/
structure Rules.Structural (rules : Rules) : Prop where
  number : ∀ n, rules.value (.number n)
  string : ∀ s, rules.value (.string s)
  bool : ∀ b, rules.value (.bool b)
  range : ∀ r, rules.value (.range r)
  method : ∀ ref, rules.value (.method ref)
  list : ∀ items, rules.value (.list items) ↔ ∀ item ∈ items, rules.value item
  form : ∀ form, rules.value (.form form) ↔ rules.form form
  literal : ∀ value, rules.value value → rules.form (.literal value)
  error : ∀ cause method, cause.kind ≠ .invalidForm → rules.error (.eval ⟨cause, method, none⟩)

variable {rules : Rules}

section

variable (hrules : rules.Structural)

include hrules

/-! ## Reading arguments -/

theorem Rules.Structural.form? {value : Value} {form : Form} (hvalue : rules.value value)
    (hread : OfValue.ofValue? value = some form) : rules.form form := by
  cases value with
  | form inner =>
      cases hread
      exact (hrules.form form).1 hvalue
  | _ => cases hread

theorem Rules.Structural.list? {value : Value} {items : List Value}
    (hvalue : rules.value value) (hread : OfValue.ofValue? value = some items) :
    ∀ item ∈ items, rules.value item := by
  cases value with
  | list parts =>
      cases hread
      exact (hrules.list items).1 hvalue
  | range range =>
      cases hread
      intro item hmem
      obtain ⟨n, _, rfl⟩ := List.mem_map.1 hmem
      exact hrules.number n
  | _ => cases hread

theorem Value.yields_as {α : Type} [OfValue α] (value : Value) :
    Yields rules.error (fun _ => True) (value.as α) := by
  unfold Value.as
  split
  · exact trivial
  · exact hrules.error _ _ (by simp [EvalCause.kind])

section

variable {arguments : Arguments} (harguments : arguments.Within rules) (parameter : String)

include harguments

theorem Arguments.yields_value :
    Yields rules.error rules.value (arguments.value parameter) := by
  unfold Arguments.value
  split
  · next hfind => exact harguments.find? hfind
  · exact hrules.error _ _ (by simp [EvalCause.kind])

theorem Arguments.yields_as {α : Type} [OfValue α] {good : α → Prop}
    (hgood : ∀ {value : Value} {data : α}, rules.value value →
      OfValue.ofValue? value = some data → good data) :
    Yields rules.error good (arguments.as α parameter) := by
  have hvalue := Arguments.yields_value hrules harguments parameter
  unfold Arguments.as
  split
  · next heq =>
      rw [heq] at hvalue
      exact hvalue
  · next value heq =>
      rw [heq] at hvalue
      split
      · next hread => exact hgood hvalue hread
      · exact hrules.error _ _ (by simp [EvalCause.kind])

theorem Arguments.yields_data {α : Type} [OfValue α] :
    Yields rules.error (fun _ => True) (arguments.as α parameter) :=
  Arguments.yields_as hrules harguments parameter fun _ _ => trivial

theorem Arguments.yields_asOptional {α : Type} [OfValue α] :
    Yields rules.error (fun _ => True) (arguments.asOptional α parameter) := by
  have hdata : Yields rules.error (fun _ => True) (arguments.as α parameter) :=
    Arguments.yields_data hrules harguments parameter
  unfold Arguments.asOptional
  split
  · exact trivial
  · split
    · exact trivial
    · next heq =>
        rw [heq] at hdata
        exact hdata

end

/-! ## Elements -/

omit hrules in
/-- All elements still to be taken are within the rules. -/
def Elements.Within (rules : Rules) : Elements → Prop
  | .ofList items => ∀ item ∈ items, rules.value item
  | .ofRange _ _ => True

theorem Elements.yields_ofValue {value : Value} (hvalue : rules.value value) :
    Yields rules.error (Elements.Within rules) (ofValue value) := by
  cases value with
  | list items => exact (hrules.list items).1 hvalue
  | range range => exact trivial
  | _ => exact hrules.error _ _ (by simp [EvalCause.kind])

theorem Elements.Within.uncons? {elements rest : Elements} (helements : elements.Within rules)
    {value : Value} (huncons : elements.uncons? = some (value, rest)) :
    rules.value value ∧ rest.Within rules := by
  cases elements with
  | ofList items =>
      cases items with
      | nil => cases huncons
      | cons first others =>
          cases huncons
          exact ⟨helements value (by simp), fun item hmem => helements item (by simp [hmem])⟩
  | ofRange range next =>
      cases next with
      | none => cases huncons
      | some member =>
          cases huncons
          exact ⟨hrules.number member, trivial⟩

omit hrules in
theorem Elements.yields_fold {ε β : Type} {bad : ε → Prop} {step : β → Value → Except ε β}
    (hstep : ∀ b value, Yields bad (fun _ => True) (step b value)) (start : β)
    (elements : Elements) : Yields bad (fun _ => True) (elements.fold step start) := by
  induction elements using uncons_induction generalizing start with
  | nil elements huncons =>
      rw [fold_of_none start huncons]
      exact trivial
  | cons elements rest value huncons ih =>
      rw [fold_of_some start huncons]
      exact (hstep start value).bind fun next _ => ih next

/-! ## Programs -/

omit hrules in
theorem Program.Within.attempt {α : Type} {good : α → Prop} {result : Except Error α}
    {next : α → Program} (hresult : Yields rules.error good result)
    (hnext : ∀ a, good a → (next a).Within rules) :
    (Program.attempt result next).Within rules := by
  cases result with
  | ok a => exact hnext a hresult
  | error error => exact .finish hresult

omit hrules in
theorem Program.Within.andThen {next : Value → Program}
    (hnext : ∀ value, rules.value value → (next value).Within rules) (outcome : Outcome)
    (houtcome : rules.outcome outcome) : (Program.andThen next outcome).Within rules := by
  cases outcome with
  | ok value => exact hnext value houtcome
  | error failure => exact .finish houtcome

omit hrules in
theorem Program.Within.evalOnly {form : Form} (hform : rules.form form) :
    (Program.evalOnly form).Within rules :=
  .eval hform fun _ => .finish

omit hrules in
theorem Program.Within.evalWith (name : String) {value : Value} (hvalue : rules.value value)
    {form : Form} (hform : rules.form form) {next : Outcome → Program}
    (hnext : ∀ outcome, rules.outcome outcome → (next outcome).Within rules) :
    (Program.evalWith name value form next).Within rules :=
  .inScope (.assign hvalue (.evalOnly hform)) hnext

/-! ## Methods of data -/

namespace Builtin

theorem within_number (result : Except Failure Number)
    (hresult : Yields rules.failure (fun _ => True) result) :
    rules.outcome (result >>= fun n => pure (.number n)) :=
  hresult.bind fun n _ => hrules.number n

omit hrules in
theorem yields_checked (operation : String) (result : Int) :
    Yields rules.failure (fun _ => True) (checked operation result) := by
  unfold checked
  split <;> exact trivial

theorem within_binary {compute : Number → Number → Except Failure Value}
    (hcompute : ∀ a b, rules.outcome (compute a b)) : (binary compute).Within rules := by
  intro arguments harguments
  have ha : Yields rules.error (fun _ => True) (arguments.as Number "a") :=
    Arguments.yields_data hrules harguments "a"
  have hb : Yields rules.error (fun _ => True) (arguments.as Number "b") :=
    Arguments.yields_data hrules harguments "b"
  apply Program.Within.finish
  apply ha.mapError.bind
  intro a _
  apply hb.mapError.bind
  intro b _
  exact hcompute a b

theorem within_exact (operation : String) (compute : Int → Int → Int) :
    (exact operation compute).Within rules :=
  within_binary hrules fun _ _ => within_number hrules _ (yields_checked operation _)

theorem within_divided (operation : String) (compute : Int → Int → Int) :
    (divided operation compute).Within rules := by
  apply within_binary hrules
  intro a b
  split
  · exact trivial
  · apply (yields_checked operation _).bind
    intro quotient _
    exact within_number hrules _ (yields_checked operation _)

theorem within_choose (choose : Number → Number → Number) :
    (binary fun a b => .ok (.number (choose a b))).Within rules :=
  within_binary hrules fun _ _ => hrules.number _

/-- What is said of the elements of `list` is said of a method that takes them. -/
theorem yields_elements {arguments : Arguments} (harguments : arguments.Within rules)
    (parameter : String) {α : Type} {good : α → Prop} {next : Elements → Except Failure α}
    (hnext : ∀ elements, elements.Within rules → Yields rules.failure good (next elements)) :
    Yields rules.failure good (do
      let list ← arguments.value parameter
      let elements ← Elements.ofValue list
      next elements) := by
  have hlist := Arguments.yields_value hrules harguments parameter
  apply hlist.mapError.bind
  intro list hvalue
  apply (Elements.yields_ofValue hrules hvalue).mapError.bind
  exact hnext

theorem within_accumulated (operation : String) (compute : Int → Int → Int)
    (start : Number) : (accumulated operation compute start).Within rules := by
  intro arguments harguments
  have hstep : ∀ total value,
      Yields rules.failure (fun _ => True) (accumulate operation compute total value) := by
    intro total value
    have hnumber := Value.yields_as (α := Number) hrules value
    exact hnumber.mapError.bind fun n _ => yields_checked operation _
  apply Program.Within.finish
  apply yields_elements hrules harguments "list"
  intro elements _
  exact within_number hrules _ (Elements.yields_fold hstep start elements)

theorem within_test {compute : Value → Value → Except Failure Bool}
    (hcompute : ∀ a b, Yields rules.failure (fun _ => True) (compute a b)) :
    (test compute).Within rules := by
  intro arguments harguments
  have ha := Arguments.yields_value hrules harguments "a"
  have hb := Arguments.yields_value hrules harguments "b"
  apply Program.Within.finish
  apply ha.mapError.bind
  intro a _
  apply hb.mapError.bind
  intro b _
  exact (hcompute a b).bind fun result _ => hrules.bool result

theorem yields_order (a b : Value) : Yields rules.failure (fun _ => True) (order a b) := by
  unfold order
  split
  · exact trivial
  · exact trivial
  · exact hrules.error _ _ (by simp [EvalCause.kind])

theorem within_ordered (holds : Ordering → Bool) : (ordered holds).Within rules :=
  within_test hrules fun a b => (yields_order hrules a b).bind fun _ _ => trivial

theorem within_negation : negation.Within rules := by
  intro arguments harguments
  have hb : Yields rules.error (fun _ => True) (arguments.as Bool "b") :=
    Arguments.yields_data hrules harguments "b"
  apply Program.Within.finish
  exact hb.mapError.bind fun b _ => hrules.bool !b

theorem within_connective (compute : Bool → Bool → Bool) :
    (connective compute).Within rules := by
  intro arguments harguments
  have ha : Yields rules.error (fun _ => True) (arguments.as Bool "a") :=
    Arguments.yields_data hrules harguments "a"
  have hb : Yields rules.error (fun _ => True) (arguments.as Bool "b") :=
    Arguments.yields_data hrules harguments "b"
  apply Program.Within.finish
  apply ha.mapError.bind
  intro a _
  exact hb.mapError.bind fun b _ => hrules.bool (compute a b)

theorem within_makeList : makeList.Within rules := by
  intro arguments harguments
  apply Program.Within.attempt (Arguments.yields_value hrules harguments "items")
  intro items hitems
  exact .finish hitems

theorem within_first : first.Within rules := by
  intro arguments harguments
  apply Program.Within.finish
  apply yields_elements hrules harguments "list"
  intro elements helements
  split
  · next value rest huncons => exact (helements.uncons? hrules huncons).1
  · exact trivial

theorem yields_countElements (value : Value) :
    Yields rules.failure (fun _ => True) (countElements value) := by
  unfold countElements
  split
  · exact trivial
  · exact trivial
  · exact hrules.error _ _ (by simp [EvalCause.kind])

theorem within_size : size.Within rules := by
  intro arguments harguments
  have hlist := Arguments.yields_value hrules harguments "list"
  apply Program.Within.finish
  apply hlist.mapError.bind
  intro list _
  apply (yields_countElements hrules list).bind
  intro count _
  split
  · exact hrules.number _
  · exact trivial

theorem yields_appendPart (text : String) (value : Value) :
    Yields rules.failure (fun _ => True) (appendPart text value) := by
  unfold appendPart
  split
  · exact trivial
  · exact trivial
  · exact hrules.error _ _ (by simp [EvalCause.kind])

theorem within_concatenate : concatenate.Within rules := by
  intro arguments harguments
  apply Program.Within.finish
  apply yields_elements hrules harguments "parts"
  intro elements _
  have htext := Elements.yields_fold (yields_appendPart hrules) "" elements
  exact htext.bind fun text _ => hrules.string text

theorem within_makeRange : makeRange.Within rules := by
  intro arguments harguments
  have hlow : Yields rules.error (fun _ => True) (arguments.asOptional Number "low") :=
    Arguments.yields_asOptional hrules harguments "low"
  have hhigh : Yields rules.error (fun _ => True) (arguments.asOptional Number "high") :=
    Arguments.yields_asOptional hrules harguments "high"
  have hstep : Yields rules.error (fun _ => True) (arguments.as Number "step") :=
    Arguments.yields_data hrules harguments "step"
  apply Program.Within.finish
  apply hlow.mapError.bind
  intro low _
  apply hhigh.mapError.bind
  intro high _
  apply hstep.mapError.bind
  intro step _
  split
  · exact trivial
  · exact hrules.range _

/-! ## Methods that evaluate and define -/

theorem within_choice : choice.Within rules := by
  intro arguments harguments
  apply Program.Within.attempt (Arguments.yields_data hrules harguments "cond")
  intro condition _
  apply Program.Within.attempt (Arguments.yields_value hrules harguments _)
  intro branch hbranch
  split
  · next form => exact .evalOnly ((hrules.form form).1 hbranch)
  · exact .finish hbranch

theorem within_scope : scope.Within rules := by
  intro arguments harguments
  apply Program.Within.attempt
    (Arguments.yields_as hrules harguments "body" hrules.form?)
  intro form hform
  exact .inScope (.evalOnly hform) fun _ => .finish

theorem within_filterElements {form : Form} (hform : rules.form form) {elements : Elements}
    (helements : elements.Within rules) {kept : List Value}
    (hkept : ∀ item ∈ kept, rules.value item) :
    (filterElements form elements kept).Within rules := by
  induction elements using Elements.uncons_induction generalizing kept with
  | nil elements huncons =>
      have hlist : rules.value (.list kept.reverse) :=
        (hrules.list _).2 fun item hmem => hkept item (by simpa using hmem)
      rw [filterElements_of_none huncons]
      exact .finish hlist
  | cons elements rest item huncons ih =>
      obtain ⟨hitem, hrest⟩ := helements.uncons? hrules huncons
      have hcons : ∀ other ∈ item :: kept, rules.value other := by
        simpa using ⟨hitem, hkept⟩
      rw [filterElements_of_some huncons]
      apply Program.Within.evalWith itemName hitem hform
      apply Program.Within.andThen
      intro value _
      split
      · exact ih hrest hcons
      · exact ih hrest hkept
      · exact .finish (hrules.error _ _ (by simp [EvalCause.kind]))

theorem within_mapElements {form : Form} (hform : rules.form form) {elements : Elements}
    (helements : elements.Within rules) {mapped : List Value}
    (hmapped : ∀ item ∈ mapped, rules.value item) :
    (mapElements form elements mapped).Within rules := by
  induction elements using Elements.uncons_induction generalizing mapped with
  | nil elements huncons =>
      have hlist : rules.value (.list mapped.reverse) :=
        (hrules.list _).2 fun item hmem => hmapped item (by simpa using hmem)
      rw [mapElements_of_none huncons]
      exact .finish hlist
  | cons elements rest item huncons ih =>
      obtain ⟨hitem, hrest⟩ := helements.uncons? hrules huncons
      rw [mapElements_of_some huncons]
      apply Program.Within.evalWith itemName hitem hform
      apply Program.Within.andThen
      intro value hvalue
      have hcons : ∀ other ∈ value :: mapped, rules.value other := by
        simpa using ⟨hvalue, hmapped⟩
      exact ih hrest hcons

theorem within_filter : filter.Within rules := by
  intro arguments harguments
  apply Program.Within.attempt (Arguments.yields_value hrules harguments "list")
  intro list hlist
  apply Program.Within.attempt (Elements.yields_ofValue hrules hlist)
  intro elements helements
  apply Program.Within.attempt (Arguments.yields_as hrules harguments "pred" hrules.form?)
  intro form hform
  exact within_filterElements hrules hform helements (by simp)

theorem within_map : map.Within rules := by
  intro arguments harguments
  apply Program.Within.attempt (Arguments.yields_value hrules harguments "list")
  intro list hlist
  apply Program.Within.attempt (Elements.yields_ofValue hrules hlist)
  intro elements helements
  apply Program.Within.attempt (Arguments.yields_as hrules harguments "transform" hrules.form?)
  intro form hform
  exact within_mapElements hrules hform helements (by simp)

theorem yields_quotedName (role : String) (value : Value) :
    Yields rules.error (fun _ => True) (quotedName role value) := by
  unfold quotedName
  split
  · exact trivial
  · exact hrules.error _ _ (by simp [EvalCause.kind])

theorem yields_mapM_quotedName (role : String) (values : List Value) :
    Yields rules.error (fun _ => True) (values.mapM (quotedName role)) := by
  induction values with
  | nil => exact trivial
  | cons value rest ih =>
      rw [List.mapM_cons]
      apply (yields_quotedName hrules role value).bind
      intro name _
      exact ih.bind fun names _ => trivial

theorem form_bodyForm {value : Value} (hvalue : rules.value value) :
    rules.form (bodyForm value) := by
  cases value with
  | form form => exact (hrules.form form).1 hvalue
  | _ => exact hrules.literal _ hvalue

theorem within_assignment : assignment.Within rules := by
  intro arguments harguments
  apply Program.Within.attempt (Arguments.yields_value hrules harguments "name")
  intro quoted _
  apply Program.Within.attempt (yields_quotedName hrules "variable name" quoted)
  intro name _
  apply Program.Within.attempt (Arguments.yields_value hrules harguments "value")
  intro value hvalue
  exact .assign hvalue (.finish hvalue)

theorem within_definition : definition.Within rules := by
  intro arguments harguments
  apply Program.Within.attempt (Arguments.yields_as hrules harguments "parts" hrules.list?)
  intro parts hparts
  split
  · next body _ hbody =>
      have hmem : rules.value body := hparts body (List.mem_of_getLast? hbody)
      apply Program.Within.attempt (yields_quotedName hrules "method name" _)
      intro name _
      apply Program.Within.attempt (yields_mapM_quotedName hrules "parameter" _)
      intro parameters _
      refine .define (form_bodyForm hrules hmem) fun ref => ?_
      exact .assign (hrules.method ref) (.finish (hrules.method ref))
  · exact .finish (hrules.error _ _ (by simp [EvalCause.kind]))

theorem within_of_mem : ∀ entry ∈ methods, entry.2.2.Within rules := by
  simp only [methods, List.forall_mem_cons, List.not_mem_nil, false_implies, implies_true,
    and_true]
  refine ⟨within_exact hrules _ _, within_exact hrules _ _, within_exact hrules _ _,
    within_divided hrules _ _, within_divided hrules _ _, within_choose hrules _,
    within_choose hrules _, within_accumulated hrules _ _ _, within_accumulated hrules _ _ _,
    ?_, ?_, within_ordered hrules _, within_ordered hrules _, within_ordered hrules _,
    within_ordered hrules _, within_negation hrules, within_connective hrules _,
    within_connective hrules _, within_choice hrules, within_makeList hrules,
    within_first hrules, within_size hrules, within_filter hrules, within_map hrules,
    within_concatenate hrules, within_makeRange hrules, within_definition hrules,
    within_assignment hrules, within_scope hrules⟩
  · exact within_test hrules fun _ _ => trivial
  · exact within_test hrules fun _ _ => trivial

/-! ## The global environment -/

theorem within_registerAll {entries : List (String × Signature × Native)}
    (hentries : ∀ entry ∈ entries, rules.native entry.2.2 ∧
      ∀ option ∈ entry.2.1.optional, rules.value option.default)
    (chain : Chain) {store : Store} (hstore : store.Within rules) :
    (entries.foldl (registerNative chain) store).Within rules := by
  induction entries generalizing store with
  | nil => exact hstore
  | cons entry rest ih =>
      obtain ⟨hnative, hdefault⟩ := hentries entry (by simp)
      have hmethod : Method.Within rules ⟨entry.2.1, .native entry.2.2⟩ := ⟨hdefault, hnative⟩
      have hadded := hstore.addMethod entry.1 hmethod
      have hregistered := hadded.bind chain entry.1 (hrules.method ⟨store.methods.size, entry.1⟩)
      exact ih (fun other hmem => hentries other (by simp [hmem])) hregistered

/-- The global environment is within structural rules that admit the standard
methods and the placeholder. -/
theorem within_createGlobal (hplaceholder : rules.value .placeholder)
    (hnative : ∀ entry ∈ methods, rules.native entry.2.2) :
    (createGlobal .empty).2.Within rules := by
  have hdefault : ∀ entry ∈ methods, ∀ option ∈ entry.2.1.optional,
      rules.value option.default := by
    simp [methods, operands, Signature.ofRequired, Signature.ofRest, Signature.withOption,
      hrules.number]
  have hentries := fun entry hmem => And.intro (hnative entry hmem) (hdefault entry hmem)
  have hroot := (Store.within_empty rules).addFrame Store.empty.frames.size
  exact (within_registerAll hrules hentries _ hroot).bind _ _ hplaceholder

end Builtin

end

end ArityScript
