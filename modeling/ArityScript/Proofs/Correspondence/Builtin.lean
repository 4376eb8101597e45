import ArityScript.Proofs.Correspondence.Program
import ArityScript.Proofs.Iteration

/-!
# The standard methods are uniform

The standard methods look at the kinds, the texts and the equality of their
arguments, and pass arguments on, but none of them depends on the number of a
method.
-/

namespace ArityScript

variable {pairs : Correspondence}

/-! ## Reading arguments -/

theorem Value.Related.number? {v w : Value} (h : v.Related pairs w) :
    Option.Rel (· = ·) (OfValue.ofValue? v : Option Number) (OfValue.ofValue? w) := by
  cases v <;> cases w <;> simp only [Value.Related] at h
  case number n m => exact .some h
  all_goals exact .none

theorem Value.Related.bool? {v w : Value} (h : v.Related pairs w) :
    Option.Rel (· = ·) (OfValue.ofValue? v : Option Bool) (OfValue.ofValue? w) := by
  cases v <;> cases w <;> simp only [Value.Related] at h
  case bool b c => exact .some h
  all_goals exact .none

theorem Value.Related.form? {v w : Value} (h : v.Related pairs w) :
    Option.Rel (Form.Related pairs) (OfValue.ofValue? v) (OfValue.ofValue? w) := by
  cases v <;> cases w <;> simp only [Value.Related] at h
  case form f g => exact .some h
  all_goals exact .none

theorem forall₂_numbers (members : List Number) :
    List.Forall₂ (Value.Related pairs) (members.map .number) (members.map .number) := by
  induction members with
  | nil => exact .nil
  | cons n rest ih => exact .cons (by simp [Value.Related]) ih

theorem Value.Related.list? {v w : Value} (h : v.Related pairs w) :
    Option.Rel (List.Forall₂ (Value.Related pairs))
      (OfValue.ofValue? v) (OfValue.ofValue? w) := by
  cases v <;> cases w <;> simp only [Value.Related] at h
  case list items others => exact .some (Value.allRelated_iff.1 h)
  case range r q =>
    subst h
    exact .some (forall₂_numbers r.members)
  all_goals exact .none

theorem Value.Related.as {α : Type} [OfValue α] {related : α → α → Prop} {v w : Value}
    (h : v.Related pairs w)
    (hdata : Option.Rel related (OfValue.ofValue? v) (OfValue.ofValue? w)) :
    ResultRelated related (v.as α) (w.as α) := by
  unfold Value.as
  rw [h.typeName_eq]
  generalize (OfValue.ofValue? v : Option α) = data,
    (OfValue.ofValue? w : Option α) = data' at hdata ⊢
  cases hdata with
  | some hrelated => exact .ok hrelated
  | none => exact .error _

section

variable {arguments arguments' : Arguments}
  (harguments : NameMap.Related pairs arguments arguments')

include harguments

theorem Arguments.related_value (parameter : String) :
    ResultRelated (Value.Related pairs) (arguments.value parameter)
      (arguments'.value parameter) := by
  have hfind := harguments.find? parameter
  unfold Arguments.value
  generalize arguments.find? parameter = found, arguments'.find? parameter = found' at hfind ⊢
  cases hfind with
  | some hvalue => exact .ok hvalue
  | none => exact .error _

theorem Arguments.related_as {α : Type} [OfValue α] {related : α → α → Prop}
    (hdata : ∀ {v w : Value}, v.Related pairs w →
      Option.Rel related (OfValue.ofValue? v) (OfValue.ofValue? w)) (parameter : String) :
    ResultRelated related (arguments.as α parameter) (arguments'.as α parameter) := by
  have hvalue := Arguments.related_value harguments parameter
  unfold Arguments.as
  generalize arguments.value parameter = result, arguments'.value parameter = result'
    at hvalue ⊢
  cases hvalue with
  | error failure => exact .error _
  | @ok v w hvalue =>
      have hread := hdata hvalue
      simp only [hvalue.typeName_eq]
      generalize (OfValue.ofValue? v : Option α) = data,
        (OfValue.ofValue? w : Option α) = data' at hread ⊢
      cases hread with
      | some hrelated => exact .ok hrelated
      | none => exact .error _

theorem Arguments.related_asOptional {α : Type} [OfValue α]
    (hdata : ∀ {v w : Value}, v.Related pairs w →
      Option.Rel (· = ·) (OfValue.ofValue? v : Option α) (OfValue.ofValue? w))
    (parameter : String) :
    ResultRelated (· = ·) (arguments.asOptional α parameter)
      (arguments'.asOptional α parameter) := by
  have hfind := harguments.find? parameter
  have has := Arguments.related_as harguments hdata parameter
  unfold Arguments.asOptional
  generalize arguments.find? parameter = found, arguments'.find? parameter = found' at hfind ⊢
  generalize arguments.as α parameter = result, arguments'.as α parameter = result' at has ⊢
  cases hfind with
  | none =>
      cases has with
      | ok heq => exact .ok (congrArg some heq)
      | error failure => exact .error failure
  | @some v w hvalue =>
      cases v <;> cases w <;> simp only [Value.Related] at hvalue
      case placeholder => exact .ok rfl
      all_goals
        cases has with
        | ok heq => exact .ok (congrArg some heq)
        | error failure => exact .error failure

end

/-! ## Elements -/

namespace Elements

def Related (pairs : Correspondence) : Elements → Elements → Prop
  | .ofList items, .ofList others => List.Forall₂ (Value.Related pairs) items others
  | .ofRange range next, .ofRange other next' => range = other ∧ next = next'
  | _, _ => False

theorem Related.mono {more : Correspondence} (hle : pairs ≤ more)
    {elements elements' : Elements} (h : elements.Related pairs elements') :
    elements.Related more elements' := by
  cases elements <;> cases elements' <;> simp only [Related] at h ⊢
  · exact h.imp fun _ _ hvalue => hvalue.mono hle
  · exact h

theorem related_ofValue {v w : Value} (h : v.Related pairs w) :
    ResultRelated (Elements.Related pairs) (ofValue v) (ofValue w) := by
  have htype := h.typeName_eq
  cases v <;> cases w <;> simp only [Value.Related] at h
  case list items others => exact .ok (Value.allRelated_iff.1 h)
  case range range other => exact .ok ⟨h, by rw [h]⟩
  all_goals exact .error _

theorem Related.uncons?_cases {elements elements' : Elements}
    (h : elements.Related pairs elements') :
    (elements.uncons? = none ∧ elements'.uncons? = none) ∨
      ∃ value rest value' rest', elements.uncons? = some (value, rest) ∧
        elements'.uncons? = some (value', rest') ∧ value.Related pairs value' ∧
        rest.Related pairs rest' := by
  cases elements <;> cases elements' <;> simp only [Related] at h
  case ofList items others =>
    cases h with
    | nil => exact .inl ⟨rfl, rfl⟩
    | cons hfirst hrest => exact .inr ⟨_, _, _, _, rfl, rfl, hfirst, hrest⟩
  case ofRange range next other next' =>
    obtain ⟨rfl, rfl⟩ := h
    cases next with
    | none => exact .inl ⟨rfl, rfl⟩
    | some member =>
        exact .inr ⟨_, _, _, _, rfl, rfl, by simp [Value.Related], rfl, rfl⟩

theorem Related.uncons?_of_none {elements elements' : Elements}
    (h : elements.Related pairs elements') (hnone : elements.uncons? = none) :
    elements'.uncons? = none := by
  rcases h.uncons?_cases with ⟨_, hnone'⟩ | ⟨_, _, _, _, hsome, _⟩
  · exact hnone'
  · simp [hnone] at hsome

theorem Related.uncons?_of_some {elements elements' rest : Elements} {value : Value}
    (h : elements.Related pairs elements') (hsome : elements.uncons? = some (value, rest)) :
    ∃ value' rest', elements'.uncons? = some (value', rest') ∧ value.Related pairs value' ∧
      rest.Related pairs rest' := by
  rcases h.uncons?_cases with ⟨hnone, _⟩ | ⟨_, _, value', rest', hfound, hsome', hrelated⟩
  · simp [hnone] at hsome
  · cases hsome.symm.trans hfound
    exact ⟨value', rest', hsome', hrelated⟩

/-- An accumulation for which corresponding elements are as good as equal. -/
theorem Related.fold_eq {ε β : Type} {step : β → Value → Except ε β}
    (hstep : ∀ b v w, v.Related pairs w → step b v = step b w) (start : β)
    {elements elements' : Elements} (h : elements.Related pairs elements') :
    elements.fold step start = elements'.fold step start := by
  induction elements using uncons_induction generalizing start elements' with
  | nil elements hnone =>
      rw [fold_of_none start hnone, fold_of_none start (h.uncons?_of_none hnone)]
  | cons elements rest value hsome ih =>
      obtain ⟨value', rest', hsome', hvalue, hrest⟩ := h.uncons?_of_some hsome
      rw [fold_of_some start hsome, fold_of_some start hsome', hstep start value value' hvalue]
      congr 1
      funext next
      exact ih next hrest

end Elements

/-! ## Methods of data -/

theorem Native.Uniform.ofFunction {compute : Arguments → Outcome}
    (hcompute : ∀ (pairs : Correspondence) (arguments arguments' : Arguments),
      NameMap.Related pairs arguments arguments' →
        Outcome.Related pairs (compute arguments) (compute arguments')) :
    (Native.ofFunction compute).Uniform :=
  fun pairs arguments arguments' harguments =>
    .finish (hcompute pairs arguments arguments' harguments)

namespace Builtin

theorem uniform_binary {compute : Number → Number → Except Failure Value}
    (hcompute : ∀ pairs a b, Outcome.Related pairs (compute a b) (compute a b)) :
    (binary compute).Uniform := by
  apply Native.Uniform.ofFunction
  intro pairs arguments arguments' harguments
  have ha := Arguments.related_as harguments Value.Related.number? "a"
  have hb := Arguments.related_as harguments Value.Related.number? "b"
  apply (ha.mapError Failure.error).bind
  intro a a' heq
  subst heq
  apply (hb.mapError Failure.error).bind
  intro b b' heq
  subst heq
  exact hcompute pairs a b

theorem related_number (pairs : Correspondence) (result : Except Failure Number) :
    Outcome.Related pairs (result >>= fun n => pure (.number n))
      (result >>= fun n => pure (.number n)) := by
  apply (ResultRelated.refl result).bind
  intro n n' heq
  subst heq
  exact .ok (by simp [Value.Related])

theorem uniform_exact (operation : String) (compute : Int → Int → Int) :
    (exact operation compute).Uniform :=
  uniform_binary fun pairs _ _ => related_number pairs _

theorem uniform_divided (operation : String) (compute : Int → Int → Int) :
    (divided operation compute).Uniform := by
  apply uniform_binary
  intro pairs a b
  split
  · exact .error _
  · apply (ResultRelated.refl _).bind
    intro divisor divisor' heq
    subst heq
    exact related_number pairs _

theorem uniform_choose (choose : Number → Number → Number) :
    (binary fun a b => .ok (.number (choose a b))).Uniform :=
  uniform_binary fun _ _ _ => .ok (by simp [Value.Related])

theorem uniform_accumulated (operation : String) (compute : Int → Int → Int)
    (start : Number) : (accumulated operation compute start).Uniform := by
  apply Native.Uniform.ofFunction
  intro pairs arguments arguments' harguments
  have hlist := Arguments.related_value harguments "list"
  apply (hlist.mapError Failure.error).bind
  intro list list' hrelated
  apply ((Elements.related_ofValue hrelated).mapError Failure.error).bind
  intro elements elements' helements
  have hstep : ∀ total v w, v.Related pairs w →
      accumulate operation compute total v = accumulate operation compute total w := by
    intro total v w hvalue
    have hnumber := hvalue.as hvalue.number?
    unfold accumulate
    generalize v.as Number = result, w.as Number = result' at hnumber ⊢
    cases hnumber with
    | ok heq => rw [heq]
    | error failure => rfl
  rw [helements.fold_eq hstep]
  exact related_number pairs _

theorem uniform_test {compute : Value → Value → Except Failure Bool}
    (hcompute : ∀ (pairs : Correspondence) (a b a' b' : Value), a.Related pairs a' →
      b.Related pairs b' → compute a b = compute a' b') : (test compute).Uniform := by
  apply Native.Uniform.ofFunction
  intro pairs arguments arguments' harguments
  have ha := Arguments.related_value harguments "a"
  have hb := Arguments.related_value harguments "b"
  apply (ha.mapError Failure.error).bind
  intro a a' harelated
  apply (hb.mapError Failure.error).bind
  intro b b' hbrelated
  rw [hcompute pairs a b a' b' harelated hbrelated]
  apply (ResultRelated.refl _).bind
  intro result result' heq
  subst heq
  exact .ok (by simp [Value.Related])

theorem order_eq {a b a' b' : Value} (ha : a.Related pairs a') (hb : b.Related pairs b') :
    order a b = order a' b' := by
  have htype := ha.typeName_eq
  have htype' := hb.typeName_eq
  cases a <;> cases a' <;> simp only [Value.Related] at ha
  case number.number n m =>
    cases b <;> cases b' <;> simp only [Value.Related] at hb
    case number.number => rw [ha, hb]
    all_goals rfl
  case string.string s t =>
    cases b <;> cases b' <;> simp only [Value.Related] at hb
    case string.string => rw [ha, hb]
    all_goals rfl
  all_goals simp only [order, htype', htype]

theorem uniform_ordered (holds : Ordering → Bool) : (ordered holds).Uniform :=
  uniform_test fun _ _ _ _ _ ha hb => by rw [order_eq ha hb]

theorem uniform_connective (compute : Bool → Bool → Bool) :
    (connective compute).Uniform := by
  apply Native.Uniform.ofFunction
  intro pairs arguments arguments' harguments
  have ha := Arguments.related_as harguments Value.Related.bool? "a"
  have hb := Arguments.related_as harguments Value.Related.bool? "b"
  apply (ha.mapError Failure.error).bind
  intro a a' heq
  subst heq
  apply (hb.mapError Failure.error).bind
  intro b b' heq
  subst heq
  exact .ok (by simp [Value.Related])

theorem uniform_negation : negation.Uniform := by
  apply Native.Uniform.ofFunction
  intro pairs arguments arguments' harguments
  have hb := Arguments.related_as harguments Value.Related.bool? "b"
  apply (hb.mapError Failure.error).bind
  intro b b' heq
  subst heq
  exact .ok (by simp [Value.Related])

theorem uniform_makeList : makeList.Uniform := fun _ _ _ harguments =>
  .attempt (Arguments.related_value harguments "items") fun _ _ => .done

theorem uniform_first : first.Uniform := by
  apply Native.Uniform.ofFunction
  intro pairs arguments arguments' harguments
  have hlist := Arguments.related_value harguments "list"
  apply (hlist.mapError Failure.error).bind
  intro list list' hrelated
  apply ((Elements.related_ofValue hrelated).mapError Failure.error).bind
  intro elements elements' helements
  rcases helements.uncons?_cases with
    ⟨hnone, hnone'⟩ | ⟨value, rest, value', rest', hsome, hsome', hvalue, hrest⟩
  · rw [hnone, hnone']
    exact .error _
  · rw [hsome, hsome']
    exact .ok hvalue

theorem countElements_eq {v w : Value} (h : v.Related pairs w) :
    countElements v = countElements w := by
  have htype := h.typeName_eq
  cases v <;> cases w <;> simp only [Value.Related] at h
  case list items others =>
    have hlength := (Value.allRelated_iff.1 h).length_eq
    simp [countElements, hlength]
  case range range other => rw [h]
  all_goals rfl

theorem uniform_size : size.Uniform := by
  apply Native.Uniform.ofFunction
  intro pairs arguments arguments' harguments
  have hlist := Arguments.related_value harguments "list"
  apply (hlist.mapError Failure.error).bind
  intro list list' hrelated
  rw [countElements_eq hrelated]
  apply (ResultRelated.refl _).bind
  intro count count' heq
  subst heq
  split
  · exact .ok (by simp [Value.Related])
  · exact .error _

theorem appendPart_eq (text : String) {v w : Value} (h : v.Related pairs w) :
    appendPart text v = appendPart text w := by
  have htype := h.typeName_eq
  cases v <;> cases w <;> simp only [Value.Related] at h
  case number n m => rw [h]
  case string s t => rw [h]
  all_goals rfl

theorem uniform_concatenate : concatenate.Uniform := by
  apply Native.Uniform.ofFunction
  intro pairs arguments arguments' harguments
  have hparts := Arguments.related_value harguments "parts"
  apply (hparts.mapError Failure.error).bind
  intro parts parts' hrelated
  apply ((Elements.related_ofValue hrelated).mapError Failure.error).bind
  intro elements elements' helements
  rw [helements.fold_eq fun text v w => appendPart_eq text]
  apply (ResultRelated.refl _).bind
  intro text text' heq
  subst heq
  exact .ok (by simp [Value.Related])

theorem uniform_makeRange : makeRange.Uniform := by
  apply Native.Uniform.ofFunction
  intro pairs arguments arguments' harguments
  have hlow := Arguments.related_asOptional harguments Value.Related.number? "low"
  have hhigh := Arguments.related_asOptional harguments Value.Related.number? "high"
  have hstep := Arguments.related_as harguments Value.Related.number? "step"
  apply (hlow.mapError Failure.error).bind
  intro low low' heq
  subst heq
  apply (hhigh.mapError Failure.error).bind
  intro high high' heq
  subst heq
  apply (hstep.mapError Failure.error).bind
  intro step step' heq
  subst heq
  split
  · exact .error _
  · exact .ok (by simp [Value.Related])

/-! ## Methods that evaluate and define -/

theorem uniform_choice : choice.Uniform := by
  intro pairs arguments arguments' harguments
  apply Program.Related.attempt (Arguments.related_as harguments Value.Related.bool? "cond")
  intro condition condition' heq
  subst heq
  apply Program.Related.attempt (Arguments.related_value harguments _)
  intro branch branch' hbranch
  have hdone : Program.Related pairs (.done branch) (.done branch') := .done hbranch
  cases branch <;> cases branch' <;> simp only [Value.Related] at hbranch
  case form form form' => exact .evalOnly hbranch
  all_goals exact hdone

theorem uniform_scope : scope.Uniform := by
  intro pairs arguments arguments' harguments
  apply Program.Related.attempt (Arguments.related_as harguments Value.Related.form? "body")
  intro form form' hform
  exact .inScope (fun _ hle => .evalOnly (hform.mono hle)) fun _ _ _ _ => .finish

theorem related_list {items items' : List Value}
    (hitems : List.Forall₂ (Value.Related pairs) items items') :
    (Value.list items).Related pairs (.list items') := by
  simp only [Value.Related]
  exact Value.allRelated_iff.2 hitems

theorem related_filterElements {form form' : Form} {elements elements' : Elements}
    {kept kept' : List Value} (hform : form.Related pairs form')
    (helements : elements.Related pairs elements')
    (hkept : List.Forall₂ (Value.Related pairs) kept kept') :
    Program.Related pairs (filterElements form elements kept)
      (filterElements form' elements' kept') := by
  induction elements using Elements.uncons_induction
    generalizing pairs elements' kept kept' with
  | nil elements hnone =>
      rw [filterElements_of_none hnone,
        filterElements_of_none (helements.uncons?_of_none hnone)]
      exact .done (related_list (List.rel_reverse hkept))
  | cons elements rest item hsome ih =>
      obtain ⟨item', rest', hsome', hitem, hrest⟩ := helements.uncons?_of_some hsome
      rw [filterElements_of_some hsome, filterElements_of_some hsome']
      apply Program.Related.evalWith itemName hitem hform
      intro more hle outcome outcome' houtcome
      have hkept' := hkept.imp fun _ _ h => Value.Related.mono hle h
      apply Program.Related.andThen houtcome
      intro value value' hvalue
      have htype := hvalue.typeName_eq
      cases value <;> cases value' <;> simp only [Value.Related] at hvalue
      case bool.bool b b' =>
        subst hvalue
        cases b with
        | false => exact ih (hform.mono hle) (hrest.mono hle) hkept'
        | true =>
            exact ih (hform.mono hle) (hrest.mono hle) (.cons (hitem.mono hle) hkept')
      all_goals exact .failWith _

theorem uniform_filter : filter.Uniform := by
  intro pairs arguments arguments' harguments
  apply Program.Related.attempt (Arguments.related_value harguments "list")
  intro list list' hlist
  apply Program.Related.attempt (Elements.related_ofValue hlist)
  intro elements elements' helements
  apply Program.Related.attempt (Arguments.related_as harguments Value.Related.form? "pred")
  intro form form' hform
  exact related_filterElements hform helements .nil

theorem related_mapElements {form form' : Form} {elements elements' : Elements}
    {mapped mapped' : List Value} (hform : form.Related pairs form')
    (helements : elements.Related pairs elements')
    (hmapped : List.Forall₂ (Value.Related pairs) mapped mapped') :
    Program.Related pairs (mapElements form elements mapped)
      (mapElements form' elements' mapped') := by
  induction elements using Elements.uncons_induction
    generalizing pairs elements' mapped mapped' with
  | nil elements hnone =>
      rw [mapElements_of_none hnone, mapElements_of_none (helements.uncons?_of_none hnone)]
      exact .done (related_list (List.rel_reverse hmapped))
  | cons elements rest item hsome ih =>
      obtain ⟨item', rest', hsome', hitem, hrest⟩ := helements.uncons?_of_some hsome
      rw [mapElements_of_some hsome, mapElements_of_some hsome']
      apply Program.Related.evalWith itemName hitem hform
      intro more hle outcome outcome' houtcome
      have hmapped' := hmapped.imp fun _ _ h => Value.Related.mono hle h
      apply Program.Related.andThen houtcome
      intro value value' hvalue
      exact ih (hform.mono hle) (hrest.mono hle) (.cons hvalue hmapped')

theorem uniform_map : map.Uniform := by
  intro pairs arguments arguments' harguments
  apply Program.Related.attempt (Arguments.related_value harguments "list")
  intro list list' hlist
  apply Program.Related.attempt (Elements.related_ofValue hlist)
  intro elements elements' helements
  apply Program.Related.attempt (Arguments.related_as harguments Value.Related.form? "transform")
  intro form form' hform
  exact related_mapElements hform helements .nil

theorem quotedName_eq (role : String) {v w : Value} (h : v.Related pairs w) :
    quotedName role v = quotedName role w := by
  have hrender := h.render_eq
  have hname : v.form?.bind Form.name? = w.form?.bind Form.name? := by
    cases v <;> cases w <;> simp only [Value.Related] at h
    case form f g => exact h.name?_eq
    all_goals rfl
  unfold quotedName
  rw [hname, hrender]

theorem mapM_quotedName_eq (role : String) {vs ws : List Value}
    (h : List.Forall₂ (Value.Related pairs) vs ws) :
    vs.mapM (quotedName role) = ws.mapM (quotedName role) := by
  induction h with
  | nil => rfl
  | cons hfirst _ ih => rw [List.mapM_cons, List.mapM_cons, quotedName_eq role hfirst, ih]

theorem related_bodyForm {v w : Value} (h : v.Related pairs w) :
    (bodyForm v).Related pairs (bodyForm w) := by
  have hliteral : (Form.literal v).Related pairs (.literal w) := by
    rwa [Form.Related]
  cases v <;> cases w <;> simp only [Value.Related] at h
  case form f g => exact h
  all_goals exact hliteral

theorem uniform_assignment : assignment.Uniform := by
  intro pairs arguments arguments' harguments
  apply Program.Related.attempt (Arguments.related_value harguments "name")
  intro quoted quoted' hquoted
  rw [quotedName_eq "variable name" hquoted]
  apply Program.Related.attempt (ResultRelated.refl _)
  intro name name' heq
  subst heq
  apply Program.Related.attempt (Arguments.related_value harguments "value")
  intro value value' hvalue
  exact .assign name hvalue (.done hvalue)

theorem forall₂_dropLast {vs ws : List Value}
    (h : List.Forall₂ (Value.Related pairs) vs ws) :
    List.Forall₂ (Value.Related pairs) vs.dropLast ws.dropLast := by
  induction h with
  | nil => exact .nil
  | cons hfirst hrest ih =>
      cases hrest with
      | nil => exact .nil
      | cons _ _ => exact .cons hfirst ih

theorem rel_getLast? {vs ws : List Value} (h : List.Forall₂ (Value.Related pairs) vs ws) :
    Option.Rel (Value.Related pairs) vs.getLast? ws.getLast? := by
  induction h with
  | nil => exact .none
  | cons hfirst hrest ih =>
      cases hrest with
      | nil => exact .some hfirst
      | cons _ _ => simpa only [List.getLast?_cons_cons] using ih

theorem uniform_definition : definition.Uniform := by
  intro pairs arguments arguments' harguments
  apply Program.Related.attempt (Arguments.related_as harguments Value.Related.list? "parts")
  intro parts parts' hparts
  have hinit := forall₂_dropLast hparts
  have hlast := rel_getLast? hparts
  generalize parts.dropLast = init, parts'.dropLast = init' at hinit ⊢
  generalize parts.getLast? = last, parts'.getLast? = last' at hlast ⊢
  cases hinit with
  | nil => exact .failWith _
  | cons hname hparameters =>
      cases hlast with
      | none => exact .failWith _
      | some hbody =>
          simp only [quotedName_eq "method name" hname,
            mapM_quotedName_eq "parameter" hparameters]
          apply Program.Related.attempt (ResultRelated.refl _)
          intro name name' heq
          subst heq
          apply Program.Related.attempt (ResultRelated.refl _)
          intro parameters parameters' heq
          subst heq
          refine .define name parameters (related_bodyForm hbody) ?_
          exact fun more hle method method' hmethod => .assign name hmethod (.done hmethod)

theorem uniform_of_mem : ∀ entry ∈ methods, entry.2.2.Uniform := by
  simp only [methods, List.forall_mem_cons, List.not_mem_nil, false_implies, implies_true,
    and_true]
  refine ⟨uniform_exact _ _, uniform_exact _ _, uniform_exact _ _, uniform_divided _ _,
    uniform_divided _ _, uniform_choose _, uniform_choose _, uniform_accumulated _ _ _,
    uniform_accumulated _ _ _, ?_, ?_, uniform_ordered _, uniform_ordered _,
    uniform_ordered _, uniform_ordered _, uniform_negation, uniform_connective _,
    uniform_connective _, uniform_choice, uniform_makeList, uniform_first, uniform_size,
    uniform_filter, uniform_map, uniform_concatenate, uniform_makeRange,
    uniform_definition, uniform_assignment, uniform_scope⟩
  · exact uniform_test fun _ _ _ _ _ ha hb => by simp only [ha.eq_iff hb]
  · exact uniform_test fun _ _ _ _ _ ha hb => by simp only [ne_eq, ha.eq_iff hb]

end Builtin

end ArityScript
