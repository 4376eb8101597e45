import ArityScript.Builtin

/-!
# Steps of an iteration

Taking elements, filtering and mapping go one element at a time: either there is
none left, or the next one is dealt with and the rest follows.  Nothing depends on
whether the elements are those of a list or of a range.
-/

namespace ArityScript

namespace Elements

/-- Elements run out after finitely many are taken. -/
@[elab_as_elim]
theorem uncons_induction {motive : Elements → Prop}
    (nil : ∀ elements : Elements, elements.uncons? = none → motive elements)
    (cons : ∀ (elements rest : Elements) (value : Value),
      elements.uncons? = some (value, rest) → motive rest → motive elements)
    (elements : Elements) : motive elements := by
  induction hbound : elements.bound using Nat.strongRecOn generalizing elements with
  | ind bound ih =>
      cases huncons : elements.uncons? with
      | none => exact nil elements huncons
      | some taken =>
          have hlt := bound_lt_of_uncons? huncons
          exact cons elements taken.2 taken.1 huncons
            (ih taken.2.bound (hbound ▸ hlt) taken.2 rfl)

theorem toList_of_none {elements : Elements} (huncons : elements.uncons? = none) :
    elements.toList = [] := by
  rw [toList]
  split
  · rfl
  · next heq => simp [huncons] at heq

theorem toList_of_some {elements rest : Elements} {value : Value}
    (huncons : elements.uncons? = some (value, rest)) :
    elements.toList = value :: rest.toList := by
  rw [toList]
  split
  · next heq => simp [huncons] at heq
  · next heq =>
      rw [huncons] at heq
      cases heq
      rfl

theorem uncons?_ofList_nil : (ofList []).uncons? = none := rfl

theorem uncons?_ofList_cons (value : Value) (rest : List Value) :
    (ofList (value :: rest)).uncons? = some (value, .ofList rest) := rfl

theorem toList_ofList (values : List Value) : (ofList values).toList = values := by
  induction values with
  | nil => exact toList_of_none uncons?_ofList_nil
  | cons value rest ih => rw [toList_of_some (uncons?_ofList_cons value rest), ih]

theorem fold_of_none {ε β : Type} {step : β → Value → Except ε β} (start : β)
    {elements : Elements} (huncons : elements.uncons? = none) :
    elements.fold step start = .ok start := by
  rw [fold]
  split
  · rfl
  · next heq => simp [huncons] at heq

theorem fold_of_some {ε β : Type} {step : β → Value → Except ε β} (start : β)
    {elements rest : Elements} {value : Value}
    (huncons : elements.uncons? = some (value, rest)) :
    elements.fold step start = step start value >>= rest.fold step := by
  rw [fold]
  split
  · next heq => simp [huncons] at heq
  · next heq =>
      rw [huncons] at heq
      cases heq
      cases step start value <;> rfl

theorem fold_eq_foldlM {ε β : Type} (step : β → Value → Except ε β) (start : β)
    (elements : Elements) : elements.fold step start = elements.toList.foldlM step start := by
  induction elements using uncons_induction generalizing start with
  | nil elements huncons =>
      rw [fold_of_none start huncons, toList_of_none huncons]
      rfl
  | cons elements rest value huncons ih =>
      rw [fold_of_some start huncons, toList_of_some huncons, List.foldlM_cons]
      congr 1
      funext next
      exact ih next

end Elements

namespace Builtin

theorem filterElements_of_none {form : Form} {elements : Elements} {kept : List Value}
    (huncons : elements.uncons? = none) :
    filterElements form elements kept = .done (.list kept.reverse) := by
  rw [filterElements]
  split
  · rfl
  · next heq => simp [huncons] at heq

theorem filterElements_of_some {form : Form} {elements rest : Elements} {item : Value}
    {kept : List Value} (huncons : elements.uncons? = some (item, rest)) :
    filterElements form elements kept =
      .evalWith itemName item form (Program.andThen fun
        | .bool true => filterElements form rest (item :: kept)
        | .bool false => filterElements form rest kept
        | value => .failWith (.eval (.ofCause (.predicateNotBoolean value.typeName)))) := by
  rw [filterElements]
  split
  · next heq => simp [huncons] at heq
  · next heq =>
      rw [huncons] at heq
      cases heq
      rfl

theorem mapElements_of_none {form : Form} {elements : Elements} {mapped : List Value}
    (huncons : elements.uncons? = none) :
    mapElements form elements mapped = .done (.list mapped.reverse) := by
  rw [mapElements]
  split
  · rfl
  · next heq => simp [huncons] at heq

theorem mapElements_of_some {form : Form} {elements rest : Elements} {item : Value}
    {mapped : List Value} (huncons : elements.uncons? = some (item, rest)) :
    mapElements form elements mapped =
      .evalWith itemName item form (Program.andThen fun value =>
        mapElements form rest (value :: mapped)) := by
  rw [mapElements]
  split
  · next heq => simp [huncons] at heq
  · next heq =>
      rw [huncons] at heq
      cases heq
      rfl

theorem filterElements_toList (form : Form) (elements : Elements) (kept : List Value) :
    filterElements form elements kept = filterElements form (.ofList elements.toList) kept := by
  induction elements using Elements.uncons_induction generalizing kept with
  | nil elements huncons =>
      rw [filterElements_of_none huncons, Elements.toList_of_none huncons,
        filterElements_of_none Elements.uncons?_ofList_nil]
  | cons elements rest item huncons ih =>
      rw [filterElements_of_some huncons, Elements.toList_of_some huncons,
        filterElements_of_some (Elements.uncons?_ofList_cons item rest.toList)]
      congr 2
      funext value
      split
      · exact ih (item :: kept)
      · exact ih kept
      · rfl

theorem mapElements_toList (form : Form) (elements : Elements) (mapped : List Value) :
    mapElements form elements mapped = mapElements form (.ofList elements.toList) mapped := by
  induction elements using Elements.uncons_induction generalizing mapped with
  | nil elements huncons =>
      rw [mapElements_of_none huncons, Elements.toList_of_none huncons,
        mapElements_of_none Elements.uncons?_ofList_nil]
  | cons elements rest item huncons ih =>
      rw [mapElements_of_some huncons, Elements.toList_of_some huncons,
        mapElements_of_some (Elements.uncons?_ofList_cons item rest.toList)]
      congr 2
      funext value
      exact ih (value :: mapped)

/-! ## Methods on elements -/

/-- A value of the language is handed on by a native method as it is. -/
theorem liftM_ok {α : Type} (a : α) :
    (liftM (.ok a : Except Error α) : Except Failure α) = .ok a := rfl

section

variable {arguments : Arguments} {list : Value} {elements : Elements}
  (hlist : Arguments.value arguments "list" = .ok list)
  (helements : Elements.ofValue list = .ok elements)

include hlist helements

theorem first_eq :
    first arguments = .finish (match elements.toList with
      | [] => .error (.host (.emptyList "first"))
      | value :: _ => .ok value) := by
  simp only [first, Native.ofFunction, hlist, helements, liftM_ok, bind, Except.bind]
  cases huncons : elements.uncons? with
  | none => rw [Elements.toList_of_none huncons]
  | some taken =>
      rw [Elements.toList_of_some huncons]
      rfl

theorem accumulated_eq (operation : String) (compute : Int → Int → Int) (start : Number) :
    accumulated operation compute start arguments =
      .finish ((elements.toList.foldlM (accumulate operation compute) start).map .number) := by
  simp only [accumulated, Native.ofFunction, hlist, helements, liftM_ok, bind, Except.bind,
    Elements.fold_eq_foldlM]
  cases elements.toList.foldlM (accumulate operation compute) start <;> rfl

theorem filter_eq :
    filter arguments = .attempt (Arguments.as Form arguments "pred") fun form =>
      filterElements form (.ofList elements.toList) [] := by
  simp only [filter, hlist, helements, Program.attempt, ← filterElements_toList]

theorem map_eq :
    map arguments = .attempt (Arguments.as Form arguments "transform") fun form =>
      mapElements form (.ofList elements.toList) [] := by
  simp only [map, hlist, helements, Program.attempt, ← mapElements_toList]

end

end Builtin

end ArityScript
