import ArityScript.Proofs.Members
import ArityScript.Proofs.Support

/-!
# Independent elements

Filtering and mapping evaluate a form for one element after the other, each time
in the store that the elements before have left.  It comes to the same as
evaluating the form for each element on its own, from the store in which the
arguments have been evaluated: whatever an element has bound, defined or made is
in frames that the others do not see.  Only the numbers of what has been made
may differ.
-/

namespace ArityScript

namespace Builtin

/-! ## One element -/

/-- Evaluates a form for an element: in a fresh scope in which the element has the
item name. -/
def evalItem (evaluate : Evaluator) (chain : Chain) (form : Form) (item : Value)
    (store : Store) : Except Error Value × Store :=
  match store.enter chain with
  | (inner, opened) => evaluate inner form (opened.bind inner itemName item)

/-- What an element comes to on its own, and the store after it. -/
def evalAlone (evaluate : Evaluator) (chain : Chain) (form : Form) (start : Store)
    (item : Value) : Except Error (Value × Store) :=
  match evalItem evaluate chain form item start with
  | (result, after) => result.map fun value => (value, after)

/-- Whether an element is kept of which a predicate has this value. -/
def verdict : Value → Except Error Bool
  | .bool kept => .ok kept
  | value => .error (.eval (.ofCause (.predicateNotBoolean value.typeName)))

/-- Whether an element is kept on its own. -/
def keptAlone (evaluate : Evaluator) (chain : Chain) (form : Form) (start : Store)
    (item : Value) : Except Error Bool :=
  (evalItem evaluate chain form item start).1 >>= verdict

/-- A step of filtering, by what the predicate says of an element. -/
theorem filterElements_cons (form : Form) (item : Value) (rest kept : List Value) :
    filterElements form (.ofList (item :: rest)) kept =
      .evalWith itemName item form (Program.andThen fun value =>
        .attempt (verdict value) fun keep =>
          filterElements form (.ofList rest) (cond keep (item :: kept) kept)) := by
  rw [filterElements_of_some (Elements.uncons?_ofList_cons item rest)]
  congr 2
  funext value
  cases value with
  | bool keep => cases keep <;> rfl
  | _ => rfl

theorem verdict_eq {pairs : Correspondence} {v w : Value} (h : v.Related pairs w) :
    verdict v = verdict w := by
  have htype := h.typeName_eq
  cases v <;> cases w <;> simp only [Value.Related] at h
  case bool => rw [h]
  all_goals simp only [verdict, htype]

theorem run_evalWith (evaluate : Evaluator) (call : String) (chain : Chain) (form : Form)
    (item : Value) (next : Outcome → Program) (store : Store) :
    (Program.evalWith itemName item form next).run evaluate call chain store =
      (next ((evalItem evaluate chain form item store).1.mapError .error)).run evaluate call
        chain (evalItem evaluate chain form item store).2 := rfl

theorem extends_evalItem {evaluate : Evaluator} (hframed : evaluate.Framed) (chain : Chain)
    (form : Form) (item : Value) (store : Store) :
    store.Extends (evalItem evaluate chain form item store).2 := by
  have hbound := (store.enter chain).2.evolves_bind (store.enter chain).1 itemName item
  exact (hbound.trans (hframed _ form _)).extends_of_enter

theorem simulated_evalItem {evaluate : Evaluator} (hsimulates : evaluate.Simulates)
    {pairs : Correspondence} {chain chain' : Chain} {form form' : Form} {item item' : Value}
    {store store' : Store} (hchain : chain.Related pairs chain')
    (hform : form.Related pairs form') (hitem : item.Related pairs item')
    (hstores : store.Related pairs store') :
    Simulated (fun more => ResultRelated (Value.Related more)) pairs store store'
      (evalItem evaluate chain form item store)
      (evalItem evaluate chain' form' item' store') := by
  apply (hstores.enter hchain).bind
  intro more hle hinner hopened
  have hbound := hopened.bind hinner itemName (hitem.mono hle)
  exact .of_keeps ((Store.evolves_bind _ _ _ _).toKeeps.imp (by simp))
    ((Store.evolves_bind _ _ _ _).toKeeps.imp (by simp))
    (hsimulates hinner (hform.mono hle) hbound)

end Builtin

/-- A value in a store is like another one in another store, but for the numbers of
what has been made since a start. -/
def AlikeSince (start : Store) (roots : Item → Prop) (found : Value × Store) (value : Value)
    (store : Store) : Prop :=
  ∃ pairs : Correspondence, pairs.Identifies (start.Reachable roots) start start ∧
    found.1.Related pairs value ∧ found.2.Related pairs store

/-- A value is the list of values that are like other ones, each in a store of its
own. -/
def ListAlikeSince (start : Store) (roots : Item → Prop) (found : List (Value × Store))
    (value : Value) (store : Store) : Prop :=
  ∃ values, value = .list values ∧
    List.Forall₂ (fun each value => AlikeSince start roots each value store) found values

theorem Store.Related.of_extends {pairs : Correspondence} {store store' after : Store}
    (hstores : store.Related pairs store') (hextends : store'.Extends after) :
    store.Related pairs after where
  frame a b hab := by
    obtain ⟨ha, hb, hbindings⟩ := hstores.frame a b hab
    rw [← hextends.bindings_eq hb trivial] at hbindings
    exact ⟨ha, Nat.lt_of_lt_of_le hb hextends.frames_size_le, hbindings⟩
  method a b hab := by
    obtain ⟨method, method', hmethod, hmethod', hrelated⟩ := hstores.method a b hab
    have hb := (Array.getElem?_eq_some_iff.1 hmethod').1
    exact ⟨method, method', hmethod, (hextends.method_eq b hb).trans hmethod', hrelated⟩

/-- What has grown from what is reached identifies it, also if one of the stores is
taken to be the one that it extends. -/
theorem Correspondence.Grows.identifies {pairs : Correspondence} {reached : Item → Prop}
    {start store : Store} (hgrows : (identity reached).Grows pairs start store)
    (hextends : start.Extends store) : pairs.Identifies reached start start where
  frame a ha := hgrows.le.1 a a ⟨rfl, ha⟩
  method a ha := hgrows.le.2 a a ⟨rfl, ha⟩
  frames_fresh a b hab := (hgrows.frames_fresh a b hab).imp_right fun ⟨ha, hb⟩ =>
    ⟨ha, Nat.le_trans hextends.frames_size_le hb⟩
  methods_fresh a b hab := (hgrows.methods_fresh a b hab).imp_right fun ⟨ha, hb⟩ =>
    ⟨ha, Nat.le_trans hextends.methods_size_le hb⟩

theorem AlikeSince.of_extends {start : Store} {roots : Item → Prop} {found : Value × Store}
    {value : Value} {store after : Store} (halike : AlikeSince start roots found value store)
    (hextends : store.Extends after) : AlikeSince start roots found value after := by
  obtain ⟨pairs, hidentifies, hvalue, hstores⟩ := halike
  exact ⟨pairs, hidentifies, hvalue, hstores.of_extends hextends⟩

namespace Builtin

section

variable {chain : Chain} {form : Form} {items : List Value} {start store : Store}
  (hsupports : start.Supports (evalRoots chain [form] items)) (levels : Nat)

include hsupports

/-- An element comes to the same in every store that extends the one from the start. -/
theorem evalItem_alike (hextends : start.Extends store) {item : Value} (hmem : item ∈ items) :
    ResultRelated (fun found value => AlikeSince start (evalRoots chain [form] items) found value
        (evalItem (evalAt levels) chain form item store).2)
      (evalAlone (evalAt levels) chain form start item)
      (evalItem (evalAt levels) chain form item store).1 := by
  have hclosed := start.closed_reachable (evalRoots chain [form] items)
  have hitem : item.Related (.identity (start.Reachable (evalRoots chain [form] items))) item :=
    Value.related_identity hclosed (.root hmem)
  obtain ⟨pairs, hgrows, _, _, hresult, hafter⟩ := simulated_evalItem (simulates_evalAt levels)
    Chain.related_reachable (Form.related_reachable (List.mem_singleton_self form)) hitem
    (hsupports.related hextends)
  unfold evalAlone
  generalize evalItem (evalAt levels) chain form item start = out at hresult hafter ⊢
  obtain ⟨result, after⟩ := out
  generalize (evalItem (evalAt levels) chain form item store).1 = result' at hresult ⊢
  cases hresult with
  | error failure => exact .error failure
  | ok hvalue => exact .ok ⟨pairs, hgrows.identifies hextends, hvalue, hafter⟩

/-! ## All elements -/

omit hsupports in
theorem map_reverse_cons {α : Type} (each : α) (done : List α) (others : Except Error (List α)) :
    others.map ((each :: done).reverse ++ ·) =
      (do let others ← others; return each :: others).map (done.reverse ++ ·) := by
  cases others with
  | error failure => rfl
  | ok others => simp [Except.map, bind, Except.bind, pure, Except.pure]

/-- Mapping over the rest of the elements, after some have been mapped. -/
theorem run_mapElements (call : String) {rest : List Value}
    (hrest : ∀ item ∈ rest, item ∈ items) (hextends : start.Extends store)
    {done : List (Value × Store)} {mapped : List Value}
    (hdone : List.Forall₂ (fun each value => AlikeSince start (evalRoots chain [form] items)
      each value store) done mapped) :
    ResultRelated (fun found value => ListAlikeSince start (evalRoots chain [form] items)
        found value
        ((mapElements form (.ofList rest) mapped).run (evalAt levels) call chain store).2)
      (((rest.mapM (evalAlone (evalAt levels) chain form start)).map (done.reverse ++ ·)).mapError
        Failure.error)
      ((mapElements form (.ofList rest) mapped).run (evalAt levels) call chain store).1 := by
  induction rest generalizing store done mapped with
  | nil =>
      rw [mapElements_of_none Elements.uncons?_ofList_nil, List.mapM_nil]
      refine .ok ⟨mapped.reverse, rfl, ?_⟩
      change List.Forall₂ _ (done.reverse ++ []) mapped.reverse
      rw [List.append_nil]
      exact List.rel_reverse hdone
  | cons item rest ih =>
      rw [mapElements_of_some (Elements.uncons?_ofList_cons item rest), run_evalWith,
        List.mapM_cons]
      have hitem := evalItem_alike hsupports levels hextends (hrest item (by simp))
      have hafter := extends_evalItem (framed_evalAt levels) chain form item store
      generalize evalItem (evalAt levels) chain form item store = out at hitem hafter ⊢
      obtain ⟨result, after⟩ := out
      generalize evalAlone (evalAt levels) chain form start item = found at hitem ⊢
      cases hitem with
      | error failure => exact .error _
      | @ok each value halike =>
          -- What was found before this element is as before in the store after it.
          have hnext := ih (fun other hmem => hrest other (by simp [hmem]))
            (hextends.trans hafter)
            (.cons halike (hdone.imp fun _ _ h => h.of_extends hafter))
          rw [map_reverse_cons] at hnext
          exact hnext

/-- A predicate says of an element what it says from the start. -/
theorem keptAlone_eq (hextends : start.Extends store) {item : Value} (hmem : item ∈ items) :
    keptAlone (evalAt levels) chain form start item =
      (evalItem (evalAt levels) chain form item store).1 >>= verdict := by
  have hitem := evalItem_alike hsupports levels hextends hmem
  unfold evalAlone at hitem
  unfold keptAlone
  generalize (evalItem (evalAt levels) chain form item store).1 = result' at hitem ⊢
  generalize evalItem (evalAt levels) chain form item start = found at hitem ⊢
  obtain ⟨result, after⟩ := found
  cases result with
  | error failure =>
      cases hitem
      rfl
  | ok value =>
      cases hitem with
      | ok halike =>
          obtain ⟨pairs, _, hvalue, _⟩ := halike
          exact verdict_eq hvalue

theorem run_filterElements (call : String) {rest : List Value}
    (hrest : ∀ item ∈ rest, item ∈ items) (hextends : start.Extends store)
    (kept : List Value) :
    ((filterElements form (.ofList rest) kept).run (evalAt levels) call chain store).1 =
      ((rest.filterAuxM (keptAlone (evalAt levels) chain form start) kept).map
        fun kept => Value.list kept.reverse).mapError .error := by
  induction rest generalizing store kept with
  | nil =>
      rw [filterElements_of_none Elements.uncons?_ofList_nil]
      rfl
  | cons item rest ih =>
      have hafter := extends_evalItem (framed_evalAt levels) chain form item store
      have hnext := fun kept => ih (fun other hmem => hrest other (by simp [hmem]))
        (hextends.trans hafter) kept
      rw [filterElements_cons, run_evalWith, List.filterAuxM,
        keptAlone_eq hsupports levels hextends (hrest item (by simp))]
      generalize evalItem (evalAt levels) chain form item store = out at hnext ⊢
      obtain ⟨result, after⟩ := out
      cases result with
      | error failure => rfl
      | ok value =>
          change ((Program.attempt (verdict value) _).run _ call chain after).1 =
            ((verdict value >>= _).map _).mapError _
          cases verdict value with
          | error failure => rfl
          | ok keep => exact hnext (cond keep (item :: kept) kept)

end

/-! ## Calls -/

/-- A call of a native method on the elements of a list or a range and on a form,
and the store in which all its arguments have been evaluated. -/
inductive CallsOn (native : Native) (parameter : String) (levels : Nat) (chain : Chain)
    (name : String) (forms : List Form) (store : Store) (items : List Value) (form : Form)
    (start : Store) : Prop where
  | bound {ref : MethodRef} {signature : Signature} {arguments : Arguments} :
      callee store chain name = .ok (ref, ⟨signature, .native native⟩) →
      bindArguments name signature (evalAt levels chain) forms store = (.ok arguments, start) →
      Arguments.as (List Value) arguments "list" = .ok items →
      Arguments.as Form arguments parameter = .ok form →
      CallsOn native parameter levels chain name forms store items form start

section

variable {chain : Chain} {name : String} {forms : List Form} {store start : Store}
  {items : List Value} {form : Form} {levels : Nat} {native : Native} {parameter : String}

/-- A supported call leaves its elements and its form supported. -/
theorem CallsOn.supports
    (hcalls : CallsOn native parameter levels chain name forms store items form start)
    (hsupports : store.Supports (evalRoots chain [.call name forms] [])) :
    start.Supports (evalRoots chain [form] items) := by
  obtain ⟨hcallee, hbound, hitems, hform⟩ := hcalls
  have hstores := hsupports.related (.refl _ store)
  have hchain : chain.Related (.identity (store.Reachable (evalRoots chain [.call name forms]
    []))) chain := Chain.related_reachable
  have hcall : (Form.call name forms).Related (.identity (store.Reachable (evalRoots chain
    [.call name forms] []))) (.call name forms) :=
    Form.related_reachable (List.mem_singleton_self _)
  simp only [Form.Related, true_and] at hcall
  obtain ⟨_, hmethod⟩ := (related_callee hchain hstores name).of_ok hcallee hcallee
  obtain ⟨pairs, hgrows, _, _, hresult, hafter⟩ := simulated_bindArguments
    (simulates_evalAt levels) name hmethod.signature hcall hchain hstores
  rw [hbound] at hresult hafter
  have harguments := hresult.of_ok rfl rfl
  have hlist := (Arguments.related_as harguments Value.Related.list? "list").of_ok hitems hitems
  have hquoted := (Arguments.related_as harguments Value.Related.form? parameter).of_ok hform hform
  refine hafter.supports_evalRoots (hchain.mono hgrows.le) (fun f hmem => ?_)
    fun v => exists_of_forall₂ hlist
  obtain rfl := List.mem_singleton.1 hmem
  exact ⟨_, hquoted⟩

/-- The elements of an argument are those of its list or range. -/
theorem exists_elements {arguments : Arguments}
    (hitems : Arguments.as (List Value) arguments "list" = .ok items) :
    ∃ list elements, Arguments.value arguments "list" = .ok list ∧
      Elements.ofValue list = .ok elements ∧ elements.toList = items := by
  unfold Arguments.as at hitems
  split at hitems
  · cases hitems
  · next list hlist =>
      split at hitems
      · next data hdata =>
          obtain rfl := Except.ok.inj hitems
          cases list with
          | list values =>
              obtain rfl := Option.some.inj hdata
              exact ⟨_, _, hlist, rfl, Elements.toList_ofList values⟩
          | range range =>
              obtain rfl := Option.some.inj hdata
              obtain ⟨elements, helements, hmembers⟩ := Elements.exists_ofValue_range range
              exact ⟨_, elements, hlist, helements, hmembers⟩
          | _ => cases hdata
      · cases hitems

theorem CallsOn.eval_map
    (hcalls : CallsOn map "transform" levels chain name forms store items form start) :
    ∃ method, evalAt (levels + 1) chain (.call name forms) store =
      ((((mapElements form (.ofList items) []).run (evalAt levels) name chain start).1.inMethod
          method).mapError (Error.inCall (.call name forms)),
        ((mapElements form (.ofList items) []).run (evalAt levels) name chain start).2) := by
  obtain @⟨ref, signature, arguments, hcallee, hbound, hitems, hform⟩ := hcalls
  obtain ⟨list, elements, hlist, helements, rfl⟩ := exists_elements hitems
  refine ⟨ref.name, ?_⟩
  simp only [evalAt, evalCall, hcallee, hbound, invoke, map_eq hlist helements, hform,
    Program.attempt]

theorem CallsOn.eval_filter
    (hcalls : CallsOn filter "pred" levels chain name forms store items form start) :
    ∃ method, evalAt (levels + 1) chain (.call name forms) store =
      ((((filterElements form (.ofList items) []).run (evalAt levels) name chain start).1.inMethod
          method).mapError (Error.inCall (.call name forms)),
        ((filterElements form (.ofList items) []).run (evalAt levels) name chain start).2) := by
  obtain @⟨ref, signature, arguments, hcallee, hbound, hitems, hform⟩ := hcalls
  obtain ⟨list, elements, hlist, helements, rfl⟩ := exists_elements hitems
  refine ⟨ref.name, ?_⟩
  simp only [evalAt, evalCall, hcallee, hbound, invoke, filter_eq hlist helements, hform,
    Program.attempt]

end

end Builtin

theorem ResultRelated.of_mapError {α : Type} {related : α → Value → Prop}
    {result : Except Error α} {outcome : Outcome}
    (hresult : ResultRelated related (result.mapError Failure.error) outcome) (name : String) :
    ResultRelated related result (outcome.inMethod name) := by
  cases result <;> cases hresult
  · exact .error _
  · next hrelated => exact .ok hrelated

/-- Mapping and filtering come to the same as evaluating the form for each element on
its own, from the store in which the arguments have been evaluated.  Mapping has the
values of all elements, but for the numbers of what the elements have made, and
filtering the elements that their predicates keep; both fail as the first element
does that fails on its own.  `levels` are those left to the call. -/
theorem elements_independent {chain : Chain} {name : String} {forms : List Form}
    {store start : Store} {items : List Value} {form : Form}
    (hsupports : store.Supports (evalRoots chain [.call name forms] [])) (levels : Nat) :
    (Builtin.CallsOn Builtin.map "transform" levels chain name forms store items form start →
      ResultRelated (fun found value => ListAlikeSince start (evalRoots chain [form] items) found
          value (evalAt (levels + 1) chain (.call name forms) store).2)
        ((items.mapM (Builtin.evalAlone (evalAt levels) chain form start)).mapError
          (Error.inCall (.call name forms)))
        (evalAt (levels + 1) chain (.call name forms) store).1) ∧
    (Builtin.CallsOn Builtin.filter "pred" levels chain name forms store items form start →
      (evalAt (levels + 1) chain (.call name forms) store).1 =
        ((items.filterM (Builtin.keptAlone (evalAt levels) chain form start)).map
          Value.list).mapError (Error.inCall (.call name forms))) := by
  constructor
  · intro hcalls
    obtain ⟨method, heval⟩ := hcalls.eval_map
    rw [heval]
    have hrun := Builtin.run_mapElements (hcalls.supports hsupports) levels name
      (fun _ hmem => hmem) (.refl _ start) .nil
    have hall : (items.mapM (Builtin.evalAlone (evalAt levels) chain form start)).map
        (([] : List (Value × Store)).reverse ++ ·) =
        items.mapM (Builtin.evalAlone (evalAt levels) chain form start) := by
      cases items.mapM (Builtin.evalAlone (evalAt levels) chain form start) <;> rfl
    rw [hall] at hrun
    exact (hrun.of_mapError method).mapError _
  · intro hcalls
    obtain ⟨method, heval⟩ := hcalls.eval_filter
    rw [heval, Builtin.run_filterElements (hcalls.supports hsupports) levels name
      (fun _ hmem => hmem) (.refl _ start) [], List.filterM]
    cases items.filterAuxM (Builtin.keptAlone (evalAt levels) chain form start) [] <;> rfl

/-- Defines a method for an element. -/
def successor : Form :=
  .call "def" [.quoted (.variable "f"),
    .quoted (.call "+" [.variable "$it", .literal (.number 1)])]

/-- Rebinds the name of an element. -/
def doubled : Form :=
  .call ">" [.call "set" [.quoted (.variable "$it"),
    .call "*" [.literal (.number 2), .variable "$it"]], .literal (.number 3)]

def numbers : Form :=
  .call "list" [.literal (.number 1), .literal (.number 2)]

set_option maxRecDepth 2000 in
/-- Each of two elements defines a method on its own, under the same number, and each
of two others rebinds its own name. -/
theorem definitions_independent :
    (∃ found methods,
      [.number 1, .number 2].mapM (Builtin.evalAlone (evalAt 4) ⟨0, []⟩ successor
        (Builtin.createGlobal .empty).2) = .ok found ∧
      found.map Prod.fst = [.method ⟨29, "f"⟩, .method ⟨29, "f"⟩] ∧
      (evalAt 5 ⟨0, []⟩ (.call "map" [numbers, .quoted successor])
        (Builtin.createGlobal .empty).2).1 = .ok (.list methods) ∧
      List.Forall₂ (fun each value => AlikeSince (Builtin.createGlobal .empty).2
        (evalRoots ⟨0, []⟩ [successor] [.number 1, .number 2]) each value
        (evalAt 5 ⟨0, []⟩ (.call "map" [numbers, .quoted successor])
          (Builtin.createGlobal .empty).2).2) found methods) ∧
    (evalAt 5 ⟨0, []⟩ (.call "filter" [numbers, .quoted doubled])
      (Builtin.createGlobal .empty).2).1 = .ok (.list [.number 2]) := by
  have hglobal : (Builtin.createGlobal .empty).2.Supports (evalRoots ⟨0, []⟩ [] []) :=
    Builtin.supports_createGlobal
  have hmap : (parse ((Builtin.createGlobal .empty).2.signatures ⟨0, []⟩) true
      "map (list 1 2) '(def 'f '(+ $it 1))").toOption =
        some (.call "map" [numbers, .quoted successor]) := by decide +kernel
  have hfilter : (parse ((Builtin.createGlobal .empty).2.signatures ⟨0, []⟩) true
      "filter (list 1 2) '(> (set '$it (* 2 $it)) 3)").toOption =
        some (.call "filter" [numbers, .quoted doubled]) := by decide +kernel
  have hmaps : Builtin.CallsOn Builtin.map "transform" 4 ⟨0, []⟩ "map"
      [numbers, .quoted successor] (Builtin.createGlobal .empty).2 [.number 1, .number 2]
      successor (Builtin.createGlobal .empty).2 := .bound rfl rfl rfl rfl
  have hfilters : Builtin.CallsOn Builtin.filter "pred" 4 ⟨0, []⟩ "filter"
      [numbers, .quoted doubled] (Builtin.createGlobal .empty).2 [.number 1, .number 2]
      doubled (Builtin.createGlobal .empty).2 := .bound rfl rfl rfl rfl
  have hmapped := (elements_independent (hglobal.parse (eq_ok_of_toOption hmap)) 4).1 hmaps
  have hkept := (elements_independent (hglobal.parse (eq_ok_of_toOption hfilter)) 4).2 hfilters
  refine ⟨?_, hkept.trans rfl⟩
  cases hfound : [Value.number 1, .number 2].mapM (Builtin.evalAlone (evalAt 4) ⟨0, []⟩
      successor (Builtin.createGlobal .empty).2) with
  | error failure => cases hfound
  | ok found =>
      rw [hfound] at hmapped
      generalize (evalAt 5 ⟨0, []⟩ (.call "map" [numbers, .quoted successor])
        (Builtin.createGlobal .empty).2).1 = result at hmapped ⊢
      cases hmapped with
      | ok halike =>
          obtain ⟨methods, rfl, halike⟩ := halike
          cases hfound
          exact ⟨_, methods, rfl, rfl, rfl, halike⟩

end ArityScript
