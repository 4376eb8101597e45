import ArityScript.Proofs.Binding.Arity
import ArityScript.Proofs.Binding.Items
import ArityScript.Proofs.NameMap

/-!
# What binding comes to

Binding is described by the items of a call alone.  The first item that is
refused, or whose form fails, decides the error; if there is none, a lone flag
or an unfilled parameter does.  Otherwise every declared name is bound: each
required parameter to the positional value in its place, each option to the last
value it is set to or its default, and the rest parameter to what is left over.
`Binding.ComesTo` says this, and `bindArguments_eq_iff` that binding does it.
-/

namespace ArityScript

/-- All names that a signature declares. -/
def Signature.names (signature : Signature) : List String :=
  signature.required ++ signature.optional.map OptionalParameter.name ++
    signature.rest.toList

namespace Binding

open ArityScript.Binding.Item (positionals settings)

variable {signature : Signature}

/-- The arguments that a call has when its items have some values. -/
structure Item.Assigned (signature : Signature) (values : List (Item Value))
    (arguments : Arguments) : Prop where
  required : ∀ (i : Nat) (name : String), signature.required[i]? = some name →
    arguments.find? name = (positionals values)[i]?
  option : ∀ option ∈ signature.optional, arguments.find? option.name =
    some ((settings option.name values).getLast?.getD option.default)
  rest : ∀ name, signature.rest = some name →
    arguments.find? name = some (.list ((positionals values).drop signature.arity))
  names : ∀ name, (arguments.find? name).isSome = true ↔ name ∈ signature.names

/-- What binding the arguments of a call comes to, with the state after it. -/
inductive ComesTo {σ : Type} (method : String) (signature : Signature)
    (evaluate : Form → σ → Except Error Value × σ) (forms : List Form) (state : σ) :
    Except Error Arguments × σ → Prop where
  /-- The form of an item fails, and the forms before it have been evaluated. -/
  | failed {before after : List (Item Form)} {item : Item Form} {values : List (Item Value)}
      {middle final : σ} {error : Error} :
      items forms = before ++ item :: after →
      Item.AllAdmitted signature 0 (before ++ [item]) →
      Item.Evaluated evaluate before state values middle →
      evaluate item.content middle = (.error error, final) →
      ComesTo method signature evaluate forms state (.error error, final)
  /-- An item is not admitted.  Its own form is not evaluated. -/
  | refused {before after : List (Item Form)} {item : Item Form} {values : List (Item Value)}
      {final : σ} :
      items forms = before ++ item :: after →
      Item.AllAdmitted signature 0 before →
      ¬item.Admitted signature (positionals before).length →
      Item.Evaluated evaluate before state values final →
      ComesTo method signature evaluate forms state
        (.error (.eval (.inMethod method (item.refusal method signature))), final)
  /-- A flag is left without a form, after all items have been evaluated. -/
  | unpaired {flag : String} {values : List (Item Value)} {final : σ} :
      loneFlag forms = some flag →
      Item.AllAdmitted signature 0 (items forms) →
      Item.Evaluated evaluate (items forms) state values final →
      ComesTo method signature evaluate forms state
        (.error (.eval (.inMethod method
          (if signature.declares flag then .flagWithoutValue flag method
            else .unknownOption flag method))), final)
  /-- There are too few positional items; the first parameter without one is
  named. -/
  | unfilled {parameter : String} {values : List (Item Value)} {final : σ} :
      loneFlag forms = none →
      Item.AllAdmitted signature 0 (items forms) →
      Item.Evaluated evaluate (items forms) state values final →
      signature.required[(positionals (items forms)).length]? = some parameter →
      ComesTo method signature evaluate forms state
        (.error (.eval (.inMethod method
          (.unfilledParameter method signature.arity parameter))), final)
  | bound {values : List (Item Value)} {arguments : Arguments} {final : σ} :
      loneFlag forms = none →
      Item.AllAdmitted signature 0 (items forms) →
      Item.Evaluated evaluate (items forms) state values final →
      signature.arity ≤ (positionals (items forms)).length →
      Item.Assigned signature values arguments →
      ComesTo method signature evaluate forms state (.ok arguments, final)

/-! ## Putting values in their places -/

/-- What has been bound when the value of one more item is put in its place. -/
def Partial.put (made : Partial) : Item Value → Partial
  | .option flag value => made.withOption flag value
  | .positional value =>
      match made.unfilled with
      | parameter :: unfilled =>
          { made with unfilled, bound := made.bound.insert parameter value }
      | [] => { made with surplus := value :: made.surplus }

section

variable {method : String} {made : Partial} {count : Nat}

theorem place?_eq (hunfilled : made.unfilled = signature.required.drop count) :
    made.place? signature =
      if signature.isPending count then some fun value => made.put (.positional value)
      else none := by
  have hlength := congrArg List.length hunfilled
  rw [List.length_drop] at hlength
  unfold Partial.place? Partial.put
  cases hcases : made.unfilled with
  | cons parameter unfilled =>
      rw [hcases, List.length_cons] at hlength
      have hpending : signature.isPending count = true := by
        simp only [Signature.isPending, Bool.or_eq_true, decide_eq_true_eq]
        exact .inl (by unfold Signature.arity; omega)
      simp only [hpending, if_true]
  | nil =>
      rw [hcases, List.length_nil] at hlength
      have hpending : signature.isPending count = signature.rest.isSome := by
        simp only [Signature.isPending, Bool.or_eq_right_iff_imp, decide_eq_true_eq]
        unfold Signature.arity
        omega
      rw [hpending]

theorem unfilled_put (hunfilled : made.unfilled = signature.required.drop count)
    (item : Item Value) :
    (made.put item).unfilled = signature.required.drop (count + (positionals [item]).length) := by
  cases item with
  | option flag value => exact hunfilled
  | positional value =>
      have hnext : signature.required.drop (count + 1) = made.unfilled.tail := by
        rw [hunfilled, List.tail_drop]
      unfold Partial.put
      cases hcases : made.unfilled with
      | cons parameter unfilled => simpa [hcases] using hnext.symm
      | nil => simpa [hcases] using hnext.symm

/-- The first item of a call is taken if it is admitted, and refused if not. -/
theorem step_item (method : String) {forms : List Form} {item : Item Form}
    {others : List (Item Form)}
    (hunfilled : made.unfilled = signature.required.drop count)
    (hitems : items forms = item :: others) :
    ∃ rest, items rest = others ∧ loneFlag rest = loneFlag forms ∧
      (item.Admitted signature count →
        step method signature forms made =
          .take item.content (fun value => made.put (item.hold value)) rest) ∧
      (¬item.Admitted signature count →
        step method signature forms made = .refuse (item.refusal method signature)) := by
  rcases items_eq_cons hitems with
    ⟨flag, form, rest, rfl, rfl, hothers, hlone⟩ |
    ⟨form, rest, rfl, rfl, hflag, hothers, hlone⟩
  · refine ⟨rest, hothers, hlone.symm, fun hdeclares => ?_, fun hdeclares => ?_⟩
    · exact step_option form rest made hdeclares
    · exact step_undeclared _ made (by simpa [Item.Admitted] using hdeclares)
  · refine ⟨rest, hothers, hlone.symm, fun hpending => ?_, fun hpending => ?_⟩
    · have hpending : signature.isPending count = true := hpending
      rw [step_positional rest made hflag, place?_eq hunfilled, if_pos hpending]
      rfl
    · have hpending : ¬signature.isPending count = true := hpending
      rw [step_positional rest made hflag, place?_eq hunfilled, if_neg hpending]
      rfl

section

variable {σ : Type} {evaluate : Form → σ → Except Error Value × σ}

/-- Admitted items whose forms are evaluated are put in their places, and binding
goes on with the items after them. -/
theorem collect_evaluated (method : String) {before after : List (Item Form)} {state middle : σ}
    {values : List (Item Value)}
    (hevaluated : Item.Evaluated evaluate before state values middle) {forms : List Form}
    (hunfilled : made.unfilled = signature.required.drop count)
    (hadmitted : Item.AllAdmitted signature count before)
    (hitems : items forms = before ++ after) :
    ∃ rest, items rest = after ∧ loneFlag rest = loneFlag forms ∧
      (values.foldl Partial.put made).unfilled =
        signature.required.drop (count + (positionals before).length) ∧
      collect method signature evaluate forms made state =
        collect method signature evaluate rest (values.foldl Partial.put made) middle := by
  induction hevaluated generalizing forms made count with
  | nil state => exact ⟨forms, hitems, rfl, hunfilled, rfl⟩
  | @cons item others state next final value values heval _ ih =>
      obtain ⟨hitem, hothers⟩ := hadmitted
      obtain ⟨rest, hrest, hlone, htaken, _⟩ := step_item method hunfilled hitems
      have hput := unfilled_put hunfilled (item.hold value)
      rw [Item.length_positionals_hold] at hput
      obtain ⟨last, hlast, hlastLone, hlastUnfilled, hcollect⟩ := ih hput hothers hrest
      refine ⟨last, hlast, hlastLone.trans hlone, ?_, ?_⟩
      · rw [Item.length_positionals_cons, ← Nat.add_assoc]
        exact hlastUnfilled
      · rw [collect_eq_step, htaken hitem]
        simp only [heval]
        exact hcollect

end

end

/-! ## What has been bound -/

/-- What has been bound is what the values of some items say. -/
structure Partial.Holds (signature : Signature) (values : List (Item Value))
    (made : Partial) : Prop where
  unfilled : made.unfilled = signature.required.drop (positionals values).length
  surplus : made.surplus.reverse = (positionals values).drop signature.arity
  required : ∀ (i : Nat) (name : String), signature.required[i]? = some name →
    made.bound.find? name = (positionals values)[i]?
  others : ∀ name, name ∉ signature.required →
    made.bound.find? name = (settings name values).getLast?

theorem exists_option_of_declares {name : String} (hdeclares : signature.declares name = true) :
    ∃ option ∈ signature.optional, option.name = name := by
  simpa [Signature.declares] using hdeclares

theorem not_mem_required_of_declares {name : String} (hdistinct : signature.names.Nodup)
    (hdeclares : signature.declares name = true) : name ∉ signature.required := by
  obtain ⟨option, hoption, rfl⟩ := exists_option_of_declares hdeclares
  intro hmem
  have hrequired := (List.nodup_append.1 (List.nodup_append.1 hdistinct).1).2.2
  exact hrequired option.name hmem option.name (List.mem_map_of_mem hoption) rfl

theorem nodup_required (hdistinct : signature.names.Nodup) : signature.required.Nodup :=
  (List.nodup_append.1 (List.nodup_append.1 hdistinct).1).1

theorem Partial.Holds.start (signature : Signature) :
    Partial.Holds signature [] ⟨signature.required, .empty, []⟩ where
  unfilled := rfl
  surplus := by simp
  required := by simp
  others := by simp

theorem Partial.Holds.put_option {values : List (Item Value)} {made : Partial}
    (hdistinct : signature.names.Nodup) (hholds : made.Holds signature values) {flag : String}
    (value : Value) (hdeclares : signature.declares flag = true) :
    (made.put (.option flag value)).Holds signature (values ++ [.option flag value]) := by
  have hflag := not_mem_required_of_declares hdistinct hdeclares
  have hsame : positionals (values ++ [.option flag value]) = positionals values := by
    simp
  constructor
  · rw [hsame]
    exact hholds.unfilled
  · rw [hsame]
    exact hholds.surplus
  · intro i name hname
    have hne : flag ≠ name := fun heq => hflag (heq ▸ List.mem_of_getElem? hname)
    simpa [Partial.put, Partial.withOption, hne] using hholds.required i name hname
  · intro name hname
    by_cases heq : flag = name
    · simp [Partial.put, Partial.withOption, heq]
    · simpa [Partial.put, Partial.withOption, heq] using hholds.others name hname

theorem Partial.Holds.put_positional {values : List (Item Value)} {made : Partial}
    (hdistinct : signature.names.Nodup) (hholds : made.Holds signature values) (value : Value) :
    (made.put (.positional value)).Holds signature (values ++ [.positional value]) := by
  have hunfilled := unfilled_put hholds.unfilled (.positional value)
  have hlength := congrArg List.length hholds.unfilled
  rw [List.length_drop] at hlength
  have hsurplus := hholds.surplus
  cases hcases : made.unfilled with
  | cons parameter unfilled =>
      -- The value goes to the first required parameter that has none yet.
      have hput : made.put (.positional value) =
          ⟨unfilled, made.bound.insert parameter value, made.surplus⟩ := by
        simp only [Partial.put, hcases]
      have hparameter : signature.required[(positionals values).length]? = some parameter := by
        rw [← List.head?_drop, ← hholds.unfilled, hcases, List.head?_cons]
      have hcount : (positionals values).length < signature.arity := by
        rw [hcases, List.length_cons] at hlength
        unfold Signature.arity
        omega
      rw [hput] at hunfilled ⊢
      constructor
      · simpa using hunfilled
      · rw [hsurplus, List.drop_eq_nil_iff.2 (Nat.le_of_lt hcount), eq_comm, List.drop_eq_nil_iff]
        simpa using Nat.succ_le_of_lt hcount
      · intro i name hname
        rw [NameMap.find?_insert]
        by_cases heq : parameter = name
        · subst name
          have hi : i = (positionals values).length :=
            (List.getElem?_inj (List.getElem?_eq_some_iff.1 hname).1
              (nodup_required hdistinct)).1 (hname.trans hparameter.symm)
          simp [hi]
        · have hi : i ≠ (positionals values).length := by
            rintro rfl
            exact heq (Option.some.inj (hparameter.symm.trans hname))
          have hlast : [value][i - (positionals values).length]? = none ∨
              i < (positionals values).length := by
            rw [List.getElem?_eq_none_iff, List.length_singleton]
            omega
          rw [if_neg heq, hholds.required i name hname, Item.positionals_append]
          rcases Nat.lt_or_ge i (positionals values).length with hlt | hge
          · rw [List.getElem?_append_left hlt]
          · rw [List.getElem?_append_right hge, List.getElem?_eq_none hge]
            exact (hlast.resolve_right (Nat.not_lt.2 hge)).symm
      · intro name hname
        have hne : parameter ≠ name := fun heq => hname (heq ▸ List.mem_of_getElem? hparameter)
        simpa [hne] using hholds.others name hname
  | nil =>
      have hput : made.put (.positional value) =
          ⟨[], made.bound, value :: made.surplus⟩ := by
        simp only [Partial.put, hcases]
      have hcount : signature.arity ≤ (positionals values).length := by
        rw [hcases, List.length_nil] at hlength
        unfold Signature.arity
        omega
      rw [hput] at hunfilled ⊢
      constructor
      · simpa using hunfilled
      · rw [List.reverse_cons, hsurplus, Item.positionals_append,
          List.drop_append_of_le_length hcount]
        rfl
      · intro i name hname
        have hi : i < (positionals values).length :=
          Nat.lt_of_lt_of_le (List.getElem?_eq_some_iff.1 hname).1 hcount
        simpa [List.getElem?_append_left hi] using hholds.required i name hname
      · intro name hname
        simpa using hholds.others name hname

/-- Whatever items are admitted, one after the other, what has been bound is what
their values say. -/
theorem Partial.Holds.putAll {values others : List (Item Value)} {made : Partial}
    (hdistinct : signature.names.Nodup) (hholds : made.Holds signature values)
    (hadmitted : Item.AllAdmitted signature (positionals values).length others) :
    (others.foldl Partial.put made).Holds signature (values ++ others) := by
  induction others generalizing values made with
  | nil => simpa using hholds
  | cons item rest ih =>
      obtain ⟨hitem, hrest⟩ := hadmitted
      have hnext : (made.put item).Holds signature (values ++ [item]) := by
        cases item with
        | option flag value => exact hholds.put_option hdistinct value hitem
        | positional value => exact hholds.put_positional hdistinct value
      rw [← List.length_append, ← Item.positionals_append] at hrest
      simpa using ih hnext hrest

/-! ## Defaults and the rest parameter -/

theorem find?_fillDefault (bound : Arguments) (option : OptionalParameter) (name : String) :
    (fillDefault bound option).find? name =
      (bound.find? name).or (if option.name = name then some option.default else none) := by
  unfold fillDefault
  split
  · next value hvalue =>
      by_cases heq : option.name = name
      · subst heq
        simp [hvalue]
      · simp [heq]
  · next hnone =>
      rw [NameMap.find?_insert]
      by_cases heq : option.name = name
      · subst heq
        simp [hnone]
      · simp [heq]

theorem find?_fillDefaults (options : List OptionalParameter) (bound : Arguments)
    (name : String) :
    (options.foldl fillDefault bound).find? name =
      (bound.find? name).or
        ((options.find? fun option => option.name == name).map OptionalParameter.default) := by
  induction options generalizing bound with
  | nil => simp
  | cons option rest ih =>
      rw [List.foldl_cons, ih, find?_fillDefault, Option.or_assoc, List.find?_cons]
      by_cases heq : option.name = name
      · simp [heq]
      · have hne : (option.name == name) = false := by simpa using heq
        simp [heq, hne]

theorem find?_option {option : OptionalParameter} {options : List OptionalParameter}
    (hnodup : (options.map OptionalParameter.name).Nodup) (hmem : option ∈ options) :
    options.find? (fun other => other.name == option.name) = some option := by
  induction options with
  | nil => contradiction
  | cons first rest ih =>
      obtain ⟨hfirst, hrest⟩ := List.nodup_cons.1 hnodup
      rw [List.find?_cons]
      rcases List.mem_cons.1 hmem with rfl | hmem
      · simp
      · have hne : (first.name == option.name) = false := by
          rw [beq_eq_false_iff_ne]
          intro heq
          exact hfirst (heq ▸ List.mem_map_of_mem hmem)
        rw [hne]
        exact ih hrest hmem

theorem find?_option_eq_none {name : String} (hdeclares : signature.declares name = false) :
    (signature.optional.find? fun option => option.name == name) = none := by
  simpa [Signature.declares] using hdeclares

theorem declares_of_mem {option : OptionalParameter} (hmem : option ∈ signature.optional) :
    signature.declares option.name = true := by
  simp only [Signature.declares, List.any_eq_true, beq_iff_eq]
  exact ⟨option, hmem, rfl⟩

section

variable {values : List (Item Value)} {made : Partial}

theorem Partial.Holds.find?_required (hholds : made.Holds signature values)
    (harity : signature.arity ≤ (positionals values).length) {i : Nat} {name : String}
    (hname : signature.required[i]? = some name) :
    (signature.optional.foldl fillDefault made.bound).find? name = (positionals values)[i]? := by
  have hi : i < (positionals values).length :=
    Nat.lt_of_lt_of_le (List.getElem?_eq_some_iff.1 hname).1 harity
  rw [find?_fillDefaults, hholds.required i name hname, List.getElem?_eq_getElem hi,
    Option.some_or]

theorem Partial.Holds.find?_option (hholds : made.Holds signature values)
    (hdistinct : signature.names.Nodup) {option : OptionalParameter}
    (hoption : option ∈ signature.optional) :
    (signature.optional.foldl fillDefault made.bound).find? option.name =
      some ((settings option.name values).getLast?.getD option.default) := by
  have hname := not_mem_required_of_declares hdistinct (declares_of_mem hoption)
  have hnodup := (List.nodup_append.1 (List.nodup_append.1 hdistinct).1).2.1
  rw [find?_fillDefaults, hholds.others option.name hname, Binding.find?_option hnodup hoption]
  cases (settings option.name values).getLast? <;> rfl

theorem Partial.Holds.find?_undeclared (hholds : made.Holds signature values)
    (hadmitted : Item.AllAdmitted signature 0 values) {name : String}
    (hname : name ∉ signature.required) (hdeclares : signature.declares name = false) :
    (signature.optional.foldl fillDefault made.bound).find? name = none := by
  rw [find?_fillDefaults, hholds.others name hname,
    (Item.allAdmitted_iff.1 hadmitted).1 name hdeclares, find?_option_eq_none hdeclares]
  rfl

theorem mem_names {name : String} :
    name ∈ signature.names ↔ name ∈ signature.required ∨
      signature.declares name = true ∨ signature.rest = some name := by
  simp [Signature.names, Signature.declares]

theorem rest_ne_some (hdistinct : signature.names.Nodup) {name : String}
    (hname : name ∈ signature.required ∨ signature.declares name = true) :
    signature.rest ≠ some name := by
  intro hrest
  have hmem : name ∈ signature.required ++ signature.optional.map OptionalParameter.name := by
    simpa [Signature.declares] using hname
  exact (List.nodup_append.1 hdistinct).2.2 name hmem name (by simp [hrest]) rfl

/-- Without an unfilled parameter binding is completed. -/
theorem exists_complete (method : String) (hfilled : made.unfilled = []) :
    ∃ arguments, complete method signature made = .ok arguments ∧
      ∀ name, arguments.find? name =
        if signature.rest = some name then some (.list made.surplus.reverse)
        else (signature.optional.foldl fillDefault made.bound).find? name := by
  unfold complete
  simp only [hfilled]
  cases signature.rest with
  | none => exact ⟨_, rfl, by simp⟩
  | some rest => exact ⟨_, rfl, by simp⟩

/-- What has been bound by admitted items is completed to the arguments of the
call. -/
theorem Partial.Holds.exists_assigned (hholds : made.Holds signature values) (method : String)
    (hdistinct : signature.names.Nodup) (hadmitted : Item.AllAdmitted signature 0 values)
    (harity : signature.arity ≤ (positionals values).length) :
    ∃ arguments, complete method signature made = .ok arguments ∧
      Item.Assigned signature values arguments := by
  have hfilled : made.unfilled = [] := by
    rw [hholds.unfilled]
    exact List.drop_eq_nil_iff.2 harity
  obtain ⟨arguments, hcomplete, hfind⟩ := Binding.exists_complete method hfilled
  have hrequired : ∀ (i : Nat) (name : String), signature.required[i]? = some name →
      arguments.find? name = (positionals values)[i]? := by
    intro i name hname
    rw [hfind, if_neg (rest_ne_some hdistinct (.inl (List.mem_of_getElem? hname)))]
    exact hholds.find?_required harity hname
  have hoption : ∀ option ∈ signature.optional, arguments.find? option.name =
      some ((settings option.name values).getLast?.getD option.default) := by
    intro option hmem
    rw [hfind, if_neg (rest_ne_some hdistinct (.inr (declares_of_mem hmem)))]
    exact hholds.find?_option hdistinct hmem
  have hrest : ∀ name, signature.rest = some name →
      arguments.find? name = some (.list ((positionals values).drop signature.arity)) := by
    intro name hname
    rw [hfind, if_pos hname, hholds.surplus]
  refine ⟨arguments, hcomplete, hrequired, hoption, hrest, fun name => ⟨fun hsome => ?_, ?_⟩⟩
  · refine Decidable.byContradiction fun hname => ?_
    rw [mem_names, not_or, not_or, Bool.not_eq_true] at hname
    obtain ⟨hname, hdeclares, hnameRest⟩ := hname
    rw [hfind, if_neg hnameRest, hholds.find?_undeclared hadmitted hname hdeclares] at hsome
    contradiction
  · rw [mem_names]
    rintro (hmem | hdeclares | hname)
    · obtain ⟨i, hi⟩ := List.mem_iff_getElem?.1 hmem
      have hlength := Nat.lt_of_lt_of_le (List.getElem?_eq_some_iff.1 hi).1 harity
      rw [hrequired i name hi, List.getElem?_eq_getElem hlength]
      rfl
    · obtain ⟨option, hmem, rfl⟩ := exists_option_of_declares hdeclares
      rw [hoption option hmem]
      rfl
    · rw [hrest name hname]
      rfl

/-- The values of the items determine the arguments. -/
theorem Item.Assigned.unique {arguments others : Arguments}
    (hassigned : Item.Assigned signature values arguments)
    (hothers : Item.Assigned signature values others) : arguments = others := by
  refine NameMap.eq_of_find?_eq fun name => ?_
  by_cases hname : name ∈ signature.names
  · rcases mem_names.1 hname with hmem | hdeclares | hrest
    · obtain ⟨i, hi⟩ := List.mem_iff_getElem?.1 hmem
      rw [hassigned.required i name hi, hothers.required i name hi]
    · obtain ⟨option, hmem, rfl⟩ := exists_option_of_declares hdeclares
      rw [hassigned.option option hmem, hothers.option option hmem]
    · rw [hassigned.rest name hrest, hothers.rest name hrest]
  · have hnone : ∀ {map : Arguments}, Item.Assigned signature values map →
        map.find? name = none := by
      intro map hmap
      refine Option.not_isSome_iff_eq_none.1 fun hsome => ?_
      exact hname ((hmap.names name).1 hsome)
    rw [hnone hassigned, hnone hothers]

end

/-! ## All of binding -/

section

variable {σ : Type} {method : String} {evaluate : Form → σ → Except Error Value × σ}
  {forms : List Form} {state : σ} {outcome : Except Error Arguments × σ}

theorem exists_comesTo (method : String) (hdistinct : signature.names.Nodup)
    (evaluate : Form → σ → Except Error Value × σ) (forms : List Form) (state : σ) :
    ∃ outcome, ComesTo method signature evaluate forms state outcome := by
  rcases Item.evaluated_or_stops evaluate signature (items forms) 0 state with
    ⟨hadmitted, values, final, hevaluated⟩ |
    ⟨before, item, after, values, middle, hitems, hbefore, hevaluated, hstops⟩
  · cases hlone : loneFlag forms with
    | some flag => exact ⟨_, .unpaired hlone hadmitted hevaluated⟩
    | none =>
        cases hmissing : signature.required[(positionals (items forms)).length]? with
        | some parameter => exact ⟨_, .unfilled hlone hadmitted hevaluated hmissing⟩
        | none =>
            have harity : signature.arity ≤ (positionals (items forms)).length :=
              List.getElem?_eq_none_iff.1 hmissing
            have hvalues := hevaluated.allAdmitted hadmitted
            have hholds := (Partial.Holds.start signature).putAll hdistinct hvalues
            obtain ⟨arguments, _, hassigned⟩ := hholds.exists_assigned method hdistinct hvalues
              (by simpa [hevaluated.length_positionals] using harity)
            exact ⟨_, .bound hlone hadmitted hevaluated harity hassigned⟩
  · rw [Nat.zero_add] at hstops
    by_cases hitem : item.Admitted signature (positionals before).length
    · obtain ⟨error, final, heval⟩ := hstops hitem
      have hall : Item.AllAdmitted signature 0 (before ++ [item]) := by
        rw [Item.allAdmitted_append, Nat.zero_add]
        exact ⟨hbefore, hitem, trivial⟩
      exact ⟨_, .failed hitems hall hevaluated heval⟩
    · exact ⟨_, .refused hitems hbefore hitem hevaluated⟩

theorem eq_nil_of_items {rest : List Form} (hitems : items rest = [])
    (hlone : loneFlag rest = none) : rest = [] := by
  rcases items_eq_nil hitems with ⟨hnil, _⟩ | ⟨flag, _, hsome⟩
  · exact hnil
  · rw [hlone] at hsome
    contradiction

/-- A flag without a form is refused. -/
theorem step_loneFlag (method flag : String) (made : Partial) :
    step method signature [.flag flag] made =
      .refuse (if signature.declares flag then .flagWithoutValue flag method
        else .unknownOption flag method) := by
  rw [step_flag]
  split <;> rfl

/-- Binding starts with the items that are admitted and evaluated. -/
theorem collect_start {before after : List (Item Form)} {values : List (Item Value)}
    {middle : σ} (method : String)
    (hevaluated : Item.Evaluated evaluate before state values middle)
    (hadmitted : Item.AllAdmitted signature 0 before) (hitems : items forms = before ++ after) :
    ∃ rest made, items rest = after ∧ loneFlag rest = loneFlag forms ∧
      made = values.foldl Partial.put ⟨signature.required, .empty, []⟩ ∧
      made.unfilled = signature.required.drop (positionals before).length ∧
      collect method signature evaluate forms ⟨signature.required, .empty, []⟩ state =
        collect method signature evaluate rest made middle := by
  have hstart : (⟨signature.required, .empty, []⟩ : Partial).unfilled =
      signature.required.drop 0 := rfl
  obtain ⟨rest, hrest, hlone, hunfilled, hcollect⟩ :=
    collect_evaluated method hevaluated hstart hadmitted hitems
  rw [Nat.zero_add] at hunfilled
  exact ⟨rest, _, hrest, hlone, rfl, hunfilled, hcollect⟩

theorem ComesTo.bindArguments_eq (hdistinct : signature.names.Nodup)
    (hcomesTo : ComesTo method signature evaluate forms state outcome) :
    bindArguments method signature evaluate forms state = outcome := by
  unfold bindArguments
  cases hcomesTo with
  | failed hitems hadmitted hevaluated heval =>
      rw [Item.allAdmitted_append, Nat.zero_add] at hadmitted
      obtain ⟨hbefore, hitem, _⟩ := hadmitted
      obtain ⟨rest, made, hrest, _, _, hunfilled, hcollect⟩ :=
        collect_start method hevaluated hbefore hitems
      obtain ⟨_, _, _, htaken, _⟩ := step_item method hunfilled hrest
      rw [hcollect, collect_eq_step, htaken hitem]
      simp only [heval]
  | refused hitems hbefore hitem hevaluated =>
      obtain ⟨rest, made, hrest, _, _, hunfilled, hcollect⟩ :=
        collect_start method hevaluated hbefore hitems
      obtain ⟨_, _, _, _, hrefused⟩ := step_item method hunfilled hrest
      rw [hcollect, collect_eq_step, hrefused hitem]
  | @unpaired flag values final hlone hadmitted hevaluated =>
      obtain ⟨rest, made, hrest, hrestLone, _, _, hcollect⟩ :=
        collect_start method hevaluated hadmitted (List.append_nil _).symm
      rw [hlone] at hrestLone
      obtain rfl : rest = [.flag flag] := by
        rcases items_eq_nil hrest with ⟨_, hnone⟩ | ⟨name, rfl, hsome⟩
        · rw [hnone] at hrestLone
          contradiction
        · rw [hsome, Option.some.injEq] at hrestLone
          rw [hrestLone]
      rw [hcollect, collect_eq_step, step_loneFlag]
  | @unfilled parameter values final hlone hadmitted hevaluated hmissing =>
      obtain ⟨rest, made, hrest, hrestLone, _, hunfilled, hcollect⟩ :=
        collect_start method hevaluated hadmitted (List.append_nil _).symm
      obtain rfl := eq_nil_of_items hrest (hrestLone.trans hlone)
      have hcons : made.unfilled = parameter ::
          signature.required.drop ((positionals (items forms)).length + 1) := by
        rw [hunfilled, List.drop_eq_getElem?_toList_append, hmissing]
        rfl
      rw [hcollect]
      simp only [collect, complete, hcons]
  | @bound values arguments final hlone hadmitted hevaluated harity hassigned =>
      obtain ⟨rest, made, hrest, hrestLone, hmade, _, hcollect⟩ :=
        collect_start method hevaluated hadmitted (List.append_nil _).symm
      obtain rfl := eq_nil_of_items hrest (hrestLone.trans hlone)
      have hvalues := hevaluated.allAdmitted hadmitted
      have hholds := (Partial.Holds.start signature).putAll hdistinct hvalues
      rw [← hevaluated.length_positionals] at harity
      obtain ⟨others, hcomplete, hothers⟩ :=
        hholds.exists_assigned method hdistinct hvalues harity
      rw [← hmade] at hcomplete
      rw [hcollect, hassigned.unique hothers]
      simp only [collect, hcomplete]

theorem comesTo_bindArguments (method : String) (hdistinct : signature.names.Nodup)
    (evaluate : Form → σ → Except Error Value × σ) (forms : List Form) (state : σ) :
    ComesTo method signature evaluate forms state
      (bindArguments method signature evaluate forms state) := by
  obtain ⟨outcome, houtcome⟩ := exists_comesTo method hdistinct evaluate forms state
  rwa [houtcome.bindArguments_eq hdistinct]

end

end Binding

/-- Binding does what the items of the call say, and nothing else: its result and
the state after it are those that `Binding.ComesTo` describes. -/
theorem bindArguments_eq_iff {σ : Type} {method : String} {signature : Signature}
    {evaluate : Form → σ → Except Error Value × σ} {forms : List Form} {state : σ}
    {outcome : Except Error Arguments × σ} (hdistinct : signature.names.Nodup) :
    bindArguments method signature evaluate forms state = outcome ↔
      Binding.ComesTo method signature evaluate forms state outcome := by
  constructor
  · rintro rfl
    exact Binding.comesTo_bindArguments method hdistinct evaluate forms state
  · exact Binding.ComesTo.bindArguments_eq hdistinct

/-- The signature of a range with a step. -/
def strideSignature : Signature :=
  (Signature.ofRequired ["low", "high"]).withOption "step" (.number 1)

/-- A flag after a flag is its value, a last flag has none, and the log of the
evaluation has every value form before it. -/
theorem bindArguments_stride :
    strideSignature.names.Nodup ∧
      bindArguments ".." strideSignature
          (fun form (log : List Form) => (.ok (.form form), log ++ [form]))
          [.flag "step", .flag "low", .literal (.number 1), .literal (.number 20),
            .flag "step"] [] =
        (.error (.eval (.inMethod ".." (.flagWithoutValue "step" ".."))),
          [.flag "low", .literal (.number 1), .literal (.number 20)]) := by
  have hdistinct : strideSignature.names.Nodup := by decide
  have hdeclares : strideSignature.declares "step" = true := by decide
  have hadmitted : Binding.Item.AllAdmitted strideSignature 0
      (Binding.items [.flag "step", .flag "low", .literal (.number 1), .literal (.number 20),
        .flag "step"]) := by decide
  refine ⟨hdistinct, (bindArguments_eq_iff hdistinct).2 ?_⟩
  have hcause : EvalCause.flagWithoutValue "step" ".." =
      if strideSignature.declares "step" then .flagWithoutValue "step" ".."
      else .unknownOption "step" ".." := (if_pos hdeclares).symm
  rw [hcause]
  exact .unpaired rfl hadmitted (.cons rfl (.cons rfl (.cons rfl (.nil _))))

end ArityScript
