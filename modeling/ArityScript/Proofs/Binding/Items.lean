import ArityScript.Proofs.Binding

/-!
# Arguments as items

Read from left to right, the arguments of a call are items: an option is a flag
with the form after it, whatever form that is, and any other form is a
positional argument.  Only a last flag may be left without a form.

Binding takes one item after the other.  It refuses an item by the signature and
the number of positional items before it, and evaluates the forms of the others
in their order, each of them once.
-/

namespace ArityScript.Binding

/-- What stands among the arguments of a call, with a form or its value. -/
inductive Item (α : Type) where
  | option (flag : String) (content : α)
  | positional (content : α)

namespace Item

variable {α β : Type}

def content : Item α → α
  | .option _ content => content
  | .positional content => content

/-- The same item with another content. -/
def hold (content : β) : Item α → Item β
  | .option flag _ => .option flag content
  | .positional _ => .positional content

def positional? : Item α → Option α
  | .option _ _ => none
  | .positional content => some content

def setting? (flag : String) : Item α → Option α
  | .option name content => if name = flag then some content else none
  | .positional _ => none

/-- The contents of the positional items, in their order. -/
def positionals (items : List (Item α)) : List α :=
  items.filterMap positional?

/-- What an option is set to, time after time. -/
def settings (flag : String) (items : List (Item α)) : List α :=
  items.filterMap (setting? flag)

@[simp] theorem positionals_nil : positionals ([] : List (Item α)) = [] := rfl

@[simp] theorem positionals_option (flag : String) (content : α) (rest : List (Item α)) :
    positionals (.option flag content :: rest) = positionals rest := rfl

@[simp] theorem positionals_positional (content : α) (rest : List (Item α)) :
    positionals (.positional content :: rest) = content :: positionals rest := rfl

@[simp] theorem settings_nil (flag : String) :
    settings flag ([] : List (Item α)) = [] := rfl

@[simp] theorem settings_option (flag name : String) (content : α) (rest : List (Item α)) :
    settings flag (.option name content :: rest) =
      if name = flag then content :: settings flag rest else settings flag rest := by
  simp only [settings, List.filterMap_cons, setting?]
  split <;> simp_all

@[simp] theorem settings_positional (flag : String) (content : α) (rest : List (Item α)) :
    settings flag (.positional content :: rest) = settings flag rest := rfl

@[simp] theorem positionals_append (items others : List (Item α)) :
    positionals (items ++ others) = positionals items ++ positionals others :=
  List.filterMap_append

@[simp] theorem settings_append (flag : String) (items others : List (Item α)) :
    settings flag (items ++ others) = settings flag items ++ settings flag others :=
  List.filterMap_append

/-- Whether a signature admits an item after `count` positional ones. -/
def Admitted (signature : Signature) (count : Nat) : Item α → Prop
  | .option flag _ => signature.declares flag = true
  | .positional _ => signature.isPending count = true

instance (signature : Signature) (count : Nat) :
    (item : Item α) → Decidable (item.Admitted signature count)
  | .option flag _ => inferInstanceAs (Decidable (signature.declares flag = true))
  | .positional _ => inferInstanceAs (Decidable (signature.isPending count = true))

/-- Whether a signature admits all items after `count` positional ones. -/
def AllAdmitted (signature : Signature) : (count : Nat) → List (Item α) → Prop
  | _, [] => True
  | count, item :: rest =>
      item.Admitted signature count ∧
        AllAdmitted signature (count + (positionals [item]).length) rest

instance decidableAllAdmitted (signature : Signature) : (count : Nat) →
    (items : List (Item α)) → Decidable (AllAdmitted signature count items)
  | _, [] => inferInstanceAs (Decidable True)
  | count, item :: rest =>
      have := decidableAllAdmitted signature (count + (positionals [item]).length) rest
      inferInstanceAs (Decidable (item.Admitted signature count ∧ _))

/-- Why an item is refused that is not admitted. -/
def refusal (method : String) (signature : Signature) : Item α → EvalCause
  | .option flag _ => .unknownOption flag method
  | .positional _ => .tooManyArguments method signature.arity

/-- Evaluating the forms of items in their order, each of them once and all with
success: the items with the values, and the state after it. -/
inductive Evaluated {σ : Type} (evaluate : Form → σ → Except Error Value × σ) :
    List (Item Form) → σ → List (Item Value) → σ → Prop where
  | nil (state : σ) : Evaluated evaluate [] state [] state
  | cons {item : Item Form} {rest : List (Item Form)} {state next final : σ} {value : Value}
      {values : List (Item Value)} :
      evaluate item.content state = (.ok value, next) →
      Evaluated evaluate rest next values final →
      Evaluated evaluate (item :: rest) state (item.hold value :: values) final

/-! ## Items in turn -/

variable {signature : Signature} {σ : Type} {evaluate : Form → σ → Except Error Value × σ}

theorem length_positionals_hold {α β : Type} (item : Item α) (content : β) :
    (positionals [item.hold content]).length = (positionals [item]).length := by
  cases item <;> rfl

theorem length_positionals_cons {α : Type} (item : Item α) (rest : List (Item α)) :
    (positionals (item :: rest)).length =
      (positionals [item]).length + (positionals rest).length := by
  rw [← List.singleton_append, positionals_append, List.length_append]

theorem admitted_hold {α β : Type} {item : Item α} {content : β} {count : Nat} :
    (item.hold content).Admitted signature count ↔ item.Admitted signature count := by
  cases item <;> rfl

theorem Evaluated.length_positionals {items : List (Item Form)} {state final : σ}
    {values : List (Item Value)} (hevaluated : Evaluated evaluate items state values final) :
    (positionals values).length = (positionals items).length := by
  induction hevaluated with
  | nil => rfl
  | cons _ _ ih =>
      rw [length_positionals_cons, length_positionals_hold, ih, ← length_positionals_cons]

theorem Evaluated.allAdmitted {items : List (Item Form)} {state final : σ}
    {values : List (Item Value)} (hevaluated : Evaluated evaluate items state values final)
    {count : Nat} (hadmitted : AllAdmitted signature count items) :
    AllAdmitted signature count values := by
  induction hevaluated generalizing count with
  | nil => trivial
  | cons _ _ ih =>
      obtain ⟨hitem, hrest⟩ := hadmitted
      refine ⟨admitted_hold.2 hitem, ?_⟩
      rw [length_positionals_hold]
      exact ih hrest

theorem allAdmitted_append {α : Type} {items others : List (Item α)} {count : Nat} :
    AllAdmitted signature count (items ++ others) ↔
      AllAdmitted signature count items ∧
        AllAdmitted signature (count + (positionals items).length) others := by
  induction items generalizing count with
  | nil => simp [AllAdmitted]
  | cons item rest ih =>
      simp only [List.cons_append, AllAdmitted, ih, and_assoc, length_positionals_cons item rest,
        Nat.add_assoc]

/-- Which items are admitted does not depend on how options and positional items
are mixed. -/
theorem allAdmitted_iff {α : Type} {items : List (Item α)} {count : Nat} :
    AllAdmitted signature count items ↔
      (∀ flag, signature.declares flag = false → settings flag items = []) ∧
        ∀ i < (positionals items).length, signature.isPending (count + i) = true := by
  induction items generalizing count with
  | nil => simp [AllAdmitted]
  | cons item rest ih =>
      rw [AllAdmitted, ih]
      cases item with
      | option flag content =>
          constructor
          · rintro ⟨hdeclares, hoptions, hpositionals⟩
            refine ⟨fun name hname => ?_, hpositionals⟩
            have hne : flag ≠ name := by
              rintro rfl
              exact absurd hdeclares (by simp [Admitted, hname])
            rw [settings_option, if_neg hne]
            exact hoptions name hname
          · rintro ⟨hoptions, hpositionals⟩
            refine ⟨?_, fun name hname => ?_, hpositionals⟩
            · cases hdeclares : signature.declares flag with
              | true => exact hdeclares
              | false => simpa using hoptions flag hdeclares
            · have hsettings := hoptions name hname
              rw [settings_option] at hsettings
              split at hsettings
              · contradiction
              · exact hsettings
      | positional content =>
          simp only [Admitted, settings_positional, positionals_positional, positionals_nil,
            List.length_cons, List.length_nil]
          constructor
          · rintro ⟨hpending, hoptions, hpositionals⟩
            refine ⟨hoptions, fun i hi => ?_⟩
            cases i with
            | zero => exact hpending
            | succ i =>
                have hnext := hpositionals i (by omega)
                rwa [Nat.add_assoc, Nat.add_comm _ i] at hnext
          · rintro ⟨hoptions, hpositionals⟩
            refine ⟨hpositionals 0 (by omega), hoptions, fun i hi => ?_⟩
            have hnext := hpositionals (i + 1) (by omega)
            rwa [Nat.add_assoc, Nat.add_comm _ i]

/-- Items are all admitted and evaluated, or there is a first one that is
refused or fails. -/
theorem evaluated_or_stops (evaluate : Form → σ → Except Error Value × σ)
    (signature : Signature) (items : List (Item Form)) (count : Nat) (state : σ) :
    (AllAdmitted signature count items ∧
      ∃ values final, Evaluated evaluate items state values final) ∨
    (∃ before item after values middle, items = before ++ item :: after ∧
      AllAdmitted signature count before ∧ Evaluated evaluate before state values middle ∧
      (item.Admitted signature (count + (positionals before).length) →
        ∃ error final, evaluate item.content middle = (.error error, final))) := by
  induction items generalizing count state with
  | nil => exact .inl ⟨trivial, [], state, .nil state⟩
  | cons item rest ih =>
      by_cases hadmitted : item.Admitted signature count
      · rcases heval : evaluate item.content state with ⟨error | value, next⟩
        · exact .inr ⟨[], item, rest, [], state, rfl, trivial, .nil state,
            fun _ => ⟨error, next, heval⟩⟩
        · rcases ih (count + (positionals [item]).length) next with
            ⟨hrest, values, final, hvalues⟩ |
            ⟨before, other, after, values, middle, rfl, hbefore, hvalues, hstops⟩
          · exact .inl ⟨⟨hadmitted, hrest⟩, _, final, .cons heval hvalues⟩
          · refine .inr ⟨item :: before, other, after, _, middle, rfl, ⟨hadmitted, hbefore⟩,
              .cons heval hvalues, fun hother => hstops ?_⟩
            rwa [length_positionals_cons, ← Nat.add_assoc] at hother
      · exact .inr ⟨[], item, rest, [], state, rfl, trivial, .nil state,
          fun hitem => absurd hitem hadmitted⟩

end Item

/-! ## Reading items -/

/-- The arguments of a call as items.  The form after a flag belongs to the flag,
even if it is a flag itself. -/
def items : List Form → List (Item Form)
  | [] => []
  | [.flag _] => []
  | .flag name :: form :: rest => .option name form :: items rest
  | form :: rest => .positional form :: items rest

/-- The flag at the end of the arguments that has no form after it. -/
def loneFlag : List Form → Option String
  | [] => none
  | [.flag name] => some name
  | .flag _ :: _ :: rest => loneFlag rest
  | _ :: rest => loneFlag rest

theorem items_cons {form : Form} (rest : List Form) (hflag : form.isFlag = false) :
    items (form :: rest) = .positional form :: items rest := by
  cases form with
  | flag name => contradiction
  | _ => simp only [items]

theorem loneFlag_cons {form : Form} (rest : List Form) (hflag : form.isFlag = false) :
    loneFlag (form :: rest) = loneFlag rest := by
  cases form with
  | flag name => contradiction
  | _ => simp only [loneFlag]

/-- The first item takes up one or two forms, and the other items are those of
the forms after them. -/
theorem items_eq_cons {forms : List Form} {item : Item Form} {others : List (Item Form)}
    (hitems : items forms = item :: others) :
    (∃ flag form rest, item = .option flag form ∧ forms = .flag flag :: form :: rest ∧
      items rest = others ∧ loneFlag forms = loneFlag rest) ∨
    (∃ form rest, item = .positional form ∧ forms = form :: rest ∧ form.isFlag = false ∧
      items rest = others ∧ loneFlag forms = loneFlag rest) := by
  cases forms using arguments_induction Form.isFlag with
  | nil => simp [items] at hitems
  | dangling flag hflag =>
      obtain ⟨name, rfl⟩ := Form.eq_flag_of_isFlag hflag
      simp [items] at hitems
  | option flag form rest hflag =>
      obtain ⟨name, rfl⟩ := Form.eq_flag_of_isFlag hflag
      simp only [items, List.cons.injEq] at hitems
      obtain ⟨rfl, hothers⟩ := hitems
      exact .inl ⟨name, form, rest, rfl, rfl, hothers, by simp only [loneFlag]⟩
  | positional form rest hflag =>
      rw [items_cons rest hflag, List.cons.injEq] at hitems
      obtain ⟨rfl, hothers⟩ := hitems
      exact .inr ⟨form, rest, rfl, rfl, hflag, hothers, loneFlag_cons rest hflag⟩

theorem items_eq_nil {forms : List Form} (hitems : items forms = []) :
    (forms = [] ∧ loneFlag forms = none) ∨
      ∃ flag, forms = [.flag flag] ∧ loneFlag forms = some flag := by
  cases forms using arguments_induction Form.isFlag with
  | nil => exact .inl ⟨rfl, rfl⟩
  | dangling flag hflag =>
      obtain ⟨name, rfl⟩ := Form.eq_flag_of_isFlag hflag
      exact .inr ⟨name, rfl, rfl⟩
  | option flag form rest hflag =>
      obtain ⟨name, rfl⟩ := Form.eq_flag_of_isFlag hflag
      simp [items] at hitems
  | positional form rest hflag =>
      rw [items_cons rest hflag] at hitems
      contradiction

end ArityScript.Binding
