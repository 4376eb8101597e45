import ArityScript.Proofs.Binding.Assignment

/-!
# Where flags stand

Options may stand anywhere among the positional arguments.  What a call binds
depends on the positional arguments in their order and, for each flag, on the
values that it is given in their order, as long as the value of a form does not
depend on what has been evaluated before it.
-/

namespace ArityScript

namespace Binding

open ArityScript.Binding.Item (positionals settings)

variable {signature : Signature}

namespace Item

/-- Two lists of items have the same contents when they differ only in how the
positional items and the options are mixed. -/
structure SameContents {α : Type} (items others : List (Item α)) : Prop where
  positionals_eq : positionals items = positionals others
  settings_eq : ∀ flag, settings flag items = settings flag others

namespace SameContents

variable {α : Type} {items others : List (Item α)}

theorem symm (hsame : SameContents items others) : SameContents others items :=
  ⟨hsame.positionals_eq.symm, fun flag => (hsame.settings_eq flag).symm⟩

theorem allAdmitted (hsame : SameContents items others) {count : Nat}
    (hadmitted : AllAdmitted signature count items) : AllAdmitted signature count others := by
  rw [allAdmitted_iff] at hadmitted ⊢
  rw [← hsame.positionals_eq]
  exact ⟨fun flag hflag => (hsame.settings_eq flag).symm.trans (hadmitted.1 flag hflag),
    hadmitted.2⟩

theorem assigned {values others : List (Item Value)} (hsame : SameContents values others)
    {arguments : Arguments} (hassigned : Assigned signature values arguments) :
    Assigned signature others arguments := by
  constructor
  · intro i name hname
    rw [← hsame.positionals_eq]
    exact hassigned.required i name hname
  · intro option hoption
    rw [← hsame.settings_eq]
    exact hassigned.option option hoption
  · intro name hname
    rw [← hsame.positionals_eq]
    exact hassigned.rest name hname
  · exact hassigned.names

end SameContents

theorem mem_contents {α : Type} {item : Item α} {items : List (Item α)} (hmem : item ∈ items) :
    item.content ∈ positionals items ∨ ∃ flag, item.content ∈ settings flag items := by
  cases item with
  | option flag content =>
      refine .inr ⟨flag, List.mem_filterMap.2 ⟨_, hmem, ?_⟩⟩
      rw [setting?, if_pos rfl]
      rfl
  | positional content => exact .inl (List.mem_filterMap.2 ⟨_, hmem, rfl⟩)

section

variable {σ : Type} {evaluate : Form → σ → Except Error Value × σ}
  {result : Form → Except Error Value}
  (hresult : ∀ form state, (evaluate form state).1 = result form)

include hresult

theorem Evaluated.map_positionals {items : List (Item Form)} {state final : σ}
    {values : List (Item Value)} (hevaluated : Evaluated evaluate items state values final) :
    (positionals items).map result = (positionals values).map Except.ok := by
  induction hevaluated with
  | nil => rfl
  | @cons item rest state next final value values heval _ ih =>
      have hvalue : result item.content = .ok value := by rw [← hresult _ state, heval]
      cases item with
      | option flag form => exact ih
      | positional form =>
          rw [hold, positionals_positional, positionals_positional, List.map_cons, List.map_cons,
            ih]
          exact congrArg (· :: _) hvalue

theorem Evaluated.map_settings {items : List (Item Form)} {state final : σ}
    {values : List (Item Value)} (hevaluated : Evaluated evaluate items state values final)
    (flag : String) : (settings flag items).map result = (settings flag values).map Except.ok := by
  induction hevaluated with
  | nil => rfl
  | @cons item rest state next final value values heval _ ih =>
      have hvalue : result item.content = .ok value := by rw [← hresult _ state, heval]
      cases item with
      | option name form =>
          rw [hold, settings_option, settings_option]
          split
          · rw [List.map_cons, List.map_cons, ih]
            exact congrArg (· :: _) hvalue
          · exact ih
      | positional form => exact ih

theorem exists_evaluated {items : List (Item Form)}
    (hsucceeds : ∀ item ∈ items, ∃ value, result item.content = .ok value) (state : σ) :
    ∃ values final, Evaluated evaluate items state values final := by
  induction items generalizing state with
  | nil => exact ⟨[], state, .nil state⟩
  | cons item rest ih =>
      rw [List.forall_mem_cons] at hsucceeds
      obtain ⟨⟨value, hvalue⟩, hrest⟩ := hsucceeds
      rcases heval : evaluate item.content state with ⟨outcome, next⟩
      have houtcome : outcome = .ok value := by
        rw [← hvalue, ← hresult _ state, heval]
      subst houtcome
      obtain ⟨values, final, hvalues⟩ := ih hrest next
      exact ⟨_, final, .cons heval hvalues⟩

/-- If the forms of some items have values, so have those of other items with the
same contents, and the values have the same contents. -/
theorem SameContents.exists_evaluated {items others : List (Item Form)}
    (hsame : SameContents items others) {state final : σ} {values : List (Item Value)}
    (hevaluated : Evaluated evaluate items state values final) (start : σ) :
    ∃ otherValues last, Evaluated evaluate others start otherValues last ∧
      SameContents values otherValues := by
  have hpositionals := hevaluated.map_positionals hresult
  have hsettings := hevaluated.map_settings hresult
  have hvalue : ∀ {forms : List Form} {given : List Value} {form : Form},
      forms.map result = given.map Except.ok → form ∈ forms → ∃ value, result form = .ok value := by
    intro forms given form hmap hmem
    have hmem : result form ∈ given.map Except.ok := hmap ▸ List.mem_map_of_mem hmem
    obtain ⟨value, _, hvalue⟩ := List.mem_map.1 hmem
    exact ⟨value, hvalue.symm⟩
  have hsucceeds : ∀ item ∈ others, ∃ value, result item.content = .ok value := by
    intro item hmem
    rcases mem_contents hmem with hpositional | ⟨flag, hsetting⟩
    · rw [← hsame.positionals_eq] at hpositional
      exact hvalue hpositionals hpositional
    · rw [← hsame.settings_eq] at hsetting
      exact hvalue (hsettings flag) hsetting
  obtain ⟨otherValues, last, hothers⟩ := Item.exists_evaluated hresult hsucceeds start
  have hinjective : ∀ a b : Value, (Except.ok a : Except Error Value) = .ok b → a = b :=
    fun _ _ heq => Except.ok.inj heq
  refine ⟨otherValues, last, hothers, ?_, fun flag => ?_⟩
  · rw [← List.map_inj_right hinjective, ← hpositionals, hsame.positionals_eq]
    exact hothers.map_positionals hresult
  · rw [← List.map_inj_right hinjective, ← hsettings flag, hsame.settings_eq]
    exact hothers.map_settings hresult flag

end

end Item

/-- The result of an evaluation does not depend on the state. -/
def DependsOnForm {σ : Type} (evaluate : Form → σ → Except Error Value × σ) : Prop :=
  ∀ form state other, (evaluate form state).1 = (evaluate form other).1

theorem exists_bindArguments_eq {σ : Type} {method : String} (hdistinct : signature.names.Nodup)
    {evaluate : Form → σ → Except Error Value × σ} (hdepends : DependsOnForm evaluate)
    {forms others : List Form} (hpaired : loneFlag others = none)
    (hsame : Item.SameContents (items forms) (items others)) {state final : σ}
    {arguments : Arguments}
    (hbind : bindArguments method signature evaluate forms state = (.ok arguments, final))
    (start : σ) :
    ∃ last, bindArguments method signature evaluate others start = (.ok arguments, last) := by
  have hresult : ∀ form other, (evaluate form other).1 = (evaluate form state).1 :=
    fun form other => hdepends form other state
  have hcomesTo := comesTo_bindArguments method hdistinct evaluate forms state
  rw [hbind] at hcomesTo
  cases hcomesTo with
  | bound _ hadmitted hevaluated harity hassigned =>
      obtain ⟨values, last, hothers, hvalues⟩ := hsame.exists_evaluated hresult hevaluated start
      rw [hsame.positionals_eq] at harity
      have hbound : ComesTo method signature evaluate others start (.ok arguments, last) :=
        .bound hpaired (hsame.allAdmitted hadmitted) hothers harity (hvalues.assigned hassigned)
      exact ⟨last, hbound.bindArguments_eq hdistinct⟩

end Binding

/-- Two calls with the same positional arguments in the same order, and the same
values for each flag in the same order, bind the same arguments, or both fail. -/
theorem bindArguments_interleaved {σ : Type} {method : String} {signature : Signature}
    (hdistinct : signature.names.Nodup) {evaluate : Form → σ → Except Error Value × σ}
    (hdepends : Binding.DependsOnForm evaluate) {forms others : List Form}
    (hpaired : Binding.loneFlag forms = none) (hotherPaired : Binding.loneFlag others = none)
    (hsame : Binding.Item.SameContents (Binding.items forms) (Binding.items others))
    (state start : σ) (arguments : Arguments) :
    (bindArguments method signature evaluate forms state).1 = .ok arguments ↔
      (bindArguments method signature evaluate others start).1 = .ok arguments := by
  constructor
  · intro hbind
    obtain ⟨last, hlast⟩ :=
      Binding.exists_bindArguments_eq hdistinct hdepends hotherPaired hsame
        (Prod.ext hbind rfl) start
    rw [hlast]
  · intro hbind
    obtain ⟨last, hlast⟩ :=
      Binding.exists_bindArguments_eq hdistinct hdepends hpaired hsame.symm
        (Prod.ext hbind rfl) state
    rw [hlast]

/-- The step of a range may stand before its bounds or between them, although the
evaluation counts the forms. -/
theorem bindArguments_interleaved_stride :
    strideSignature.names.Nodup ∧
      Binding.DependsOnForm
        (fun form (count : Nat) => ((.ok (.form form), count + 1) : Except Error Value × Nat)) ∧
      ∃ arguments,
        (bindArguments ".." strideSignature (fun form (count : Nat) => (.ok (.form form), count + 1))
          [.flag "step", .literal (.number 4), .literal (.number 1), .literal (.number 20)]
          0).1 = .ok arguments ∧
        (bindArguments ".." strideSignature (fun form (count : Nat) => (.ok (.form form), count + 1))
          [.literal (.number 1), .flag "step", .literal (.number 4), .literal (.number 20)]
          7).1 = .ok arguments := by
  have hdistinct : strideSignature.names.Nodup := by decide
  have hdepends : Binding.DependsOnForm
      (fun form (count : Nat) => ((.ok (.form form), count + 1) : Except Error Value × Nat)) :=
    fun _ _ _ => rfl
  have hsame : Binding.Item.SameContents
      (Binding.items [.flag "step", .literal (.number 4), .literal (.number 1),
        .literal (.number 20)])
      (Binding.items [.literal (.number 1), .flag "step", .literal (.number 4),
        .literal (.number 20)]) :=
    ⟨rfl, fun flag => by simp [Binding.items]⟩
  have hinterleaved := @bindArguments_interleaved _ ".." _ hdistinct _ hdepends _ _ rfl rfl
    hsame 0 7
  exact ⟨hdistinct, hdepends, _, rfl, (hinterleaved _).1 rfl⟩

end ArityScript
