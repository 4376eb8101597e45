import ArityScript.Proofs.Correspondence

/-!
# Corresponding programs

Two programs correspond when they do the same on corresponding values, also on
values with methods that are only made while they run.  A native method is
uniform when its programs for corresponding arguments correspond, that is, when
it does nothing that depends on the numbers of methods.
-/

namespace ArityScript

variable {pairs more : Correspondence}

/-! ## Results -/

/-- Two results that correspond: both fail in the same way or neither does. -/
inductive ResultRelated {ε α β : Type} (related : α → β → Prop) :
    Except ε α → Except ε β → Prop where
  | ok {a : α} {b : β} : related a b → ResultRelated related (.ok a) (.ok b)
  | error (failure : ε) : ResultRelated related (.error failure) (.error failure)

namespace ResultRelated

variable {ε α β γ δ : Type} {related : α → β → Prop} {others : γ → δ → Prop}

theorem imp {stronger : α → β → Prop} {result : Except ε α} {result' : Except ε β}
    (hresult : ResultRelated stronger result result')
    (himp : ∀ a b, stronger a b → related a b) : ResultRelated related result result' := by
  cases hresult with
  | ok h => exact .ok (himp _ _ h)
  | error failure => exact .error failure

theorem refl (result : Except ε α) : ResultRelated (· = ·) result result := by
  cases result with
  | ok a => exact .ok rfl
  | error failure => exact .error failure

theorem of_ok {a : α} {b : β} {result : Except ε α} {result' : Except ε β}
    (hresult : ResultRelated related result result') (hok : result = .ok a)
    (hok' : result' = .ok b) : related a b := by
  subst hok hok'
  cases hresult with
  | ok h => exact h

theorem bind {result : Except ε α} {result' : Except ε β} {next : α → Except ε γ}
    {next' : β → Except ε δ} (hresult : ResultRelated related result result')
    (hnext : ∀ a b, related a b → ResultRelated others (next a) (next' b)) :
    ResultRelated others (result >>= next) (result' >>= next') := by
  cases hresult with
  | ok h => exact hnext _ _ h
  | error failure => exact .error failure

theorem mapError {φ : Type} (wrap : ε → φ) {result : Except ε α} {result' : Except ε β}
    (hresult : ResultRelated related result result') :
    ResultRelated related (result.mapError wrap) (result'.mapError wrap) := by
  cases hresult with
  | ok h => exact .ok h
  | error failure => exact .error (wrap failure)

end ResultRelated

def Outcome.Related (pairs : Correspondence) : Outcome → Outcome → Prop :=
  ResultRelated (Value.Related pairs)

/-! ## Maps -/

namespace NameMap

def EntryRelated (pairs : Correspondence) (entry entry' : String × Value) : Prop :=
  entry.1 = entry'.1 ∧ entry.2.Related pairs entry'.2

/-- Maps with the same names and corresponding values. -/
def Related (pairs : Correspondence) (map other : NameMap Value) : Prop :=
  List.Forall₂ (EntryRelated pairs) map.entries other.entries

theorem Related.mono (hle : pairs ≤ more) {map other : NameMap Value}
    (hmaps : map.Related pairs other) : map.Related more other :=
  hmaps.imp fun _ _ h => ⟨h.1, h.2.mono hle⟩

theorem related_empty (pairs : Correspondence) : Related pairs .empty .empty := .nil

theorem related_lookup (name : String) {entries others : List (String × Value)}
    (hentries : List.Forall₂ (EntryRelated pairs) entries others) :
    Option.Rel (Value.Related pairs) (entries.lookup name) (others.lookup name) := by
  induction hentries with
  | nil => exact .none
  | @cons entry entry' _ _ hentry _ ih =>
      obtain ⟨key, value⟩ := entry
      obtain ⟨key', value'⟩ := entry'
      obtain ⟨rfl, hvalue⟩ : key = key' ∧ value.Related pairs value' := hentry
      simp only [lookup_cons_eq]
      split
      · exact .some hvalue
      · exact ih

theorem forall₂_insertEntry (name : String) {value value' : Value}
    (hvalue : value.Related pairs value') {entries others : List (String × Value)}
    (hentries : List.Forall₂ (EntryRelated pairs) entries others) :
    List.Forall₂ (EntryRelated pairs) (insertEntry name value entries)
      (insertEntry name value' others) := by
  induction hentries with
  | nil => exact .cons ⟨rfl, hvalue⟩ .nil
  | @cons entry entry' _ _ hentry hrest ih =>
      obtain ⟨key, old⟩ := entry
      obtain ⟨key', old'⟩ := entry'
      obtain ⟨rfl, hold⟩ : key = key' ∧ old.Related pairs old' := hentry
      simp only [insertEntry]
      split
      · exact .cons ⟨rfl, hvalue⟩ (.cons ⟨rfl, hold⟩ hrest)
      · split
        · exact .cons ⟨rfl, hvalue⟩ hrest
        · exact .cons ⟨rfl, hold⟩ ih

theorem Related.find? {map other : NameMap Value} (hmaps : map.Related pairs other)
    (name : String) :
    Option.Rel (Value.Related pairs) (map.find? name) (other.find? name) :=
  related_lookup name hmaps

theorem Related.insert {map other : NameMap Value} (hmaps : map.Related pairs other)
    (name : String) {value value' : Value} (hvalue : value.Related pairs value') :
    (map.insert name value).Related pairs (other.insert name value') :=
  forall₂_insertEntry name hvalue hmaps

end NameMap

/-! ## Programs -/

inductive Program.Related : Correspondence → Program → Program → Prop where
  | finish {pairs : Correspondence} {outcome outcome' : Outcome} :
      outcome.Related pairs outcome' → Related pairs (.finish outcome) (.finish outcome')
  | eval {pairs : Correspondence} {form form' : Form} {next next' : Outcome → Program} :
      form.Related pairs form' →
      (∀ more, pairs ≤ more → ∀ outcome outcome', Outcome.Related more outcome outcome' →
        Related more (next outcome) (next' outcome')) →
      Related pairs (.eval form next) (.eval form' next')
  | inScope {pairs : Correspondence} {body body' : Program}
      {next next' : Outcome → Program} :
      (∀ more, pairs ≤ more → Related more body body') →
      (∀ more, pairs ≤ more → ∀ outcome outcome', Outcome.Related more outcome outcome' →
        Related more (next outcome) (next' outcome')) →
      Related pairs (.inScope body next) (.inScope body' next')
  | assign {pairs : Correspondence} {value value' : Value} {next next' : Program}
      (name : String) : value.Related pairs value' → Related pairs next next' →
      Related pairs (.assign name value next) (.assign name value' next')
  | lookup {pairs : Correspondence} {next next' : Option Value → Program}
      (name : String) :
      (∀ found found', Option.Rel (Value.Related pairs) found found' →
        Related pairs (next found) (next' found')) →
      Related pairs (.lookup name next) (.lookup name next')
  | define {pairs : Correspondence} {body body' : Form} {next next' : Value → Program}
      (name : String) (parameters : List String) : body.Related pairs body' →
      (∀ more, pairs ≤ more → ∀ value value', value.Related more value' →
        Related more (next value) (next' value')) →
      Related pairs (.define name parameters body next) (.define name parameters body' next')
  | frameCount {pairs : Correspondence} {next next' : Nat → Program} :
      (∀ count, Related pairs (next count) (next' count)) →
      Related pairs (.frameCount next) (.frameCount next')
  | callName {pairs : Correspondence} {next next' : String → Program} :
      (∀ name, Related pairs (next name) (next' name)) →
      Related pairs (.callName next) (.callName next')

/-- A native method that does not depend on the numbers of methods. -/
def Native.Uniform (native : Native) : Prop :=
  ∀ (pairs : Correspondence) (arguments arguments' : Arguments),
    NameMap.Related pairs arguments arguments' →
      Program.Related pairs (native arguments) (native arguments')

namespace Program.Related

theorem attempt {α : Type} {related : α → α → Prop} {result result' : Except Error α}
    {next next' : α → Program} (hresult : ResultRelated related result result')
    (hnext : ∀ a b, related a b → Program.Related pairs (next a) (next' b)) :
    Program.Related pairs (.attempt result next) (.attempt result' next') := by
  cases hresult with
  | ok h => exact hnext _ _ h
  | error error => exact .finish (.error _)

theorem andThen {next next' : Value → Program} {outcome outcome' : Outcome}
    (houtcome : outcome.Related pairs outcome')
    (hnext : ∀ value value', value.Related pairs value' →
      Program.Related pairs (next value) (next' value')) :
    Program.Related pairs (Program.andThen next outcome)
      (Program.andThen next' outcome') := by
  cases houtcome with
  | ok h => exact hnext _ _ h
  | error failure => exact .finish (.error _)

theorem done {value value' : Value} (hvalue : value.Related pairs value') :
    Program.Related pairs (.done value) (.done value') :=
  .finish (.ok hvalue)

theorem failWith (error : Error) :
    Program.Related pairs (.failWith error) (.failWith error) :=
  .finish (.error _)

theorem evalOnly {form form' : Form} (hform : form.Related pairs form') :
    Program.Related pairs (.evalOnly form) (.evalOnly form') :=
  .eval hform fun _ _ _ _ houtcome => .finish houtcome

theorem evalWith (name : String) {value value' : Value} {form form' : Form}
    {next next' : Outcome → Program} (hvalue : value.Related pairs value')
    (hform : form.Related pairs form')
    (hnext : ∀ more, pairs ≤ more → ∀ outcome outcome',
      Outcome.Related more outcome outcome' →
        Program.Related more (next outcome) (next' outcome')) :
    Program.Related pairs (.evalWith name value form next)
      (.evalWith name value' form' next') :=
  .inScope (fun _ hle => .assign name (hvalue.mono hle) (evalOnly (hform.mono hle))) hnext

end Program.Related

end ArityScript
