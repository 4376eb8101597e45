import ArityScript.Json.Conversion
import ArityScript.Proofs.Json.Library
import ArityScript.Proofs.Json.Numbers
import ArityScript.Proofs.Json.Writing

/-!
# Values and JSON values

Numbers, strings, truth values, the placeholder and lists of data are data.  They
correspond to the JSON values without objects and without numbers that are no
integers of the language, with the same nesting.  A conversion fails at the first
part that has no counterpart.  All of this holds for any lawful library.
-/

namespace ArityScript

open Json (Literal Written Parts)

/-! ## Data -/

mutual

def Value.IsData : Value → Prop
  | .number _ | .string _ | .bool _ | .placeholder => True
  | .list items => Value.AllData items
  | .range _ | .method _ | .form _ => False

def Value.AllData : List Value → Prop
  | [] => True
  | v :: rest => v.IsData ∧ Value.AllData rest

end

mutual

/-- The most levels of lists in each other. -/
def Value.nesting : Value → Nat
  | .list items => Value.nestingOfAll items + 1
  | _ => 0

def Value.nestingOfAll : List Value → Nat
  | [] => 0
  | v :: rest => max v.nesting (Value.nestingOfAll rest)

end

mutual

/-- The methods in a value from left to right, but for those in quoted forms. -/
def Value.methods : Value → List MethodRef
  | .method ref => [ref]
  | .list items => Value.methodsOfAll items
  | _ => []

def Value.methodsOfAll : List Value → List MethodRef
  | [] => []
  | v :: rest => v.methods ++ Value.methodsOfAll rest

end

mutual

/-- The objects in a written value, and the literals in it that are no integers of the
language, from left to right.  An object counts as a whole. -/
def Json.foreign : Json Literal → List (Json Literal)
  | .number literal => if literal.integer?.isSome then [] else [.number literal]
  | .object members => [.object members]
  | .array items => Json.foreignOfAll items
  | .null | .bool _ | .string _ => []

def Json.foreignOfAll : List (Json Literal) → List (Json Literal)
  | [] => []
  | item :: rest => item.foreign ++ Json.foreignOfAll rest

end

/-- The failure for a part that has no value. -/
def JsonLibrary.refusal (lib : JsonLibrary) : Json Literal → Error
  | .number literal =>
      exchangeError (.jsonNumber (String.ofList ((lib.ofLiteral? literal).elim [] lib.numberText)))
  | _ => exchangeError .jsonObject

/-! ## Where a conversion fails -/

/-- A conversion fails at the first of the parts that have no counterpart, and
succeeds if there are none. -/
def Decided {α β : Type} (failure : β → Error) (parts : List β) (result : Except Error α) :
    Prop :=
  match parts with
  | [] => ∃ a, result = .ok a
  | first :: _ => result = .error (failure first)

namespace Decided

variable {α β : Type} {failure : β → Error} {parts more : List β} {result : Except Error α}

theorem map {γ : Type} (f : α → γ) (hresult : Decided failure parts result) :
    Decided failure parts (result.map f) := by
  cases parts with
  | nil =>
      obtain ⟨a, rfl⟩ := hresult
      exact ⟨f a, rfl⟩
  | cons first rest =>
      simp only [Decided] at hresult ⊢
      rw [hresult]
      rfl

theorem cons {results : Except Error (List α)} (hresult : Decided failure parts result)
    (hresults : Decided failure more results) :
    Decided failure (parts ++ more) (result.bind fun a => results.map (a :: ·)) := by
  cases parts with
  | nil =>
      obtain ⟨a, rfl⟩ := hresult
      exact hresults.map (a :: ·)
  | cons first rest =>
      simp only [Decided] at hresult ⊢
      rw [hresult]
      rfl

theorem eq_error_iff (hresult : Decided failure parts result) {error : Error} :
    result = .error error ↔ ∃ first, parts.head? = some first ∧ error = failure first := by
  cases parts with
  | nil =>
      obtain ⟨a, rfl⟩ := hresult
      simp
  | cons first rest =>
      simp only [Decided] at hresult
      simp [hresult, eq_comm]

end Decided

namespace JsonLibrary

variable (lib : JsonLibrary)

theorem ofValue_list (items : List Value) :
    lib.ofValue (.list items) = (lib.ofValues items).map Json.array := by
  rw [ofValue]
  cases lib.ofValues items <;> rfl

theorem ofValues_cons (v : Value) (rest : List Value) :
    lib.ofValues (v :: rest) =
      (lib.ofValue v).bind fun json => (lib.ofValues rest).map (json :: ·) := by
  rw [ofValues]
  cases lib.ofValue v with
  | error _ => rfl
  | ok _ => cases lib.ofValues rest <;> rfl

theorem toValue_array (items : List (Json lib.Num)) :
    lib.toValue (.array items) = (lib.toValues items).map Value.list := by
  rw [toValue]
  cases lib.toValues items <;> rfl

theorem toValues_cons (item : Json lib.Num) (rest : List (Json lib.Num)) :
    lib.toValues (item :: rest) =
      (lib.toValue item).bind fun v => (lib.toValues rest).map (v :: ·) := by
  rw [toValues]
  cases lib.toValue item with
  | error _ => rfl
  | ok _ => cases lib.toValues rest <;> rfl

end JsonLibrary

def MethodRef.refusal (ref : MethodRef) : Error :=
  exchangeError (.methodToJson ref.name)

namespace JsonLibrary

section

variable (lib : JsonLibrary)

mutual

theorem decided_ofValue : ∀ v : Value, Decided MethodRef.refusal v.methods (lib.ofValue v)
  | .method ref => by
      rw [Value.methods]
      rfl
  | .list items => by
      rw [Value.methods, ofValue_list]
      exact (decided_ofValues items).map Json.array
  | .number _ | .string _ | .bool _ | .range _ | .placeholder | .form _ => ⟨_, rfl⟩

theorem decided_ofValues : ∀ items : List Value,
    Decided MethodRef.refusal (Value.methodsOfAll items) (lib.ofValues items)
  | [] => ⟨[], rfl⟩
  | v :: rest => by
      rw [Value.methodsOfAll, ofValues_cons]
      exact (decided_ofValue v).cons (decided_ofValues rest)

end

end

section

variable {lib : JsonLibrary}

mutual

/-- A written value is refused at its first part that has no value. -/
theorem Lawful.decided_toValue (hlib : lib.Lawful) :
    ∀ {written : Json Literal} {json : Json lib.Num}, lib.build? written = some json →
      Decided lib.refusal written.foreign (lib.toValue json)
  | .number literal, json, hbuild => by
      obtain ⟨number, hnumber, rfl⟩ := Option.map_eq_some_iff.1 hbuild
      cases hinteger : literal.integer? with
      | some n =>
          rw [hlib.ofLiteral?_of_integer literal n hinteger] at hnumber
          obtain rfl := Option.some.inj hnumber
          simp [Json.foreign, hinteger, Decided, toValue, hlib.integer?_ofInteger]
      | none =>
          have hforeign := hlib.integer?_of_literal literal number hinteger hnumber
          simp [Json.foreign, hinteger, Decided, toValue, hforeign, refusal, hnumber]
  | .object members, json, hbuild => by
      obtain ⟨_, _, rfl⟩ := Option.map_eq_some_iff.1 hbuild
      rfl
  | .array items, json, hbuild => by
      obtain ⟨built, hitems, rfl⟩ := Option.map_eq_some_iff.1 hbuild
      rw [Json.foreign, toValue_array]
      exact (hlib.decided_toValues hitems).map Value.list
  | .null, json, hbuild | .bool _, json, hbuild | .string _, json, hbuild => by
      cases hbuild
      exact ⟨_, rfl⟩

theorem Lawful.decided_toValues (hlib : lib.Lawful) :
    ∀ {items : List (Json Literal)} {built : List (Json lib.Num)},
    Json.buildItems? lib.ofLiteral? lib.collect items = some built →
      Decided lib.refusal (Json.foreignOfAll items) (lib.toValues built)
  | [], built, hbuild => by
      cases hbuild
      exact ⟨[], rfl⟩
  | item :: rest, built, hbuild => by
      rw [Json.buildItems?_cons] at hbuild
      obtain ⟨first, hfirst, hbuild⟩ := Option.bind_eq_some_iff.1 hbuild
      obtain ⟨others, hothers, rfl⟩ := Option.map_eq_some_iff.1 hbuild
      rw [Json.foreignOfAll, toValues_cons]
      exact (hlib.decided_toValue hfirst).cons (hlib.decided_toValues hothers)

end

/-! ## Data there and back -/

/-- What is written stands for a value, and nothing is lost. -/
structure Carries (lib : JsonLibrary) (written : Json Literal) (json : Json lib.Num)
    (v : Value) : Prop where
  ofValue : lib.ofValue v = .ok json
  toValue : lib.toValue json = .ok v
  build : lib.build? written = some json
  text : Written (json.compactText lib.numberText) written
  nesting : written.nesting = v.nesting

structure AllCarry (lib : JsonLibrary) (written : List (Json Literal))
    (items : List (Json lib.Num)) (vs : List Value) : Prop where
  ofValues : lib.ofValues vs = .ok items
  toValues : lib.toValues items = .ok vs
  build : Json.buildItems? lib.ofLiteral? lib.collect written = some items
  eq_nil : items = [] → written = []
  text : items ≠ [] → Parts Written (Json.compactItems lib.numberText items) written
  nesting : Json.nestingOfAll written = Value.nestingOfAll vs

theorem AllCarry.cons {first : Json Literal} {written : List (Json Literal)}
    {json : Json lib.Num} {items : List (Json lib.Num)} {v : Value} {vs : List Value}
    (hfirst : lib.Carries first json v) (hrest : lib.AllCarry written items vs) :
    lib.AllCarry (first :: written) (json :: items) (v :: vs) where
  ofValues := by
    rw [ofValues_cons, hfirst.ofValue, hrest.ofValues]
    rfl
  toValues := by
    rw [toValues_cons, hfirst.toValue, hrest.toValues]
    rfl
  build := by
    rw [Json.buildItems?_cons, hrest.build]
    exact congrArg (Option.bind · _) hfirst.build
  eq_nil hnil := absurd hnil (List.cons_ne_nil json items)
  text _ := by
    cases items with
    | nil =>
        rw [hrest.eq_nil rfl]
        have hlast := Parts.last Json.blank_nil hfirst.text Json.blank_nil
        simpa only [Json.compactItems, List.nil_append, List.append_nil] using hlast
    | cons next items =>
        have hcons := Parts.cons Json.blank_nil hfirst.text Json.blank_nil
          (hrest.text (List.cons_ne_nil next items))
        simpa only [Json.compactItems, List.nil_append, List.append_nil] using hcons
  nesting := by rw [Json.nestingOfAll, hfirst.nesting, hrest.nesting, Value.nestingOfAll]

mutual

theorem Lawful.exists_carries (hlib : lib.Lawful) : ∀ {v : Value}, v.IsData →
    ∃ written json, lib.Carries written json v
  | .number n, _ => by
      obtain ⟨literal, hnumeral, hinteger⟩ := Json.exists_numeral_text n
      refine ⟨.number literal, .number (lib.ofInteger n), rfl, ?_, ?_, ?_, rfl⟩
      · simp [toValue, hlib.integer?_ofInteger]
      · simp [build?, Json.build?, hlib.ofLiteral?_of_integer literal n hinteger]
      · rw [Json.compactText, hlib.numberText_ofInteger]
        exact .number hnumeral
  | .string s, _ => by
      refine ⟨.string s.toList, .string s.toList, rfl, ?_, rfl, ?_, rfl⟩
      · simp [toValue]
      · exact .string (Json.inside_flatMap_charText s.toList)
  | .bool b, _ => by
      refine ⟨.bool b, .bool b, rfl, rfl, rfl, ?_, rfl⟩
      cases b with
      | true => exact .true
      | false => exact .false
  | .placeholder, _ => ⟨.null, .null, rfl, rfl, rfl, .null, rfl⟩
  | .list items, hdata => by
      obtain ⟨written, built, hitems⟩ := Lawful.exists_allCarry hlib hdata
      refine ⟨.array written, .array built, ?_, ?_, ?_, ?_, ?_⟩
      · rw [ofValue_list, hitems.ofValues]
        rfl
      · rw [toValue_array, hitems.toValues]
        rfl
      · simp [build?, Json.build?, hitems.build]
      · cases built with
        | nil =>
            rw [hitems.eq_nil rfl]
            exact .emptyArray Json.blank_nil
        | cons first built => exact .array (hitems.text (List.cons_ne_nil first built))
      · rw [Json.nesting, hitems.nesting, Value.nesting]
  | .range _, hdata | .method _, hdata | .form _, hdata => by cases hdata

theorem Lawful.exists_allCarry (hlib : lib.Lawful) : ∀ {vs : List Value}, Value.AllData vs →
    ∃ written items, lib.AllCarry written items vs
  | [], _ => ⟨[], [], rfl, rfl, rfl, fun _ => rfl, (absurd rfl ·), rfl⟩
  | v :: rest, hdata => by
      obtain ⟨first, json, hfirst⟩ := Lawful.exists_carries hlib hdata.1
      obtain ⟨written, items, hrest⟩ := Lawful.exists_allCarry hlib hdata.2
      exact ⟨first :: written, json :: items, hrest.cons hfirst⟩

end

mutual

theorem isData_toValue : ∀ {written : Json Literal} {json : Json lib.Num} {v : Value},
    lib.build? written = some json → lib.toValue json = .ok v →
      v.IsData ∧ v.nesting = written.nesting
  | .null, json, v, hbuild, heq | .bool _, json, v, hbuild, heq
  | .string _, json, v, hbuild, heq => by
      cases hbuild
      cases heq
      exact ⟨trivial, rfl⟩
  | .number literal, json, v, hbuild, heq => by
      obtain ⟨number, _, rfl⟩ := Option.map_eq_some_iff.1 hbuild
      rw [toValue] at heq
      split at heq
      · cases heq
        exact ⟨trivial, rfl⟩
      · cases heq
  | .object _, json, v, hbuild, heq => by
      obtain ⟨_, _, rfl⟩ := Option.map_eq_some_iff.1 hbuild
      cases heq
  | .array items, json, v, hbuild, heq => by
      obtain ⟨built, hbuilt, rfl⟩ := Option.map_eq_some_iff.1 hbuild
      rw [toValue_array] at heq
      cases hvalues : lib.toValues built with
      | error error =>
          rw [hvalues] at heq
          cases heq
      | ok values =>
          rw [hvalues] at heq
          cases heq
          obtain ⟨hdata, hnesting⟩ := allData_toValues hbuilt hvalues
          exact ⟨hdata, by rw [Value.nesting, hnesting, Json.nesting]⟩

theorem allData_toValues : ∀ {items : List (Json Literal)} {built : List (Json lib.Num)}
    {vs : List Value}, Json.buildItems? lib.ofLiteral? lib.collect items = some built →
      lib.toValues built = .ok vs →
        Value.AllData vs ∧ Value.nestingOfAll vs = Json.nestingOfAll items
  | [], built, vs, hbuild, heq => by
      cases hbuild
      cases heq
      exact ⟨trivial, rfl⟩
  | item :: rest, built, vs, hbuild, heq => by
      rw [Json.buildItems?_cons] at hbuild
      obtain ⟨first, hfirst, hbuild⟩ := Option.bind_eq_some_iff.1 hbuild
      obtain ⟨others, hothers, rfl⟩ := Option.map_eq_some_iff.1 hbuild
      rw [toValues_cons] at heq
      cases hitem : lib.toValue first with
      | error error =>
          rw [hitem] at heq
          cases heq
      | ok v =>
          cases hvalues : lib.toValues others with
          | error error =>
              rw [hitem, hvalues] at heq
              cases heq
          | ok values =>
              rw [hitem, hvalues] at heq
              cases heq
              obtain ⟨hdata, hnesting⟩ := isData_toValue hfirst hitem
              obtain ⟨hrestData, hrestNesting⟩ := allData_toValues hothers hvalues
              refine ⟨⟨hdata, hrestData⟩, ?_⟩
              rw [Value.nestingOfAll, hnesting, hrestNesting, Json.nestingOfAll]

end

end

end JsonLibrary

end ArityScript
