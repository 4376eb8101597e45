import ArityScript.Proofs.Json.Grammar

/-!
# Libraries for JSON

A lawful library reads the texts of the grammar that are nested at most 127 levels
deep and whose literals are in the range of its doubles, and writes compact texts.
Integers of 64 bits are numbers of their own.  All other literals are no integers for
it: those with a fraction or an exponent, minus zero, and integers of more than 64 bits.

The range of doubles ends at `2 ^ 1024`.  How a literal near to that is rounded is
left to the library.
-/

namespace ArityScript

open Json (Literal Numeral Document)

namespace JsonLibrary

structure Lawful (lib : JsonLibrary) : Prop where
  read?_eq_some_iff : ∀ text json, lib.read? text = some json ↔
    ∃ written, Document text.toList written ∧ written.nesting ≤ 127 ∧
      lib.build? written = some json
  toList_write : ∀ json, (lib.write json).toList = json.compactText lib.numberText
  numberText_ofInteger : ∀ n, lib.numberText (lib.ofInteger n) = n.text
  integer?_ofInteger : ∀ n, lib.integer? (lib.ofInteger n) = some n
  ofLiteral?_of_integer : ∀ literal n, literal.integer? = some n →
    lib.ofLiteral? literal = some (lib.ofInteger n)
  integer?_of_literal : ∀ literal number, literal.integer? = none →
    lib.ofLiteral? literal = some number → lib.integer? number = none
  isSome_ofLiteral? : ∀ text literal, Numeral text literal →
    literal.magnitude ≤ 2 ^ 1024 - 2 ^ 980 → (lib.ofLiteral? literal).isSome = true
  ofLiteral?_eq_none : ∀ text literal, Numeral text literal →
    2 ^ 1024 + 2 ^ 980 ≤ literal.magnitude → lib.ofLiteral? literal = none

/-- What is read of a text: JSON that is not nested too deeply and has no number beyond
the range of doubles. -/
structure WellFormed (lib : JsonLibrary) (text : String) (written : Json Literal) : Prop where
  document : Document text.toList written
  nesting_le : written.nesting ≤ 127
  inRange : ∀ literal ∈ written.numbers, (lib.ofLiteral? literal).isSome = true

end JsonLibrary

/-! ## Literals and their numbers -/

namespace Json

section

variable {ν : Type} {ofLiteral? : Literal → Option ν}
  {collect : List (List Char × Json ν) → List (List Char × Json ν)}

theorem buildItems?_cons (item : Json Literal) (rest : List (Json Literal)) :
    buildItems? ofLiteral? collect (item :: rest) =
      (build? ofLiteral? collect item).bind fun item =>
        (buildItems? ofLiteral? collect rest).map (item :: ·) := by
  rw [buildItems?]
  cases build? ofLiteral? collect item with
  | none => rfl
  | some item => cases buildItems? ofLiteral? collect rest <;> rfl

theorem buildMembers?_cons (key : List Char) (value : Json Literal)
    (rest : List (List Char × Json Literal)) :
    buildMembers? ofLiteral? collect ((key, value) :: rest) =
      (build? ofLiteral? collect value).bind fun value =>
        (buildMembers? ofLiteral? collect rest).map ((key, value) :: ·) := by
  rw [buildMembers?]
  cases build? ofLiteral? collect value with
  | none => rfl
  | some value => cases buildMembers? ofLiteral? collect rest <;> rfl

mutual

/-- A value is built exactly if there is a number for each literal in it. -/
theorem isSome_build? : ∀ written : Json Literal,
    (build? ofLiteral? collect written).isSome = true ↔
      ∀ literal ∈ written.numbers, (ofLiteral? literal).isSome = true
  | .null | .bool _ | .string _ => by simp [build?, numbers]
  | .number literal => by simp [build?, numbers]
  | .array items => by simpa [build?, numbers] using isSome_buildItems? items
  | .object members => by simpa [build?, numbers] using isSome_buildMembers? members

theorem isSome_buildItems? : ∀ items : List (Json Literal),
    (buildItems? ofLiteral? collect items).isSome = true ↔
      ∀ literal ∈ numbersOfAll items, (ofLiteral? literal).isSome = true
  | [] => by simp [buildItems?, numbersOfAll]
  | item :: rest => by
      simp only [numbersOfAll, List.forall_mem_append, ← isSome_build? item,
        ← isSome_buildItems? rest, buildItems?_cons]
      cases build? ofLiteral? collect item <;> simp

theorem isSome_buildMembers? : ∀ members : List (List Char × Json Literal),
    (buildMembers? ofLiteral? collect members).isSome = true ↔
      ∀ literal ∈ numbersOfMembers members, (ofLiteral? literal).isSome = true
  | [] => by simp [buildMembers?, numbersOfMembers]
  | (key, value) :: rest => by
      simp only [numbersOfMembers, List.forall_mem_append, ← isSome_build? value,
        ← isSome_buildMembers? rest, buildMembers?_cons]
      cases build? ofLiteral? collect value <;> simp

end

end

end Json

namespace JsonLibrary

variable {lib : JsonLibrary} {text : String}

theorem WellFormed.exists_build {written : Json Literal} (hwritten : lib.WellFormed text written) :
    ∃ json, lib.build? written = some json :=
  Option.isSome_iff_exists.1 ((Json.isSome_build? written).2 hwritten.inRange)

/-- A text is read as what is built of the value that is written in it. -/
theorem Lawful.read?_eq_some_iff_wellFormed (hlib : lib.Lawful) {json : Json lib.Num} :
    lib.read? text = some json ↔
      ∃ written, lib.WellFormed text written ∧ lib.build? written = some json := by
  rw [hlib.read?_eq_some_iff]
  constructor
  · rintro ⟨written, hdocument, hnesting, hbuild⟩
    have hinRange := (Json.isSome_build? written).1 (Option.isSome_of_eq_some hbuild)
    exact ⟨written, ⟨hdocument, hnesting, hinRange⟩, hbuild⟩
  · rintro ⟨written, hwritten, hbuild⟩
    exact ⟨written, hwritten.document, hwritten.nesting_le, hbuild⟩

end JsonLibrary

end ArityScript
