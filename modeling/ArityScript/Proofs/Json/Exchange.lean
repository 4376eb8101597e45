import ArityScript.Proofs.Json.Data
import ArityScript.Proofs.Json.Standard

/-!
# Exchanging data loses nothing

With any lawful library, data that is nested at most 127 levels deep is given back as it
was, and nothing else is accepted.  A conversion to JSON fails at the first method that
is not quoted.  A text is refused as malformed if the grammar derives nothing from it,
and otherwise at its first object or number that is no integer of the language.
-/

namespace ArityScript

open Json (Literal)

def Error.parseKind? : Error → Option ParseErrorKind
  | .parse failure => some failure.cause.kind
  | _ => none

def Error.evalKind? : Error → Option EvalErrorKind
  | .eval failure => some failure.cause.kind
  | _ => none

namespace JsonLibrary

def malformedError (text : String) : Error :=
  .parse ⟨.malformedJson, none, some (String.ofList (text.toList.take malformedLength))⟩

variable {lib : JsonLibrary}

theorem evalKind?_refusal (part : Json Literal) :
    (lib.refusal part).evalKind? = some .typeMismatch := by
  unfold refusal
  split <;> rfl

theorem parseKind?_refusal (part : Json Literal) : (lib.refusal part).parseKind? = none := by
  unfold refusal
  split <;> rfl

theorem parse_of_read? {text : String} {json : Json lib.Num}
    (hread : lib.read? text = some json) : lib.parse text = lib.toValue json := by
  rw [parse, hread]

theorem Lawful.exists_parse (hlib : lib.Lawful) {text : String} {written : Json Literal}
    (hwritten : lib.WellFormed text written) :
    ∃ json, lib.build? written = some json ∧ lib.parse text = lib.toValue json := by
  obtain ⟨json, hbuild⟩ := hwritten.exists_build
  have hread := hlib.read?_eq_some_iff_wellFormed.2 ⟨written, hwritten, hbuild⟩
  exact ⟨json, hbuild, parse_of_read? hread⟩

theorem Lawful.parse_of_malformed (hlib : lib.Lawful) {text : String}
    (hnone : ∀ written, ¬lib.WellFormed text written) :
    lib.parse text = .error (malformedError text) := by
  have hread : lib.read? text = none := by
    refine Option.eq_none_iff_forall_ne_some.2 fun json hread => ?_
    obtain ⟨written, hwritten, _⟩ := hlib.read?_eq_some_iff_wellFormed.1 hread
    exact hnone written hwritten
  rw [parse, hread]
  rfl

theorem Lawful.parse_write (hlib : lib.Lawful) {v : Value} (hdata : v.IsData)
    (hnesting : v.nesting ≤ 127) :
    ∃ json, lib.ofValue v = .ok json ∧ lib.parse (lib.write json) = .ok v := by
  obtain ⟨written, json, hcarries⟩ := hlib.exists_carries hdata
  have hdocument := Json.Document.mk Json.blank_nil hcarries.text Json.blank_nil
  rw [List.nil_append, List.append_nil, ← hlib.toList_write] at hdocument
  have hread : lib.read? (lib.write json) = some json :=
    (hlib.read?_eq_some_iff _ _).2
      ⟨written, hdocument, hcarries.nesting ▸ hnesting, hcarries.build⟩
  exact ⟨json, hcarries.ofValue, (parse_of_read? hread).trans hcarries.toValue⟩

theorem Lawful.isData_of_parse (hlib : lib.Lawful) {text : String} {v : Value}
    (hparse : lib.parse text = .ok v) : v.IsData ∧ v.nesting ≤ 127 := by
  by_cases hwell : ∃ written, lib.WellFormed text written
  · obtain ⟨written, hwritten⟩ := hwell
    obtain ⟨json, hbuild, heq⟩ := hlib.exists_parse hwritten
    obtain ⟨hdata, hnesting⟩ := isData_toValue hbuild (heq ▸ hparse)
    exact ⟨hdata, hnesting ▸ hwritten.nesting_le⟩
  · rw [hlib.parse_of_malformed (not_exists.1 hwell)] at hparse
    cases hparse

theorem Lawful.parse_eq_error_iff (hlib : lib.Lawful) {text : String} {error : Error} :
    lib.parse text = .error error ↔
      (¬∃ written, lib.WellFormed text written) ∧ error = malformedError text ∨
      ∃ written part, lib.WellFormed text written ∧ written.foreign.head? = some part ∧
        error = lib.refusal part := by
  constructor
  · intro hparse
    by_cases hwell : ∃ written, lib.WellFormed text written
    · obtain ⟨written, hwritten⟩ := hwell
      obtain ⟨json, hbuild, heq⟩ := hlib.exists_parse hwritten
      rw [heq, (hlib.decided_toValue hbuild).eq_error_iff] at hparse
      obtain ⟨part, hpart⟩ := hparse
      exact .inr ⟨written, part, hwritten, hpart⟩
    · rw [hlib.parse_of_malformed (not_exists.1 hwell)] at hparse
      exact .inl ⟨hwell, (Except.error.inj hparse).symm⟩
  · rintro (⟨hnone, rfl⟩ | ⟨written, part, hwritten, hpart⟩)
    · exact hlib.parse_of_malformed (not_exists.1 hnone)
    · obtain ⟨json, hbuild, heq⟩ := hlib.exists_parse hwritten
      rw [heq, (hlib.decided_toValue hbuild).eq_error_iff]
      exact ⟨part, hpart⟩

theorem Lawful.wellFormed_of_inRange (hlib : lib.Lawful) {text : String} {written : Json Literal}
    (hdocument : Json.Document text.toList written) (hnesting : written.nesting ≤ 127)
    (hinRange : ∀ literal ∈ written.numbers, literal.magnitude ≤ 2 ^ 1024 - 2 ^ 980) :
    lib.WellFormed text written := by
  refine ⟨hdocument, hnesting, fun literal hmem => ?_⟩
  obtain ⟨_, hnumeral⟩ := hdocument.exists_numeral literal hmem
  exact hlib.isSome_ofLiteral? _ literal hnumeral (hinRange literal hmem)

theorem Lawful.parse_of_beyond (hlib : lib.Lawful) {text : String} {written : Json Literal}
    (hdocument : Json.Document text.toList written)
    (hbeyond : 127 < written.nesting ∨
      ∃ literal ∈ written.numbers, 2 ^ 1024 + 2 ^ 980 ≤ literal.magnitude) :
    lib.parse text = .error (malformedError text) := by
  refine hlib.parse_of_malformed fun other hother => ?_
  obtain rfl := hdocument.unique hother.document
  rcases hbeyond with hdeep | ⟨literal, hmem, hlarge⟩
  · exact absurd hother.nesting_le (Nat.not_le.2 hdeep)
  · obtain ⟨_, hnumeral⟩ := hdocument.exists_numeral literal hmem
    have hread := hother.inRange literal hmem
    rw [hlib.ofLiteral?_eq_none _ literal hnumeral hlarge] at hread
    cases hread

end JsonLibrary

/-- What is exchanged with a lawful library:

* data that is nested at most 127 levels deep comes back from its compact text, and
  every text that is accepted gives such data;
* a value has no JSON value exactly if a method occurs in it outside of quoted forms,
  and the first one is named;
* a text has invalid syntax exactly if it is not well formed, and types that do not match
  exactly if it is and has an object or a number without a value, of which the first one
  is reported; it fails in no other way;
* what the grammar derives is well formed if it is nested at most 127 levels deep and its
  numbers are in the range of doubles, and refused as malformed if it is nested deeper or
  has a number beyond that range;
* the numbers with a value are the decimal texts of integers. -/
theorem exchange_lossless {lib : JsonLibrary} (hlib : lib.Lawful) :
    (∀ v : Value, v.IsData → v.nesting ≤ 127 →
      ∃ json, lib.ofValue v = .ok json ∧ lib.parse (lib.write json) = .ok v) ∧
    (∀ text v, lib.parse text = .ok v → v.IsData ∧ v.nesting ≤ 127) ∧
    (∀ (v : Value) error, lib.ofValue v = .error error ↔
      ∃ ref, v.methods.head? = some ref ∧ error = exchangeError (.methodToJson ref.name)) ∧
    (∀ text, (∃ error, lib.parse text = .error error ∧
        error.parseKind? = some .invalidSyntax) ↔ ¬∃ written, lib.WellFormed text written) ∧
    (∀ text error, lib.parse text = .error error ∧ error.evalKind? = some .typeMismatch ↔
      ∃ written part, lib.WellFormed text written ∧ written.foreign.head? = some part ∧
        error = lib.refusal part) ∧
    (∀ text error, lib.parse text = .error error →
      error.parseKind? = some .invalidSyntax ∨ error.evalKind? = some .typeMismatch) ∧
    (∀ text written, Json.Document text.toList written →
      (written.nesting ≤ 127 →
        (∀ literal ∈ written.numbers, literal.magnitude ≤ 2 ^ 1024 - 2 ^ 980) →
          lib.WellFormed text written) ∧
      (127 < written.nesting ∨
          (∃ literal ∈ written.numbers, 2 ^ 1024 + 2 ^ 980 ≤ literal.magnitude) →
        lib.parse text = .error (JsonLibrary.malformedError text))) ∧
    ∀ text n, (∃ literal, Json.Numeral text literal ∧ literal.integer? = some n) ↔
      text = n.text := by
  refine ⟨fun v hdata => hlib.parse_write hdata, fun text v => hlib.isData_of_parse,
    fun v error => (lib.decided_ofValue v).eq_error_iff, ?_, ?_, ?_,
    fun text written hdocument =>
      ⟨hlib.wellFormed_of_inRange hdocument, hlib.parse_of_beyond hdocument⟩,
    fun text n => Json.exists_numeral_integer_iff⟩
  · intro text
    constructor
    · rintro ⟨error, hparse, hkind⟩
      rcases hlib.parse_eq_error_iff.1 hparse with ⟨hnone, _⟩ | ⟨_, part, _, _, rfl⟩
      · exact hnone
      · rw [JsonLibrary.parseKind?_refusal part] at hkind
        cases hkind
    · intro hnone
      exact ⟨_, hlib.parse_eq_error_iff.2 (.inl ⟨hnone, rfl⟩), rfl⟩
  · intro text error
    constructor
    · rintro ⟨hparse, hkind⟩
      rcases hlib.parse_eq_error_iff.1 hparse with ⟨_, rfl⟩ | hforeign
      · cases hkind
      · exact hforeign
    · rintro ⟨written, part, hwritten, hpart, rfl⟩
      refine ⟨hlib.parse_eq_error_iff.2 (.inr ⟨written, part, hwritten, hpart, rfl⟩), ?_⟩
      exact JsonLibrary.evalKind?_refusal part
  · intro text error hparse
    rcases hlib.parse_eq_error_iff.1 hparse with ⟨_, rfl⟩ | ⟨_, part, _, _, rfl⟩
    · exact .inl rfl
    · exact .inr (JsonLibrary.evalKind?_refusal part)

/-- An array with the least integer, a string with characters of several classes, and an
empty array. -/
theorem exchange_lossless_sample :
    let v : Value := .list [.number (-9223372036854775808), .string "\"\\\n\x01é😀",
      .bool true, .placeholder, .list []]
    v.IsData ∧ v.nesting ≤ 127 ∧
      parseJson "[-9223372036854775808,\"\\\"\\\\\\n\\u0001é😀\",true,null,[]]" = .ok v := by
  intro v
  have hdata : v.IsData := by simp [v, Value.IsData, Value.AllData]
  have hnesting : v.nesting ≤ 127 := by decide
  obtain ⟨json, hjson, hparse⟩ :=
    (exchange_lossless JsonLibrary.lawful_standard).1 v hdata hnesting
  have hrender : JsonLibrary.standard.write json =
      "[-9223372036854775808,\"\\\"\\\\\\n\\u0001é😀\",true,null,[]]" := by
    cases hjson
    rfl
  rw [hrender] at hparse
  exact ⟨hdata, hnesting, hparse⟩

end ArityScript
