import ArityScript.Json.Exchange
import ArityScript.Proofs.Decimal
import ArityScript.Proofs.Json.Library
import ArityScript.Proofs.Json.Numbers
import ArityScript.Proofs.Json.Reading

/-!
# The library with integers and doubles

An integer literal of 64 bits is read as it is written, and every other literal as a
double.  Of the digits of a double only leading ones are kept, enough of them for the
number that they stand for to be within one rounding of the literal.  So a literal is
read if it is in the range of doubles, and refused if it is beyond, by more than a few
roundings.
-/

namespace ArityScript

namespace JsonNumber

open Binary64 (Close)
open Json (Literal Digits Numeral signed le_ofDigitChars toNat_sub_le ofDigitChars_bounds)

theorem appendDigits_of_lt {digits : List Char} {number : Nat}
    (hlt : Nat.ofDigitChars 10 digits number < largeBound) :
    appendDigits number digits = (Nat.ofDigitChars 10 digits number, 0) := by
  induction digits generalizing number with
  | nil => simp [appendDigits]
  | cons digit rest ih =>
      rw [Nat.ofDigitChars_cons] at hlt ⊢
      have hnext := Nat.lt_of_le_of_lt (le_ofDigitChars rest _) hlt
      rw [appendDigits]
      simp only [if_pos hnext]
      exact ih hlt

theorem appendDigits_of_le {digits : List Char} {number : Nat} (hnumber : number < largeBound)
    (hle : largeBound ≤ Nat.ofDigitChars 10 digits number) :
    (appendDigits number digits).2 ≠ 0 := by
  induction digits generalizing number with
  | nil =>
      simp only [Nat.ofDigitChars_nil] at hle
      omega
  | cons digit rest ih =>
      rw [Nat.ofDigitChars_cons] at hle
      rw [appendDigits]
      by_cases hnext : 10 * number + (digit.toNat - '0'.toNat) < largeBound
      · simp only [if_pos hnext]
        exact ih hnext hle
      · simp only [if_neg hnext]
        omega

/-- What is known of a number and the digits that are appended to it as long as they fit:
the leading digits of the whole number are kept, and all of them unless it is large. -/
structure Appended (number : Nat) (digits : List Char) (kept ignored : Nat) : Prop where
  kept_lt : kept < largeBound
  ignored_le : ignored ≤ digits.length
  kept_mul_le : kept * 10 ^ ignored ≤ Nat.ofDigitChars 10 digits number
  lt_kept_mul : Nat.ofDigitChars 10 digits number < (kept + 1) * 10 ^ ignored
  number_mul_le : number * 10 ^ (digits.length - ignored) ≤ kept
  lt_number_mul : kept < (number + 1) * 10 ^ (digits.length - ignored)
  le_kept : ignored ≠ 0 → 2 ^ 51 ≤ kept

theorem appended {digits : List Char} (hdigits : Digits digits) {number : Nat}
    (hnumber : number < largeBound) :
    Appended number digits (appendDigits number digits).1 (appendDigits number digits).2 := by
  induction digits generalizing number with
  | nil => constructor <;> simp [appendDigits, hnumber]
  | cons digit rest ih =>
      have hdigit := toNat_sub_le (hdigits digit List.mem_cons_self)
      have hrest : Digits rest := fun c hc => hdigits c (List.mem_cons_of_mem digit hc)
      rw [appendDigits]
      generalize hnext : 10 * number + (digit.toNat - '0'.toNat) = next
      by_cases hfits : next < largeBound
      · simp only [if_pos hfits]
        obtain ⟨hkept, hignored, hlow, hhigh, hnumberLow, hnumberHigh, hlarge⟩ := ih hrest hfits
        generalize (appendDigits next rest).1 = kept at *
        generalize (appendDigits next rest).2 = ignored at *
        have hlength : (digit :: rest).length - ignored = rest.length - ignored + 1 := by
          rw [List.length_cons]
          omega
        refine ⟨hkept, hignored.trans (Nat.le_succ _), ?_, ?_, ?_, ?_, hlarge⟩
        · rwa [Nat.ofDigitChars_cons, hnext]
        · rwa [Nat.ofDigitChars_cons, hnext]
        · rw [hlength, Nat.pow_succ, mul_comm _ 10, ← mul_assoc]
          refine (Nat.mul_le_mul_right _ ?_).trans hnumberLow
          omega
        · rw [hlength, Nat.pow_succ, mul_comm _ 10, ← mul_assoc]
          refine lt_of_lt_of_le hnumberHigh (Nat.mul_le_mul_right _ ?_)
          omega
      · simp only [if_neg hfits]
        obtain ⟨hlow, hhigh⟩ := ofDigitChars_bounds hdigits number
        refine ⟨hnumber, le_rfl, hlow, hhigh, ?_, ?_, fun _ => ?_⟩
        · simp
        · simp
        · unfold largeBound at hfits
          omega

/-- The digits that are kept of a whole part and a fraction stand for a number that is
close to the one with all digits: either all are kept, or many of the leading ones. -/
theorem Appended.close {whole fraction : List Char} {front excess kept ignored : Nat}
    (hfraction : Digits fraction) (hfront : Appended 0 whole front excess)
    (hback : Appended front fraction kept ignored) :
    Close (kept * 10 ^ (excess + ignored) : Nat)
      (Nat.ofDigitChars 10 fraction (Nat.ofDigitChars 10 whole 0) : Nat) := by
  by_cases hexcess : excess = 0
  · have hlow := hfront.kept_mul_le
    have hhigh := hfront.lt_kept_mul
    rw [hexcess, Nat.pow_zero, Nat.mul_one] at hlow hhigh
    obtain hvalue : Nat.ofDigitChars 10 whole 0 = front := by omega
    rw [hvalue, hexcess, Nat.zero_add]
    by_cases hignored : ignored = 0
    · have hlow := hback.kept_mul_le
      have hhigh := hback.lt_kept_mul
      rw [hignored, Nat.pow_zero, Nat.mul_one] at hlow hhigh ⊢
      obtain hall : Nat.ofDigitChars 10 fraction front = kept := by omega
      rw [hall]
      exact Close.refl (Nat.cast_nonneg _)
    · exact .of_leading (hback.le_kept hignored)
        ⟨le_rfl, Nat.mul_le_mul_right _ (Nat.le_succ _)⟩
        ⟨hback.kept_mul_le, hback.lt_kept_mul.le⟩
  · obtain ⟨hlow, hhigh⟩ := ofDigitChars_bounds hfraction (Nat.ofDigitChars 10 whole 0)
    have hkept : 10 ^ (excess + fraction.length) =
        10 ^ (fraction.length - ignored) * 10 ^ (excess + ignored) := by
      have hignored := hback.ignored_le
      rw [← Nat.pow_add]
      congr 1
      omega
    have hread : front * 10 ^ (excess + fraction.length) ≤ kept * 10 ^ (excess + ignored) ∧
        kept * 10 ^ (excess + ignored) ≤ (front + 1) * 10 ^ (excess + fraction.length) := by
      rw [hkept, ← Nat.mul_assoc, ← Nat.mul_assoc]
      exact ⟨Nat.mul_le_mul_right _ hback.number_mul_le,
        Nat.mul_le_mul_right _ hback.lt_number_mul.le⟩
    refine .of_leading (hfront.le_kept hexcess) hread ?_
    rw [Nat.pow_add, ← Nat.mul_assoc, ← Nat.mul_assoc]
    exact ⟨(Nat.mul_le_mul_right _ hfront.kept_mul_le).trans hlow,
      hhigh.le.trans (Nat.mul_le_mul_right _ hfront.lt_kept_mul)⟩

section

variable {literal : Literal} (hwhole : Digits literal.whole) (hfraction : Digits literal.fraction)

include hwhole hfraction

/-- A literal is read by the digits that are kept of it. -/
theorem exists_kept : ∃ kept ignored : Nat, kept < largeBound ∧
    Close (kept * 10 ^ ignored : Nat)
      (Nat.ofDigitChars 10 (literal.whole ++ literal.fraction) 0 : Nat) ∧
    ofLiteral? literal =
      if literal.fraction = [] ∧ literal.exponent = none ∧ ignored = 0 then
        integerOf literal.negative kept
      else
        doubleOf literal.negative kept
          (literal.exponent.getD 0 + ignored - literal.fraction.length) := by
  obtain ⟨front, excess, hfrontEq⟩ : ∃ front excess,
      appendDigits 0 literal.whole = (front, excess) := ⟨_, _, rfl⟩
  obtain ⟨kept, ignored, hbackEq⟩ : ∃ kept ignored,
      appendDigits front literal.fraction = (kept, ignored) := ⟨_, _, rfl⟩
  have hfront := appended hwhole (show 0 < largeBound by decide)
  rw [hfrontEq] at hfront
  have hback := appended hfraction hfront.kept_lt
  rw [hbackEq] at hback
  refine ⟨kept, excess + ignored, hback.kept_lt, ?_, ?_⟩
  · rw [Nat.ofDigitChars_append]
    exact hfront.close hfraction hback
  · simp only [ofLiteral?, hfrontEq, hbackEq, List.isEmpty_iff, Option.isNone_iff_eq_none]
    by_cases hplain : literal.fraction = []
    · rw [hplain, appendDigits] at hbackEq
      cases hbackEq
      simp [hplain]
    · simp only [hplain, false_and, if_false]
      congr 1
      push_cast
      ring

end

theorem doubleOf_ne_integer {negative : Bool} {digits : Nat} {exponent : Int} {n : Number} :
    doubleOf negative digits exponent ≠ some (.integer n) := by
  intro heq
  obtain ⟨double, _, heq⟩ := Option.map_eq_some_iff.1 heq
  cases heq

theorem integerOf_eq_integer_iff {negative : Bool} {magnitude : Nat} {n : Number} :
    integerOf negative magnitude = some (.integer n) ↔
      n.toInt = signed negative magnitude ∧ ¬(negative = true ∧ magnitude = 0) := by
  unfold integerOf signed
  cases negative with
  | true =>
      by_cases hzero : magnitude = 0
      · simp [hzero, doubleOf_ne_integer]
      · simp only [if_true, hzero, if_false, and_false, not_false_eq_true, and_true,
          ← Number.ofInt?_eq_some_iff]
        cases Number.ofInt? (-magnitude) with
        | none => simp [doubleOf_ne_integer]
        | some found => simp
  | false =>
      simp only [Bool.false_eq_true, if_false, false_and, not_false_eq_true, and_true,
        ← Number.ofInt?_eq_some_iff]
      cases Number.ofInt? magnitude with
      | none => simp
      | some found => simp

theorem ofLiteral?_eq_integer_iff {literal : Literal} {n : Number} :
    ofLiteral? literal = some (.integer n) ↔ literal.integer? = some n := by
  obtain ⟨negative, whole, fraction, exponent⟩ := literal
  rw [Literal.integer?_eq_some_iff]
  by_cases hplain : fraction = [] ∧ exponent = none ∧
      Nat.ofDigitChars 10 whole 0 < largeBound
  · obtain ⟨rfl, rfl, hlt⟩ := hplain
    simp [ofLiteral?, appendDigits_of_lt hlt, integerOf_eq_integer_iff]
  · constructor
    · intro hinteger
      have hexcess : largeBound ≤ Nat.ofDigitChars 10 whole 0 →
          (appendDigits 0 whole).2 ≠ 0 := appendDigits_of_le (by decide)
      unfold ofLiteral? at hinteger
      rcases appendDigits 0 whole with ⟨digits, excess⟩
      simp only at hinteger
      split at hinteger
      · next hparts =>
          obtain ⟨hfraction, hexponent, hfits⟩ := hparts
          refine absurd ⟨List.isEmpty_iff.1 hfraction, Option.isNone_iff_eq_none.1 hexponent, ?_⟩
            hplain
          exact Nat.lt_of_not_le fun hle => hexcess hle hfits
      · exact absurd hinteger doubleOf_ne_integer
    · rintro ⟨rfl, rfl, hvalue, _⟩
      have hlarge : largeBound ≤ Nat.ofDigitChars 10 whole 0 :=
        Nat.not_lt.1 fun hlt => hplain ⟨rfl, rfl, hlt⟩
      have hleast := Number.least_le_toInt n
      have hgreatest := Number.toInt_le_greatest n
      unfold Number.least at hleast
      unfold Number.greatest at hgreatest
      unfold largeBound at hlarge
      simp only [signed] at hvalue
      split at hvalue <;> omega

theorem isSome_doubleOf {negative : Bool} {digits : Nat} {exponent : Int} :
    (doubleOf negative digits exponent).isSome =
      (Binary64.ofDecimal? ⟨negative, digits, exponent⟩).isSome :=
  Option.isSome_map

/-- Integers below the bound are always in the range of doubles. -/
theorem isSome_integerOf {negative : Bool} {magnitude : Nat} (hmagnitude : magnitude < 2 ^ 64) :
    (integerOf negative magnitude).isSome = true := by
  unfold integerOf
  cases negative with
  | true =>
      rw [if_pos rfl]
      split
      · rw [isSome_doubleOf]
        exact Binary64.isSome_ofDecimal?_integer (Nat.two_pow_pos 64)
      · split
        · rfl
        · rw [isSome_doubleOf]
          exact Binary64.isSome_ofDecimal?_integer hmagnitude
  | false =>
      rw [if_neg Bool.false_ne_true]
      split <;> rfl

/-- A literal is read as a decimal close to it would be. -/
theorem exists_decimal {text : List Char} {literal : Literal} (hnumeral : Numeral text literal) :
    ∃ (digits : Nat) (exponent : Int), digits < 2 ^ 64 ∧
      Close (digits * 10 ^ exponent) literal.magnitude ∧
      (ofLiteral? literal).isSome =
        (Binary64.ofDecimal? ⟨literal.negative, digits, exponent⟩).isSome := by
  obtain ⟨hwhole, hfraction⟩ := hnumeral.digits
  obtain ⟨kept, ignored, hkept, hclose, heq⟩ := exists_kept hwhole hfraction
  refine ⟨kept, literal.exponent.getD 0 + ignored - literal.fraction.length, hkept, ?_, ?_⟩
  · have hscaled := hclose.mul_right
      (show (0 : ℚ) ≤ 10 ^ (literal.exponent.getD 0 - literal.fraction.length) by positivity)
    have hexponent : literal.exponent.getD 0 + ignored - literal.fraction.length =
        ignored + (literal.exponent.getD 0 - literal.fraction.length) := by ring
    rw [Nat.cast_mul, Nat.cast_pow, Nat.cast_ofNat, mul_assoc, ← zpow_natCast,
      ← zpow_add₀ (by norm_num), ← hexponent] at hscaled
    exact hscaled
  · rw [heq]
    split
    · next hplain =>
        obtain ⟨hfraction, hexponent, hignored⟩ := hplain
        rw [hfraction, hexponent, hignored, isSome_integerOf hkept]
        exact (Binary64.isSome_ofDecimal?_integer hkept).symm
    · exact isSome_doubleOf

end JsonNumber

theorem Json.read?_eq_some_iff {text : String} {json : Json JsonNumber} :
    read? text = some json ↔
      ∃ written, Document text.toList written ∧ written.nesting ≤ 127 ∧
        build? JsonNumber.ofLiteral? collectMembers written = some json := by
  simp only [read?, Option.bind_eq_some_iff, parse?_eq_some_iff, and_assoc]
  rfl

namespace JsonLibrary

theorem lawful_standard : standard.Lawful where
  read?_eq_some_iff text json := Json.read?_eq_some_iff
  toList_write json := String.toList_ofList
  numberText_ofInteger _ := rfl
  integer?_ofInteger _ := rfl
  ofLiteral?_of_integer literal n hinteger := JsonNumber.ofLiteral?_eq_integer_iff.2 hinteger
  integer?_of_literal literal number hinteger hnumber := by
    cases number with
    | integer n =>
        rw [JsonNumber.ofLiteral?_eq_integer_iff.1 hnumber] at hinteger
        cases hinteger
    | large n => rfl
    | double d => rfl
  isSome_ofLiteral? text literal hnumeral hsmall := by
    obtain ⟨digits, exponent, hdigits, hclose, heq⟩ := JsonNumber.exists_decimal hnumeral
    exact heq.trans (Binary64.isSome_ofDecimal?_of_close hdigits hclose hsmall)
  ofLiteral?_eq_none text literal hnumeral hlarge := by
    obtain ⟨digits, exponent, hdigits, hclose, heq⟩ := JsonNumber.exists_decimal hnumeral
    rw [Binary64.ofDecimal?_eq_none_of_close hdigits hclose hlarge] at heq
    exact Option.not_isSome_iff_eq_none.1 (Bool.eq_false_iff.1 heq)

end JsonLibrary

end ArityScript
