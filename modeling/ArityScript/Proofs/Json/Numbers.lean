import ArityScript.Proofs.Json.Grammar
import Mathlib.Tactic.GCongr
import Mathlib.Tactic.Ring

/-!
# Integers in JSON

A literal is an integer of the language exactly if it is written as the language
writes this integer.  All others have a fraction or an exponent, or are minus zero or
integers beyond 64 bits with a sign.
-/

namespace ArityScript.Json

/-! ## Decimal digits -/

theorem exists_digitChar {c : Char} (hdigit : c.isDigit = true) :
    ∃ digit, digit < 10 ∧ c = digit.digitChar := by
  have htable : ∀ digit < 10, Char.ofNat (48 + digit) = digit.digitChar := by decide
  have hcode : 48 ≤ c.toNat ∧ c.toNat ≤ 57 := by
    simp only [Char.isDigit, Bool.and_eq_true, decide_eq_true_eq, ge_iff_le,
      UInt32.le_iff_toNat_le] at hdigit
    exact hdigit
  have hlt : c.toNat - 48 < 10 := by omega
  refine ⟨c.toNat - 48, hlt, ?_⟩
  rw [← htable _ hlt, Nat.add_sub_cancel' hcode.1, Char.ofNat_toNat]

theorem digits_toDigits (n : Nat) : Digits (Nat.toDigits 10 n) :=
  fun _ hc => Nat.isDigit_of_mem_toDigits (by decide) (by decide) hc

theorem le_ofDigitChars (digits : List Char) (number : Nat) :
    number ≤ Nat.ofDigitChars 10 digits number := by
  induction digits generalizing number with
  | nil => simp
  | cons digit rest ih =>
      rw [Nat.ofDigitChars_cons]
      have hrest := ih (10 * number + (digit.toNat - '0'.toNat))
      omega

theorem toNat_sub_le {digit : Char} (hdigit : digit.isDigit = true) :
    digit.toNat - '0'.toNat ≤ 9 := by
  obtain ⟨value, hvalue, rfl⟩ := exists_digitChar hdigit
  exact (Nat.toNat_digitChar_sub_48_of_lt_ten hvalue).trans_le (Nat.le_of_lt_succ hvalue)

theorem ofDigitChars_bounds {digits : List Char} (hdigits : Digits digits) (number : Nat) :
    number * 10 ^ digits.length ≤ Nat.ofDigitChars 10 digits number ∧
      Nat.ofDigitChars 10 digits number < (number + 1) * 10 ^ digits.length := by
  induction digits generalizing number with
  | nil => simp
  | cons digit rest ih =>
      have hdigit := toNat_sub_le (hdigits digit List.mem_cons_self)
      obtain ⟨hlow, hhigh⟩ := ih (fun c hc => hdigits c (List.mem_cons_of_mem digit hc))
        (10 * number + (digit.toNat - '0'.toNat))
      rw [Nat.ofDigitChars_cons, List.length_cons, Nat.pow_succ]
      constructor
      · refine le_trans ?_ hlow
        calc number * (10 ^ rest.length * 10) = 10 * number * 10 ^ rest.length := by ring
          _ ≤ (10 * number + (digit.toNat - '0'.toNat)) * 10 ^ rest.length :=
              Nat.mul_le_mul_right _ (Nat.le_add_right _ _)
      · refine lt_of_lt_of_le hhigh ?_
        calc (10 * number + (digit.toNat - '0'.toNat) + 1) * 10 ^ rest.length
            ≤ (10 * number + 9 + 1) * 10 ^ rest.length := by gcongr
          _ = (number + 1) * (10 ^ rest.length * 10) := by ring

/-- Digits are the ones of the number that they denote, after those of another number. -/
theorem toDigits_ofDigitChars {digits : List Char} (hdigits : Digits digits) {number : Nat}
    (hnumber : 0 < number) :
    Nat.toDigits 10 (Nat.ofDigitChars 10 digits number) = Nat.toDigits 10 number ++ digits := by
  induction digits generalizing number with
  | nil => simp
  | cons digit rest ih =>
      have hrest : Digits rest := fun c hc => hdigits c (List.mem_cons_of_mem digit hc)
      obtain ⟨value, hvalue, rfl⟩ := exists_digitChar (hdigits digit List.mem_cons_self)
      have hpos : 0 < 10 * number + value := by omega
      rw [Nat.ofDigitChars_cons_digitChar_of_lt_ten hvalue, ih hrest hpos,
        ← Nat.toDigits_append_toDigits (by decide) hnumber hvalue,
        Nat.toDigits_of_lt_base hvalue, List.append_assoc]
      rfl

theorem Whole.toDigits {whole : List Char} (hwhole : Whole whole) :
    Nat.toDigits 10 (Nat.ofDigitChars 10 whole 0) = whole := by
  cases hwhole with
  | zero => rfl
  | @digits first rest hfirst hdigits =>
      have hrest : Digits rest := fun c hc => hdigits c (List.mem_cons_of_mem first hc)
      obtain ⟨value, hvalue, rfl⟩ := exists_digitChar (hdigits first List.mem_cons_self)
      have hpos : 0 < value := by
        refine Nat.pos_of_ne_zero fun hzero => hfirst ?_
        rw [hzero]
        rfl
      rw [Nat.ofDigitChars_cons_digitChar_of_lt_ten hvalue, Nat.mul_zero, Nat.zero_add,
        toDigits_ofDigitChars hrest hpos, Nat.toDigits_of_lt_base hvalue]
      rfl

theorem Whole.isDigits {whole : List Char} (hwhole : Whole whole) : Digits whole := by
  cases hwhole with
  | zero => simp [Digits]
  | digits _ hdigits => exact hdigits

theorem Fraction.isDigits {text fraction : List Char} (hfraction : Fraction text fraction) :
    Digits fraction := by
  cases hfraction with
  | none => simp [Digits]
  | digits _ hdigits => exact hdigits

theorem Numeral.digits {text : List Char} {literal : Literal} (hnumeral : Numeral text literal) :
    Digits literal.whole ∧ Digits literal.fraction := by
  cases hnumeral with
  | parts hwhole hfraction _ => exact ⟨hwhole.isDigits, hfraction.isDigits⟩

theorem Whole.append {whole more : List Char} (hwhole : Whole whole) (hne : whole ≠ ['0'])
    (hmore : Digits more) : Whole (whole ++ more) := by
  cases hwhole with
  | zero => contradiction
  | @digits first rest hfirst hdigits =>
      refine .digits hfirst fun c hc => ?_
      rw [List.append_eq, ← List.cons_append] at hc
      rcases List.mem_append.1 hc with hc | hc
      · exact hdigits c hc
      · exact hmore c hc

theorem whole_toDigits (n : Nat) : Whole (Nat.toDigits 10 n) := by
  induction n using Nat.base_induction 10 (by decide) with
  | single n hn =>
      rw [Nat.toDigits_of_lt_base hn]
      by_cases hzero : n = 0
      · subst hzero
        exact .zero
      · refine .digits (by simpa using hzero) ?_
        rw [← Nat.toDigits_of_lt_base hn]
        exact digits_toDigits n
  | digit n digit hdigit hn ih =>
      have hne : Nat.toDigits 10 n ≠ ['0'] := by
        intro heq
        have hvalue : Nat.ofDigitChars 10 (Nat.toDigits 10 n) 0 = 0 := by
          rw [heq]
          rfl
        rw [Nat.ofDigitChars_ten_toDigits] at hvalue
        omega
      rw [← Nat.toDigits_append_toDigits (by decide) hn hdigit]
      exact ih.append hne (digits_toDigits digit)

/-! ## Integers -/

theorem exists_signed (value : Int) :
    ∃ negative magnitude, value = signed negative magnitude ∧
      ¬(negative = true ∧ magnitude = 0) := by
  cases value with
  | ofNat n => exact ⟨false, n, rfl, by simp⟩
  | negSucc n => exact ⟨true, n + 1, rfl, by simp⟩

theorem decimalText_signed {negative : Bool} {magnitude : Nat}
    (hminus : ¬(negative = true ∧ magnitude = 0)) :
    Number.decimalText (signed negative magnitude) =
      minusText negative ++ Nat.toDigits 10 magnitude := by
  cases negative with
  | false => rfl
  | true =>
      cases magnitude with
      | zero => exact absurd ⟨rfl, rfl⟩ hminus
      | succ n => rfl

theorem Literal.integer?_eq_some_iff {literal : Literal} {n : Number} :
    literal.integer? = some n ↔
      literal.fraction = [] ∧ literal.exponent = none ∧
        n.toInt = signed literal.negative (Nat.ofDigitChars 10 literal.whole 0) ∧
        ¬(literal.negative = true ∧ Nat.ofDigitChars 10 literal.whole 0 = 0) := by
  unfold integer?
  simp only [List.isEmpty_iff, Option.isNone_iff_eq_none]
  split
  · next hplain => simp [hplain, Number.ofInt?_eq_some_iff]
  · next hplain =>
      simp only [reduceCtorEq, false_iff]
      rintro ⟨hfraction, hexponent, _, hminus⟩
      exact hplain ⟨hfraction, hexponent, hminus⟩

/-- The decimal text of an integer, as a literal. -/
theorem exists_numeral_text (n : Number) :
    ∃ literal, Numeral n.text literal ∧ literal.integer? = some n := by
  obtain ⟨negative, magnitude, hvalue, hminus⟩ := exists_signed n.toInt
  have hmagnitude : Nat.ofDigitChars 10 (Nat.toDigits 10 magnitude) 0 = magnitude :=
    Nat.ofDigitChars_ten_toDigits
  have hnumeral : Numeral (minusText negative ++ Nat.toDigits 10 magnitude ++ [] ++ [])
      ⟨negative, Nat.toDigits 10 magnitude, [], none⟩ :=
    .parts (whole_toDigits magnitude) .none .none
  refine ⟨⟨negative, Nat.toDigits 10 magnitude, [], none⟩, ?_,
    Literal.integer?_eq_some_iff.2 ⟨rfl, rfl, ?_, ?_⟩⟩
  · rw [Number.text, hvalue, decimalText_signed hminus]
    simpa only [List.append_nil] using hnumeral
  · rw [hmagnitude, hvalue]
  · rwa [hmagnitude]

/-- A literal is an integer of the language exactly if it is its decimal text. -/
theorem exists_numeral_integer_iff {text : List Char} {n : Number} :
    (∃ literal, Numeral text literal ∧ literal.integer? = some n) ↔ text = n.text := by
  constructor
  · rintro ⟨literal, @⟨negative, whole, _, _, _, _, hwhole, hfraction, hexponent⟩, hinteger⟩
    obtain ⟨hplain, hnone, hvalue, hminus⟩ := Literal.integer?_eq_some_iff.1 hinteger
    simp only at hplain hnone hvalue hminus
    subst hplain hnone
    cases hexponent
    cases hfraction with
    | digits hne _ => contradiction
    | none =>
        rw [Number.text, hvalue, decimalText_signed hminus, hwhole.toDigits]
        simp
  · rintro rfl
    exact exists_numeral_text n

end ArityScript.Json
