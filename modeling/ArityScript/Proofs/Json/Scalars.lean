import ArityScript.Json.Reader
import ArityScript.Proofs.Json.Grammar

/-!
# Reading numbers and strings of JSON

A reader is sound if what it takes off the front of a text can be derived in the
grammar.  It is complete if it takes what can be derived off every text that goes on
with something else.  The end of a number is the only one that depends on what
follows it.
-/

namespace ArityScript.Json

def Read.Sound {α : Type} (read : Read α) (derives : List Char → α → Prop) : Prop :=
  ∀ ⦃chars rest : List Char⦄ ⦃a : α⦄, read chars = some (a, rest) →
    ∃ text, chars = text ++ rest ∧ derives text a

/-- What follows a value does not go on with a number. -/
def Ends (rest : List Char) : Prop :=
  ∀ c ∈ rest.head?, c.isDigit = false ∧ c ≠ '.' ∧ c ≠ 'e' ∧ c ≠ 'E'

def Read.Complete {α : Type} (read : Read α) (derives : List Char → α → Prop) : Prop :=
  ∀ ⦃text rest : List Char⦄ ⦃a : α⦄, derives text a → Ends rest →
    read (text ++ rest) = some (a, rest)

theorem of_map_eq_some {α β : Type} {f : α → β} {result : Option (α × List Char)} {b : β}
    {rest : List Char} (hmap : result.map (fun (a, after) => (f a, after)) = some (b, rest)) :
    ∃ a, result = some (a, rest) ∧ b = f a := by
  obtain ⟨⟨a, after⟩, hresult, heq⟩ := Option.map_eq_some_iff.1 hmap
  obtain ⟨rfl, rfl⟩ := Prod.mk.inj heq
  exact ⟨a, hresult, rfl⟩

def NoDigit (rest : List Char) : Prop :=
  ∀ c ∈ rest.head?, c.isDigit = false

theorem noDigit_cons {c : Char} (hc : c.isDigit = false) (rest : List Char) :
    NoDigit (c :: rest) := by
  intro d hd
  obtain rfl : c = d := Option.some.inj hd
  exact hc

theorem Ends.noDigit {rest : List Char} (hends : Ends rest) : NoDigit rest :=
  fun c hc => (hends c hc).1

/-! ## Digits -/

theorem readDigits_append {digits rest : List Char} (hdigits : Digits digits)
    (hrest : NoDigit rest) : readDigits (digits ++ rest) = (digits, rest) := by
  have hstop : rest.takeWhile Char.isDigit = [] ∧ rest.dropWhile Char.isDigit = rest := by
    cases rest with
    | nil => exact ⟨rfl, rfl⟩
    | cons c rest =>
        have hc := hrest c rfl
        simp [hc]
  rw [readDigits, List.takeWhile_append_of_pos hdigits, List.dropWhile_append_of_pos hdigits,
    hstop.1, hstop.2, List.append_nil]

theorem readSomeDigits_append {digits rest : List Char} (hne : digits ≠ [])
    (hdigits : Digits digits) (hrest : NoDigit rest) :
    readSomeDigits (digits ++ rest) = some (digits, rest) := by
  rw [readSomeDigits, readDigits_append hdigits hrest]
  cases digits with
  | nil => contradiction
  | cons first digits => rfl

theorem of_readSomeDigits {chars digits rest : List Char}
    (hread : readSomeDigits chars = some (digits, rest)) :
    chars = digits ++ rest ∧ digits ≠ [] ∧ Digits digits := by
  unfold readSomeDigits at hread
  split at hread
  · cases hread
  · next hnil =>
      obtain ⟨rfl, rfl⟩ := Prod.mk.inj (Option.some.inj hread)
      refine ⟨List.takeWhile_append_dropWhile.symm, ?_, ?_⟩
      · intro hempty
        exact hnil _ (Prod.ext hempty rfl)
      · exact fun c hc => List.all_eq_true.1 List.all_takeWhile c hc

/-! ## Numbers -/

theorem of_readWhole {chars whole rest : List Char}
    (hread : readWhole chars = some (whole, rest)) : chars = whole ++ rest ∧ Whole whole := by
  unfold readWhole at hread
  split at hread
  · next c tail =>
      split at hread
      · cases hread
      · obtain ⟨rfl, rfl⟩ := Prod.mk.inj (Option.some.inj hread)
        exact ⟨rfl, .zero⟩
  · next hzero =>
      obtain ⟨rfl, hne, hdigits⟩ := of_readSomeDigits hread
      refine ⟨rfl, ?_⟩
      cases whole with
      | nil => contradiction
      | cons first digits =>
          by_cases hfirst : first = '0'
          · subst hfirst
            -- Nothing follows this zero, as the first case does not apply.
            cases digits with
            | nil => exact .zero
            | cons second digits => exact absurd rfl (hzero second (digits ++ rest))
          · exact .digits hfirst hdigits

theorem readWhole_append {whole rest : List Char} (hwhole : Whole whole) (hrest : NoDigit rest) :
    readWhole (whole ++ rest) = some (whole, rest) := by
  cases hwhole with
  | zero =>
      cases rest with
      | nil => rfl
      | cons c rest => simp [readWhole, hrest c rfl]
  | @digits first digits hfirst hdigits =>
      have hread := readSomeDigits_append (List.cons_ne_nil first digits) hdigits hrest
      unfold readWhole
      split
      · next heq => exact absurd (List.cons.inj heq).1 hfirst
      · exact hread

theorem sound_readFraction : Read.Sound readFraction Fraction := by
  intro chars rest fraction hread
  unfold readFraction at hread
  split at hread
  · next tail =>
      obtain ⟨rfl, hne, hdigits⟩ := of_readSomeDigits hread
      exact ⟨'.' :: fraction, rfl, .digits hne hdigits⟩
  · obtain ⟨rfl, rfl⟩ := Prod.mk.inj (Option.some.inj hread)
    exact ⟨[], rfl, .none⟩

theorem readFraction_append {text fraction rest : List Char} (hfraction : Fraction text fraction)
    (hrest : ∀ c ∈ rest.head?, c.isDigit = false ∧ c ≠ '.') :
    readFraction (text ++ rest) = some (fraction, rest) := by
  cases hfraction with
  | none =>
      cases rest with
      | nil => rfl
      | cons c rest => simp [readFraction, (hrest c rfl).2]
  | digits hne hdigits =>
      exact readSomeDigits_append hne hdigits fun c hc => (hrest c hc).1

theorem sound_readExponent : Read.Sound readExponent Exponent := by
  intro chars rest exponent hread
  unfold readExponent at hread
  split at hread
  · next mark tail =>
      split at hread
      · next hmark =>
          have hdigits : ∀ {negative : Bool} {sign after : List Char}, Sign sign negative →
              (readExponentDigits negative after).map (fun (value, rest) => (some value, rest)) =
                some (exponent, rest) →
              ∃ text, mark :: sign ++ after = text ++ rest ∧ Exponent text exponent := by
            intro negative sign after hsign hread
            unfold readExponentDigits at hread
            split at hread
            · cases hread
            · next digits _ hsome =>
                obtain ⟨rfl, rfl⟩ := Prod.mk.inj (Option.some.inj hread)
                obtain ⟨rfl, hne, hdigits⟩ := of_readSomeDigits hsome
                refine ⟨mark :: sign ++ digits, by simp, ?_⟩
                exact .digits hmark hsign hne hdigits
          split at hread
          · exact hdigits .plus hread
          · exact hdigits .minus hread
          · exact hdigits .none hread
      · obtain ⟨rfl, rfl⟩ := Prod.mk.inj (Option.some.inj hread)
        exact ⟨[], rfl, .none⟩
  · obtain ⟨rfl, rfl⟩ := Prod.mk.inj (Option.some.inj hread)
    exact ⟨[], rfl, .none⟩

theorem readExponent_append {text rest : List Char} {exponent : Option Int}
    (hexponent : Exponent text exponent) (hends : Ends rest) :
    readExponent (text ++ rest) = some (exponent, rest) := by
  cases hexponent with
  | none =>
      cases rest with
      | nil => rfl
      | cons c rest =>
          obtain ⟨_, _, he, hE⟩ := hends c rfl
          simp [readExponent, he, hE]
  | @digits mark sign digits negative hmark hsign hne hdigits =>
      have hread : readExponentDigits negative (digits ++ rest) =
          some (signed negative (Nat.ofDigitChars 10 digits 0), rest) := by
        rw [readExponentDigits, readSomeDigits_append hne hdigits hends.noDigit]
      simp only [List.cons_append, readExponent, if_pos hmark]
      cases hsign with
      | plus => simp [hread]
      | minus => simp [hread]
      | none =>
          cases digits with
          | nil => contradiction
          | cons first digits =>
              -- The first digit is not taken for a sign.
              have hfirst := hdigits first List.mem_cons_self
              have hplus : first ≠ '+' := by
                rintro rfl
                contradiction
              have hminus : first ≠ '-' := by
                rintro rfl
                contradiction
              simp only [List.nil_append]
              split
              · next heq => exact absurd (List.cons.inj heq).1 hplus
              · next heq => exact absurd (List.cons.inj heq).1 hminus
              · rw [hread]
                rfl

theorem Exponent.head_append {text rest : List Char} {exponent : Option Int}
    (hexponent : Exponent text exponent) (hends : Ends rest) :
    ∀ c ∈ (text ++ rest).head?, c.isDigit = false ∧ c ≠ '.' := by
  intro c hc
  cases hexponent with
  | none =>
      obtain ⟨hdigit, hpoint, _, _⟩ := hends c hc
      exact ⟨hdigit, hpoint⟩
  | digits hmark _ _ _ =>
      obtain rfl := Option.some.inj hc
      rcases hmark with rfl | rfl <;> decide

theorem Fraction.head_append {text fraction rest : List Char} (hfraction : Fraction text fraction)
    (hrest : NoDigit rest) : NoDigit (text ++ rest) := by
  cases hfraction with
  | none => exact hrest
  | digits _ _ => exact noDigit_cons rfl _

theorem Whole.head {whole : List Char} (hwhole : Whole whole) :
    ∃ first rest, whole = first :: rest ∧ first.isDigit = true := by
  cases hwhole with
  | zero => exact ⟨'0', [], rfl, rfl⟩
  | digits _ hdigits => exact ⟨_, _, rfl, hdigits _ List.mem_cons_self⟩

theorem of_readUnsigned {negative : Bool} {chars rest : List Char} {literal : Literal}
    (hread : readUnsigned negative chars = some (literal, rest)) :
    ∃ text, chars = text ++ rest ∧ Numeral (minusText negative ++ text) literal := by
  unfold readUnsigned at hread
  split at hread
  · cases hread
  · next whole _ hwhole =>
      split at hread
      · cases hread
      · next fraction _ hfraction =>
          split at hread
          · cases hread
          · next exponent _ hexponent =>
              obtain ⟨rfl, rfl⟩ := Prod.mk.inj (Option.some.inj hread)
              obtain ⟨rfl, hwholeText⟩ := of_readWhole hwhole
              obtain ⟨fractionText, rfl, hfractionText⟩ := sound_readFraction hfraction
              obtain ⟨exponentText, rfl, hexponentText⟩ := sound_readExponent hexponent
              refine ⟨whole ++ fractionText ++ exponentText, by simp, ?_⟩
              have hnumeral : Numeral (minusText negative ++ whole ++ fractionText ++ exponentText)
                  ⟨negative, whole, fraction, exponent⟩ :=
                .parts hwholeText hfractionText hexponentText
              simpa only [List.append_assoc] using hnumeral

theorem sound_readNumber : Read.Sound readNumber Numeral := by
  intro chars rest literal hread
  unfold readNumber at hread
  split at hread
  · obtain ⟨text, rfl, hnumeral⟩ := of_readUnsigned hread
    exact ⟨'-' :: text, rfl, hnumeral⟩
  · exact of_readUnsigned hread

theorem complete_readNumber : Read.Complete readNumber Numeral := by
  intro text rest literal hnumeral hends
  obtain @⟨negative, whole, fractionText, fraction, exponentText, exponent, hwhole, hfraction,
    hexponent⟩ := hnumeral
  have hafter := hexponent.head_append hends
  have hunsigned : readUnsigned negative (whole ++ (fractionText ++ (exponentText ++ rest))) =
      some (⟨negative, whole, fraction, exponent⟩, rest) := by
    have hdigits := hfraction.head_append fun c hc => (hafter c hc).1
    simp only [readUnsigned, readWhole_append hwhole hdigits,
      readFraction_append hfraction hafter, readExponent_append hexponent hends]
  simp only [List.append_assoc]
  cases negative with
  | true => exact hunsigned
  | false =>
      obtain ⟨first, digits, rfl, hfirst⟩ := hwhole.head
      have hminus : first ≠ '-' := by
        rintro rfl
        contradiction
      simp only [minusText, Bool.false_eq_true, if_false, List.nil_append]
      unfold readNumber
      split
      · next heq => exact absurd (List.cons.inj heq).1 hminus
      · exact hunsigned

/-! ## Characters of strings -/

theorem escapedChar_eq_some_iff {letter c : Char} :
    escapedChar letter = some c ↔ (letter, c) ∈ escapes := by
  simp only [escapes, List.mem_cons, List.not_mem_nil, or_false, Prod.mk.injEq]
  unfold escapedChar
  split
  iterate 8 · simp [eq_comm]
  · simp_all

/-- A character from a range of codes, by its place in it. -/
theorem exists_ofNat_add {first last c : Char} (hfirst : first ≤ c) (hlast : c ≤ last) :
    ∃ place, place ≤ last.toNat - first.toNat ∧ c = Char.ofNat (first.toNat + place) ∧
      c.toNat - first.toNat = place := by
  have hlow : first.toNat ≤ c.toNat := hfirst
  have hhigh : c.toNat ≤ last.toNat := hlast
  refine ⟨c.toNat - first.toNat, by omega, ?_, rfl⟩
  rw [Nat.add_sub_cancel' hlow, Char.ofNat_toNat]

theorem hexDigit_of_hexValue {c : Char} {value : Nat} (hvalue : hexValue c = some value) :
    HexDigit c value := by
  unfold hexValue at hvalue
  split at hvalue
  · next hdigit =>
      have hrange : '0' ≤ c ∧ c ≤ '9' := by
        simp only [Char.isDigit, Bool.and_eq_true, decide_eq_true_eq] at hdigit
        exact hdigit
      obtain ⟨place, hplace, hchar, hcode⟩ := exists_ofNat_add hrange.1 hrange.2
      have htable : ∀ place ≤ 9, "0123456789abcdef".toList[place]? =
          some (Char.ofNat ('0'.toNat + place)) := by decide
      cases hvalue
      rw [hcode, hchar]
      exact .inl (htable place hplace)
  split at hvalue
  · next hrange =>
      obtain ⟨place, hplace, hchar, hcode⟩ := exists_ofNat_add hrange.1 hrange.2
      have htable : ∀ place ≤ 5, "0123456789abcdef".toList[place + 10]? =
          some (Char.ofNat ('a'.toNat + place)) := by decide
      cases hvalue
      rw [hcode, hchar]
      exact .inl (htable place hplace)
  split at hvalue
  · next hrange =>
      obtain ⟨place, hplace, hchar, hcode⟩ := exists_ofNat_add hrange.1 hrange.2
      have htable : ∀ place ≤ 5, "0123456789ABCDEF".toList[place + 10]? =
          some (Char.ofNat ('A'.toNat + place)) := by decide
      cases hvalue
      rw [hcode, hchar]
      exact .inr (htable place hplace)
  · cases hvalue

theorem hexValue_of_hexDigit {c : Char} {value : Nat} (hdigit : HexDigit c value) :
    hexValue c = some value := by
  have htable : ∀ value < 16, hexValue ("0123456789abcdef".toList[value]?.getD ' ') = some value ∧
      hexValue ("0123456789ABCDEF".toList[value]?.getD ' ') = some value := by decide
  rcases hdigit with hlower | hupper
  · obtain ⟨hlt, _⟩ := List.getElem?_eq_some_iff.1 hlower
    have hvalue := (htable value hlt).1
    rwa [hlower] at hvalue
  · obtain ⟨hlt, _⟩ := List.getElem?_eq_some_iff.1 hupper
    have hvalue := (htable value hlt).2
    rwa [hupper] at hvalue

theorem hexUnit_of_hexUnit {a b c d : Char} {unit : Nat} (hunit : hexUnit a b c d = some unit) :
    HexUnit [a, b, c, d] unit := by
  simp only [hexUnit, Option.bind_eq_bind, Option.bind_eq_some_iff, Option.pure_def,
    Option.some.injEq] at hunit
  obtain ⟨i, hi, j, hj, k, hk, l, hl, rfl⟩ := hunit
  exact .mk (hexDigit_of_hexValue hi) (hexDigit_of_hexValue hj) (hexDigit_of_hexValue hk)
    (hexDigit_of_hexValue hl)

theorem HexUnit.exists_hexUnit {hex : List Char} {unit : Nat} (hunit : HexUnit hex unit) :
    ∃ a b c d, hex = [a, b, c, d] ∧ hexUnit a b c d = some unit := by
  obtain @⟨a, b, c, d, i, j, k, l, hi, hj, hk, hl⟩ := hunit
  refine ⟨a, b, c, d, rfl, ?_⟩
  rw [hexUnit, hexValue_of_hexDigit hi, hexValue_of_hexDigit hj, hexValue_of_hexDigit hk,
    hexValue_of_hexDigit hl]
  rfl

theorem isLead_eq_true_iff {unit : Nat} : isLead unit = true ↔ Lead unit :=
  decide_eq_true_iff

theorem isTrail_eq_true_iff {unit : Nat} : isTrail unit = true ↔ Trail unit :=
  decide_eq_true_iff

/-! ## Strings -/

/-- What is read of a string when the first code unit of a pair has been read. -/
def InsideAfter : Option Nat → List Char → List Char → Prop
  | none, text, chars => Inside text chars
  | some lead, text, chars => ∃ hex trail rest tail,
      text = '\\' :: 'u' :: hex ++ rest ∧ HexUnit hex trail ∧ Trail trail ∧
        chars = pairChar lead trail :: tail ∧ Inside rest tail

theorem of_readChars {lead : Option Nat} {input chars rest : List Char}
    (hread : readChars lead input = some (chars, rest)) :
    ∃ text, input = text ++ '"' :: rest ∧ InsideAfter lead text chars := by
  fun_induction readChars lead input generalizing chars with
  | case1 | case2 | case4 | case5 | case7 | case9 | case11 | case13 => cases hread
  | case3 lead a b c d after trail hunit htrail ih =>
      obtain ⟨tail, hrest, rfl⟩ := of_map_eq_some hread
      obtain ⟨text, rfl, hinside⟩ := ih hrest
      exact ⟨_, rfl, [a, b, c, d], trail, text, tail, rfl, hexUnit_of_hexUnit hunit,
        isTrail_eq_true_iff.1 htrail, rfl, hinside⟩
  | case6 after =>
      obtain ⟨rfl, rfl⟩ := Prod.mk.inj (Option.some.inj hread)
      exact ⟨[], rfl, .nil⟩
  | case8 a b c d after lead hunit hlead ih =>
      obtain ⟨_, rfl, second, trail, text, tail, rfl, htrailUnit, htrail, rfl, hinside⟩ :=
        ih hread
      exact ⟨_, rfl, .pair (hexUnit_of_hexUnit hunit) (isLead_eq_true_iff.1 hlead) htrailUnit
        htrail hinside⟩
  | case10 a b c d after unit hunit hlead htrail ih =>
      obtain ⟨tail, hrest, rfl⟩ := of_map_eq_some hread
      obtain ⟨text, rfl, hinside⟩ := ih hrest
      exact ⟨_, rfl, .unit (hexUnit_of_hexUnit hunit) (mt isLead_eq_true_iff.2 hlead)
        (mt isTrail_eq_true_iff.2 htrail) hinside⟩
  | case12 letter after _ c hescaped ih =>
      obtain ⟨tail, hrest, rfl⟩ := of_map_eq_some hread
      obtain ⟨text, rfl, hinside⟩ := ih hrest
      exact ⟨_, rfl, .escaped (escapedChar_eq_some_iff.1 hescaped) hinside⟩
  | case14 c after hquote _ _ hplain ih =>
      obtain ⟨tail, hrest, rfl⟩ := of_map_eq_some hread
      obtain ⟨text, rfl, hinside⟩ := ih hrest
      have hcode : 0x20 ≤ c.toNat := Nat.not_lt.1 fun hlt => hplain (.inl hlt)
      exact ⟨_, rfl, .plain hcode hquote (fun heq => hplain (.inr heq)) hinside⟩

theorem readChars_append {text chars : List Char} (hinside : Inside text chars)
    (rest : List Char) : readChars none (text ++ '"' :: rest) = some (chars, rest) := by
  induction hinside with
  | nil => simp [readChars]
  | @plain c text chars hcode _ hbackslash _ ih =>
      simp [readChars, hcode, hbackslash, ih]
  | @escaped letter c text chars hescaped _ ih =>
      have hletter := escapedChar_eq_some_iff.2 hescaped
      have hunit : letter ≠ 'u' := by
        rintro rfl
        cases hletter
      simp [readChars, hunit, hletter, ih]
  | unit hunit hlead htrail _ ih =>
      obtain ⟨a, b, c, d, rfl, hread⟩ := hunit.exists_hexUnit
      have hlone := eq_false_of_ne_true (mt isLead_eq_true_iff.1 hlead)
      have hfree := eq_false_of_ne_true (mt isTrail_eq_true_iff.1 htrail)
      simp [readChars, hread, hlone, hfree, ih]
  | pair hunit hlead htrailUnit htrail _ ih =>
      obtain ⟨a, b, c, d, rfl, hread⟩ := hunit.exists_hexUnit
      obtain ⟨e, f, g, h, rfl, hnext⟩ := htrailUnit.exists_hexUnit
      simp [readChars, hread, isLead_eq_true_iff.2 hlead, hnext, isTrail_eq_true_iff.2 htrail, ih,
        pairChar]

end ArityScript.Json
