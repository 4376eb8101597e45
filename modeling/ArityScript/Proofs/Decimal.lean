import ArityScript.Decimal.Binary64
import Mathlib.Algebra.Order.Field.Rat
import Mathlib.Algebra.Order.Field.Power
import Mathlib.Tactic.FieldSimp
import Mathlib.Tactic.Linarith
import Mathlib.Tactic.NormNum
import Mathlib.Tactic.Positivity
import Mathlib.Tactic.Ring

/-!
# The range of doubles

Every rounding deviates by a factor of at most `1 + 2 ^ -52`, as long as the fraction
that is rounded is at least one.  A fraction below `2 ^ 1024 - 2 ^ 972` has a nearest
double, and one from `2 ^ 1024` on has none.  A decimal is read with three such
roundings at the most, which decides whether it is in the range unless it is within a
factor of about `1 + 2 ^ -44` of its end.
-/

namespace ArityScript.Binary64

/-- A double without its sign. -/
def magnitude (double : Binary64) : ℚ :=
  double.mantissa * 2 ^ double.exponent

theorem powerOfTwo_eq (exponent : Nat) : powerOfTwo exponent = 2 ^ exponent := rfl

theorem powerOfTen_eq (exponent : Nat) : powerOfTen exponent = 10 ^ exponent := rfl

theorem powerOfTwo_pos (exponent : Nat) : 0 < powerOfTwo exponent :=
  Nat.two_pow_pos exponent

theorem powerOfTen_mono {exponent bound : Nat} (hexponent : exponent ≤ bound) :
    powerOfTen exponent ≤ powerOfTen bound :=
  Nat.pow_le_pow_right (Nat.succ_pos 9) hexponent

theorem powerOfTwo_div (exponent : Int) :
    (powerOfTwo exponent.toNat : ℚ) / powerOfTwo (-exponent).toNat = 2 ^ exponent := by
  simp only [powerOfTwo_eq, Nat.cast_pow, Nat.cast_ofNat]
  rcases le_total 0 exponent with hexponent | hexponent
  · obtain ⟨n, rfl⟩ := Int.eq_ofNat_of_zero_le hexponent
    simp
  · obtain ⟨n, hn⟩ := Int.eq_ofNat_of_zero_le (Int.neg_nonneg.2 hexponent)
    obtain rfl : exponent = -n := by omega
    simp

theorem numerator_div_denominator (double : Binary64) :
    (double.numerator : ℚ) / double.denominator = double.magnitude := by
  rw [numerator, denominator, magnitude, Nat.cast_mul, mul_div_assoc, powerOfTwo_div]

/-! ## Rounding a fraction -/

theorem roundHalfEven_bounds (numerator denominator : Nat) :
    numerator / denominator ≤ roundHalfEven numerator denominator ∧
      roundHalfEven numerator denominator ≤ numerator / denominator + 1 := by
  simp only [roundHalfEven]
  have hparity := Nat.mod_lt (numerator / denominator) Nat.zero_lt_two
  split
  · omega
  split <;> omega

section

variable {numerator denominator : Nat} (hdenominator : 0 < denominator)

theorem scale_div (exponent : Int) :
    ((scale numerator denominator exponent).1 : ℚ) / (scale numerator denominator exponent).2 =
      numerator / denominator * 2 ^ (-exponent) := by
  have hpower := powerOfTwo_div (-exponent)
  rw [neg_neg] at hpower
  rw [scale, Nat.cast_mul, Nat.cast_mul, mul_div_mul_comm, hpower]

include hdenominator

theorem scale_snd_pos (exponent : Int) : 0 < (scale numerator denominator exponent).2 :=
  Nat.mul_pos hdenominator (powerOfTwo_pos _)

/-- The quotient that is rounded is less than some number exactly if the fraction is less
than this number times the power. -/
theorem scale_quotient_lt_iff (exponent : Int) (bound : Nat) :
    (scale numerator denominator exponent).1 / (scale numerator denominator exponent).2 < bound ↔
      (numerator / denominator : ℚ) < bound * 2 ^ exponent := by
  have hpos : (0 : ℚ) < (scale numerator denominator exponent).2 := by
    exact_mod_cast scale_snd_pos hdenominator exponent
  rw [Nat.div_lt_iff_lt_mul (scale_snd_pos hdenominator exponent), ← Nat.cast_lt (α := ℚ),
    Nat.cast_mul, ← div_lt_iff₀ hpos, scale_div, zpow_neg, ← div_eq_mul_inv,
    div_lt_iff₀ (by positivity)]

/-- The binary logarithms of a fraction's parts tell its size up to a factor of four. -/
theorem log2_bounds (hnumerator : 0 < numerator) :
    (2 : ℚ) ^ ((numerator.log2 : ℤ) - denominator.log2 - 1) ≤ numerator / denominator ∧
      (numerator / denominator : ℚ) < 2 ^ ((numerator.log2 : ℤ) - denominator.log2 + 1) := by
  have hpos : (0 : ℚ) < denominator := by exact_mod_cast hdenominator
  have hnumeratorLow : (2 : ℚ) ^ (numerator.log2 : ℤ) ≤ numerator := by
    exact_mod_cast Nat.log2_self_le hnumerator.ne'
  have hnumeratorHigh : (numerator : ℚ) < 2 ^ ((numerator.log2 : ℤ) + 1) := by
    exact_mod_cast numerator.lt_log2_self
  have hdenominatorLow : (2 : ℚ) ^ (denominator.log2 : ℤ) ≤ denominator := by
    exact_mod_cast Nat.log2_self_le hdenominator.ne'
  have hdenominatorHigh : (denominator : ℚ) < 2 ^ ((denominator.log2 : ℤ) + 1) := by
    exact_mod_cast denominator.lt_log2_self
  constructor
  · rw [le_div_iff₀ hpos]
    calc (2 : ℚ) ^ ((numerator.log2 : ℤ) - denominator.log2 - 1) * denominator
        ≤ 2 ^ ((numerator.log2 : ℤ) - denominator.log2 - 1) * 2 ^ ((denominator.log2 : ℤ) + 1) := by
          gcongr
      _ = 2 ^ (numerator.log2 : ℤ) := by
          rw [← zpow_add₀ (by norm_num)]
          congr 1
          omega
      _ ≤ numerator := hnumeratorLow
  · rw [div_lt_iff₀ hpos]
    calc (numerator : ℚ) < 2 ^ ((numerator.log2 : ℤ) + 1) := hnumeratorHigh
      _ = 2 ^ ((numerator.log2 : ℤ) - denominator.log2 + 1) * 2 ^ (denominator.log2 : ℤ) := by
          rw [← zpow_add₀ (by norm_num)]
          congr 1
          omega
      _ ≤ 2 ^ ((numerator.log2 : ℤ) - denominator.log2 + 1) * denominator := by gcongr

/-- The exponent for a fraction leaves less than a full mantissa, and at least half of
one unless it is the smallest exponent. -/
theorem fittingExponent_spec (hnumerator : 0 < numerator) :
    minExponent ≤ fittingExponent numerator denominator ∧
      (numerator / denominator : ℚ) < 2 ^ (fittingExponent numerator denominator + 53) ∧
      (fittingExponent numerator denominator = minExponent ∨
        (2 : ℚ) ^ (fittingExponent numerator denominator + 52) ≤ numerator / denominator) := by
  obtain ⟨hlow, hhigh⟩ := log2_bounds hdenominator hnumerator
  obtain ⟨lower, hlower, hfitting⟩ : ∃ lower,
      lower = max minExponent ((numerator.log2 : ℤ) - denominator.log2 - 53) ∧
        fittingExponent numerator denominator =
          if (scale numerator denominator lower).1 / (scale numerator denominator lower).2 <
            powerOfTwo precision then lower else lower + 1 := ⟨_, rfl, rfl⟩
  have hfits : (scale numerator denominator lower).1 / (scale numerator denominator lower).2 <
      powerOfTwo precision ↔ (numerator / denominator : ℚ) < 2 ^ (lower + 53) := by
    rw [scale_quotient_lt_iff hdenominator, zpow_add₀ (by norm_num), mul_comm]
    norm_num [powerOfTwo_eq, precision]
  rw [hfitting]
  split
  · next hlt =>
      refine ⟨hlower ▸ le_max_left _ _, hfits.1 hlt, ?_⟩
      rcases le_total ((numerator.log2 : ℤ) - denominator.log2 - 53) minExponent with hmin | hmin
      · exact .inl (hlower.trans (max_eq_left hmin))
      · rw [max_eq_right hmin] at hlower
        refine .inr (le_trans (zpow_le_zpow_right₀ (by norm_num) ?_) hlow)
        omega
  · next hlt =>
      refine ⟨le_trans (hlower ▸ le_max_left _ _) (Int.le_add_one le_rfl), ?_, .inr ?_⟩
      · refine lt_of_lt_of_le hhigh (zpow_le_zpow_right₀ (by norm_num) ?_)
        have hle : (numerator.log2 : ℤ) - denominator.log2 - 53 ≤ lower :=
          hlower ▸ le_max_right _ _
        omega
      · have hge := not_lt.1 (mt hfits.2 hlt)
        rwa [add_assoc, add_comm 1 52]

/-- How a fraction is rounded: an exponent for it, and a mantissa that deviates from the
fraction by less than one. -/
structure Rounds (numerator denominator : Nat) (exponent : Int) (mantissa : Nat) : Prop where
  min_le : minExponent ≤ exponent
  lt_full : (numerator / denominator : ℚ) < 2 ^ (exponent + 53)
  half_le : exponent = minExponent ∨ (2 : ℚ) ^ (exponent + 52) ≤ numerator / denominator
  le_add : mantissa * 2 ^ exponent ≤ (numerator / denominator + 2 ^ exponent : ℚ)
  le_succ : (numerator / denominator : ℚ) ≤ (mantissa + 1) * 2 ^ exponent

theorem exists_rounds (hnumerator : 0 < numerator) (negative : Bool) :
    ∃ exponent mantissa, Rounds numerator denominator exponent mantissa ∧
      nearest? negative numerator denominator =
        if mantissa = 2 ^ 53 then
          if maxExponent < exponent + 1 then none else some ⟨negative, 2 ^ 52, exponent + 1⟩
        else if maxExponent < exponent then none else some ⟨negative, mantissa, exponent⟩ := by
  obtain ⟨hmin, hfull, hhalf⟩ := fittingExponent_spec hdenominator hnumerator
  generalize hfitting : fittingExponent numerator denominator = exponent at hmin hfull hhalf
  obtain ⟨hlow, hhigh⟩ := roundHalfEven_bounds (scale numerator denominator exponent).1
    (scale numerator denominator exponent).2
  generalize hmantissa : roundHalfEven (scale numerator denominator exponent).1
    (scale numerator denominator exponent).2 = mantissa at hlow hhigh
  refine ⟨exponent, mantissa, ⟨hmin, hfull, hhalf, ?_, ?_⟩, ?_⟩
  · cases mantissa with
    | zero =>
        have hnonneg : (0 : ℚ) ≤ numerator / denominator := by positivity
        have hpower : (0 : ℚ) < 2 ^ exponent := by positivity
        push_cast
        linarith
    | succ below =>
        have hbelow := mt (scale_quotient_lt_iff hdenominator exponent below).2
          (Nat.not_lt.2 (Nat.le_of_succ_le_succ hhigh))
        rw [Nat.cast_succ, add_one_mul]
        linarith [not_lt.1 hbelow]
  · have hlt := (scale_quotient_lt_iff hdenominator exponent (mantissa + 1)).1
      (Nat.lt_succ_of_le hlow)
    push_cast at hlt
    exact hlt.le
  · simp only [nearest?, hnumerator.ne', if_false, hfitting, hmantissa, powerOfTwo_eq, precision]
    split <;> rfl

theorem nearest?_eq_none (negative : Bool) (hlarge : (2 : ℚ) ^ 1024 ≤ numerator / denominator) :
    nearest? negative numerator denominator = none := by
  have hnumerator : 0 < numerator := by
    refine Nat.pos_of_ne_zero fun hzero => ?_
    rw [hzero, Nat.cast_zero, zero_div] at hlarge
    exact absurd hlarge (not_le.2 (by positivity))
  obtain ⟨exponent, mantissa, hrounds, heq⟩ := exists_rounds hdenominator hnumerator negative
  have hpower : (2 : ℚ) ^ (1024 : ℤ) < 2 ^ (exponent + 53) :=
    lt_of_le_of_lt (by exact_mod_cast hlarge) hrounds.lt_full
  have hexponent := (zpow_lt_zpow_iff_right₀ (by norm_num)).1 hpower
  have hbeyond : maxExponent < exponent := by
    unfold maxExponent
    omega
  rw [heq, if_pos hbeyond, if_pos (Int.lt_add_one_of_le hbeyond.le), ite_self]

end

/-! ## Deviations -/

/-- Two numbers differ at most by a factor that one rounding may come to. -/
def Close (x y : ℚ) : Prop :=
  x ≤ (1 + 1 / 2 ^ 51) * y ∧ y ≤ (1 + 1 / 2 ^ 51) * x

theorem Close.mul_right {x y : ℚ} (hclose : Close x y) {factor : ℚ} (hfactor : 0 ≤ factor) :
    Close (x * factor) (y * factor) := by
  constructor
  · rw [← mul_assoc]
    exact mul_le_mul_of_nonneg_right hclose.1 hfactor
  · rw [← mul_assoc]
    exact mul_le_mul_of_nonneg_right hclose.2 hfactor

theorem Close.refl {x : ℚ} (hx : 0 ≤ x) : Close x x := by
  have hle : x ≤ (1 + 1 / 2 ^ 51) * x := le_mul_of_one_le_left hx (by norm_num)
  exact ⟨hle, hle⟩

/-- Numbers with the same leading digits are close to each other. -/
theorem Close.of_leading {leading unit x y : Nat} (hleading : 2 ^ 51 ≤ leading)
    (hx : leading * unit ≤ x ∧ x ≤ (leading + 1) * unit)
    (hy : leading * unit ≤ y ∧ y ≤ (leading + 1) * unit) : Close x y := by
  have hunit : 2 ^ 51 * (unit : ℚ) ≤ leading * unit := by
    exact_mod_cast Nat.mul_le_mul_right unit hleading
  have hle : ∀ {x y : Nat}, x ≤ (leading + 1) * unit → leading * unit ≤ y →
      (x : ℚ) ≤ (1 + 1 / 2 ^ 51) * y := by
    intro x y hhigh hlow
    have hhigh : (x : ℚ) ≤ (leading + 1) * unit := by exact_mod_cast hhigh
    have hlow : (leading * unit : ℚ) ≤ y := by exact_mod_cast hlow
    rw [add_one_mul] at hhigh
    linarith
  exact ⟨hle hx.2 hy.1, hle hy.2 hx.1⟩

theorem Rounds.magnitude_close {numerator denominator : Nat} {exponent : Int} {mantissa : Nat}
    (hrounds : Rounds numerator denominator exponent mantissa)
    (hone : (1 : ℚ) ≤ numerator / denominator) :
    Close (mantissa * 2 ^ exponent) (numerator / denominator) := by
  have hhalf : (2 : ℚ) ^ (exponent + 52) ≤ numerator / denominator := by
    refine hrounds.half_le.resolve_left fun hmin => ?_
    have hsmall := lt_of_le_of_lt hone hrounds.lt_full
    rw [hmin, ← zpow_zero (2 : ℚ), zpow_lt_zpow_iff_right₀ (by norm_num), minExponent] at hsmall
    omega
  rw [zpow_add₀ (by norm_num)] at hhalf
  have hadd := hrounds.le_add
  have hsucc := hrounds.le_succ
  rw [add_one_mul] at hsucc
  norm_num at hhalf
  constructor <;> norm_num <;> linarith

theorem Rounds.magnitude_le {numerator denominator : Nat} {exponent : Int} {mantissa : Nat}
    (hrounds : Rounds numerator denominator exponent mantissa) :
    (mantissa * 2 ^ exponent : ℚ) ≤ 2 * (numerator / denominator) + 1 := by
  have hnonneg : (0 : ℚ) ≤ numerator / denominator := by positivity
  have hunit : (2 : ℚ) ^ exponent ≤ numerator / denominator + 1 := by
    rcases hrounds.half_le with hmin | hhalf
    · have hle : (2 : ℚ) ^ exponent ≤ 1 :=
        zpow_le_one_of_nonpos₀ (by norm_num) (by simp [hmin, minExponent])
      linarith
    · have hle : (2 : ℚ) ^ exponent ≤ 2 ^ (exponent + 52) :=
        zpow_le_zpow_right₀ (by norm_num) (by omega)
      linarith
  linarith [hrounds.le_add]

/-- A fraction below the end of the range is rounded within the range. -/
theorem Rounds.exponent_le {numerator denominator : Nat} {exponent : Int} {mantissa : Nat}
    (hrounds : Rounds numerator denominator exponent mantissa)
    (hsmall : (numerator / denominator : ℚ) ≤ 2 ^ 1024 - 2 ^ 972) :
    exponent ≤ maxExponent ∧ (mantissa = 2 ^ 53 → exponent < maxExponent) := by
  have hend : (2 : ℚ) ^ 1024 = 2 ^ 53 * 2 ^ (971 : ℤ) := by
    rw [← zpow_natCast, ← zpow_natCast, ← zpow_add₀ (by norm_num)]
    rfl
  have hgap : (2 : ℚ) ^ 972 = 2 * 2 ^ (971 : ℤ) := by
    rw [← zpow_natCast, ← zpow_one_add₀ (by norm_num)]
    rfl
  have hunit : (0 : ℚ) < 2 ^ (971 : ℤ) := by positivity
  rw [hend, hgap] at hsmall
  have hexponent : exponent ≤ maxExponent := by
    by_contra hlarge
    rw [maxExponent] at hlarge
    rcases hrounds.half_le with hmin | hhalf
    · rw [minExponent] at hmin
      omega
    · have hpower : (2 : ℚ) ^ ((971 : ℤ) + 53) ≤ 2 ^ (exponent + 52) :=
        zpow_le_zpow_right₀ (by norm_num) (by omega)
      rw [zpow_add₀ (by norm_num)] at hpower
      have hhuge := hpower.trans (hhalf.trans hsmall)
      generalize (2 : ℚ) ^ (971 : ℤ) = unit at hhuge hunit
      linarith only [hhuge, hunit]
  refine ⟨hexponent, fun hmantissa => ?_⟩
  by_contra hlast
  obtain rfl : exponent = 971 := by
    rw [maxExponent] at hexponent hlast
    omega
  have hadd := hrounds.le_add
  rw [hmantissa] at hadd
  generalize (2 : ℚ) ^ (971 : ℤ) = unit at hsmall hadd hunit
  push_cast at hadd
  linarith only [hsmall, hadd, hunit]

/-- A fraction below the end of the range has a nearest double. -/
theorem exists_nearest? {numerator denominator : Nat} (hdenominator : 0 < denominator)
    (negative : Bool) (hsmall : (numerator / denominator : ℚ) ≤ 2 ^ 1024 - 2 ^ 972) :
    ∃ double, nearest? negative numerator denominator = some double ∧
      double.magnitude ≤ 2 * (numerator / denominator) + 1 ∧
      ((1 : ℚ) ≤ numerator / denominator →
        Close double.magnitude (numerator / denominator)) := by
  rcases Nat.eq_zero_or_pos numerator with rfl | hnumerator
  · refine ⟨⟨negative, 0, minExponent⟩, rfl, by simp [magnitude], fun hone => ?_⟩
    norm_num at hone
  obtain ⟨exponent, mantissa, hrounds, heq⟩ := exists_rounds hdenominator hnumerator negative
  obtain ⟨hexponent, hfull⟩ := hrounds.exponent_le hsmall
  rw [heq]
  split
  · next hmantissa =>
      have hmagnitude : magnitude ⟨negative, 2 ^ 52, exponent + 1⟩ = mantissa * 2 ^ exponent := by
        rw [magnitude, hmantissa, zpow_add_one₀ (by norm_num)]
        push_cast
        ring
      rw [if_neg (not_lt.2 (Int.add_one_le_of_lt (hfull hmantissa)))]
      exact ⟨_, rfl, hmagnitude ▸ hrounds.magnitude_le, fun hone =>
        hmagnitude ▸ hrounds.magnitude_close hone⟩
  · rw [if_neg (not_lt.2 hexponent)]
    exact ⟨_, rfl, hrounds.magnitude_le, hrounds.magnitude_close⟩

/-! ## Arithmetic -/

theorem denominator_pos (double : Binary64) : 0 < double.denominator :=
  powerOfTwo_pos _

theorem mul_fraction (left right : Binary64) :
    ((left.numerator * right.numerator : Nat) : ℚ) / (left.denominator * right.denominator : Nat) =
      left.magnitude * right.magnitude := by
  rw [Nat.cast_mul, Nat.cast_mul, mul_div_mul_comm, numerator_div_denominator,
    numerator_div_denominator]

theorem div_fraction (left right : Binary64) :
    ((left.numerator * right.denominator : Nat) : ℚ) / (left.denominator * right.numerator : Nat) =
      left.magnitude / right.magnitude := by
  rw [Nat.cast_mul, Nat.cast_mul, mul_div_mul_comm, numerator_div_denominator,
    ← inv_div, numerator_div_denominator, div_eq_mul_inv]

theorem numerator_pos {double : Binary64} (hpos : 0 < double.magnitude) : 0 < double.numerator := by
  refine Nat.pos_of_ne_zero fun hzero => ?_
  rw [← numerator_div_denominator, hzero, Nat.cast_zero, zero_div] at hpos
  exact lt_irrefl 0 hpos

/-- The powers of ten in the range are rounded once. -/
theorem exists_tenPower? {exponent : Nat} (hexponent : exponent ≤ maxTenPower) :
    ∃ power, tenPower? exponent = some power ∧ Close power.magnitude (10 ^ exponent) := by
  have hrange : powerOfTen maxTenPower + powerOfTwo 972 ≤ powerOfTwo 1024 := by decide +kernel
  have hle := powerOfTen_mono hexponent
  have hsmall : ((powerOfTen exponent : Nat) : ℚ) / (1 : Nat) ≤ 2 ^ 1024 - 2 ^ 972 := by
    have hcast : ((powerOfTen exponent + powerOfTwo 972 : Nat) : ℚ) ≤ (powerOfTwo 1024 : Nat) :=
      Nat.cast_le.2 ((Nat.add_le_add_right hle _).trans hrange)
    rw [Nat.cast_add] at hcast
    simp only [powerOfTwo_eq, Nat.cast_pow, Nat.cast_ofNat] at hcast
    rw [Nat.cast_one, div_one]
    exact le_sub_iff_add_le.2 hcast
  have hone : (1 : ℚ) ≤ ((powerOfTen exponent : Nat) : ℚ) / (1 : Nat) := by
    rw [Nat.cast_one, div_one]
    exact_mod_cast Nat.one_le_pow _ _ (by decide)
  obtain ⟨power, hpower, _, hclose⟩ := exists_nearest? Nat.one_pos false hsmall
  refine ⟨power, ?_, ?_⟩
  · rw [tenPower?, if_neg (not_lt.2 hexponent)]
    exact hpower
  · have hresult := hclose hone
    simpa only [powerOfTen_eq, Nat.cast_pow, Nat.cast_ofNat, Nat.cast_one, div_one] using hresult

/-- A product with a power of ten is out of the range if the exact product is, by more
than one rounding. -/
theorem mulTenPower?_eq_none {double : Binary64} (exponent : Nat) (hone : 1 / 2 ≤ double.magnitude)
    (hlarge : (1 + 1 / 2 ^ 51) * 2 ^ 1024 ≤ double.magnitude * 10 ^ exponent) :
    double.mulTenPower? exponent = none := by
  by_cases hexponent : exponent ≤ maxTenPower
  · obtain ⟨power, hpower, hclose⟩ := exists_tenPower? hexponent
    simp only [mulTenPower?, hpower, Option.bind_some, mul?]
    refine nearest?_eq_none (Nat.mul_pos double.denominator_pos power.denominator_pos) _ ?_
    rw [mul_fraction]
    have hfactor := hclose.2
    refine le_of_mul_le_mul_left (hlarge.trans ?_) (by positivity : (0 : ℚ) < 1 + 1 / 2 ^ 51)
    calc double.magnitude * 10 ^ exponent
        ≤ double.magnitude * ((1 + 1 / 2 ^ 51) * power.magnitude) := by gcongr
      _ = (1 + 1 / 2 ^ 51) * (double.magnitude * power.magnitude) := by ring
  · simp [mulTenPower?, tenPower?, not_le.1 hexponent]

/-- A power of ten beyond the largest is twice as large as the range. -/
theorem two_pow_le_ten_pow {exponent : Nat} (hexponent : maxTenPower < exponent) :
    (2 : ℚ) ^ 1024 ≤ 1 / 2 * 10 ^ exponent := by
  have hbeyond : 2 * powerOfTwo 1024 ≤ powerOfTen (maxTenPower + 1) := by decide +kernel
  have hle := powerOfTen_mono (Nat.succ_le_of_lt hexponent)
  have hcast : ((2 * powerOfTwo 1024 : Nat) : ℚ) ≤ (powerOfTen exponent : Nat) :=
    Nat.cast_le.2 (hbeyond.trans hle)
  simp only [powerOfTwo_eq, powerOfTen_eq, Nat.cast_mul, Nat.cast_pow, Nat.cast_ofNat] at hcast
  generalize (2 : ℚ) ^ 1024 = limit at hcast ⊢
  linarith only [hcast]

/-- A product with a power of ten is in the range if the exact product is, by more than
one rounding. -/
theorem isSome_mulTenPower? {double : Binary64} (exponent : Nat) (hone : 1 / 2 ≤ double.magnitude)
    (hsmall : (1 + 1 / 2 ^ 51) * (double.magnitude * 10 ^ exponent) ≤ 2 ^ 1024 - 2 ^ 972) :
    (double.mulTenPower? exponent).isSome = true := by
  have hexponent : exponent ≤ maxTenPower := by
    by_contra hlarge
    have hproduct : (2 : ℚ) ^ 1024 ≤ double.magnitude * 10 ^ exponent :=
      (two_pow_le_ten_pow (not_le.1 hlarge)).trans (by gcongr)
    have hfactor : double.magnitude * 10 ^ exponent ≤
        (1 + 1 / 2 ^ 51) * (double.magnitude * 10 ^ exponent) :=
      le_mul_of_one_le_left (by positivity) (by norm_num)
    have hgap : (0 : ℚ) < 2 ^ 972 := by positivity
    exact absurd (hproduct.trans (hfactor.trans hsmall)) (not_le.2 (sub_lt_self _ hgap))
  obtain ⟨power, hpower, hclose⟩ := exists_tenPower? hexponent
  have hproduct : ((double.numerator * power.numerator : Nat) : ℚ) /
      (double.denominator * power.denominator : Nat) ≤ 2 ^ 1024 - 2 ^ 972 := by
    rw [mul_fraction]
    refine le_trans ?_ hsmall
    have hfactor := hclose.1
    calc double.magnitude * power.magnitude
        ≤ double.magnitude * ((1 + 1 / 2 ^ 51) * 10 ^ exponent) := by gcongr
      _ = (1 + 1 / 2 ^ 51) * (double.magnitude * 10 ^ exponent) := by ring
  obtain ⟨product, hproduct, _⟩ := exists_nearest?
    (Nat.mul_pos double.denominator_pos power.denominator_pos)
    (double.negative != power.negative) hproduct
  simp [mulTenPower?, hpower, mul?, hproduct]

theorem two_pow_sixtyFive_le : (2 : ℚ) ^ 65 ≤ 2 ^ 1024 - 2 ^ 972 := by
  have hle : powerOfTwo 65 + powerOfTwo 972 ≤ powerOfTwo 1024 := by decide +kernel
  have hcast : ((powerOfTwo 65 + powerOfTwo 972 : Nat) : ℚ) ≤ (powerOfTwo 1024 : Nat) :=
    Nat.cast_le.2 hle
  simp only [powerOfTwo_eq, Nat.cast_add, Nat.cast_pow, Nat.cast_ofNat] at hcast
  exact le_sub_iff_add_le.2 hcast

/-- A quotient by a positive power of ten is in the range, and no larger than the bound
on the dividend. -/
theorem exists_divTenPower? {double : Binary64} {exponent : Nat} (hpos : 0 < exponent)
    (hexponent : exponent ≤ maxTenPower) (hsmall : double.magnitude ≤ 2 ^ 65) :
    ∃ quotient, double.divTenPower? exponent = some quotient ∧ quotient.magnitude ≤ 2 ^ 65 := by
  obtain ⟨power, hpower, hclose⟩ := exists_tenPower? hexponent
  have hten : (10 : ℚ) ≤ 10 ^ exponent := le_self_pow₀ (by norm_num) hpos.ne'
  have hfour : 4 ≤ power.magnitude := by
    have hfactor := hten.trans hclose.2
    norm_num at hfactor
    linarith
  have hquotient : double.magnitude / power.magnitude ≤ 2 ^ 63 := by
    rw [div_le_iff₀ (by linarith)]
    linarith
  rw [← div_fraction] at hquotient
  obtain ⟨quotient, heq, hle, _⟩ := exists_nearest?
    (Nat.mul_pos double.denominator_pos (numerator_pos (lt_of_lt_of_le (by norm_num) hfour)))
    (double.negative != power.negative)
    (hquotient.trans (le_trans (by norm_num) two_pow_sixtyFive_le))
  refine ⟨quotient, ?_, hle.trans (by linarith)⟩
  rw [divTenPower?, hpower, Option.bind_some]
  exact heq

theorem exists_divLargestPower? (times : Nat) {double : Binary64}
    (hsmall : double.magnitude ≤ 2 ^ 65) :
    ∃ quotient, divLargestPower? times double = some quotient ∧ quotient.magnitude ≤ 2 ^ 65 := by
  induction times generalizing double with
  | zero => exact ⟨double, rfl, hsmall⟩
  | succ times ih =>
      unfold divLargestPower?
      split
      · exact ⟨double, rfl, hsmall⟩
      · obtain ⟨quotient, heq, hle⟩ :=
          exists_divTenPower? (show 0 < maxTenPower by decide) le_rfl hsmall
        simp only [heq, Option.bind_some]
        exact ih hle

/-! ## Reading a decimal -/

/-- The digits of a decimal are rounded once. -/
theorem exists_nearest?_digits (negative : Bool) {digits : Nat} (hdigits : 1 ≤ digits)
    (hbound : digits < 2 ^ 64) :
    ∃ double, nearest? negative digits 1 = some double ∧ Close double.magnitude digits := by
  have hone : (1 : ℚ) ≤ (digits : ℚ) / (1 : Nat) := by
    rw [Nat.cast_one, div_one]
    exact_mod_cast hdigits
  have hle : (digits : ℚ) ≤ 2 ^ 64 := by exact_mod_cast hbound.le
  have hsmall : (digits : ℚ) / (1 : Nat) ≤ 2 ^ 1024 - 2 ^ 972 := by
    rw [Nat.cast_one, div_one]
    exact hle.trans (le_trans (by norm_num) two_pow_sixtyFive_le)
  obtain ⟨double, heq, _, hclose⟩ := exists_nearest? Nat.one_pos negative hsmall
  have hresult := hclose hone
  rw [Nat.cast_one, div_one] at hresult
  exact ⟨double, heq, hresult⟩

section

variable {negative : Bool} {digits : Nat} {exponent : Int}

theorem mantissa_ne_zero {double : Binary64} (hhalf : 1 / 2 ≤ double.magnitude) :
    double.mantissa ≠ 0 := by
  intro hzero
  rw [magnitude, hzero, Nat.cast_zero, zero_mul] at hhalf
  exact absurd hhalf (by norm_num)

theorem half_le_of_close {double : Binary64} (hdigits : 1 ≤ digits)
    (hclose : Close double.magnitude digits) : 1 / 2 ≤ double.magnitude := by
  have hone : (1 : ℚ) ≤ digits := by exact_mod_cast hdigits
  have hfactor := hone.trans hclose.2
  norm_num at hfactor
  linarith

/-- A decimal beyond the range by more than two roundings is not read. -/
theorem ofDecimal?_eq_none (hdigits : digits < 2 ^ 64)
    (hlarge : (1 + 1 / 2 ^ 51) ^ 2 * 2 ^ 1024 ≤ (digits * 10 ^ exponent : ℚ)) :
    ofDecimal? ⟨negative, digits, exponent⟩ = none := by
  have hpositive : (0 : ℚ) < digits * 10 ^ exponent := lt_of_lt_of_le (by positivity) hlarge
  have hone : 1 ≤ digits := by
    refine Nat.one_le_iff_ne_zero.2 fun hzero => ?_
    rw [hzero, Nat.cast_zero, zero_mul] at hpositive
    exact lt_irrefl 0 hpositive
  obtain ⟨double, heq, hclose⟩ := exists_nearest?_digits negative hone hdigits
  have hhalf := half_le_of_close hone hclose
  have hexponent : 0 ≤ exponent := by
    by_contra hnegative
    have hpower : (10 : ℚ) ^ exponent ≤ 1 := zpow_le_one_of_nonpos₀ (by norm_num) (by omega)
    have hbound : (digits : ℚ) ≤ 2 ^ 64 := by exact_mod_cast hdigits.le
    have hproduct : (digits * 10 ^ exponent : ℚ) ≤ 2 ^ 64 :=
      (mul_le_of_le_one_right (by positivity) hpower).trans hbound
    have hgap : (2 : ℚ) ^ 64 < (1 + 1 / 2 ^ 51) ^ 2 * 2 ^ 1024 :=
      lt_of_lt_of_le (pow_lt_pow_right₀ (by norm_num) (by norm_num))
        (le_mul_of_one_le_left (by positivity) (one_le_pow₀ (by norm_num)))
    exact absurd (hlarge.trans hproduct) (not_le.2 hgap)
  obtain ⟨places, rfl⟩ := Int.eq_ofNat_of_zero_le hexponent
  rw [zpow_natCast] at hlarge
  have hnone : double.mulTenPower? places = none := by
    refine mulTenPower?_eq_none places hhalf ?_
    refine le_of_mul_le_mul_left ?_ (by positivity : (0 : ℚ) < 1 + 1 / 2 ^ 51)
    rw [← mul_assoc, ← pow_two]
    calc (1 + 1 / 2 ^ 51) ^ 2 * 2 ^ 1024 ≤ (digits * 10 ^ places : ℚ) := hlarge
      _ ≤ (1 + 1 / 2 ^ 51) * double.magnitude * 10 ^ places := by
          gcongr
          exact hclose.2
      _ = (1 + 1 / 2 ^ 51) * (double.magnitude * 10 ^ places) := by ring
  simp only [ofDecimal?, heq, Option.bind_some, scaleByTen?, if_neg (mantissa_ne_zero hhalf),
    if_pos hexponent]
  exact hnone

/-- A decimal in the range by more than two roundings is read. -/
theorem isSome_ofDecimal? (hdigits : digits < 2 ^ 64)
    (hsmall : (1 + 1 / 2 ^ 51) ^ 2 * (digits * 10 ^ exponent : ℚ) ≤ 2 ^ 1024 - 2 ^ 972) :
    (ofDecimal? ⟨negative, digits, exponent⟩).isSome = true := by
  rcases Nat.eq_zero_or_pos digits with rfl | hone
  · rfl
  obtain ⟨double, heq, hclose⟩ := exists_nearest?_digits negative hone hdigits
  have hhalf := half_le_of_close hone hclose
  simp only [ofDecimal?, heq, Option.bind_some, scaleByTen?, if_neg (mantissa_ne_zero hhalf)]
  split
  · next hexponent =>
      obtain ⟨places, rfl⟩ := Int.eq_ofNat_of_zero_le hexponent
      rw [zpow_natCast] at hsmall
      refine isSome_mulTenPower? places hhalf (le_trans ?_ hsmall)
      calc (1 + 1 / 2 ^ 51) * (double.magnitude * 10 ^ places)
          ≤ (1 + 1 / 2 ^ 51) * ((1 + 1 / 2 ^ 51) * digits * 10 ^ places) := by
            gcongr
            exact hclose.1
        _ = (1 + 1 / 2 ^ 51) ^ 2 * (digits * 10 ^ places : ℚ) := by ring
  · next hexponent =>
      have hbound : double.magnitude ≤ 2 ^ 65 := by
        have hle : (digits : ℚ) ≤ 2 ^ 64 := by exact_mod_cast hdigits.le
        have hfactor := hclose.1
        linarith
      obtain ⟨quotient, hquotient, hle⟩ :=
        exists_divLargestPower? ((exponent.natAbs - 1) / maxTenPower) hbound
      obtain ⟨result, hresult, _⟩ := exists_divTenPower?
        (show 0 < exponent.natAbs - (exponent.natAbs - 1) / maxTenPower * maxTenPower by
          unfold maxTenPower; omega)
        (show exponent.natAbs - (exponent.natAbs - 1) / maxTenPower * maxTenPower ≤ maxTenPower by
          unfold maxTenPower; omega) hle
      simp only [hquotient, hresult, Option.bind_some, Option.isSome_some]

theorem isSome_ofDecimal?_integer (hdigits : digits < 2 ^ 64) :
    (ofDecimal? ⟨negative, digits, 0⟩).isSome = true := by
  refine isSome_ofDecimal? hdigits (le_trans ?_ two_pow_sixtyFive_le)
  have hle : (digits : ℚ) ≤ 2 ^ 64 := by exact_mod_cast hdigits.le
  rw [zpow_zero, mul_one]
  linarith

/-! ## Decimals near to others -/

theorem two_pow_large (exponent : Nat) : (2 : ℚ) ^ (972 + exponent) = 2 ^ exponent * 2 ^ 972 := by
  rw [pow_add, mul_comm]

/-- A decimal that is close to a number beyond the range is not read. -/
theorem ofDecimal?_eq_none_of_close (hdigits : digits < 2 ^ 64) {exact : ℚ}
    (hclose : Close (digits * 10 ^ exponent) exact) (hlarge : 2 ^ 1024 + 2 ^ 980 ≤ exact) :
    ofDecimal? ⟨negative, digits, exponent⟩ = none := by
  refine ofDecimal?_eq_none hdigits ?_
  have hunit : (0 : ℚ) < 2 ^ 972 := by positivity
  have hread := hlarge.trans hclose.2
  rw [two_pow_large 52, two_pow_large 8] at hread
  rw [two_pow_large 52]
  generalize (2 : ℚ) ^ 972 = unit at hunit hread ⊢
  norm_num at hread ⊢
  linarith

/-- A decimal that is close to a number in the range is read. -/
theorem isSome_ofDecimal?_of_close (hdigits : digits < 2 ^ 64) {exact : ℚ}
    (hclose : Close (digits * 10 ^ exponent) exact) (hsmall : exact ≤ 2 ^ 1024 - 2 ^ 980) :
    (ofDecimal? ⟨negative, digits, exponent⟩).isSome = true := by
  refine isSome_ofDecimal? hdigits ?_
  have hunit : (0 : ℚ) < 2 ^ 972 := by positivity
  have hread := hclose.1
  rw [two_pow_large 52, two_pow_large 8] at hsmall
  rw [two_pow_large 52]
  generalize (2 : ℚ) ^ 972 = unit at hunit hsmall ⊢
  norm_num at hread hsmall ⊢
  linarith

end

end ArityScript.Binary64
