import PocketCalc.Proofs.Nearest

/-!
# Decimals and significant digits

The value of a decimal as a rational number, and what the functions on decimals do to it: rounding
to significant digits takes the decade of the number as its own and rounds to the nearest there,
trimming leaves the value as it is, and reading a decimal gives the nearest double.

A value that is not zero has one trimmed decimal only. So whatever two roundings lead to, the same
value means the same digits.
-/

namespace PocketCalc.Number

/-! ## Powers of ten -/

theorem ten_zpow_pos (e : ℤ) : (0 : ℚ) < 10 ^ e := zpow_pos (by norm_num) e

theorem ten_zpow_add (e f : ℤ) : (10 : ℚ) ^ (e + f) = 10 ^ e * 10 ^ f :=
  zpow_add₀ (by norm_num) e f

theorem ten_zpow_le {e f : ℤ} (h : e ≤ f) : (10 : ℚ) ^ e ≤ 10 ^ f :=
  zpow_le_zpow_right₀ (by norm_num) h

theorem ten_zpow_lt_iff {e f : ℤ} : (10 : ℚ) ^ e < 10 ^ f ↔ e < f :=
  zpow_lt_zpow_iff_right₀ (by norm_num)

/-- A power of ten as a fraction of natural numbers. -/
theorem ten_zpow_eq (e : ℤ) : (10 : ℚ) ^ e = 10 ^ e.toNat / 10 ^ (-e).toNat := by
  rcases le_total 0 e with h | h
  · obtain ⟨n, rfl⟩ := Int.eq_ofNat_of_zero_le h
    simp
  · obtain ⟨n, hn⟩ := Int.eq_ofNat_of_zero_le (Int.neg_nonneg.mpr h)
    obtain rfl : e = -n := by omega
    simp

/-- A positive number has as many digits as its decade says. -/
theorem pow_length_toDigits {n : ℕ} (h : 0 < n) :
    10 ^ ((Nat.toDigits 10 n).length - 1) ≤ n ∧ n < 10 ^ (Nat.toDigits 10 n).length := by
  have hlen : 0 < (Nat.toDigits 10 n).length := Nat.length_toDigits_pos
  refine ⟨?_, (Nat.length_toDigits_le_iff (by decide) hlen).mp le_rfl⟩
  rcases Nat.eq_or_lt_of_le hlen with hone | hmore
  · rw [← hone]
    exact h
  · by_contra hlt
    have := (Nat.length_toDigits_le_iff (n := n) (by decide : 1 < 10)
      (show 0 < (Nat.toDigits 10 n).length - 1 by omega)).mpr (Nat.lt_of_not_le hlt)
    omega

/-! ## The value of a decimal -/

namespace Decimal

/-- The number that a decimal is. -/
def value (d : Decimal) : ℚ := d.coefficient * 10 ^ d.exponent

theorem den_pos (d : Decimal) : 0 < d.den := Nat.pow_pos (by decide)

theorem value_eq_div (d : Decimal) : d.value = d.num / d.den := by
  unfold value num den
  simp only [Nat.pow_eq]
  rw [ten_zpow_eq, Nat.cast_mul, Nat.cast_pow, Nat.cast_pow, Nat.cast_ofNat, mul_div_assoc]

theorem value_nonneg (d : Decimal) : 0 ≤ d.value :=
  mul_nonneg (Nat.cast_nonneg _) (ten_zpow_pos _).le

theorem value_pos {d : Decimal} (h : d.coefficient ≠ 0) : 0 < d.value :=
  mul_pos (Nat.cast_pos.mpr (Nat.pos_of_ne_zero h)) (ten_zpow_pos _)

theorem coefficient_ne_zero {d : Decimal} (h : 0 < d.value) : d.coefficient ≠ 0 := by
  intro hz
  rw [value, hz, Nat.cast_zero, zero_mul] at h
  exact lt_irrefl _ h

/-- The leading place is the decade of the value. -/
theorem leadingPlace_spec {d : Decimal} (h : d.coefficient ≠ 0) :
    10 ^ d.leadingPlace ≤ d.value ∧ d.value < 10 ^ (d.leadingPlace + 1) := by
  obtain ⟨hlow, hhigh⟩ := pow_length_toDigits (Nat.pos_of_ne_zero h)
  have hlen : 0 < (Nat.toDigits 10 d.coefficient).length := Nat.length_toDigits_pos
  unfold leadingPlace value digits
  constructor
  · rw [ten_zpow_add, mul_comm, zpow_natCast]
    exact mul_le_mul_of_nonneg_right (by exact_mod_cast hlow) (ten_zpow_pos _).le
  · rw [show d.exponent + ((Nat.toDigits 10 d.coefficient).length - 1 : ℕ) + 1
        = ((Nat.toDigits 10 d.coefficient).length : ℤ) + d.exponent by omega,
      ten_zpow_add, zpow_natCast]
    exact mul_lt_mul_of_pos_right (by exact_mod_cast hhigh) (ten_zpow_pos _)

/-- A decade holds a number that is at least its start and less than its end. -/
theorem decade_unique {q : ℚ} {e f : ℤ} (he : 10 ^ e ≤ q) (he' : q < 10 ^ (e + 1))
    (hf : 10 ^ f ≤ q) (hf' : q < 10 ^ (f + 1)) : e = f := by
  have h1 := ten_zpow_lt_iff.mp (he.trans_lt hf')
  have h2 := ten_zpow_lt_iff.mp (hf.trans_lt he')
  omega

theorem leadingPlace_eq_of_value_eq {d d' : Decimal} (h : d.coefficient ≠ 0)
    (hv : d.value = d'.value) : d.leadingPlace = d'.leadingPlace := by
  have h' : d'.coefficient ≠ 0 := coefficient_ne_zero (hv ▸ value_pos h)
  have hd := leadingPlace_spec h
  have hd' := leadingPlace_spec h'
  rw [← hv] at hd'
  exact decade_unique hd.1 hd.2 hd'.1 hd'.2

/-- The end of a decade, with one digit less. -/
theorem value_carry {count : ℕ} (hc : 1 ≤ count) (e : ℤ) :
    (⟨10 ^ (count - 1), e + 1⟩ : Decimal).value = (⟨10 ^ count, e⟩ : Decimal).value := by
  have hten : (10 : ℚ) ^ count = 10 ^ (count - 1) * 10 := by
    rw [← pow_succ, Nat.sub_add_cancel hc]
  rw [value, value, ten_zpow_add, zpow_one, Nat.cast_pow, Nat.cast_pow, Nat.cast_ofNat, hten]
  ring

/-! ## Trimming -/

theorem value_trimmed (d : Decimal) : d.trimmed.value = d.value := by
  induction d using trimmed.induct with
  | case1 d h ih =>
      rw [trimmed, if_pos h, ih]
      have hten : (d.coefficient : ℚ) = (d.coefficient / 10 : ℕ) * 10 := by
        exact_mod_cast (Nat.div_mul_cancel (Nat.dvd_of_mod_eq_zero h.2)).symm
      rw [value, value, ten_zpow_add, zpow_one, hten]
      ring
  | case2 d h => rw [trimmed, if_neg h]

/-- No zero is left at the end of the digits. -/
theorem trimmed_mod_ten {d : Decimal} (h : d.coefficient ≠ 0) :
    d.trimmed.coefficient % 10 ≠ 0 := by
  induction d using trimmed.induct with
  | case1 d hd ih =>
      rw [trimmed, if_pos hd]
      refine ih fun hz => hd.1 ?_
      rw [← Nat.div_add_mod d.coefficient 10, hd.2, show d.coefficient / 10 = 0 from hz]
  | case2 d hd =>
      rw [trimmed, if_neg hd]
      exact fun hz => hd ⟨h, hz⟩

/-- Decimals of one value whose digits do not end in a zero are the same. -/
theorem eq_of_value_eq {d d' : Decimal} (hd : d.coefficient % 10 ≠ 0)
    (hd' : d'.coefficient % 10 ≠ 0) (hv : d.value = d'.value) : d = d' := by
  wlog hle : d.exponent ≤ d'.exponent generalizing d d'
  · exact (this hd' hd hv.symm (le_of_not_ge hle)).symm
  -- the coefficients differ by the power of ten between the places
  obtain ⟨k, hk⟩ := Int.eq_ofNat_of_zero_le (sub_nonneg.mpr hle)
  have hplaces : d'.exponent = k + d.exponent := by omega
  have hcoefficient : d.coefficient = d'.coefficient * 10 ^ k := by
    rw [value, value, hplaces, ten_zpow_add, zpow_natCast, ← mul_assoc] at hv
    exact_mod_cast mul_right_cancel₀ (ten_zpow_pos d.exponent).ne' hv
  cases k with
  | zero =>
      obtain ⟨c, e⟩ := d
      obtain ⟨c', e'⟩ := d'
      simp only [pow_zero, mul_one, Nat.cast_zero, zero_add] at hcoefficient hplaces
      rw [hcoefficient, hplaces]
  | succ k =>
      rw [pow_succ, ← mul_assoc] at hcoefficient
      exact absurd (by rw [hcoefficient, Nat.mul_mod_left]) hd

theorem trimmed_eq_of_value_eq {d d' : Decimal} (h : d.coefficient ≠ 0)
    (hv : d.value = d'.value) : d.trimmed = d'.trimmed := by
  have h' : d'.coefficient ≠ 0 := coefficient_ne_zero (hv ▸ value_pos h)
  refine eq_of_value_eq (trimmed_mod_ten h) (trimmed_mod_ten h') ?_
  rw [value_trimmed, value_trimmed, hv]

/-! ## Reading a decimal -/

/-- Far below the smallest double there is nothing nearer than zero. -/
theorem isNearestRank_zero {q : ℚ} (h : 0 ≤ q) (hq : q < 10 ^ (-325 : ℤ)) :
    IsNearestRank q 0 := by
  have hone : magnitude 1 = 1 / 2 ^ 1074 := by
    rw [magnitude, unitsPerOne_eq, show units 1 = 1 from rfl, Nat.cast_pow, Nat.cast_one,
      Nat.cast_ofNat]
  have hsmall : q < magnitude 1 / 2 := by
    refine hq.trans_le ?_
    have hpow : (2 ^ 43 : ℚ) ^ 25 ≤ (10 ^ 13) ^ 25 := by gcongr; norm_num
    rw [← pow_mul, ← pow_mul] at hpow
    rw [hone, zpow_neg, div_div, ← pow_succ, one_div]
    exact inv_anti₀ (by positivity) hpow
  have hfar (r : ℕ) (hr : r ≠ 0) : |q - magnitude 0| < |q - magnitude r| := by
    have hle : magnitude 1 ≤ magnitude r :=
      magnitude_strictMono.monotone (Nat.one_le_iff_ne_zero.mpr hr)
    rw [magnitude_zero, sub_zero, abs_of_nonneg h, abs_of_nonpos (by linarith)]
    linarith
  constructor
  · intro r
    by_cases hr : r = 0
    · rw [hr]
    · exact (hfar r hr).le
  · intro r hr ht
    exact absurd ht (hfar r hr).ne

/-- **A decimal is read as the nearest double.** -/
theorem exists_isNearestRank_rank (d : Decimal) (h : d.exponent < 310) :
    ∃ r, IsNearestRank d.value r ∧ d.rank = min r infiniteRank := by
  unfold rank
  split
  · rename_i hz
    refine ⟨0, ?_, (Nat.zero_min _).symm⟩
    rw [value, hz, Nat.cast_zero, zero_mul, ← magnitude_zero]
    exact isNearestRank_magnitude 0
  rw [if_neg (by omega)]
  split
  · rename_i hsmall
    refine ⟨0, isNearestRank_zero d.value_nonneg ?_, (Nat.zero_min _).symm⟩
    have hlog : d.coefficient < 10 ^ (d.coefficient.log2 + 1) :=
      Nat.lt_log2_self.trans_le (Nat.pow_le_pow_left (by decide) _)
    calc d.value < 10 ^ (d.coefficient.log2 + 1) * 10 ^ d.exponent :=
          mul_lt_mul_of_pos_right (by exact_mod_cast hlog) (ten_zpow_pos _)
      _ = 10 ^ (d.exponent + (d.coefficient.log2 + 1 : ℕ)) := by
          rw [ten_zpow_add, zpow_natCast, mul_comm]
      _ ≤ 10 ^ (-325 : ℤ) := ten_zpow_le (by omega)
  · rw [value_eq_div]
    exact exists_isNearestRank _ d.den_pos

end Decimal

/-! ## Rounding to significant digits -/

/-- The decade of a fraction that is not zero. -/
theorem decade_spec {num den : ℕ} (hn : 0 < num) (hd : 0 < den) :
    (10 : ℚ) ^ decade num den ≤ num / den ∧ (num : ℚ) / den < 10 ^ (decade num den + 1) := by
  have hden : (0 : ℚ) < den := by exact_mod_cast hd
  unfold decade
  split
  · -- from one upwards the decade is that of the whole part
    rename_i hle
    obtain ⟨hlow, hhigh⟩ := pow_length_toDigits (Nat.div_pos hle hd)
    have hlen : 0 < (Nat.toDigits 10 (num / den)).length := Nat.length_toDigits_pos
    generalize (Nat.toDigits 10 (num / den)).length = len at *
    constructor
    · rw [zpow_natCast, le_div_iff₀ hden]
      exact_mod_cast (Nat.mul_le_mul_right den hlow).trans (Nat.div_mul_le_self num den)
    · rw [show ((len - 1 : ℕ) : ℤ) + 1 = (len : ℤ) by omega, zpow_natCast, div_lt_iff₀ hden]
      exact_mod_cast (Nat.div_lt_iff_lt_mul hd).mp hhigh
  · -- below one it is told by how often the number goes into what is less than one
    rename_i hlt
    obtain ⟨hlow, hhigh⟩ := pow_length_toDigits (Nat.div_pos (show num ≤ den - 1 by omega) hn)
    have hlen : 0 < (Nat.toDigits 10 ((den - 1) / num)).length := Nat.length_toDigits_pos
    generalize (Nat.toDigits 10 ((den - 1) / num)).length = len at *
    have hbelow : 10 ^ (len - 1) * num < den := by
      have := (Nat.mul_le_mul_right num hlow).trans (Nat.div_mul_le_self (den - 1) num)
      omega
    have habove : den ≤ 10 ^ len * num := by
      have := (Nat.div_lt_iff_lt_mul hn).mp hhigh
      omega
    constructor
    · rw [zpow_neg, zpow_natCast, inv_le_iff_one_le_mul₀ (by positivity), div_mul_eq_mul_div,
        le_div_iff₀ hden, one_mul, mul_comm]
      exact_mod_cast habove
    · rw [show -(len : ℤ) + 1 = -((len - 1 : ℕ) : ℤ) by omega, zpow_neg, zpow_natCast,
        div_lt_iff₀ hden, ← div_eq_inv_mul, lt_div_iff₀ (by positivity), mul_comm]
      exact_mod_cast hbelow

/-- `d` is `q` rounded to `count` significant digits: its place is `count` digits below the end of
the decade of `q`, and there it is the nearest. -/
structure RoundsAt (count : ℕ) (q : ℚ) (d : Decimal) : Prop where
  lower : 10 ^ (d.exponent + count - 1) ≤ q
  upper : q < 10 ^ (d.exponent + count)
  rounds : RoundsTo (q / 10 ^ d.exponent) d.coefficient

theorem roundsAt_toSignificant {count num den : ℕ} (hc : 1 ≤ count) (hn : 0 < num)
    (hd : 0 < den) : RoundsAt count (num / den) (toSignificant count num den) := by
  obtain ⟨hlow, hhigh⟩ := decade_spec hn hd
  have hplace : (toSignificant count num den).exponent = decade num den - (count - 1 : ℕ) := rfl
  refine ⟨?_, ?_, ?_⟩
  · rwa [hplace, show decade num den - (count - 1 : ℕ) + count - 1 = decade num den by omega]
  · rwa [hplace, show decade num den - (count - 1 : ℕ) + count = decade num den + 1 by omega]
  · rw [hplace]
    generalize hp : decade num den - (count - 1 : ℕ) = place
    have hround := roundsTo_roundHalfEven (num * 10 ^ (-place).toNat)
      (show 0 < den * 10 ^ place.toNat by positivity)
    have hq : ((num * 10 ^ (-place).toNat : ℕ) : ℚ) / (den * 10 ^ place.toNat : ℕ) =
        num / den / 10 ^ place := by
      rw [ten_zpow_eq]
      push_cast
      field_simp
    rw [hq] at hround
    unfold toSignificant
    dsimp only [inPlaces, Nat.pow_eq]
    rwa [hp]

namespace RoundsAt

variable {count : ℕ} {q : ℚ} {d : Decimal}

/-- The rounded number is off by half a unit of its last place at most. -/
theorem error_le (h : RoundsAt count q d) : |q - d.value| ≤ 10 ^ d.exponent / 2 := by
  have hpos := ten_zpow_pos d.exponent
  have hq : q - d.value = (q / 10 ^ d.exponent - d.coefficient) * 10 ^ d.exponent := by
    rw [sub_mul, div_mul_cancel₀ _ hpos.ne', Decimal.value]
  rw [hq, abs_mul, abs_of_pos hpos]
  calc |q / 10 ^ d.exponent - d.coefficient| * 10 ^ d.exponent
      ≤ 1 / 2 * 10 ^ d.exponent := mul_le_mul_of_nonneg_right h.rounds.half hpos.le
    _ = 10 ^ d.exponent / 2 := by ring

/-- The digits of the rounded number: `count` of them, or one more for the next power of ten. -/
theorem coefficient_bounds (h : RoundsAt count q d) (hc : 1 ≤ count) :
    10 ^ (count - 1) ≤ d.coefficient ∧ d.coefficient ≤ 10 ^ count := by
  have hpos := ten_zpow_pos d.exponent
  obtain ⟨hlow, hhigh⟩ := abs_le.mp h.rounds.half
  constructor
  · have hq : (10 ^ (count - 1) : ℚ) ≤ q / 10 ^ d.exponent := by
      rw [le_div_iff₀ hpos, ← zpow_natCast, ← ten_zpow_add,
        show ((count - 1 : ℕ) : ℤ) + d.exponent = d.exponent + count - 1 by omega]
      exact h.lower
    have : (10 ^ (count - 1) : ℚ) < d.coefficient + 1 := by linarith
    exact Nat.lt_succ_iff.mp (by exact_mod_cast this)
  · have hq : q / 10 ^ d.exponent < 10 ^ count := by
      rw [div_lt_iff₀ hpos, ← zpow_natCast, ← ten_zpow_add,
        show (count : ℤ) + d.exponent = d.exponent + count by omega]
      exact h.upper
    have : (d.coefficient : ℚ) < 10 ^ count + 1 := by linarith
    exact Nat.lt_succ_iff.mp (by exact_mod_cast this)

theorem coefficient_pos (h : RoundsAt count q d) (hc : 1 ≤ count) : d.coefficient ≠ 0 := by
  have := (h.coefficient_bounds hc).1
  have : 0 < 10 ^ (count - 1) := by positivity
  omega

/-- The decade fixes the place, and there is one nearest number of units. -/
theorem unique {d' : Decimal} (h : RoundsAt count q d) (h' : RoundsAt count q d') : d = d' := by
  have hlow := h.lower
  have hlow' := h'.lower
  have hplace : d.exponent + count - 1 = d'.exponent + count - 1 := by
    refine Decimal.decade_unique hlow ?_ hlow' ?_
    · rw [Int.sub_add_cancel]
      exact h.upper
    · rw [Int.sub_add_cancel]
      exact h'.upper
  have hexponent : d.exponent = d'.exponent := by omega
  obtain ⟨c, e⟩ := d
  obtain ⟨c', e'⟩ := d'
  obtain rfl : e = e' := hexponent
  rw [Decimal.mk.injEq]
  exact ⟨h.rounds.unique h'.rounds, rfl⟩

/-- What rounds to the end of the decade rounds to the start of the next. -/
theorem rounds_carry {e : ℤ} (hc : 1 ≤ count) (h : RoundsTo (q / 10 ^ e) (10 ^ count)) :
    RoundsTo (q / 10 ^ (e + 1)) (10 ^ (count - 1)) := by
  have hhalf := h.half
  have hscale : q / 10 ^ (e + 1) - ((10 ^ (count - 1) : ℕ) : ℚ) =
      (q / 10 ^ e - (10 ^ count : ℕ)) / 10 := by
    rw [ten_zpow_add, zpow_one, Nat.cast_pow, Nat.cast_pow, Nat.cast_ofNat,
      show (10 : ℚ) ^ count = 10 ^ (count - 1) * 10 by rw [← pow_succ, Nat.sub_add_cancel hc]]
    field_simp
  refine roundsTo_of_abs_lt ?_
  rw [hscale, abs_div, abs_of_pos (show (0 : ℚ) < 10 by norm_num)]
  linarith

/-- A rounded number is at most half as large again. -/
theorem value_le (h : RoundsAt count q d) (hc : 1 ≤ count) : d.value ≤ 3 / 2 * q := by
  have hunit : (10 : ℚ) ^ d.exponent ≤ q := (ten_zpow_le (by omega)).trans h.lower
  have := (abs_le.mp h.error_le).1
  linarith

end RoundsAt

end PocketCalc.Number
