import PocketCalc.Proofs.Encoding
import PocketCalc.Proofs.NumeralLayout

/-!
# The decimal on the display

The text of a number that is not whole comes out of two roundings, with a reading back in between.
None of that shows: the text is that of the number rounded once to significant digits. Three facts
carry this.

* A number that is not whole lies below `2 ^ 52`, so whatever it rounds to is read back closely
  enough for a whole number to be told from any other.
* The second rounding keeps the digits of the first, or it turns a carry into the power of ten that
  the first rounding had spelled with one digit more.
* Digits without zeros behind them are determined by the value, so the layout is, too.
-/

namespace PocketCalc.Number

variable {r : ℕ}

/-! ## Whole magnitudes -/

theorem isWhole_iff : isWhole r = true ↔ ∃ n : ℕ, magnitude r = n := by
  rw [isWhole, beq_iff_eq, ← Nat.dvd_iff_mod_eq_zero]
  constructor
  · rintro ⟨n, hn⟩
    refine ⟨n, ?_⟩
    rw [magnitude, hn, Nat.cast_mul, mul_div_cancel_left₀ _ unitsPerOne_pos.ne']
  · rintro ⟨n, hn⟩
    rw [magnitude, div_eq_iff unitsPerOne_pos.ne'] at hn
    exact ⟨n, by rw [mul_comm]; exact_mod_cast hn⟩

/-- Large magnitudes are whole. -/
theorem magnitude_lt_of_not_isWhole (h : isWhole r = false) : magnitude r < 2 ^ 52 := by
  by_contra hge
  rw [not_lt, magnitude, le_div_iff₀ unitsPerOne_pos] at hge
  have hunits : 2 ^ 52 * unitsPerOne ≤ units r := by exact_mod_cast hge
  rw [unitsPerOne_eq, ← pow_add] at hunits
  have hdvd := dvd_units hunits
  rw [← unitsPerOne_eq, Nat.dvd_iff_mod_eq_zero] at hdvd
  rw [isWhole, hdvd] at h
  cases h

theorem units_pos_of_not_isWhole (h : isWhole r = false) : 0 < units r := by
  refine Nat.pos_of_ne_zero fun hz => ?_
  rw [isWhole, hz, Nat.zero_mod] at h
  cases h

/-- A whole number of at most 53 bits is a magnitude. -/
theorem exists_magnitude_eq {n : ℕ} (h : n ≤ 2 ^ 53) : ∃ r, magnitude r = n := by
  obtain ⟨r, hr⟩ := exists_units_eq 1074 h
  refine ⟨r, ?_⟩
  rw [magnitude, hr, ← unitsPerOne_eq, Nat.cast_mul, mul_div_cancel_right₀ _ unitsPerOne_pos.ne']

theorem two_pow_mul_le {a b c d : ℕ} (h : a + b ≤ c + d) : 2 ^ a * 2 ^ b ≤ 2 ^ c * 2 ^ d := by
  rw [← pow_add, ← pow_add]
  exact Nat.pow_le_pow_right (by decide) h

theorem lt_infiniteRank (h : magnitude r < 2 ^ 53) : r < infiniteRank := by
  by_contra hge
  have hrank : infiniteRank = 2 ^ 52 + 2046 * 2 ^ 52 := by rw [infiniteRank_eq]; norm_num
  have hunits : units infiniteRank = 2 ^ 52 * 2 ^ 2046 := by
    rw [hrank]
    exact units_add (by norm_num) (.inr le_rfl)
  have hle : magnitude infiniteRank ≤ magnitude r :=
    magnitude_strictMono.monotone (Nat.le_of_not_lt hge)
  have hpow : 2 ^ 53 * unitsPerOne ≤ units infiniteRank := by
    rw [hunits, unitsPerOne_eq]
    exact two_pow_mul_le (by decide)
  have hlarge : (2 : ℚ) ^ 53 ≤ magnitude infiniteRank := by
    rw [magnitude, le_div_iff₀ unitsPerOne_pos]
    exact_mod_cast hpow
  exact absurd (hlarge.trans hle) h.not_ge

/-! ## Reading the rounded number -/

theorem exists_natCast_of_nonneg {d : Decimal} (h : 0 ≤ d.exponent) :
    ∃ n : ℕ, d.value = n := by
  obtain ⟨k, hk⟩ := Int.eq_ofNat_of_zero_le h
  refine ⟨d.coefficient * 10 ^ k, ?_⟩
  rw [Decimal.value, hk, zpow_natCast]
  push_cast
  rfl

namespace RoundsAt

variable {count : ℕ} {d : Decimal}

theorem value_lt (h : RoundsAt count (magnitude r) d) (hc : 1 ≤ count) (hr : isWhole r = false) :
    d.value < 2 ^ 53 := by
  have := h.value_le hc
  have := magnitude_lt_of_not_isWhole hr
  linarith

/-- The rounded number is not read as infinity. -/
theorem isNearestRank_rank (h : RoundsAt count (magnitude r) d) (hc : 1 ≤ count)
    (hr : isWhole r = false) : IsNearestRank d.value d.rank ∧ d.rank < infiniteRank := by
  have hsize := magnitude_lt_of_not_isWhole hr
  have hexponent : d.exponent < 310 := by
    have hlow : (10 : ℚ) ^ d.exponent ≤ magnitude r := (ten_zpow_le (by omega)).trans h.lower
    have hpow : (2 : ℚ) ^ 52 ≤ 10 ^ (310 : ℤ) := by
      refine le_trans ?_ (ten_zpow_le (show (16 : ℤ) ≤ 310 by norm_num))
      norm_num
    exact ten_zpow_lt_iff.mp ((hlow.trans_lt hsize).trans_le hpow)
  obtain ⟨w, hw, hrank⟩ := d.exists_isNearestRank_rank hexponent
  -- the rank that was rounded is near, and the nearest one is not further away
  have hclose := (hw.closest r).trans_eq (abs_sub_comm _ _)
  have hfinite : magnitude w < 2 ^ 53 := by
    have hunit : (10 : ℚ) ^ d.exponent ≤ magnitude r := (ten_zpow_le (by omega)).trans h.lower
    have herror := h.error_le
    have hw' := (abs_le.mp hclose).1
    have hd' := (abs_le.mp herror).1
    linarith
  have hlt := lt_infiniteRank hfinite
  rw [hrank, Nat.min_eq_left hlt.le]
  exact ⟨hw, hlt⟩

/-- The rounded number is whole exactly if it is read as a whole number. -/
theorem value_eq_natCast_iff (h : RoundsAt count (magnitude r) d) (hc : 1 ≤ count)
    (hr : isWhole r = false) (n : ℕ) : d.value = n ↔ magnitude d.rank = n := by
  have hnearest := (h.isNearestRank_rank hc hr).1
  have exact_of_natCast (m : ℕ) (hm : d.value = m) : magnitude d.rank = m := by
    have hle : m ≤ 2 ^ 53 := by exact_mod_cast (hm ▸ h.value_lt hc hr).le
    obtain ⟨w, hw⟩ := exists_magnitude_eq hle
    have hself := isNearestRank_magnitude w
    rw [hw, ← hm] at hself
    rw [hnearest.unique hself, hw]
  refine ⟨exact_of_natCast n, fun hn => ?_⟩
  rcases le_or_gt 0 d.exponent with he | he
  · obtain ⟨m, hm⟩ := exists_natCast_of_nonneg he
    rw [hm, ← exact_of_natCast m hm, hn]
  · -- the whole number is a multiple of the last place, and no other multiple is as close
    obtain ⟨k, hk⟩ := Int.eq_ofNat_of_zero_le (show 0 ≤ -d.exponent by omega)
    have hplace : (10 : ℚ) ^ k * 10 ^ d.exponent = 1 := by
      rw [← zpow_natCast, ← ten_zpow_add, show (k : ℤ) + d.exponent = 0 by omega, zpow_zero]
    have hclose : |d.value - n| ≤ 10 ^ d.exponent / 2 := by
      rw [← hn]
      refine (hnearest.closest r).trans ?_
      rw [abs_sub_comm]
      exact h.error_le
    have hmultiple : d.value - n = (d.coefficient - n * 10 ^ k) * 10 ^ d.exponent := by
      rw [sub_mul, mul_assoc, hplace, mul_one, Decimal.value]
    have hpos := ten_zpow_pos d.exponent
    rw [hmultiple, abs_mul, abs_of_pos hpos] at hclose
    have hhalf : |(d.coefficient : ℚ) - n * 10 ^ k| ≤ 1 / 2 := by
      refine le_of_mul_le_mul_right ?_ hpos
      linarith
    have hone : |(d.coefficient : ℤ) - n * 10 ^ k| < 1 := by
      have : |(d.coefficient : ℚ) - n * 10 ^ k| < 1 := by linarith
      exact_mod_cast this
    have hequal : (d.coefficient : ℤ) = n * 10 ^ k := by
      rw [Int.abs_lt_one_iff] at hone
      omega
    have hcast : (d.coefficient : ℚ) = n * 10 ^ k := by exact_mod_cast hequal
    rw [Decimal.value, hcast, mul_assoc, hplace, mul_one]

/-! ## The second rounding -/

/-- The leading digit stands where that of the number does, or it was carried one place up. -/
theorem leadingPlace_cases (h : RoundsAt count q d) (hc : 1 ≤ count) :
    d.coefficient < 10 ^ count ∧ d.leadingPlace = d.exponent + count - 1 ∨
      d.coefficient = 10 ^ count ∧ d.leadingPlace = d.exponent + count := by
  obtain ⟨hlow, hhigh⟩ := h.coefficient_bounds hc
  obtain ⟨hplace, hplace'⟩ := Decimal.leadingPlace_spec (h.coefficient_pos hc)
  have hpos := ten_zpow_pos d.exponent
  have hstart : (10 : ℚ) ^ (d.exponent + count - 1) ≤ d.value := by
    rw [show d.exponent + count - 1 = (count - 1 : ℕ) + d.exponent by omega, ten_zpow_add,
      zpow_natCast]
    exact mul_le_mul_of_nonneg_right (by exact_mod_cast hlow) hpos.le
  rcases Nat.lt_or_eq_of_le hhigh with hlt | heq
  · left
    have hend : d.value < 10 ^ (d.exponent + count - 1 + 1) := by
      rw [show d.exponent + count - 1 + 1 = (count : ℤ) + d.exponent by omega, ten_zpow_add,
        zpow_natCast]
      exact mul_lt_mul_of_pos_right (by exact_mod_cast hlt) hpos
    exact ⟨hlt, Decimal.decade_unique hplace hplace' hstart hend⟩
  · right
    have hvalue : d.value = 10 ^ (d.exponent + count) := by
      rw [Decimal.value, heq, Nat.cast_pow, Nat.cast_ofNat, ← zpow_natCast, ← ten_zpow_add,
        add_comm]
    refine ⟨heq, Decimal.decade_unique hplace hplace' hvalue.ge ?_⟩
    rw [hvalue]
    exact ten_zpow_lt_iff.mpr (by omega)

end RoundsAt

theorem roundsTo_toPlaces (places num : ℕ) {den : ℕ} (hd : 0 < den) :
    RoundsTo (num / den * 10 ^ places) (toPlaces places num den).coefficient := by
  have h := roundsTo_roundHalfEven (num * 10 ^ places) hd
  rw [Nat.cast_mul, Nat.cast_pow, Nat.cast_ofNat, mul_div_right_comm] at h
  exact h

/-- **Rounding again, to the places that the first rounding left, leads to the same digits.** -/
theorem RoundsAt.trimmed_toPlaces {count num den : ℕ} {d : Decimal}
    (h : RoundsAt count (num / den) d) (hc : 1 ≤ count) (hden : 0 < den) (he : d.exponent < 0) :
    (toPlaces (count - 1 - d.leadingPlace).toNat num den).trimmed = d.trimmed := by
  have hpos := ten_zpow_pos d.exponent
  have hround (k : ℕ) := roundsTo_toPlaces k num hden
  rcases h.leadingPlace_cases hc with ⟨-, hplace⟩ | ⟨hcarry, hplace⟩
  · obtain ⟨k, hk⟩ := Int.eq_ofNat_of_zero_le (show 0 ≤ -d.exponent by omega)
    have hplaces : (count - 1 - d.leadingPlace).toNat = k := by omega
    have hscale : (10 : ℚ) ^ d.exponent = (10 ^ k)⁻¹ := by
      rw [← zpow_natCast, ← zpow_neg, show -(k : ℤ) = d.exponent by omega]
    have hfirst := h.rounds
    rw [hscale, div_inv_eq_mul] at hfirst
    have hsame : toPlaces k num den = d := by
      obtain ⟨coefficient, exponent⟩ := d
      rw [Decimal.mk.injEq]
      refine ⟨(hround k).unique hfirst, ?_⟩
      show -(k : ℤ) = exponent
      dsimp only at hk
      omega
    rw [hplaces, hsame]
  · -- the carry is one digit in the decade above
    obtain ⟨k, hk⟩ := Int.eq_ofNat_of_zero_le (show 0 ≤ -(d.exponent + 1) by omega)
    have hplaces : (count - 1 - d.leadingPlace).toNat = k := by omega
    have hscale : (10 : ℚ) ^ (d.exponent + 1) = (10 ^ k)⁻¹ := by
      rw [← zpow_natCast, ← zpow_neg, show -(k : ℤ) = d.exponent + 1 by omega]
    have hsecond := RoundsAt.rounds_carry hc (hcarry ▸ h.rounds)
    rw [hscale, div_inv_eq_mul] at hsecond
    have hagain : toPlaces k num den = ⟨10 ^ (count - 1), d.exponent + 1⟩ := by
      rw [← (hround k).unique hsecond, ← show -(k : ℤ) = d.exponent + 1 by omega]
      rfl
    rw [hplaces, hagain]
    refine Decimal.trimmed_eq_of_value_eq (by positivity) ?_
    rw [Decimal.value_carry hc, ← hcarry]

/-! ## The text -/

namespace Decimal

variable {d : Decimal}

/-- A decimal in the notations of the display. -/
def displayed (d : Decimal) : List Char :=
  if d.leadingPlace < -4 then scientific d.digits ('-' :: twoDigits d.leadingPlace.natAbs)
  else positional d.digits d.exponent

theorem exponent_le_trimmed (d : Decimal) : d.exponent ≤ d.trimmed.exponent := by
  induction d using trimmed.induct with
  | case1 d h ih =>
      rw [trimmed, if_pos h]
      exact (Int.le_add_one le_rfl).trans ih
  | case2 d h => rw [trimmed, if_neg h]

/-- A whole number is displayed with all its digits. -/
theorem displayed_eq_toDigits (hd : d.coefficient % 10 ≠ 0) {n : ℕ} (hv : d.value = n) :
    d.displayed = Nat.toDigits 10 n := by
  have hne := ne_zero_of_mod_ten hd
  have hn : n ≠ 0 := by
    rintro rfl
    exact (value_pos hne).ne' (hv.trans Nat.cast_zero)
  have hwhole : (⟨n, 0⟩ : Decimal).value = n := by rw [value, zpow_zero, mul_one]
  have hd' : d = (⟨n, 0⟩ : Decimal).trimmed := by
    refine eq_of_value_eq hd (trimmed_mod_ten hn) ?_
    rw [value_trimmed, hwhole, hv]
  have he : 0 ≤ d.exponent := hd' ▸ exponent_le_trimmed ⟨n, 0⟩
  have hplace : ¬ d.leadingPlace < -4 := by
    have : d.exponent ≤ d.leadingPlace := Int.le_add_of_nonneg_right (Int.natCast_nonneg _)
    omega
  have hdigits : d.coefficient * 10 ^ d.exponent.toNat = n := by
    rw [value, ten_zpow_eq, show (-d.exponent).toNat = 0 by omega, pow_zero, div_one] at hv
    exact_mod_cast hv
  rw [displayed, if_neg hplace, positional_whole hne he, hdigits]

/-- What is not whole has a fraction. -/
theorem exponent_neg (h : ∀ n : ℕ, d.value ≠ n) : d.exponent < 0 := by
  by_contra hge
  obtain ⟨n, hn⟩ := exists_natCast_of_nonneg (not_lt.mp hge)
  exact h n hn

end Decimal

theorem wholeText_eq (negative : Bool) {n : ℕ} (hn : n ≠ 0) (h : magnitude r = n) :
    wholeText negative r = signed negative (Nat.toDigits 10 n) := by
  have hunits : units r = n * unitsPerOne := by
    rw [magnitude, div_eq_iff unitsPerOne_pos.ne'] at h
    exact_mod_cast h
  have hpos : 0 < unitsPerOne := by exact_mod_cast unitsPerOne_pos
  unfold wholeText
  dsimp only
  rw [if_neg (by rw [hunits]; exact Nat.mul_ne_zero hn hpos.ne'), hunits,
    Nat.mul_div_cancel _ hpos]

/-- **A number that is not whole is shown as what it rounds to**, in one rounding. -/
theorem exists_significantText_eq {count : ℕ} (hc : 1 ≤ count) (negative : Bool)
    (hr : isWhole r = false) :
    ∃ d, RoundsAt count (magnitude r) d ∧
      significantText count negative r = signed negative d.trimmed.displayed := by
  have hpos : 0 < unitsPerOne := by exact_mod_cast unitsPerOne_pos
  have hround : RoundsAt count (magnitude r) (toSignificant count (units r) unitsPerOne) :=
    roundsAt_toSignificant hc (units_pos_of_not_isWhole hr) hpos
  refine ⟨_, hround, ?_⟩
  unfold significantText
  dsimp only
  generalize toSignificant count (units r) unitsPerOne = d at hround ⊢
  have hne := hround.coefficient_pos hc
  have hvalue := hround.value_eq_natCast_iff hc hr
  split
  · rename_i hwhole
    obtain ⟨n, hn⟩ := isWhole_iff.mp hwhole
    have hdn := (hvalue n).mpr hn
    have hn0 : n ≠ 0 := by
      rintro rfl
      exact (Decimal.value_pos hne).ne' (hdn.trans Nat.cast_zero)
    rw [wholeText_eq negative hn0 hn]
    refine congrArg _ (Decimal.displayed_eq_toDigits (Decimal.trimmed_mod_ten hne) ?_).symm
    rw [Decimal.value_trimmed, hdn]
  · rename_i hwhole
    have hfraction (n : ℕ) : d.value ≠ n := by
      intro hn
      exact hwhole (isWhole_iff.mpr ⟨n, (hvalue n).mp hn⟩)
    have hplace : d.trimmed.leadingPlace = d.leadingPlace :=
      (Decimal.leadingPlace_eq_of_value_eq hne (Decimal.value_trimmed d).symm).symm
    have hagain : (toPlaces (count - 1 - d.leadingPlace).toNat (units r) unitsPerOne).trimmed =
        d.trimmed := hround.trimmed_toPlaces hc hpos (Decimal.exponent_neg hfraction)
    rw [hagain, Decimal.displayed, hplace]

end PocketCalc.Number
