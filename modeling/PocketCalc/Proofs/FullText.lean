import PocketCalc.Proofs.NumberText
import PocketCalc.Proofs.ShownText
import PocketCalc.Proofs.TokenLanguage

/-!
# Numbers written out in full

A number that is recalled is written with the fewest digits that read back, and never with an
exponent. The walk that finds these digits stops at a decimal of the right rank: at each place it
takes a neighbour only if the neighbour has that rank, and at the last place it takes the number
itself. Zeros at the end go without a change of the value, so the layout is a literal without an
exponent, and the double that it stands for is the one that was written, down to the sign of zero.
-/

namespace PocketCalc.Number

variable {r : ℕ} {d d' : Decimal}

/-! ## Decimals of one rank -/

namespace Decimal

/-- Decimals of one value are read as one double. -/
theorem rank_eq_of_value_eq (h : d.value = d'.value) : d.rank = d'.rank := by
  obtain ⟨s, hs, hrank⟩ := d.exists_isNearestRank
  obtain ⟨s', hs', hrank'⟩ := d'.exists_isNearestRank
  rw [h] at hs
  rw [hrank, hrank', hs.unique hs']

/-- The magnitude of a rank is read as that rank. -/
theorem rank_of_value_eq_magnitude (h : d.value = magnitude r) (hr : r ≤ infiniteRank) :
    d.rank = r := by
  obtain ⟨s, hs, hrank⟩ := d.exists_isNearestRank
  rw [h] at hs
  rw [hrank, hs.unique (isNearestRank_magnitude r), Nat.min_eq_left hr]

theorem coefficient_ne_zero_of_rank (h : d.rank ≠ 0) : d.coefficient ≠ 0 := by
  intro hzero
  rw [rank, if_pos hzero] at h
  exact h rfl

end Decimal

/-- A count of halvings is a decimal with as many places. -/
theorem value_mul_five_pow (m k : ℕ) :
    (⟨m * Nat.pow 5 k, -k⟩ : Decimal).value = m / 2 ^ k := by
  have hten : (10 : ℚ) ^ k = 5 ^ k * 2 ^ k := by
    rw [← mul_pow]
    norm_num
  have hfive : (5 : ℚ) ^ k ≠ 0 := by positivity
  rw [Decimal.value, zpow_neg, zpow_natCast, hten, Nat.pow_eq, Nat.cast_mul, Nat.cast_pow,
    ← div_eq_mul_inv, Nat.cast_ofNat, mul_comm (m : ℚ), mul_div_mul_left _ _ hfive]

/-! ## The walk down the places -/

/-- **The walk ends at a decimal that reads back**, from wherever it starts. -/
theorem rank_shortestFrom (tie : Tie) (hr : r ≤ infiniteRank) (steps : ℕ) :
    (shortestFrom tie r steps).rank = r := by
  induction steps with
  | zero =>
      rw [shortestFrom]
      refine Decimal.rank_of_value_eq_magnitude ?_ hr
      have hlast : (-1074 : ℤ) = -(1074 : ℕ) := rfl
      rw [magnitude, unitsPerOne_eq, Nat.cast_pow, Nat.cast_ofNat, hlast]
      generalize 1074 = places
      exact value_mul_five_pow (units r) places
  | succ steps ih =>
      rw [shortestFrom]
      split
      · rename_i d hd
        have hfound := List.find?_some hd
        exact beq_iff_eq.mp hfound
      · exact ih

theorem rank_shortest (tie : Tie) (hr : r ≤ infiniteRank) : (shortest tie r).rank = r := by
  rw [shortest, Decimal.rank_eq_of_value_eq (Decimal.value_trimmed _), rank_shortestFrom tie hr]

theorem shortest_mod_ten (tie : Tie) (hr : r ≤ infiniteRank) (hne : r ≠ 0) :
    (shortest tie r).coefficient % 10 ≠ 0 := by
  refine Decimal.trimmed_mod_ten (Decimal.coefficient_ne_zero_of_rank ?_)
  rwa [rank_shortestFrom tie hr]

/-! ## The text -/

/-- Digits alone are a numeral without an exponent. -/
theorem exists_plain_numeral (n : ℕ) :
    ∃ m : Numeral, m.text = Nat.toDigits 10 n ∧ m.decimal = ⟨n, 0⟩ ∧ m.exponent = none ∧
      m.Written ∧ m.hasLeadingZero = false := by
  obtain ⟨m, htext, hm, hw, hz⟩ := exists_numeral_toDigits n
  have hdigits : ∀ c ∈ m.text, c.isDigit = true := htext ▸ (digits_toDigits n).isDigit
  exact ⟨m, htext, hm, (plain_of_isDigit hw hdigits).2, hw, hz⟩

/-- A decimal in positional notation is a numeral without an exponent. -/
theorem Decimal.exists_numeral_positional (hd : d.coefficient % 10 ≠ 0) :
    ∃ n : Numeral, n.text = positional d.digits d.exponent ∧ n.decimal.value = d.value ∧
      n.exponent = none ∧ n.Written ∧ n.hasLeadingZero = false := by
  have hne := ne_zero_of_mod_ten hd
  rcases lt_or_ge d.exponent 0 with he | he
  · obtain ⟨n, htext, hn, hp⟩ := exists_pointed hd he
    exact ⟨n, htext, by rw [hn], hp.exponent, hp.written, hasLeadingZero_of_isPointed hp⟩
  · obtain ⟨m, htext, hm, hexponent, hw, hz⟩ :=
      exists_plain_numeral (d.coefficient * 10 ^ d.exponent.toNat)
    have hvalue : m.decimal.value = d.value := by
      rw [hm, value, value, zpow_zero, mul_one, ten_zpow_eq,
        show (-d.exponent).toNat = 0 by omega, pow_zero, div_one]
      push_cast
      rfl
    exact ⟨m, htext.trans (positional_whole hne he).symm, hvalue, hexponent, hw, hz⟩

theorem write_of_finite {x : Float} (hx : rank x < infiniteRank) :
    fullStyle.write x = signed (isNegative x)
      (let d := if rank x = 0 then ⟨0, 0⟩ else shortest .up (rank x)
      positional d.digits d.exponent) := by
  unfold Style.write denotation
  rw [if_pos hx]
  exact congrArg (signed (isNegative x)) (writeDecimal_full _)

/-- **A finite double is written out as a literal of itself**, without a plus and without an
exponent. -/
theorem exists_written_literal {x : Float} (hx : rank x < infiniteRank) :
    ∃ a : Literal, a.text = fullStyle.write x ∧ a.sign ≠ some '+' ∧ a.numeral.exponent = none ∧
      a.value = x := by
  obtain ⟨n, htext, hrank, hexponent, hw, hz⟩ : ∃ n : Numeral,
      signed (isNegative x) n.text = fullStyle.write x ∧ n.decimal.rank = rank x ∧
        n.exponent = none ∧ n.Written ∧ n.hasLeadingZero = false := by
    rw [write_of_finite hx]
    by_cases hzero : rank x = 0
    · obtain ⟨m, htext, hm, hexponent, hw, hz⟩ := exists_plain_numeral 0
      refine ⟨m, ?_, ?_, hexponent, hw, hz⟩
      · rw [if_pos hzero, htext]
        rfl
      · rw [hm, hzero]
        rfl
    · obtain ⟨n, htext, hvalue, hexponent, hw, hz⟩ :=
        Decimal.exists_numeral_positional (shortest_mod_ten .up hx.le hzero)
      refine ⟨n, ?_, ?_, hexponent, hw, hz⟩
      · rw [if_neg hzero, htext]
      · rw [Decimal.rank_eq_of_value_eq hvalue, rank_shortest .up hx.le]
  refine ⟨literalOf (isNegative x) n hw hz, ?_, ?_, hexponent, ?_⟩
  · rw [text_literalOf, htext]
  · cases hsign : isNegative x <;> simp [literalOf]
  · rw [Literal.value, negative_literalOf]
    show ofRank (isNegative x) n.decimal.rank = x
    rw [hrank, ofRank_rank]

end PocketCalc.Number
