import PocketCalc.Proofs.ShownText

/-!
# Showing a result again

The text of a double is read back as a double, and that one has a text again. The two texts are the
same unless the first is a power of ten whose nearest double lies below it: the digits of a number
below a power of ten are ten times finer, and so the distance to the power may show.

The text that then takes the place of the first is not one of these exceptions. So from the second
text on nothing changes any more.
-/

namespace PocketCalc.Number

/-! ## Rounding what was read back -/

namespace RoundsAt

variable {count : ℕ} {v w : ℚ} {d d' : Decimal}

/-- What lies no further from a rounded number than the number that was rounded, rounds to the same
digits at the same place. -/
theorem rounds_of_closer (h : RoundsAt count v d) (hw : |d.value - w| ≤ |d.value - v|) :
    RoundsTo (w / 10 ^ d.exponent) d.coefficient := by
  have hpos := ten_zpow_pos d.exponent
  have hscale (q : ℚ) : |d.value - q| = |q / 10 ^ d.exponent - d.coefficient| * 10 ^ d.exponent := by
    rw [← abs_of_pos hpos, ← abs_mul, abs_of_pos hpos, sub_mul, div_mul_cancel₀ _ hpos.ne',
      abs_sub_comm, Decimal.value]
  rw [hscale, hscale] at hw
  have hle := le_of_mul_le_mul_right hw hpos
  refine ⟨hle.trans h.rounds.half, fun ht => h.rounds.even ?_⟩
  -- a tie was a tie before
  exact le_antisymm h.rounds.half (ht ▸ hle)

/-- **What is no further away rounds to the same number**, unless that number is the start of its
decade and what is rounded lies below. -/
theorem value_eq_of_closer (h : RoundsAt count v d) (hc : 1 ≤ count)
    (hw : |d.value - w| ≤ |d.value - v|) (h' : RoundsAt count w d')
    (hstart : d.value = 10 ^ (d.exponent + count - 1) → d.value ≤ w) : d'.value = d.value := by
  have hpos := ten_zpow_pos d.exponent
  have hround := h.rounds_of_closer hw
  obtain ⟨hlow, hhigh⟩ := h.coefficient_bounds hc
  have hnear : |d.value - w| ≤ 10 ^ d.exponent / 2 := by
    refine hw.trans ?_
    rw [abs_sub_comm]
    exact h.error_le
  obtain ⟨hbelow, habove⟩ := abs_le.mp hnear
  have hdecade : (10 : ℚ) ^ (d.exponent + count - 1) = 10 ^ (count - 1) * 10 ^ d.exponent := by
    rw [show d.exponent + count - 1 = ((count - 1 : ℕ) : ℤ) + d.exponent by omega, ten_zpow_add,
      zpow_natCast]
  have hnext : (10 : ℚ) ^ (d.exponent + count) = 10 ^ count * 10 ^ d.exponent := by
    rw [add_comm, ten_zpow_add, zpow_natCast]
  rcases lt_or_ge w (10 ^ (d.exponent + count - 1)) with hlt | hge
  · -- below its decade there is room for the start only
    have hcoefficient : d.coefficient = 10 ^ (count - 1) := by
      refine le_antisymm ?_ hlow
      rw [hdecade] at hlt
      have hhalf : (d.coefficient : ℚ) * 10 ^ d.exponent <
          (10 ^ (count - 1) + 1) * 10 ^ d.exponent := by
        rw [Decimal.value] at habove
        linarith
      have := lt_of_mul_lt_mul_right hhalf hpos.le
      exact Nat.lt_succ_iff.mp (by exact_mod_cast this)
    have hvalue : d.value = 10 ^ (d.exponent + count - 1) := by
      rw [hdecade, Decimal.value, hcoefficient, Nat.cast_pow, Nat.cast_ofNat]
    exact absurd (hvalue ▸ hstart hvalue) hlt.not_ge
  rcases lt_or_ge w (10 ^ (d.exponent + count)) with hlt | hge'
  · rw [h'.unique ⟨hge, hlt, hround⟩]
  · -- above its decade it was carried there
    have hcoefficient : d.coefficient = 10 ^ count := by
      refine le_antisymm hhigh ?_
      rw [hnext] at hge'
      have hhalf : (10 ^ count : ℚ) * 10 ^ d.exponent <
          (d.coefficient + 1) * 10 ^ d.exponent := by
        rw [Decimal.value] at hbelow
        linarith
      have := lt_of_mul_lt_mul_right hhalf hpos.le
      exact Nat.lt_succ_iff.mp (by exact_mod_cast this)
    have hvalue : d.value = 10 ^ (d.exponent + count) := by
      rw [hnext, Decimal.value, hcoefficient, Nat.cast_pow, Nat.cast_ofNat]
    have hcarried : RoundsAt count w ⟨10 ^ (count - 1), d.exponent + 1⟩ := by
      refine ⟨?_, ?_, rounds_carry hc (hcoefficient ▸ hround)⟩
      · rwa [show d.exponent + 1 + count - 1 = d.exponent + count by ring]
      · have hunit : (10 : ℚ) ^ d.exponent ≤ d.value := hvalue ▸ ten_zpow_le (by omega)
        rw [show d.exponent + 1 + count = d.exponent + count + 1 by ring, ten_zpow_add _ 1, zpow_one,
          ← hvalue]
        linarith
    rw [h'.unique hcarried, Decimal.value_carry hc, ← hcoefficient]

end RoundsAt

/-! ## The text of what was read back -/

variable {precision : ℕ} {x : Float}

/-- A whole number keeps its text. -/
theorem shown_read_of_isWhole {n : ℕ} (hx : rank x < infiniteRank) (h : magnitude (rank x) = n) :
    shown precision (ofRank (isNegative x && n != 0) (rank x)) = shown precision x := by
  have hrank := rank_ofRank (isNegative x && n != 0) hx.le
  rw [shown_of_isWhole hx h, shown_of_isWhole (by rwa [hrank]) (by rwa [hrank]),
    isNegative_ofRank _ hx.le, Bool.and_assoc, Bool.and_self]

/-- So does a number that is not whole, unless it rounds to the start of a decade and is read back
as a number below. -/
theorem shown_read_of_roundsAt {d : Decimal} (h : isWhole (rank x) = false)
    (hd : RoundsAt (clampPrecision precision) (magnitude (rank x)) d)
    (htext : shown precision x = signed (isNegative x) d.trimmed.displayed)
    (hstart : d.value = 10 ^ (d.exponent + clampPrecision precision - 1) →
      d.value ≤ magnitude d.rank) :
    shown precision (ofRank (isNegative x) d.rank) = shown precision x := by
  have hc := one_le_clampPrecision precision
  obtain ⟨hnearest, hfinite⟩ := hd.isNearestRank_rank hc h
  have hne := hd.coefficient_pos hc
  have hrank := rank_ofRank (isNegative x) hfinite.le
  have hneg := isNegative_ofRank (isNegative x) hfinite.le
  cases hw : isWhole d.rank with
  | true =>
      obtain ⟨n, hn⟩ := isWhole_iff.mp hw
      have hvalue := (hd.value_eq_natCast_iff hc h n).mpr hn
      have hn0 : n ≠ 0 := by
        rintro rfl
        exact (Decimal.value_pos hne).ne' (hvalue.trans Nat.cast_zero)
      rw [shown_of_isWhole (by rwa [hrank]) (by rwa [hrank]), hneg, bne_iff_ne.mpr hn0,
        Bool.and_true, htext, Decimal.displayed_eq_toDigits (Decimal.trimmed_mod_ten hne)
          ((Decimal.value_trimmed d).trans hvalue)]
  | false =>
      obtain ⟨d', hd', htext'⟩ := exists_shown_eq precision (by rwa [hrank]) (by rwa [hrank])
      rw [hrank] at hd'
      have hvalue := hd.value_eq_of_closer hc (hnearest.closest (rank x)) hd' hstart
      rw [htext', hneg, htext,
        Decimal.trimmed_eq_of_value_eq (hd'.coefficient_pos hc) hvalue]

/-- What takes the place of a power of ten is not the start of a decade again. -/
theorem ne_start_of_lt {count : ℕ} {v w : ℚ} {d d' : Decimal} (hd : RoundsAt count v d)
    (hc : 1 ≤ count) (hw : |d.value - w| ≤ |d.value - v|) (hlt : w < d.value)
    (hstart : d.value = 10 ^ (d.exponent + count - 1)) (hd' : RoundsAt count w d') :
    d'.value ≠ 10 ^ (d'.exponent + count - 1) := by
  intro hstart'
  have hplace : d'.exponent + count - 1 < d.exponent + count - 1 := by
    rw [hstart] at hlt
    exact ten_zpow_lt_iff.mp (hd'.lower.trans_lt hlt)
  have hgap : 10 * d'.value ≤ d.value := by
    rw [hstart, hstart', ← zpow_one_add₀ (by norm_num)]
    exact ten_zpow_le (by omega)
  -- half of the power is left below it, and that is five times the power below
  have hunit : (10 : ℚ) ^ d.exponent ≤ d.value := by
    rw [hstart]
    exact ten_zpow_le (by omega)
  have hunit' : (10 : ℚ) ^ d'.exponent ≤ d'.value := by
    rw [hstart']
    exact ten_zpow_le (by omega)
  have hnear : |d.value - w| ≤ 10 ^ d.exponent / 2 := by
    refine hw.trans ?_
    rw [abs_sub_comm]
    exact hd.error_le
  have habove := (abs_le.mp hnear).2
  have hbelow := (abs_le.mp hd'.error_le).2
  have hpos : 0 < d'.value := by
    rw [hstart']
    exact ten_zpow_pos _
  linarith

/-- **Showing a result again changes it at most once.** A text is read back as a number with the
same text, except for a power of ten that is read back as a number below it; and the text of what
was read back never changes. -/
theorem shown_read (env : Environment) (precision : ℕ) (x : Float) (hx : rank x < infiniteRank) :
    ∃ q w, Denotes (shown precision x) q ∧ evaluate env (shown precision x) = .ok w ∧
      ((∀ k : ℤ, |q| = 10 ^ k → |q| ≤ |toRat w|) → shown precision w = shown precision x) ∧
      ∃ w', evaluate env (shown precision w) = .ok w' ∧
        shown precision w' = shown precision w := by
  cases h : isWhole (rank x) with
  | true =>
      obtain ⟨n, hn⟩ := isWhole_iff.mp h
      obtain ⟨hdenotes, hevaluate⟩ := read_shown_of_isWhole env precision hx hn
      have hsame : shown precision (ofRank (isNegative x && n != 0) (rank x)) = shown precision x :=
        shown_read_of_isWhole hx hn
      exact ⟨_, _, hdenotes, hevaluate, fun _ => hsame, _, by rw [hsame, hevaluate], rfl⟩
  | false =>
      have hc := one_le_clampPrecision precision
      obtain ⟨d, hd, htext⟩ := exists_shown_eq precision hx h
      obtain ⟨hdenotes, hevaluate⟩ := read_shown_of_roundsAt env precision h hd htext
      obtain ⟨hnearest, hfinite⟩ := hd.isNearestRank_rank hc h
      have hrank := rank_ofRank (isNegative x) hfinite.le
      refine ⟨_, _, hdenotes, hevaluate, fun hpower => ?_, ?_⟩
      · refine shown_read_of_roundsAt h hd htext fun hstart => ?_
        rw [abs_signedRat _ d.value_nonneg, abs_toRat, hrank] at hpower
        exact hpower _ hstart
      by_cases hstart : d.value = 10 ^ (d.exponent + clampPrecision precision - 1) →
          d.value ≤ magnitude d.rank
      · have hsame := shown_read_of_roundsAt h hd htext hstart
        exact ⟨_, by rw [hsame, hevaluate], rfl⟩
      · -- the number read back lies below a power of ten, and it is rounded anew
        push Not at hstart
        obtain ⟨hpower, hlt⟩ := hstart
        have hfraction : isWhole d.rank = false := by
          rw [Bool.eq_false_iff]
          intro hw
          obtain ⟨n, hn⟩ := isWhole_iff.mp hw
          rw [hn, (hd.value_eq_natCast_iff hc h n).mpr hn] at hlt
          exact lt_irrefl _ hlt
        obtain ⟨d', hd', htext'⟩ :=
          exists_shown_eq precision (x := ofRank (isNegative x) d.rank) (by rwa [hrank])
            (by rwa [hrank])
        obtain ⟨-, hevaluate'⟩ := read_shown_of_roundsAt env precision (by rwa [hrank]) hd' htext'
        have hne : d'.value ≠ 10 ^ (d'.exponent + clampPrecision precision - 1) := by
          rw [hrank] at hd'
          exact ne_start_of_lt hd hc (hnearest.closest (rank x)) hlt hpower hd'
        exact ⟨_, hevaluate', shown_read_of_roundsAt (by rwa [hrank]) hd' htext'
          fun hstart => absurd hstart hne⟩

/-! ## A power of ten that does not stay -/

theorem rank_ofRank_lt (negative : Bool) {r : ℕ} (h : r < infiniteRank) :
    rank (ofRank negative r) < infiniteRank := by
  rwa [rank_ofRank negative h.le]

/-- The text of a double whose rounding is known, and what it evaluates to. -/
theorem shown_of_toSignificant (env : Environment) (precision : ℕ) (negative : Bool) {r : ℕ}
    {d : Decimal} (hr : r < infiniteRank) (h : isWhole r = false)
    (hd : toSignificant (clampPrecision precision) (units r) unitsPerOne = d) :
    shown precision (ofRank negative r) = signed negative d.trimmed.displayed ∧
      evaluate env (shown precision (ofRank negative r)) = .ok (ofRank negative d.rank) := by
  have hrank := rank_ofRank negative hr.le
  have hneg := isNegative_ofRank negative hr.le
  have hpos : 0 < unitsPerOne := by exact_mod_cast unitsPerOne_pos
  have hround : RoundsAt (clampPrecision precision) (magnitude r) d := by
    rw [← hd]
    exact roundsAt_toSignificant (one_le_clampPrecision precision) (units_pos_of_not_isWhole h) hpos
  have h' : isWhole (rank (ofRank negative r)) = false := by rwa [hrank]
  obtain ⟨d', hd', htext⟩ := exists_shown_eq precision (rank_ofRank_lt negative hr) h'
  obtain rfl : d' = d := by
    rw [hrank] at hd'
    exact hd'.unique hround
  obtain ⟨-, hevaluate⟩ := read_shown_of_roundsAt env precision h' hd' htext
  rw [hneg] at htext hevaluate
  exact ⟨htext, hevaluate⟩

/-- The smallest doubles are shown with what is read back, and that stays so. -/
theorem shown_read_twentyOne :
    rank (ofRank false 21) < infiniteRank ∧
      ∃ w, evaluate {} (shown 2 (ofRank false 21)) = .ok w ∧
        ∃ w', evaluate {} (shown 2 w) = .ok w' ∧ shown 2 w' = shown 2 w := by
  have hfinite := rank_ofRank_lt false (show 21 < infiniteRank by decide)
  obtain ⟨q, w, -, hw, -, hagain⟩ := shown_read {} 2 (ofRank false 21) hfinite
  exact ⟨hfinite, w, hw, hagain⟩

/-- The text `1e-322` is read back as twenty of the smallest double, which are less. -/
theorem shown_read_ne_of_twentyOne :
    rank (ofRank false 21) < infiniteRank ∧ shown 2 (ofRank false 21) = "1e-322".toList ∧
      evaluate {} "1e-322".toList = .ok (ofRank false 20) ∧
      shown 2 (ofRank false 20) = "9.9e-323".toList := by
  obtain ⟨htext, hevaluate⟩ := shown_of_toSignificant {} 2 false (r := 21)
    (d := ⟨10, -323⟩) (by decide) (by decide +kernel) (by decide +kernel)
  obtain ⟨htext', -⟩ := shown_of_toSignificant {} 2 false (r := 20)
    (d := ⟨99, -324⟩) (by decide) (by decide +kernel) (by decide +kernel)
  have htrim : (⟨10, -323⟩ : Decimal).trimmed = ⟨1, -322⟩ := by simp [Decimal.trimmed]
  have htrim' : (⟨99, -324⟩ : Decimal).trimmed = ⟨99, -324⟩ := by simp [Decimal.trimmed]
  have hshown : shown 2 (ofRank false 21) = "1e-322".toList := by
    rw [htext, htrim]
    decide
  have hrank : (⟨10, -323⟩ : Decimal).rank = 20 := by decide +kernel
  rw [hshown, hrank] at hevaluate
  refine ⟨rank_ofRank_lt false (by decide), hshown, hevaluate, ?_⟩
  rw [htext', htrim']
  decide

end PocketCalc.Number
