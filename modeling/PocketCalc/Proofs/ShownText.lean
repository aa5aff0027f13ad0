import PocketCalc.Proofs.Literal
import PocketCalc.Proofs.ShownDecimal

/-!
# What the display shows

The text of a finite double, for every precision. A whole number is shown with all its digits; any
other is rounded to significant digits, and what it rounds to is shown without an exponent from
`10 ^ -4` upwards and in scientific notation below. Evaluating the text gives the double nearest to
the number that it denotes.
-/

namespace PocketCalc

namespace Number

/-! ## Doubles as numbers -/

/-- A number under a sign. -/
def signedRat (negative : Bool) (q : ℚ) : ℚ := if negative then -q else q

theorem abs_signedRat (negative : Bool) {q : ℚ} (h : 0 ≤ q) : |signedRat negative q| = q := by
  cases negative with
  | false => exact abs_of_nonneg h
  | true => exact (abs_neg q).trans (abs_of_nonneg h)

theorem signedRat_neg_iff (negative : Bool) {q : ℚ} (h : 0 < q) :
    decide (signedRat negative q < 0) = negative := by
  cases negative with
  | false => exact decide_eq_false (not_lt.mpr h.le)
  | true => exact decide_eq_true (neg_lt_zero.mpr h)

theorem abs_sub_signedRat (negative : Bool) (q m : ℚ) :
    |q - signedRat negative m| = |signedRat negative q - m| := by
  cases negative with
  | false => rfl
  | true =>
      show |q - -m| = |-q - m|
      rw [sub_neg_eq_add, ← neg_add', abs_neg]

/-- The number that a finite double is. -/
def toRat (x : Float) : ℚ := signedRat (isNegative x) (magnitude (rank x))

theorem abs_toRat (x : Float) : |toRat x| = magnitude (rank x) :=
  abs_signedRat _ (magnitude_nonneg _)

/-- `x` is the finite double closest to `q`, halves to even; where that is a zero, it has the sign
of `q`. -/
structure IsNearestDouble (q : ℚ) (x : Float) : Prop where
  finite : rank x < infiniteRank
  closest : ∀ y, rank y < infiniteRank → |q - toRat x| ≤ |q - toRat y|
  even : ∀ y, rank y < infiniteRank → toRat y ≠ toRat x → |q - toRat x| = |q - toRat y| →
    Even (rank x)
  sign : isNegative x = decide (q < 0)

/-- The magnitude nearest to that of a number makes the double nearest to the number. -/
theorem isNearestDouble_ofRank {negative : Bool} {q : ℚ} {r : ℕ} (hq : 0 ≤ q)
    (hsign : q = 0 → negative = false) (h : IsNearestRank q r) (hr : r < infiniteRank) :
    IsNearestDouble (signedRat negative q) (ofRank negative r) := by
  have hrank := rank_ofRank negative hr.le
  have hneg := isNegative_ofRank negative hr.le
  have hrat : toRat (ofRank negative r) = signedRat negative (magnitude r) := by
    rw [toRat, hrank, hneg]
  have hself : |signedRat negative q - toRat (ofRank negative r)| = |q - magnitude r| := by
    rw [hrat]
    cases negative with
    | false => rfl
    | true =>
        show |-q - -magnitude r| = _
        rw [neg_sub_neg, abs_sub_comm]
  -- the distance of the magnitudes is the least that the signs leave
  have hother (y : Float) : |q - magnitude (rank y)| ≤ |signedRat negative q - toRat y| := by
    have htri := abs_abs_sub_abs_le (signedRat negative q) (toRat y)
    rwa [abs_signedRat negative hq, abs_toRat] at htri
  refine ⟨by rwa [hrank], fun y _ => ?_, fun y _ hne ht => ?_, ?_⟩
  · rw [hself]
    exact (h.closest _).trans (hother y)
  · rw [hrank]
    rw [hself] at ht
    have htie : |q - magnitude r| = |q - magnitude (rank y)| :=
      le_antisymm (h.closest _) ((hother y).trans_eq ht.symm)
    by_cases hy : rank y = r
    · rcases Nat.eq_zero_or_pos r with hzero | hpos
      · rw [hzero]
        exact Even.zero
      -- the same magnitude under the other sign is further away than zero
      have hflip : toRat y = -signedRat negative (magnitude r) := by
        rw [hrat, toRat, hy] at hne
        rw [toRat, hy]
        cases hn : isNegative y with
        | false =>
            cases negative with
            | false => rw [hn] at hne; exact absurd rfl hne
            | true => exact (neg_neg _).symm
        | true =>
            cases negative with
            | false => rfl
            | true => rw [hn] at hne; exact absurd rfl hne
      have hmagnitude : 0 < magnitude r := by
        rw [← magnitude_zero]
        exact magnitude_strictMono hpos
      have hsum : |signedRat negative q - toRat y| = q + magnitude r := by
        rw [hflip, sub_neg_eq_add]
        cases negative with
        | false => exact abs_of_nonneg (add_nonneg hq hmagnitude.le)
        | true =>
            show |-q + -magnitude r| = _
            rw [← neg_add, abs_neg, abs_of_nonneg (add_nonneg hq hmagnitude.le)]
      have hzero := h.closest 0
      rw [magnitude_zero, sub_zero, abs_of_nonneg hq, ht, hsum] at hzero
      linarith
    · exact h.even _ hy htie
  · rw [hneg]
    rcases hq.lt_or_eq with hpos | hzero
    · exact (signedRat_neg_iff negative hpos).symm
    · rw [hsign hzero.symm, ← hzero]
      rfl

/-- No two doubles are nearest to one number. -/
theorem IsNearestDouble.unique {q : ℚ} {x y : Float} (h : IsNearestDouble q x)
    (h' : IsNearestDouble q y) : x = y := by
  suffices hrank : rank x = rank y by
    rw [← ofRank_rank x, ← ofRank_rank y, hrank, h.sign, h'.sign]
  by_contra hne
  wlog hlt : rank x < rank y generalizing x y
  · exact this h' h (Ne.symm hne) (lt_of_le_of_ne (Nat.le_of_not_lt hlt) (Ne.symm hne))
  -- the doubles of the sign of `q` are as far from it as their magnitudes from its size
  have hdistance (z : Float) (hz : isNegative z = decide (q < 0)) :
      |q - toRat z| = |signedRat (decide (q < 0)) q - magnitude (rank z)| := by
    rw [toRat, hz, abs_sub_signedRat]
  have hdiffer : toRat y ≠ toRat x := fun heq => by
    have habs := congrArg abs heq
    rw [abs_toRat, abs_toRat] at habs
    exact hne (magnitude_strictMono.injective habs).symm
  have tie : |q - toRat x| = |q - toRat y| :=
    le_antisymm (h.closest y h'.finite) (h'.closest x h.finite)
  -- both ranks are even, so there is one between them, and it is closer
  obtain ⟨i, hi⟩ := h.even y h'.finite hdiffer tie
  obtain ⟨j, hj⟩ := h'.even x h.finite hdiffer.symm tie.symm
  have hbetween : rank x + 1 < rank y := by omega
  let z := ofRank (decide (q < 0)) (rank x + 1)
  have hz : rank z = rank x + 1 := rank_ofRank _ (hbetween.trans h'.finite).le
  have hfar := h.closest z (hz ▸ hbetween.trans h'.finite)
  rw [hdistance x h.sign, hdistance y h'.sign] at tie
  rw [hdistance x h.sign, hdistance z (isNegative_ofRank _ (hbetween.trans h'.finite).le), hz]
    at hfar
  exact absurd hfar (abs_sub_lt_of_between (magnitude_strictMono (Nat.lt_succ_self _))
    (magnitude_strictMono hbetween) tie).not_ge

/-! ## The texts -/

variable {precision : ℕ} {x : Float}

/-- Denoting a number: being a literal of it. -/
def Denotes (text : List Char) (q : ℚ) : Prop :=
  ∃ a : Literal, a.text = text ∧ signedRat a.negative a.numeral.decimal.value = q

/-- Digits without a zero too many, under a sign that a lone zero does not have. -/
theorem toList_toString (n : ℤ) :
    (toString n).toList = signed (decide (n < 0)) (Nat.toDigits 10 n.natAbs) := by
  cases n with
  | ofNat m => exact Nat.toList_repr
  | negSucc m =>
      show ("-" ++ Nat.repr (m + 1)).toList = _
      rw [String.toList_append, Nat.toList_repr, decide_eq_true (Int.negSucc_lt_zero m)]
      rfl

theorem shown_of_isWhole {n : ℕ} (hx : rank x < infiniteRank) (h : magnitude (rank x) = n) :
    shown precision x = signed (isNegative x && n != 0) (Nat.toDigits 10 n) := by
  rw [shown_of_finite hx, if_pos (isWhole_iff.mpr ⟨n, h⟩)]
  rcases Nat.eq_zero_or_pos n with rfl | hn
  · have hzero : units (rank x) = 0 := by
      rw [magnitude, Nat.cast_zero, div_eq_zero_iff] at h
      exact_mod_cast h.resolve_right unitsPerOne_pos.ne'
    rw [wholeText, hzero, bne_self_eq_false, Bool.and_false]
    rfl
  · rw [wholeText_eq _ hn.ne' h, bne_iff_ne.mpr hn.ne', Bool.and_true]

theorem one_le_clampPrecision (precision : ℕ) : 1 ≤ clampPrecision precision :=
  le_min (le_max_right _ _) (by decide)

theorem exists_shown_eq (precision : ℕ) (hx : rank x < infiniteRank)
    (h : isWhole (rank x) = false) :
    ∃ d, RoundsAt (clampPrecision precision) (magnitude (rank x)) d ∧
      shown precision x = signed (isNegative x) d.trimmed.displayed := by
  obtain ⟨d, hd, htext⟩ :=
    exists_significantText_eq (one_le_clampPrecision precision) (isNegative x) h
  refine ⟨d, hd, ?_⟩
  rw [shown_of_finite hx, h, if_neg (by decide), htext]

/-! ## Reading the text back -/

/-- A literal of a minus or of no sign. -/
def literalOf (negative : Bool) (n : Numeral) (hn : n.Written) (hz : n.hasLeadingZero = false) :
    Literal where
  sign := if negative then some '-' else none
  numeral := n
  isSign := by
    intro c hc
    cases negative with
    | false => cases hc
    | true => exact .inr (Option.some.inj hc).symm
  written := hn
  noLeadingZero := hz

theorem text_literalOf (negative : Bool) {n : Numeral} (hn : n.Written)
    (hz : n.hasLeadingZero = false) : (literalOf negative n hn hz).text = signed negative n.text := by
  cases negative <;> rfl

theorem negative_literalOf (negative : Bool) {n : Numeral} (hn : n.Written)
    (hz : n.hasLeadingZero = false) : (literalOf negative n hn hz).negative = negative := by
  cases negative <;> rfl

/-- Digits alone, as a numeral. -/
theorem exists_numeral_toDigits (n : ℕ) :
    ∃ m : Numeral, m.text = Nat.toDigits 10 n ∧ m.decimal = ⟨n, 0⟩ ∧ m.Written ∧
      m.hasLeadingZero = false := by
  refine ⟨⟨Nat.toDigits 10 n, none, none⟩, by simp [Numeral.text], ?_,
    Numeral.written_of_digits ?_ rfl, ?_⟩
  · simp [Numeral.decimal, Numeral.digits, Nat.ofDigitChars_ten_toDigits]
  · simpa [Numeral.digits] using digits_toDigits n
  · rcases Nat.eq_zero_or_pos n with rfl | hn
    · rfl
    · obtain ⟨c, cs, hcs, hc⟩ := exists_head_toDigits hn.ne'
      simp [Numeral.hasLeadingZero, hcs, hc]

theorem Decimal.leadingPlace_lt_iff {d : Decimal} (hd : d.coefficient ≠ 0) :
    d.leadingPlace < -4 ↔ d.value < 1 / 10 ^ 4 := by
  have hpow : (1 / 10 ^ 4 : ℚ) = 10 ^ (-4 : ℤ) := by norm_num
  obtain ⟨hlow, hhigh⟩ := leadingPlace_spec hd
  rw [hpow]
  constructor
  · intro h
    exact hhigh.trans_le (ten_zpow_le (by omega))
  · intro h
    exact ten_zpow_lt_iff.mp (hlow.trans_lt h)

/-- What is displayed of a decimal is a numeral of it. -/
theorem Decimal.exists_numeral_displayed {d : Decimal} (hd : d.coefficient % 10 ≠ 0) :
    ∃ n : Numeral, n.text = d.displayed ∧ n.decimal.value = d.value ∧ n.decimal.exponent ≤ 0 ∧
      n.Written ∧ n.hasLeadingZero = false := by
  by_cases hwhole : ∃ n : ℕ, d.value = n
  · obtain ⟨n, hn⟩ := hwhole
    obtain ⟨m, htext, hm, hw, hz⟩ := exists_numeral_toDigits n
    refine ⟨m, by rw [htext, displayed_eq_toDigits hd hn], ?_, by rw [hm], hw, hz⟩
    rw [hm, hn, value, zpow_zero, mul_one]
  · have he : d.exponent < 0 := exponent_neg (not_exists.mp hwhole)
    unfold displayed
    split
    · rename_i hplace
      obtain ⟨n, htext, hn, hs⟩ := exists_scientific hd (by omega)
      exact ⟨n, htext, by rw [hn], by rw [hn]; exact he.le, hs.written,
        hasLeadingZero_of_isScientific hs⟩
    · obtain ⟨n, htext, hn, hp⟩ := exists_pointed hd he
      exact ⟨n, htext, by rw [hn], by rw [hn]; exact he.le, hp.written,
        hasLeadingZero_of_isPointed hp⟩

/-- A numeral under a sign denotes a number and evaluates to the double nearest to it. -/
theorem denotes_signed {negative : Bool} {n : Numeral} (hn : n.Written)
    (hz : n.hasLeadingZero = false) :
    Denotes (signed negative n.text) (signedRat negative n.decimal.value) :=
  ⟨literalOf negative n hn hz, text_literalOf negative hn hz, by rw [negative_literalOf]; rfl⟩

theorem evaluate_signed (env : Environment) {negative : Bool} {n : Numeral} {r : ℕ}
    (hn : n.Written) (hz : n.hasLeadingZero = false) (he : n.decimal.exponent ≤ 0)
    (h : IsNearestRank n.decimal.value r) (hr : r < infiniteRank) :
    evaluate env (signed negative n.text) = .ok (ofRank negative r) := by
  obtain ⟨r', hr', hrank⟩ := n.decimal.exists_isNearestRank_rank (by omega)
  rw [h.unique hr'] at hr ⊢
  rw [← text_literalOf negative hn hz, Literal.evaluate_text, Literal.value,
    negative_literalOf, Decimal.toFloat]
  show Except.ok (ofRank negative n.decimal.rank) = _
  rw [hrank, Nat.min_eq_left hr.le]

/-- A whole number is read back as it is, except for the sign of zero. -/
theorem read_shown_of_isWhole (env : Environment) (precision : ℕ) {n : ℕ}
    (hx : rank x < infiniteRank) (h : magnitude (rank x) = n) :
    Denotes (shown precision x) (signedRat (isNegative x && n != 0) n) ∧
      evaluate env (shown precision x) = .ok (ofRank (isNegative x && n != 0) (rank x)) := by
  obtain ⟨m, htext, hm, hw, hz⟩ := exists_numeral_toDigits n
  have hvalue : m.decimal.value = n := by
    rw [hm, Decimal.value, zpow_zero, mul_one]
  have hnearest : IsNearestRank m.decimal.value (rank x) := by
    rw [hvalue, ← h]
    exact isNearestRank_magnitude _
  rw [shown_of_isWhole hx h, ← htext, ← hvalue]
  exact ⟨denotes_signed hw hz, evaluate_signed env hw hz (by rw [hm]) hnearest hx⟩

/-- Any other number is read back as the double nearest to what it was rounded to. -/
theorem read_shown_of_roundsAt (env : Environment) (precision : ℕ) {d : Decimal}
    (h : isWhole (rank x) = false)
    (hd : RoundsAt (clampPrecision precision) (magnitude (rank x)) d)
    (htext : shown precision x = signed (isNegative x) d.trimmed.displayed) :
    Denotes (shown precision x) (signedRat (isNegative x) d.value) ∧
      evaluate env (shown precision x) = .ok (ofRank (isNegative x) d.rank) := by
  have hc := one_le_clampPrecision precision
  obtain ⟨hnearest, hfinite⟩ := hd.isNearestRank_rank hc h
  obtain ⟨n, hn, hvalue, he, hw, hz⟩ :=
    Decimal.exists_numeral_displayed (Decimal.trimmed_mod_ten (hd.coefficient_pos hc))
  rw [Decimal.value_trimmed] at hvalue
  rw [← hvalue] at hnearest ⊢
  rw [htext, ← hn]
  exact ⟨denotes_signed hw hz, evaluate_signed env hw hz he hnearest hfinite⟩

/-! ## The display and its text -/

/-- `d` is `q` rounded to `count` significant digits, halves to even. -/
def IsRounded (count : ℕ) (q d : ℚ) : Prop :=
  ∃ e : Decimal, RoundsAt count |q| e ∧ d = signedRat (decide (q < 0)) e.value

/-- A sign and a size make a whole number if the size is one. -/
theorem natAbs_of_signedRat {negative : Bool} {q : ℚ} {n : ℤ} (hq : 0 ≤ q)
    (h : signedRat negative q = n) :
    q = n.natAbs ∧ (negative && n.natAbs != 0) = decide (n < 0) := by
  have habs : q = n.natAbs := by
    rw [← abs_signedRat negative hq, h, Nat.cast_natAbs, Int.cast_abs]
  refine ⟨habs, ?_⟩
  cases negative with
  | false =>
      have hn : (0 : ℚ) ≤ n := h ▸ hq
      have hn' : 0 ≤ n := by exact_mod_cast hn
      exact (decide_eq_false (not_lt.mpr hn')).symm
  | true =>
      have hn : (n : ℚ) ≤ 0 := by
        rw [← h]
        exact neg_nonpos.mpr hq
      have hn' : n ≤ 0 := by exact_mod_cast hn
      rw [Bool.true_and, Bool.eq_iff_iff, bne_iff_ne, decide_eq_true_iff]
      omega

theorem shown_of_intCast {n : ℤ} (precision : ℕ) (hx : rank x < infiniteRank)
    (h : toRat x = n) : shown precision x = (toString n).toList := by
  obtain ⟨hsize, hsign⟩ := natAbs_of_signedRat (magnitude_nonneg _) h
  rw [shown_of_isWhole hx hsize, hsign, toList_toString]

/-- A number that is not whole, rounded, and the three ways to show what it rounds to. -/
theorem exists_isRounded (precision : ℕ) (hx : rank x < infiniteRank)
    (hw : ∀ n : ℤ, toRat x ≠ n) :
    ∃ d, IsRounded (clampPrecision precision) (toRat x) d ∧
      (∀ n : ℤ, d = n → shown precision x = (toString n).toList) ∧
      ((∀ n : ℤ, d ≠ n) → |d| < 1 / 10 ^ 4 → ∃ n : Numeral, n.IsScientific ∧
        n.decimal.value = |d| ∧ shown precision x = signed (decide (d < 0)) n.text) ∧
      ((∀ n : ℤ, d ≠ n) → 1 / 10 ^ 4 ≤ |d| → ∃ n : Numeral, n.IsPointed ∧
        n.decimal.value = |d| ∧ shown precision x = signed (decide (d < 0)) n.text) := by
  have hfraction : isWhole (rank x) = false := by
    rw [Bool.eq_false_iff]
    intro h
    obtain ⟨n, hn⟩ := isWhole_iff.mp h
    cases hneg : isNegative x with
    | false => exact hw n (by rw [toRat, hn, hneg]; exact (Int.cast_natCast n).symm)
    | true => exact hw (-n) (by rw [toRat, hn, hneg]; push_cast; rfl)
  obtain ⟨e, he, htext⟩ := exists_shown_eq precision hx hfraction
  have hne := he.coefficient_pos (one_le_clampPrecision precision)
  have hmod := Decimal.trimmed_mod_ten hne
  have hpos := Decimal.value_pos hne
  have htrim := Decimal.value_trimmed e
  have hsize : 0 < magnitude (rank x) := (ten_zpow_pos _).trans_le he.lower
  have hsign : decide (toRat x < 0) = isNegative x := signedRat_neg_iff _ hsize
  refine ⟨signedRat (isNegative x) e.value, ⟨e, by rwa [abs_toRat], by rw [hsign]⟩, ?_, ?_, ?_⟩
  · intro n hn
    obtain ⟨hvalue, hdecide⟩ := natAbs_of_signedRat hpos.le hn
    have hn0 : n.natAbs ≠ 0 := by
      intro hz
      rw [hz, Nat.cast_zero] at hvalue
      exact hpos.ne' hvalue
    rw [bne_iff_ne.mpr hn0, Bool.and_true] at hdecide
    rw [htext, Decimal.displayed_eq_toDigits hmod (htrim.trans hvalue), toList_toString, hdecide]
  · intro _ hsmall
    rw [abs_signedRat _ hpos.le, ← htrim] at hsmall
    have hplace := (Decimal.leadingPlace_lt_iff (ne_zero_of_mod_ten hmod)).mpr hsmall
    obtain ⟨n, hn, hdecimal, hshape⟩ := Decimal.exists_scientific hmod (by omega)
    refine ⟨n, hshape, ?_, ?_⟩
    · rw [abs_signedRat _ hpos.le, hdecimal, htrim]
    · rw [htext, signedRat_neg_iff _ hpos, Decimal.displayed, if_pos hplace, hn]
  · intro hwhole hlarge
    have hexponent : e.trimmed.exponent < 0 := by
      refine Decimal.exponent_neg fun n hn => ?_
      rw [htrim] at hn
      cases hneg : isNegative x with
      | false => exact hwhole n (by rw [hn, hneg]; exact (Int.cast_natCast n).symm)
      | true => exact hwhole (-n) (by rw [hn, hneg]; push_cast; rfl)
    rw [abs_signedRat _ hpos.le, ← htrim] at hlarge
    have hplace := mt (Decimal.leadingPlace_lt_iff (ne_zero_of_mod_ten hmod)).mp hlarge.not_gt
    obtain ⟨n, hn, hdecimal, hshape⟩ := Decimal.exists_pointed hmod hexponent
    refine ⟨n, hshape, ?_, ?_⟩
    · rw [abs_signedRat _ hpos.le, hdecimal, htrim]
    · rw [htext, signedRat_neg_iff _ hpos, Decimal.displayed, if_neg hplace, hn]

theorem exists_isNearestDouble (env : Environment) (precision : ℕ) (hx : rank x < infiniteRank) :
    ∃ q w, Denotes (shown precision x) q ∧ evaluate env (shown precision x) = .ok w ∧
      IsNearestDouble q w := by
  cases h : isWhole (rank x) with
  | true =>
      obtain ⟨n, hn⟩ := isWhole_iff.mp h
      obtain ⟨hdenotes, hevaluate⟩ := read_shown_of_isWhole env precision hx hn
      refine ⟨_, _, hdenotes, hevaluate, isNearestDouble_ofRank (Nat.cast_nonneg n) ?_ ?_ hx⟩
      · intro hz
        have hn0 : n = 0 := by exact_mod_cast hz
        rw [hn0, bne_self_eq_false, Bool.and_false]
      · rw [← hn]
        exact isNearestRank_magnitude _
  | false =>
      obtain ⟨d, hd, htext⟩ := exists_shown_eq precision hx h
      have hc := one_le_clampPrecision precision
      obtain ⟨hdenotes, hevaluate⟩ := read_shown_of_roundsAt env precision h hd htext
      obtain ⟨hnearest, hfinite⟩ := hd.isNearestRank_rank hc h
      refine ⟨_, _, hdenotes, hevaluate, isNearestDouble_ofRank d.value_nonneg ?_ hnearest hfinite⟩
      intro hz
      exact absurd hz (Decimal.value_pos (hd.coefficient_pos hc)).ne'

/-- **What the display shows is the correctly rounded decimal**, and it is read back as the double
nearest to that. -/
theorem shown_spec (env : Environment) (precision : ℕ) (x : Float) (hx : rank x < infiniteRank) :
    (∀ n : ℤ, toRat x = n → shown precision x = (toString n).toList) ∧
    ((∀ n : ℤ, toRat x ≠ n) → ∃ d, IsRounded (min (max precision 1) 17) (toRat x) d ∧
      (∀ n : ℤ, d = n → shown precision x = (toString n).toList) ∧
      ((∀ n : ℤ, d ≠ n) → |d| < 1 / 10 ^ 4 → ∃ n : Numeral, n.IsScientific ∧
        n.decimal.value = |d| ∧ shown precision x = signed (decide (d < 0)) n.text) ∧
      ((∀ n : ℤ, d ≠ n) → 1 / 10 ^ 4 ≤ |d| → ∃ n : Numeral, n.IsPointed ∧
        n.decimal.value = |d| ∧ shown precision x = signed (decide (d < 0)) n.text)) ∧
    ∃ q w, Denotes (shown precision x) q ∧ evaluate env (shown precision x) = .ok w ∧
      IsNearestDouble q w :=
  ⟨fun _ h => shown_of_intCast precision hx h, exists_isRounded precision hx,
    exists_isNearestDouble env precision hx⟩

theorem toRat_ne_intCast (h : isWhole (rank x) = false) (n : ℤ) : toRat x ≠ n := by
  intro hn
  obtain ⟨hsize, -⟩ := natAbs_of_signedRat (magnitude_nonneg _) hn
  rw [isWhole_iff.mpr ⟨_, hsize⟩] at h
  cases h

/-- The smallest double is not whole, it is rounded, and the text of that is read back. -/
theorem shown_spec_smallest :
    rank (ofRank false 1) < infiniteRank ∧
      (∃ d, IsRounded 3 (toRat (ofRank false 1)) d ∧
        ∀ n : ℤ, d = n → shown 3 (ofRank false 1) = (toString n).toList) ∧
      ∃ q w, Denotes (shown 3 (ofRank false 1)) q ∧
        evaluate {} (shown 3 (ofRank false 1)) = .ok w ∧ IsNearestDouble q w := by
  have hrank : rank (ofRank false 1) = 1 := rank_ofRank false (by decide)
  have hfinite : rank (ofRank false 1) < infiniteRank := by
    rw [hrank]
    decide
  have hfraction : isWhole (rank (ofRank false 1)) = false := by
    rw [hrank]
    decide +kernel
  obtain ⟨-, hrounded, hread⟩ := shown_spec {} 3 (ofRank false 1) hfinite
  obtain ⟨d, hd, hwhole, -⟩ := hrounded (toRat_ne_intCast hfraction)
  exact ⟨hfinite, ⟨d, hd, hwhole⟩, hread⟩

end Number

end PocketCalc
