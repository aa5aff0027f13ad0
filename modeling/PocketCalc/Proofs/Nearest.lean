import Mathlib
import PocketCalc.Number.Decimal

/-!
# The nearest whole number and the nearest double

Both roundings of the library are to the nearest, halves to even. Here this is said of rational
numbers: `RoundsTo` for whole numbers and `IsNearestRank` for the magnitudes of doubles. Each of
them pins its result down, so two computations that round the same number agree, and a number that
is known to be close enough needs no computation at all.

Ranks are not bounded in this module: it is as if the doubles went on above the largest finite
one, and `nearestRank` stops at infinity where the nearest rank lies behind it.
-/

namespace PocketCalc.Number

/-! ## Whole numbers -/

/-- `m` is the whole number nearest to `q`, the even one of two. -/
structure RoundsTo (q : ℚ) (m : ℕ) : Prop where
  half : |q - m| ≤ 1 / 2
  even : |q - m| = 1 / 2 → Even m

variable {q : ℚ} {m n num den : ℕ}

/-- Half a step is not reached, so there is no tie. -/
theorem roundsTo_of_abs_lt (h : |q - m| < 1 / 2) : RoundsTo q m :=
  ⟨h.le, fun ht => absurd ht h.ne⟩

/-- No whole number is closer. -/
theorem RoundsTo.closest (h : RoundsTo q m) (k : ℤ) : |q - m| ≤ |q - k| := by
  by_cases hk : k = m
  · rw [hk, Int.cast_natCast]
  · have apart : (1 : ℚ) ≤ |(k : ℚ) - m| := by
      have hz : (1 : ℤ) ≤ |k - m| := Int.one_le_abs (sub_ne_zero.mpr hk)
      exact_mod_cast hz
    have triangle : |(k : ℚ) - m| ≤ |q - k| + |q - m| := by
      rw [show (k : ℚ) - m = -(q - k) + (q - m) by ring]
      exact (abs_add_le _ _).trans_eq (by rw [abs_neg])
    have := h.half
    linarith

/-- Another whole number is as close only at a half. -/
theorem RoundsTo.half_of_tie (h : RoundsTo q m) {k : ℤ} (hk : k ≠ m)
    (ht : |q - m| = |q - k|) : |q - m| = 1 / 2 := by
  have apart : (1 : ℚ) ≤ |(k : ℚ) - m| := by
    have hz : (1 : ℤ) ≤ |k - m| := Int.one_le_abs (sub_ne_zero.mpr hk)
    exact_mod_cast hz
  have triangle : |(k : ℚ) - m| ≤ |q - k| + |q - m| := by
    rw [show (k : ℚ) - m = -(q - k) + (q - m) by ring]
    exact (abs_add_le _ _).trans_eq (by rw [abs_neg])
  have := h.half
  linarith

theorem RoundsTo.unique (h : RoundsTo q m) (h' : RoundsTo q n) : m = n := by
  by_contra hne
  -- two different ones are both half a step away, hence both even, and they are neighbours
  have hmn := h.closest n
  have hnm := h'.closest m
  rw [Int.cast_natCast] at hmn hnm
  have tie : |q - m| = |q - (n : ℤ)| := le_antisymm (by simpa using hmn) (by simpa using hnm)
  have hm := h.half_of_tie (Nat.cast_injective.ne (Ne.symm hne)) tie
  have hn : |q - n| = 1 / 2 := by rw [← hm, tie, Int.cast_natCast]
  obtain ⟨i, hi⟩ := h.even hm
  obtain ⟨j, hj⟩ := h'.even hn
  have hnear : |(m : ℚ) - n| ≤ 1 := by
    rw [show (m : ℚ) - n = -(q - m) + (q - n) by ring]
    refine (abs_add_le _ _).trans ?_
    rw [abs_neg, hm, hn]
    norm_num
  have hz : |(m : ℤ) - n| ≤ 1 := by exact_mod_cast hnear
  rw [abs_le] at hz
  omega

/-- The rounding of the library. -/
theorem roundsTo_roundHalfEven (num : ℕ) (hd : 0 < den) :
    RoundsTo (num / den) (roundHalfEven num den) := by
  have hden : (0 : ℚ) < den := by exact_mod_cast hd
  have hmod := Nat.mod_lt num hd
  -- the quotient is `below` and a rest, which is compared with one half
  set below := num / den with hbelow
  set rest := num % den with hrest
  have hnum : (num : ℚ) / den = below + rest / den := by
    have : (num : ℚ) = den * below + rest := by exact_mod_cast (Nat.div_add_mod num den).symm
    rw [this, add_div, mul_div_cancel_left₀ _ hden.ne']
  have hnonneg : (0 : ℚ) ≤ rest / den := by positivity
  have hone : (rest : ℚ) / den < 1 := by rw [div_lt_one hden]; exact_mod_cast hmod
  have hhalf : (2 * rest < den → (rest : ℚ) / den < 1 / 2) ∧
      (den < 2 * rest → 1 / 2 < (rest : ℚ) / den) := by
    constructor
    · intro h
      rw [div_lt_div_iff₀ hden two_pos]
      exact_mod_cast (by omega : rest * 2 < 1 * den)
    · intro h
      rw [div_lt_div_iff₀ two_pos hden]
      exact_mod_cast (by omega : 1 * den < rest * 2)
  unfold roundHalfEven
  simp only [← hbelow, ← hrest]
  rw [hnum]
  split
  · rename_i h
    have hlt := hhalf.1 h
    have habs : |(below : ℚ) + rest / den - below| = rest / den := by
      rw [add_sub_cancel_left, abs_of_nonneg hnonneg]
    exact ⟨by rw [habs]; exact hlt.le, fun ht => absurd (habs ▸ ht) hlt.ne⟩
  split
  · rename_i h
    have hlt := hhalf.2 h
    have habs : |(below : ℚ) + rest / den - (below + 1 : ℕ)| = 1 - rest / den := by
      push_cast
      rw [abs_sub_comm, show (below : ℚ) + 1 - (below + rest / den) = 1 - rest / den by ring,
        abs_of_nonneg (by linarith)]
    exact ⟨by rw [habs]; linarith, fun ht => absurd (habs ▸ ht) (by linarith)⟩
  · -- exactly one half: the even one of the two neighbours
    have heq : (rest : ℚ) / den = 1 / 2 := by
      rw [div_eq_div_iff hden.ne' two_ne_zero]
      exact_mod_cast (by omega : rest * 2 = 1 * den)
    rcases Nat.mod_two_eq_zero_or_one below with heven | hodd
    · refine ⟨?_, fun _ => by rw [heven, Nat.add_zero]; exact Nat.even_iff.mpr heven⟩
      rw [heven, Nat.add_zero, heq, add_sub_cancel_left]
      norm_num
    · refine ⟨?_, fun _ => by rw [hodd]; exact (Nat.odd_iff.mpr hodd).add_one⟩
      rw [hodd, heq]
      push_cast
      rw [show (below : ℚ) + 1 / 2 - (below + 1) = -(1 / 2) by ring]
      norm_num

/-! ## The magnitudes of doubles -/

/-- A rank is a count of spacings `m` and a number `s` of binades behind the first two, and its
magnitude is `m` spacings of `2 ^ s` units. The last count of a binade is the first of the next. -/
theorem units_add {s m : ℕ} (hm : m ≤ 2 ^ 53) (hs : s = 0 ∨ 2 ^ 52 ≤ m) :
    units (m + s * 2 ^ 52) = m * 2 ^ s := by
  unfold units
  dsimp only [Nat.pow_eq]
  rcases Nat.lt_or_ge (m + s * 2 ^ 52) (2 ^ 52) with hlt | hge
  · have hzero : s = 0 := by omega
    rw [if_pos hlt, hzero]
    omega
  · rw [if_neg (by omega)]
    rcases Nat.lt_or_eq_of_le hm with hlt | rfl
    · have hquot : (m + s * 2 ^ 52) / 2 ^ 52 = s + 1 := by omega
      have hrest : 2 ^ 52 + (m + s * 2 ^ 52) % 2 ^ 52 = m := by omega
      rw [hquot, hrest, Nat.add_sub_cancel]
    · have hquot : (2 ^ 53 + s * 2 ^ 52) / 2 ^ 52 = s + 2 := by omega
      have hrest : (2 ^ 53 + s * 2 ^ 52) % 2 ^ 52 = 0 := by omega
      rw [hquot, hrest, show s + 2 - 1 = s + 1 by omega, Nat.add_zero]
      ring

theorem exists_spacings (r : ℕ) :
    ∃ s m, r = m + s * 2 ^ 52 ∧ m < 2 ^ 53 ∧ (s = 0 ∨ 2 ^ 52 ≤ m) := by
  refine ⟨r / 2 ^ 52 - 1, r - (r / 2 ^ 52 - 1) * 2 ^ 52, ?_, ?_, ?_⟩ <;> omega

theorem units_strictMono : StrictMono units := by
  refine strictMono_nat_of_lt_succ fun r => ?_
  obtain ⟨s, m, rfl, hm, hs⟩ := exists_spacings r
  rw [units_add hm.le hs, show m + s * 2 ^ 52 + 1 = (m + 1) + s * 2 ^ 52 by omega,
    units_add hm (by omega)]
  exact Nat.mul_lt_mul_of_pos_right (Nat.lt_succ_self m) (by positivity)

@[simp] theorem units_zero : units 0 = 0 := rfl

/-- From the start of a binade upwards its spacing divides every magnitude. -/
theorem dvd_units {s r : ℕ} (h : 2 ^ (52 + s) ≤ units r) : 2 ^ s ∣ units r := by
  obtain ⟨t, m, rfl, hm, ht⟩ := exists_spacings r
  rw [units_add hm.le ht] at h ⊢
  have hst : s ≤ t := by
    by_contra hlt
    have hbig : m * 2 ^ t < 2 ^ 53 * 2 ^ t := Nat.mul_lt_mul_of_pos_right hm (by positivity)
    have hsmall : 2 ^ 53 * 2 ^ t ≤ 2 ^ (52 + s) := by
      rw [← pow_add]
      exact Nat.pow_le_pow_right (by decide) (by omega)
    omega
  exact dvd_mul_of_dvd_right (pow_dvd_pow 2 hst) m

/-- A number of at most 53 bits under a power of two is the magnitude of a rank. -/
theorem exists_units_eq {k : ℕ} (s : ℕ) (h : k ≤ 2 ^ 53) : ∃ r, units r = k * 2 ^ s := by
  induction s generalizing k with
  | zero => exact ⟨k, by simpa using units_add (s := 0) h (.inl rfl)⟩
  | succ s ih =>
      rcases Nat.lt_or_ge k (2 ^ 52) with hlt | hge
      · -- the factor has room for one more bit
        obtain ⟨r, hr⟩ := ih (k := k * 2) (by omega)
        exact ⟨r, by rw [hr]; ring⟩
      · exact ⟨_, units_add h (.inr hge)⟩

/-- The magnitude of a rank. -/
def magnitude (rank : ℕ) : ℚ := units rank / unitsPerOne

theorem unitsPerOne_eq : unitsPerOne = 2 ^ 1074 := by
  delta unitsPerOne
  generalize 1074 = bits
  rfl

theorem unitsPerOne_pos : (0 : ℚ) < unitsPerOne := by
  rw [unitsPerOne_eq]
  positivity

theorem magnitude_strictMono : StrictMono magnitude := by
  intro r r' h
  have hu : (units r : ℚ) < units r' := by exact_mod_cast units_strictMono h
  exact div_lt_div_of_pos_right hu unitsPerOne_pos

theorem magnitude_nonneg (r : ℕ) : 0 ≤ magnitude r :=
  div_nonneg (Nat.cast_nonneg _) unitsPerOne_pos.le

@[simp] theorem magnitude_zero : magnitude 0 = 0 := by
  rw [magnitude, units_zero, Nat.cast_zero, zero_div]

/-! ## The nearest double -/

/-- `r` is the rank of the magnitude nearest to `q`, the even one of two. -/
structure IsNearestRank (q : ℚ) (r : ℕ) : Prop where
  closest : ∀ r', |q - magnitude r| ≤ |q - magnitude r'|
  even : ∀ r', r' ≠ r → |q - magnitude r| = |q - magnitude r'| → Even r

theorem isNearestRank_magnitude (r : ℕ) : IsNearestRank (magnitude r) r := by
  constructor
  · intro r'
    rw [sub_self, abs_zero]
    exact abs_nonneg _
  · intro r' hne ht
    rw [sub_self, abs_zero, eq_comm, abs_eq_zero, sub_eq_zero] at ht
    exact absurd (magnitude_strictMono.injective ht).symm hne

/-- A magnitude between two others is closer to what lies half way. -/
theorem abs_sub_lt_of_between {a b c : ℚ} (hab : a < b) (hbc : b < c)
    (h : |q - a| = |q - c|) : |q - b| < |q - a| := by
  rcases abs_eq_abs.mp h with hac | hac
  · exact absurd (sub_right_injective hac) (hab.trans hbc).ne
  · rw [abs_lt, abs_of_nonneg (show 0 ≤ q - a by linarith)]
    constructor <;> linarith

theorem IsNearestRank.unique {r r' : ℕ} (h : IsNearestRank q r) (h' : IsNearestRank q r') :
    r = r' := by
  by_contra hne
  wlog hlt : r < r' generalizing r r'
  · exact this h' h (Ne.symm hne) (lt_of_le_of_ne (Nat.le_of_not_lt hlt) (Ne.symm hne))
  have tie : |q - magnitude r| = |q - magnitude r'| :=
    le_antisymm (h.closest r') (h'.closest r)
  -- both are even, so there is a rank between them, and it is closer
  obtain ⟨i, hi⟩ := h.even r' (Ne.symm hne) tie
  obtain ⟨j, hj⟩ := h'.even r hne tie.symm
  have hcloser := abs_sub_lt_of_between (magnitude_strictMono (Nat.lt_succ_self r))
    (magnitude_strictMono (show r + 1 < r' by omega)) tie
  exact absurd (h.closest (r + 1)) hcloser.not_ge

/-- Within a binade the rounding is that of whole numbers, counted in spacings. -/
theorem isNearestRank_of_roundsTo {x : ℚ} {s m : ℕ} (hx : x < 2 ^ (53 + s))
    (hs : s = 0 ∨ 2 ^ (52 + s) ≤ x) (h : RoundsTo (x / 2 ^ s) m) :
    IsNearestRank (x / unitsPerOne) (m + s * 2 ^ 52) := by
  have hspacing : (0 : ℚ) < 2 ^ s := by positivity
  obtain ⟨hlow, hhigh⟩ := abs_le.mp h.half
  -- the count stays within the binade, or reaches the start of the next
  have hm : m ≤ 2 ^ 53 := by
    have : x / 2 ^ s < 2 ^ 53 := by rw [div_lt_iff₀ hspacing, ← pow_add]; exact hx
    have : (m : ℚ) < 2 ^ 53 + 1 := by linarith
    exact Nat.lt_succ_iff.mp (by exact_mod_cast this)
  have hm' : s = 0 ∨ 2 ^ 52 ≤ m := by
    refine hs.imp_right fun hx => ?_
    have : 2 ^ 52 ≤ x / 2 ^ s := by rw [le_div_iff₀ hspacing, ← pow_add]; exact hx
    have : (2 ^ 52 : ℚ) < m + 1 := by linarith
    exact Nat.lt_succ_iff.mp (by exact_mod_cast this)
  have hunits : (units (m + s * 2 ^ 52) : ℚ) = m * 2 ^ s := by
    exact_mod_cast units_add hm hm'
  -- distances are compared in spacings
  have hscale (k : ℚ) : |x - k * 2 ^ s| = |x / 2 ^ s - k| * 2 ^ s := by
    rw [← abs_of_pos hspacing, ← abs_mul, abs_of_pos hspacing, sub_mul,
      div_mul_cancel₀ _ hspacing.ne']
  have hdist (r : ℕ) : |x / unitsPerOne - magnitude r| = |x - units r| / unitsPerOne := by
    rw [magnitude, ← sub_div, abs_div, abs_of_pos unitsPerOne_pos]
  have hmultiple (k : ℤ) : |x - m * 2 ^ s| ≤ |x - k * 2 ^ s| := by
    rw [hscale, hscale]
    exact mul_le_mul_of_nonneg_right (h.closest k) hspacing.le
  -- a magnitude is a multiple of the spacing, or it lies below the binade
  have hcases (r : ℕ) : (∃ k : ℤ, (units r : ℚ) = k * 2 ^ s) ∨
      |x - m * 2 ^ s| < |x - units r| := by
    by_cases hr : s = 0 ∨ 2 ^ (52 + s) ≤ units r
    · have hdvd : 2 ^ s ∣ units r := by
        rcases hr with rfl | hr
        · exact one_dvd _
        · exact dvd_units hr
      obtain ⟨k, hk⟩ := hdvd
      exact .inl ⟨k, by rw [hk]; push_cast; ring⟩
    · push Not at hr
      have hbinade : 2 ^ (52 + s) ≤ x := hs.resolve_left hr.1
      have hbelow : (units r : ℚ) < 2 ^ (52 + s) := by exact_mod_cast hr.2
      refine .inr ((hmultiple (2 ^ 52)).trans_lt ?_)
      have hstart : ((2 ^ 52 : ℤ) : ℚ) * 2 ^ s = 2 ^ (52 + s) := by push_cast; ring
      rw [hstart, abs_of_nonneg (by linarith), abs_of_nonneg (by linarith)]
      linarith
  constructor
  · intro r
    rw [hdist, hdist, hunits]
    refine div_le_div_of_nonneg_right ?_ unitsPerOne_pos.le
    rcases hcases r with ⟨k, hk⟩ | hlt
    · rw [hk]
      exact hmultiple k
    · exact hlt.le
  · intro r hne ht
    rw [hdist, hdist, div_left_inj' unitsPerOne_pos.ne', hunits] at ht
    rcases hcases r with ⟨k, hk⟩ | hlt
    · have hkm : k ≠ m := by
        rintro rfl
        have hsame : units r = units (m + s * 2 ^ 52) := by
          have : (units r : ℚ) = units (m + s * 2 ^ 52) := by rw [hk, hunits]; norm_num
          exact_mod_cast this
        exact hne (units_strictMono.injective hsame)
      rw [hk, hscale, hscale, mul_left_inj' hspacing.ne'] at ht
      have hevenm : Even m := h.even (h.half_of_tie hkm ht)
      exact hevenm.add (Even.mul_left ⟨2 ^ 51, by norm_num⟩ s)
    · exact absurd ht hlt.ne

/-- **What the library computes is the nearest rank**, cut off at infinity. -/
theorem exists_isNearestRank (num : ℕ) (hd : 0 < den) :
    ∃ r, IsNearestRank (num / den) r ∧ nearestRank num den = min r infiniteRank := by
  have hden : (0 : ℚ) < den := by exact_mod_cast hd
  unfold nearestRank
  dsimp only [Nat.pow_eq]
  set scaled := num * unitsPerOne with hscaled
  set shift := (scaled / den).log2 - 52 with hshift
  refine ⟨roundHalfEven scaled (den * 2 ^ shift) + shift * 2 ^ 52, ?_, rfl⟩
  have hfloor : ((scaled / den : ℕ) : ℚ) ≤ (scaled : ℚ) / den := Nat.cast_div_le
  have hceil : (scaled : ℚ) / den < (scaled / den : ℕ) + 1 := by
    rw [div_lt_iff₀ hden]
    have := Nat.lt_mul_div_succ scaled hd
    calc (scaled : ℚ) < (den * (scaled / den + 1) : ℕ) := by exact_mod_cast this
      _ = ((scaled / den : ℕ) + 1) * den := by push_cast; ring
  have hupper : scaled / den < 2 ^ (53 + shift) := by
    refine Nat.lt_log2_self.trans_le (Nat.pow_le_pow_right (by decide) ?_)
    omega
  have hlower : shift = 0 ∨ 2 ^ (52 + shift) ≤ scaled / den := by
    by_cases hz : shift = 0
    · exact .inl hz
    · refine .inr ?_
      have hlog : 52 + shift = (scaled / den).log2 := by omega
      have hne : scaled / den ≠ 0 := by
        intro h0
        rw [h0] at hlog
        have : Nat.log2 0 = 0 := rfl
        omega
      rw [hlog]
      exact Nat.log2_self_le hne
  have hx : (scaled : ℚ) / den < 2 ^ (53 + shift) := by
    have : ((scaled / den : ℕ) : ℚ) + 1 ≤ 2 ^ (53 + shift) := by exact_mod_cast hupper
    linarith
  have hs : shift = 0 ∨ (2 ^ (52 + shift) : ℚ) ≤ scaled / den := by
    refine hlower.imp_right fun h => ?_
    have : (2 ^ (52 + shift) : ℚ) ≤ (scaled / den : ℕ) := by exact_mod_cast h
    linarith
  have hround : RoundsTo ((scaled : ℚ) / den / 2 ^ shift)
      (roundHalfEven scaled (den * 2 ^ shift)) := by
    have := roundsTo_roundHalfEven scaled (show 0 < den * 2 ^ shift by positivity)
    push_cast at this
    rwa [← div_div] at this
  have hnearest := isNearestRank_of_roundsTo hx hs hround
  rwa [hscaled, Nat.cast_mul, div_right_comm, mul_div_cancel_right₀ _ unitsPerOne_pos.ne']
    at hnearest

end PocketCalc.Number
