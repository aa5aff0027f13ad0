import PocketCalc.Number.Shown
import PocketCalc.Proofs.Numerals
import PocketCalc.Proofs.Significant

/-!
# The notations as numerals

What is laid out around a point or in front of an exponent is a numeral, and it says the decimal
that was laid out, digit by digit. The shapes of the two notations are described here without the
functions that produce them: each shape leaves one text for a number.
-/

namespace PocketCalc.Number

/-! ## Digits -/

theorem digits_toDigits (n : ℕ) : Digits (Nat.toDigits 10 n) :=
  ⟨fun _ hc => Nat.isDigit_of_mem_toDigits (by decide) (by decide) hc, Nat.toDigits_ne_nil⟩

/-- A number that is not zero does not start with a zero. -/
theorem exists_head_toDigits {n : ℕ} (h : n ≠ 0) :
    ∃ c cs, Nat.toDigits 10 n = c :: cs ∧ c ≠ '0' := by
  induction n using Nat.strongRecOn with
  | ind n ih =>
      rcases Nat.lt_or_ge n 10 with hlt | hge
      · refine ⟨n.digitChar, [], Nat.toDigits_of_lt_base hlt, ?_⟩
        intro hz
        exact h (Nat.digitChar_eq_zero.mp hz)
      · obtain ⟨c, cs, hcs, hc⟩ := ih (n / 10) (by omega) (by omega)
        refine ⟨c, cs ++ [(n % 10).digitChar], ?_, hc⟩
        rw [Nat.toDigits_of_base_le (by decide) hge, hcs, List.cons_append]

/-- A number that is no multiple of ten does not end in a zero. -/
theorem exists_last_toDigits {n : ℕ} (h : n % 10 ≠ 0) :
    ∃ front c, Nat.toDigits 10 n = front ++ [c] ∧ c ≠ '0' := by
  rcases Nat.lt_or_ge n 10 with hlt | hge
  · refine ⟨[], n.digitChar, Nat.toDigits_of_lt_base hlt, ?_⟩
    rw [Nat.mod_eq_of_lt hlt] at h
    exact fun hz => h (Nat.digitChar_eq_zero.mp hz)
  · refine ⟨_, (n % 10).digitChar, Nat.toDigits_of_base_le (by decide) hge, ?_⟩
    exact fun hz => h (Nat.digitChar_eq_zero.mp hz)

theorem ne_zero_of_mod_ten {n : ℕ} (h : n % 10 ≠ 0) : n ≠ 0 := by
  rintro rfl
  exact h rfl

/-- Zeros behind the digits multiply by powers of ten. -/
theorem toDigits_mul_pow {n : ℕ} (h : n ≠ 0) (k : ℕ) :
    Nat.toDigits 10 (n * 10 ^ k) = Nat.toDigits 10 n ++ List.replicate k '0' := by
  induction k with
  | zero => rw [pow_zero, mul_one, List.replicate_zero, List.append_nil]
  | succ k ih =>
      have hpos : 0 < n * 10 ^ k := by positivity
      have happend := Nat.toDigits_append_toDigits (b := 10) (d := 0) (by decide) hpos (by decide)
      rw [Nat.add_zero, Nat.toDigits_zero, ih, List.append_assoc,
        ← List.replicate_succ'] at happend
      rw [happend]
      congr 1
      ring

/-- The digits of an exponent: two of them, or more without a zero in front. -/
structure ExponentDigits (ds : List Char) : Prop extends Digits ds where
  two : 2 ≤ ds.length
  noLeadingZero : 2 < ds.length → ds.head? ≠ some '0'

theorem exponentDigits_twoDigits (n : ℕ) : ExponentDigits (twoDigits n) := by
  have hpos : 0 < (Nat.toDigits 10 n).length := Nat.length_toDigits_pos
  have hlength : (twoDigits n).length = max 2 (Nat.toDigits 10 n).length := by
    rw [twoDigits, List.length_append, List.length_replicate]
    omega
  refine ⟨⟨?_, ?_⟩, ?_, ?_⟩
  · intro c hc
    rcases List.mem_append.mp hc with hz | hd
    · rw [List.eq_of_mem_replicate hz]
      rfl
    · exact (digits_toDigits n).isDigit c hd
  · exact List.append_ne_nil_of_right_ne_nil _ Nat.toDigits_ne_nil
  · rw [hlength]
    exact Nat.le_max_left _ _
  · intro hmore
    -- more than two digits are those of the number, which is then not zero
    have hfill : 2 - (Nat.toDigits 10 n).length = 0 := by omega
    have hne : n ≠ 0 := by
      rintro rfl
      have hone : (Nat.toDigits 10 0).length = 1 := rfl
      omega
    obtain ⟨c, cs, hcs, hc⟩ := exists_head_toDigits hne
    rw [twoDigits, hfill, List.replicate_zero, List.nil_append, hcs, List.head?_cons]
    exact fun hz => hc (Option.some.inj hz)

theorem ofDigitChars_twoDigits (n : ℕ) : Nat.ofDigitChars 10 (twoDigits n) 0 = n := by
  rw [twoDigits, Nat.ofDigitChars_append, Nat.ofDigitChars_replicate_zero, Nat.mul_zero,
    Nat.ofDigitChars_ten_toDigits]

/-! ## The shapes -/

/-- Digits that do not end in a zero. -/
def EndsInDigit (ds : List Char) : Prop := ∃ front c, ds = front ++ [c] ∧ c ≠ '0'

/-- Positional notation with a fraction: below one there is a lone zero in front of the point, from
one upwards there is no zero in front of other digits. -/
structure Numeral.IsPointed (n : Numeral) : Prop where
  isDigit : ∀ c ∈ n.digits, c.isDigit = true
  whole : if n.decimal.value < 1 then n.whole = ['0'] else ∃ c cs, n.whole = c :: cs ∧ c ≠ '0'
  fraction : ∃ ds, n.fraction = some ds ∧ EndsInDigit ds
  exponent : n.exponent = none

/-- Scientific notation with a negative exponent: one digit in front of the point, which is not
zero, and a point only where there is a fraction. -/
structure Numeral.IsScientific (n : Numeral) : Prop where
  isDigit : ∀ c ∈ n.digits, c.isDigit = true
  whole : ∃ c, n.whole = [c] ∧ c ≠ '0'
  fraction : ∀ ds ∈ n.fraction, EndsInDigit ds
  exponent : ∃ ds, n.exponent = some ⟨'e', some '-', ds⟩ ∧ ExponentDigits ds

theorem Numeral.IsPointed.written {n : Numeral} (h : n.IsPointed) : n.Written := by
  obtain ⟨ds, hds, front, c, rfl, -⟩ := h.fraction
  refine Numeral.written_of_digits ⟨h.isDigit, ?_⟩ h.exponent
  simp [Numeral.digits, hds]

theorem Numeral.IsScientific.written {n : Numeral} (h : n.IsScientific) : n.Written := by
  obtain ⟨c, hc, -⟩ := h.whole
  obtain ⟨ds, hds, hexponent⟩ := h.exponent
  refine ⟨⟨h.isDigit, by simp [Numeral.digits, hc]⟩, ?_⟩
  rw [hds]
  intro e he
  obtain rfl := Option.some.inj he
  refine ⟨.inl rfl, ?_, hexponent.toDigits⟩
  intro s hs
  exact .inr (Option.some.inj hs).symm

/-- A point or an exponent makes zeros in front acceptable. -/
theorem hasLeadingZero_of_isPointed {n : Numeral} (h : n.IsPointed) :
    n.hasLeadingZero = false := by
  obtain ⟨ds, hds, -⟩ := h.fraction
  simp [Numeral.hasLeadingZero, Numeral.isPlain, hds]

theorem hasLeadingZero_of_isScientific {n : Numeral} (h : n.IsScientific) :
    n.hasLeadingZero = false := by
  obtain ⟨ds, hds, -⟩ := h.exponent
  simp [Numeral.hasLeadingZero, Numeral.isPlain, hds]

/-! ## Laying out a decimal -/

namespace Decimal

variable {d : Decimal}

theorem one_le_value_iff (h : d.coefficient ≠ 0) : 1 ≤ d.value ↔ 0 ≤ d.leadingPlace := by
  obtain ⟨hlow, hhigh⟩ := leadingPlace_spec h
  constructor
  · intro hone
    have := ten_zpow_lt_iff.mp ((zpow_zero (10 : ℚ)).trans_le hone |>.trans_lt hhigh)
    omega
  · intro hplace
    exact (zpow_zero (10 : ℚ)).symm.trans_le ((ten_zpow_le hplace).trans hlow)

/-- A decimal with a fraction, laid out around the point. -/
theorem exists_pointed (hd : d.coefficient % 10 ≠ 0) (he : d.exponent < 0) :
    ∃ n : Numeral, n.text = positional d.digits d.exponent ∧ n.decimal = d ∧ n.IsPointed := by
  have hne : d.coefficient ≠ 0 := ne_zero_of_mod_ten hd
  obtain ⟨c, cs, hhead, hc⟩ := exists_head_toDigits hne
  obtain ⟨front, last, hback, hlast⟩ := exists_last_toDigits hd
  have hdigit : ∀ c ∈ d.digits, c.isDigit = true := (digits_toDigits d.coefficient).isDigit
  have hcoefficient : Nat.ofDigitChars 10 d.digits 0 = d.coefficient :=
    Nat.ofDigitChars_ten_toDigits
  have hplace : d.leadingPlace = d.exponent + (d.digits.length - 1 : ℕ) := rfl
  obtain ⟨places, hplaces⟩ : ∃ places : ℕ, d.exponent = -places :=
    ⟨(-d.exponent).toNat, by omega⟩
  have htoNat : (-d.exponent).toNat = places := by omega
  unfold positional
  dsimp only
  rw [htoNat, if_neg (by omega)]
  split
  · -- the point stands between the digits
    rename_i hlt
    obtain ⟨k, hk⟩ : ∃ k, d.digits.length - places = k + 1 :=
      ⟨d.digits.length - places - 1, by omega⟩
    have hjoin : d.digits.take (k + 1) ++ d.digits.drop (k + 1) = d.digits :=
      List.take_append_drop _ _
    let n : Numeral := ⟨d.digits.take (k + 1), some (d.digits.drop (k + 1)), none⟩
    have hdecimal : n.decimal = d := by
      obtain ⟨coefficient, exponent⟩ := d
      simp only [n, Numeral.decimal, Numeral.digits, Option.getD_some, hjoin, hcoefficient,
        Option.map_none, Option.getD_none, List.length_drop, Decimal.mk.injEq, true_and]
      dsimp only at hplaces
      omega
    refine ⟨n, by rw [hk]; simp [n, Numeral.text], hdecimal, ?_, ?_, ?_, rfl⟩
    · exact fun c hc => hdigit c (hjoin ▸ hc)
    · rw [hdecimal, if_neg (not_lt.mpr ((one_le_value_iff hne).mpr (by omega)))]
      refine ⟨c, cs.take k, ?_, hc⟩
      show (Nat.toDigits 10 d.coefficient).take (k + 1) = _
      rw [hhead, List.take_succ_cons]
    · refine ⟨_, rfl, front.drop (k + 1), last, ?_, hlast⟩
      have hfront : k + 1 ≤ front.length := by
        have : d.digits.length = front.length + 1 := by
          rw [show d.digits = front ++ [last] from hback, List.length_append, List.length_singleton]
        omega
      show (Nat.toDigits 10 d.coefficient).drop (k + 1) = _
      rw [hback, List.drop_append_of_le_length hfront]
  · -- all digits stand behind the point
    rename_i hge
    let n : Numeral :=
      ⟨['0'], some (List.replicate (places - d.digits.length) '0' ++ d.digits), none⟩
    have hzero : Nat.ofDigitChars 10 ['0'] 0 = 0 := rfl
    have hdecimal : n.decimal = d := by
      obtain ⟨coefficient, exponent⟩ := d
      simp only [n, Numeral.decimal, Numeral.digits, Option.getD_some, Nat.ofDigitChars_append,
        hzero, Nat.ofDigitChars_replicate_zero, Nat.mul_zero, hcoefficient, Option.map_none,
        Option.getD_none, List.length_append, List.length_replicate, Decimal.mk.injEq, true_and]
      dsimp only at hplaces
      omega
    have hlen : 0 < d.digits.length := Nat.length_toDigits_pos
    refine ⟨n, by simp [n, Numeral.text], hdecimal, ?_, ?_, ?_, rfl⟩
    · intro c hc
      rcases List.mem_append.mp hc with hz | hc
      · rw [List.mem_singleton.mp hz]
        rfl
      rcases List.mem_append.mp hc with hz | hc
      · rw [List.eq_of_mem_replicate hz]
        rfl
      · exact hdigit c hc
    · rw [hdecimal, if_pos (not_le.mp (mt (one_le_value_iff hne).mp (by omega)))]
    · refine ⟨_, rfl, List.replicate (places - d.digits.length) '0' ++ front, last, ?_, hlast⟩
      rw [show d.digits = front ++ [last] from hback, List.append_assoc]

/-- A decimal below one, laid out in front of an exponent. -/
theorem exists_scientific (hd : d.coefficient % 10 ≠ 0) (hplace : d.leadingPlace < 0) :
    ∃ n : Numeral, n.text = scientific d.digits ('-' :: twoDigits d.leadingPlace.natAbs) ∧
      n.decimal = d ∧ n.IsScientific := by
  have hne : d.coefficient ≠ 0 := ne_zero_of_mod_ten hd
  obtain ⟨c, cs, hhead, hc⟩ := exists_head_toDigits hne
  obtain ⟨front, last, hback, hlast⟩ := exists_last_toDigits hd
  have hdigits : d.digits = c :: cs := hhead
  have hdigit : ∀ x ∈ c :: cs, x.isDigit = true := by
    rw [← hdigits]
    exact (digits_toDigits d.coefficient).isDigit
  have hcoefficient : Nat.ofDigitChars 10 (c :: cs) 0 = d.coefficient := by
    rw [← hdigits]
    exact Nat.ofDigitChars_ten_toDigits
  have hexponent := exponentDigits_twoDigits d.leadingPlace.natAbs
  have hlead : d.leadingPlace = d.exponent + cs.length := by
    rw [leadingPlace, hdigits, List.length_cons, Nat.add_sub_cancel]
  let e : Exponent := ⟨'e', some '-', twoDigits d.leadingPlace.natAbs⟩
  have hvalue : e.value = d.leadingPlace := by
    simp only [e, Exponent.value, ofDigitChars_twoDigits, if_true]
    omega
  rw [hdigits]
  cases cs with
  | nil =>
      have hdecimal : (⟨[c], none, some e⟩ : Numeral).decimal = d := by
        obtain ⟨coefficient, exponent⟩ := d
        simp only [Numeral.decimal, Numeral.digits, Option.getD_none, List.append_nil,
          hcoefficient, Option.map_some, Option.getD_some, hvalue, List.length_nil,
          Decimal.mk.injEq, true_and]
        simpa using hlead
      refine ⟨_, by simp [Numeral.text, Exponent.text, scientific, e], hdecimal, hdigit, ⟨c, rfl, hc⟩,
        by simp, _, rfl, hexponent⟩
  | cons c' cs =>
      have hdecimal : (⟨[c], some (c' :: cs), some e⟩ : Numeral).decimal = d := by
        obtain ⟨coefficient, exponent⟩ := d
        simp only [Numeral.decimal, Numeral.digits, Option.getD_some, List.singleton_append,
          hcoefficient, Option.map_some, hvalue, Decimal.mk.injEq, true_and]
        dsimp only at hlead
        omega
      refine ⟨_, by simp [Numeral.text, Exponent.text, scientific, e], hdecimal, hdigit, ⟨c, rfl, hc⟩,
        ?_, _, rfl, hexponent⟩
      intro ds hds
      obtain rfl := Option.some.inj hds
      -- the fraction ends as the digits do
      cases front with
      | nil =>
          rw [hhead] at hback
          cases hback
      | cons f front =>
          rw [hhead, List.cons_append] at hback
          exact ⟨front, last, (List.cons.inj hback).2, hlast⟩

/-- A whole number, laid out without a point. -/
theorem positional_whole (h : d.coefficient ≠ 0) (he : 0 ≤ d.exponent) :
    positional d.digits d.exponent = Nat.toDigits 10 (d.coefficient * 10 ^ d.exponent.toNat) := by
  have hplaces : (-d.exponent).toNat = 0 := by omega
  unfold positional
  dsimp only
  rw [if_pos hplaces, toDigits_mul_pow h]
  rfl

end Decimal

end PocketCalc.Number
