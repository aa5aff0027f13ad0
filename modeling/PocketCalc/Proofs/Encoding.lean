import PocketCalc.Proofs.Nearest

/-!
# Doubles and their encoding

A double is its sign and its rank, put side by side in its bits: taking them out again gives back
what was put in, and a double is made of what is taken out of it. Negation changes the sign and
leaves the rank; and nothing of positive sign lies below zero.

Only ranks above that of infinity are left out here. They encode no number, and of these there is
just one.
-/

namespace PocketCalc.Number

open Float.Model UnpackedFloat

variable {r : ℕ}

/-- The bits of a sign and a rank. -/
def encoding (negative : Bool) (rank : ℕ) : BitVec 64 :=
  BitVec.ofNat 64 (if negative then 2 ^ 63 + rank else rank)

theorem infiniteRank_eq : infiniteRank = 2047 * 2 ^ 52 := rfl

theorem toNat_encoding (negative : Bool) (h : r ≤ infiniteRank) :
    (encoding negative r).toNat = (if negative then 2 ^ 63 else 0) + r := by
  rw [infiniteRank_eq] at h
  unfold encoding
  rw [BitVec.toNat_ofNat]
  split <;> omega

/-! ## What is put in is taken out -/

theorem isNaNBits_encoding (negative : Bool) (h : r ≤ infiniteRank) :
    @isNaNBits Format.binary64 (encoding negative r) = false := by
  have hbits := toNat_encoding negative h
  rw [infiniteRank_eq] at h
  rw [isNaNBits, decide_eq_false_iff_not, unpackExponent_def, unpackMantissa_def]
  rintro ⟨he, hm⟩
  -- a full exponent leaves no room for a mantissa below the rank of infinity
  have he' := congrArg BitVec.toNat he
  have hm' := mt BitVec.eq_of_toNat_eq hm
  rw [BitVec.extractLsb'_toNat, Nat.shiftRight_eq_div_pow] at he' hm'
  change (encoding negative r).toNat / 2 ^ 52 % 2 ^ 11 = 2047 at he'
  change ¬ (encoding negative r).toNat / 2 ^ 0 % 2 ^ 52 = 0 at hm'
  rw [hbits] at he' hm'
  generalize hsign : (if negative then 2 ^ 63 else 0) = sign at he' hm'
  have : sign = 2 ^ 63 ∨ sign = 0 := by rw [← hsign]; split <;> simp
  omega

theorem toBits_ofRank (negative : Bool) (h : r ≤ infiniteRank) :
    (ofRank negative r).toBits.toBitVec = encoding negative r := by
  have hpack := @pack_unpack Format.binary64 (encoding negative r)
  rw [isNaNBits_encoding negative h] at hpack
  exact hpack

theorem toNat_toBits_ofRank (negative : Bool) (h : r ≤ infiniteRank) :
    (ofRank negative r).toBits.toNat = (if negative then 2 ^ 63 else 0) + r := by
  rw [← toNat_encoding negative h, ← toBits_ofRank negative h]
  rfl

theorem rank_ofRank (negative : Bool) (h : r ≤ infiniteRank) : rank (ofRank negative r) = r := by
  rw [rank, toNat_toBits_ofRank negative h, Nat.pow_eq]
  rw [infiniteRank_eq] at h
  split <;> omega

theorem isNegative_ofRank (negative : Bool) (h : r ≤ infiniteRank) :
    isNegative (ofRank negative r) = negative := by
  rw [isNegative, toNat_toBits_ofRank negative h, Nat.pow_eq]
  rw [infiniteRank_eq] at h
  cases negative with
  | false => exact decide_eq_false (by simp only [Bool.false_eq_true, if_false]; omega)
  | true => exact decide_eq_true (Nat.le_add_right _ _)

/-- A double is the one of its sign and its rank. -/
theorem ofRank_rank (x : Float) : ofRank (isNegative x) (rank x) = x := by
  have hbits : x.toBits.toNat = if isNegative x then 2 ^ 63 + rank x else rank x := by
    have hlt : x.toBits.toNat < 2 ^ 64 := x.toBits.toBitVec.isLt
    simp only [isNegative, rank, Nat.pow_eq, decide_eq_true_eq]
    split <;> omega
  rw [ofRank, Nat.pow_eq, ← hbits, UInt64.ofNat_toNat, Float.ofBits_toBits]

/-! ## Negation -/

/-- Changing the sign of what is unpacked is changing the sign bit. -/
theorem neg_unpack {s : Sign} {e : BitVec 11} {m : BitVec 52}
    (h : isNaNBits (packComponents Format.binary64 s e m) = false) :
    (UnpackedFloat.unpack Format.binary64 (packComponents Format.binary64 s e m)).neg =
      UnpackedFloat.unpack Format.binary64 (packComponents Format.binary64 (-s) e m) := by
  simp only [isNaNBits, unpackExponent_packComponents, unpackMantissa_packComponents,
    decide_eq_false_iff_not, not_and_not_right] at h
  simp only [UnpackedFloat.unpack, unpackExponent_packComponents, unpackMantissa_packComponents,
    unpackSign_packComponents, Sign.ofBitVec_toBitVec]
  split
  · rename_i he
    rw [if_pos (h he), if_pos (h he)]
    rfl
  split
  · split <;> rfl
  · rfl

theorem encoding_eq_packComponents (negative : Bool) (h : r ≤ infiniteRank) :
    encoding negative r = packComponents Format.binary64
      (if negative then .negative else .positive) (BitVec.ofNat 11 (r / 2 ^ 52))
      (BitVec.ofNat 52 r) := by
  apply BitVec.eq_of_toNat_eq
  rw [toNat_encoding negative h]
  rw [infiniteRank_eq] at h
  have hm : r % 2 ^ 52 < 2 ^ 52 := Nat.mod_lt _ (by decide)
  have he : r / 2 ^ 52 < 2 ^ 11 := by omega
  unfold packComponents
  rw [BitVec.toNat_append, BitVec.toNat_append, BitVec.toNat_ofNat, BitVec.toNat_ofNat,
    Nat.mod_eq_of_lt he, ← Nat.shiftLeft_add_eq_or_of_lt he, ← Nat.shiftLeft_add_eq_or_of_lt hm,
    Nat.shiftLeft_eq, Nat.shiftLeft_eq]
  cases negative with
  | false => simp [Sign.toBitVec]; omega
  | true => simp [Sign.toBitVec]; omega

/-- **The negative of a double has the other sign and the same rank.** -/
theorem neg_ofRank (negative : Bool) (h : r ≤ infiniteRank) :
    -(ofRank negative r) = ofRank (!negative) r := by
  rw [← Float.toBits_inj, ← UInt64.toBitVec_inj, toBits_ofRank (!negative) h]
  have hnan := isNaNBits_encoding negative h
  rw [encoding_eq_packComponents negative h] at hnan
  have hneg := neg_unpack hnan
  rw [← encoding_eq_packComponents negative h, ← toBits_ofRank negative h] at hneg
  have hsign : -(if negative then Sign.negative else .positive) =
      if (!negative) then Sign.negative else .positive := by cases negative <;> rfl
  rw [hsign, ← encoding_eq_packComponents (!negative) h] at hneg
  have hpack := @pack_unpack Format.binary64 (encoding (!negative) r)
  rw [isNaNBits_encoding (!negative) h, if_neg (by decide), ← hneg] at hpack
  exact hpack

/-! ## Order -/

/-- No number of positive sign lies below zero. -/
theorem not_ofRank_lt_zero (h : r ≤ infiniteRank) : ¬ ofRank false r < 0 := by
  intro hlt
  have hmodel : (ofRank false r).toModel < (0 : Float).toModel := of_decide_eq_true hlt
  have hcompare : (UnpackedFloat.unpack Format.binary64 (ofRank false r).toBits.toBitVec).lt
      (.zero .positive) = true := hmodel
  have hencoding : encoding false r = packComponents Format.binary64 .positive
      (BitVec.ofNat 11 (r / 2 ^ 52)) (BitVec.ofNat 52 r) := encoding_eq_packComponents false h
  rw [toBits_ofRank false h, hencoding] at hcompare
  simp only [UnpackedFloat.unpack, unpackSign_packComponents, Sign.ofBitVec_toBitVec] at hcompare
  -- whichever kind of number is unpacked, it compares as zero does or above it
  split at hcompare
  · split at hcompare <;> cases hcompare
  · split at hcompare
    · split at hcompare <;> cases hcompare
    · cases hcompare

end PocketCalc.Number
