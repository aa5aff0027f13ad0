import PocketCalc.Expr
import PocketCalc.Number.Shown
import PocketCalc.Operation.Apply
import PocketCalc.Proofs.Encoding

/-!
# The sign of zero

A number can be read with either sign of zero, depending on who reads it. That makes no difference
to what is shown: sums, differences, products and quotients of numbers that differ in the sign of a
zero at most differ in that at most, a zero is no divisor under either sign, and both zeros have one
text.
-/

namespace PocketCalc.Number

open Float.Model

/-! ## Unpacked numbers -/

/-- The same unpacked number, or two zeros. -/
def SameUnpacked (u v : UnpackedFloat) : Prop := u = v ∨ ∃ s t, u = .zero s ∧ v = .zero t

variable {u u' v v' w : UnpackedFloat}

theorem sameUnpacked_zero (s t : UnpackedFloat.Sign) : SameUnpacked (.zero s) (.zero t) :=
  .inr ⟨s, t, rfl, rfl⟩

theorem SameUnpacked.trans (huv : SameUnpacked u v) (hvw : SameUnpacked v w) :
    SameUnpacked u w := by
  rcases huv with rfl | ⟨s, t, rfl, rfl⟩
  · exact hvw
  · rcases hvw with rfl | ⟨s', t', hs, rfl⟩
    · exact sameUnpacked_zero s t
    · exact sameUnpacked_zero s t'

/-- An operation keeps to the same numbers if it does so for zeros, one operand at a time. -/
theorem SameUnpacked.map₂ {f : UnpackedFloat → UnpackedFloat → UnpackedFloat}
    (left : ∀ s t v, SameUnpacked (f (.zero s) v) (f (.zero t) v))
    (right : ∀ u s t, SameUnpacked (f u (.zero s)) (f u (.zero t)))
    (hu : SameUnpacked u u') (hv : SameUnpacked v v') : SameUnpacked (f u v) (f u' v') := by
  have hfirst : SameUnpacked (f u v) (f u' v) := by
    rcases hu with rfl | ⟨s, t, rfl, rfl⟩
    · exact .inl rfl
    · exact left s t v
  have hsecond : SameUnpacked (f u' v) (f u' v') := by
    rcases hv with rfl | ⟨s, t, rfl, rfl⟩
    · exact .inl rfl
    · exact right u' s t
  exact hfirst.trans hsecond

theorem SameUnpacked.add (hu : SameUnpacked u u') (hv : SameUnpacked v v') :
    SameUnpacked (UnpackedFloat.add Format.binary64 u v)
      (UnpackedFloat.add Format.binary64 u' v') := by
  -- a zero leaves what is added to it as it is, and two of them make a zero
  have zeros (s t s' t' : UnpackedFloat.Sign) :
      SameUnpacked (UnpackedFloat.add Format.binary64 (.zero s) (.zero t))
        (UnpackedFloat.add Format.binary64 (.zero s') (.zero t')) := by
    simp only [UnpackedFloat.add]
    split <;> split <;> exact sameUnpacked_zero _ _
  refine hu.map₂ (fun s t v => ?_) (fun u s t => ?_) hv
  · cases v with
    | zero r => exact zeros s r t r
    | notANumber => exact .inl rfl
    | infinity r => exact .inl rfl
    | finite r m e hm => exact .inl rfl
  · cases u with
    | zero r => exact zeros r s r t
    | notANumber => exact .inl rfl
    | infinity r => exact .inl rfl
    | finite r m e hm => exact .inl rfl

theorem SameUnpacked.neg (h : SameUnpacked u v) : SameUnpacked u.neg v.neg := by
  rcases h with rfl | ⟨s, t, rfl, rfl⟩
  · exact .inl rfl
  · exact sameUnpacked_zero (-s) (-t)

/-- A difference is the sum with the negative. -/
theorem sub_eq_add_neg (u v : UnpackedFloat) :
    UnpackedFloat.sub Format.binary64 u v = UnpackedFloat.add Format.binary64 u v.neg := by
  cases u with
  | finite s m e hm =>
      cases v with
      | finite t n f hn =>
          have happly (k l : ℤ) : s.apply k - t.apply l = s.apply k + (-t).apply l := by
            cases t with
            | positive => exact Int.sub_eq_add_neg
            | negative => exact Int.sub_neg (s.apply k) l
          simp only [UnpackedFloat.sub, UnpackedFloat.add, UnpackedFloat.neg, happly]
      | notANumber => rfl
      | infinity t => rfl
      | zero t => rfl
  | notANumber => rfl
  | infinity s => cases v <;> rfl
  | zero s => cases v <;> rfl

theorem SameUnpacked.sub (hu : SameUnpacked u u') (hv : SameUnpacked v v') :
    SameUnpacked (UnpackedFloat.sub Format.binary64 u v)
      (UnpackedFloat.sub Format.binary64 u' v') := by
  rw [sub_eq_add_neg, sub_eq_add_neg]
  exact hu.add hv.neg

theorem SameUnpacked.mul (hu : SameUnpacked u u') (hv : SameUnpacked v v') :
    SameUnpacked (UnpackedFloat.mul Format.binary64 u v)
      (UnpackedFloat.mul Format.binary64 u' v') := by
  refine hu.map₂ (fun s t v => ?_) (fun u s t => ?_) hv
  · cases v with
    | zero r => exact sameUnpacked_zero _ _
    | notANumber => exact .inl rfl
    | infinity r => exact .inl rfl
    | finite r m e hm => exact sameUnpacked_zero _ _
  · cases u with
    | zero r => exact sameUnpacked_zero _ _
    | notANumber => exact .inl rfl
    | infinity r => exact .inl rfl
    | finite r m e hm => exact sameUnpacked_zero _ _

/-- The divisor is the same on both sides; where it is a zero, its sign would show. -/
theorem SameUnpacked.div (hu : SameUnpacked u u') (v : UnpackedFloat) :
    SameUnpacked (UnpackedFloat.div Format.binary64 u v)
      (UnpackedFloat.div Format.binary64 u' v) := by
  rcases hu with rfl | ⟨s, s', rfl, rfl⟩
  · exact .inl rfl
  · cases v with
    | notANumber => exact .inl rfl
    | infinity t => exact sameUnpacked_zero _ _
    | zero t => exact .inl rfl
    | finite t m e hm => exact sameUnpacked_zero _ _

/-! ## Doubles -/

/-- The same double, or two zeros. -/
def SameNumber (x y : Float) : Prop := x = y ∨ rank x = 0 ∧ rank y = 0

variable {x x' y y' : Float}

theorem unpack_zero (negative : Bool) :
    (ofRank negative 0).toModel.unpack = .zero (if negative then .negative else .positive) := by
  have hbits : UnpackedFloat.unpack Format.binary64 (encoding negative 0) =
      .zero (if negative then .negative else .positive) := by
    rw [encoding_eq_packComponents negative (Nat.zero_le _)]
    exact UnpackedFloat.unpack_packedZero
  rw [← toBits_ofRank negative (Nat.zero_le _)] at hbits
  exact hbits

theorem eq_ofRank_zero (h : rank x = 0) : x = ofRank (isNegative x) 0 := by
  rw [← h, ofRank_rank]

theorem SameNumber.unpack (h : SameNumber x y) :
    SameUnpacked x.toModel.unpack y.toModel.unpack := by
  rcases h with rfl | ⟨hx, hy⟩
  · exact .inl rfl
  · rw [eq_ofRank_zero hx, eq_ofRank_zero hy]
    rw [unpack_zero, unpack_zero]
    exact sameUnpacked_zero _ _

theorem rank_pack_zero (s : UnpackedFloat.Sign) : rank ⟨pack (.zero s)⟩ = 0 := by
  cases s <;> rfl

/-- Packing brings the same number back. -/
theorem SameUnpacked.pack (h : SameUnpacked u v) : SameNumber ⟨pack u⟩ ⟨pack v⟩ := by
  rcases h with rfl | ⟨s, t, rfl, rfl⟩
  · exact .inl rfl
  · exact .inr ⟨rank_pack_zero s, rank_pack_zero t⟩

/-- No zero is a divisor. -/
theorem bne_zero_of_rank (h : rank x = 0) : (x != 0) = false := by
  rw [eq_ofRank_zero h]
  cases isNegative x <;> rfl

/-! ## Operations and their results -/

theorem bne_zero_of_sameNumber (h : SameNumber x y) : (x != 0) = (y != 0) := by
  rcases h with rfl | ⟨hx, hy⟩
  · rfl
  · rw [bne_zero_of_rank hx, bne_zero_of_rank hy]

/-- Both zeros are shown alike. -/
theorem shown_of_sameNumber (precision : ℕ) (h : SameNumber x y) :
    shown precision x = shown precision y := by
  have hwhole : isWhole 0 = true := by
    rw [isWhole, units_zero, Nat.zero_mod]
    rfl
  have zero_text {z : Float} (hz : rank z = 0) : shown precision z = ['0'] := by
    rw [shown_of_finite (by rw [hz]; decide), hz, if_pos hwhole, wholeText, units_zero]
    rfl
  rcases h with rfl | ⟨hx, hy⟩
  · rfl
  · rw [zero_text hx, zero_text hy]

/-- **The four operations do not tell the zeros apart**: they fail alike, and what they compute is
shown alike. -/
theorem map_shown_apply (op : ChainOperator) (precision : ℕ) (hx : SameNumber x x')
    (hy : SameNumber y y') :
    (op.operation.apply x y).map (shown precision) =
      (op.operation.apply x' y').map (shown precision) := by
  have hu := hx.unpack
  have hv := hy.unpack
  cases op with
  | add => exact congrArg Except.ok (shown_of_sameNumber precision (hu.add hv).pack)
  | subtract => exact congrArg Except.ok (shown_of_sameNumber precision (hu.sub hv).pack)
  | multiply => exact congrArg Except.ok (shown_of_sameNumber precision (hu.mul hv).pack)
  | divide =>
      have happly (a b : Float) : ChainOperator.divide.operation.apply a b =
          if b != 0 then .ok (a / b) else .error .divisionByZero := rfl
      have hdefined := bne_zero_of_sameNumber hy
      rw [happly, happly, ← hdefined]
      rcases hy with rfl | ⟨hzero, -⟩
      · -- the divisor has one sign, so nothing of it shows
        have hshown : shown precision (x / y) = shown precision (x' / y) :=
          shown_of_sameNumber precision (hu.div y.toModel.unpack).pack
        split
        · exact congrArg Except.ok hshown
        · rfl
      · rw [bne_zero_of_rank hzero]
        rfl

end PocketCalc.Number
