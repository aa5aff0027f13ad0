import Mathlib.Algebra.Order.Group.Int
import Mathlib.Data.Int.Order.Basic
import Mathlib.Data.Prod.Lex
import Mathlib.Order.Compare

/-!
# The order of doubles

Doubles are compared by the side of zero on which they lie, then by exponent, then by mantissa, the
last two turned round below zero. So each of them but the one that is no number has a place among
triples, and comparing doubles is comparing their places in lexicographic order. That the order is
transitive is then a fact about triples.
-/

namespace PocketCalc.Number

open Float.Model UnpackedFloat

/-- The place of an unpacked number: on which side of zero it lies and whether it is infinite, then
its exponent, then its mantissa. Both zeros have one place, and what is no number has none. -/
def place? : UnpackedFloat → Option (ℤ × ℤ × ℤ)
  | .notANumber => none
  | .infinity .negative => some (-2, 0, 0)
  | .finite .negative mantissa exponent _ => some (-1, -exponent, -mantissa)
  | .zero _ => some (0, 0, 0)
  | .finite .positive mantissa exponent _ => some (1, exponent, mantissa)
  | .infinity .positive => some (2, 0, 0)

/-- Places are compared part by part. -/
def comparePlaces (p q : ℤ × ℤ × ℤ) : Ordering :=
  (compare p.1 q.1).then ((compare p.2.1 q.2.1).then (compare p.2.2 q.2.2))

/-! ## Comparing is comparing places -/

theorem compare_neg (a b : ℤ) : compare (-a) (-b) = (compare a b).swap := by
  have hanti : StrictAnti fun n : ℤ => -n := fun _ _ h => Int.neg_lt_neg h
  rw [← cmp_eq_compare, ← cmp_eq_compare, cmp_swap]
  exact hanti.cmp_map_eq a b

theorem compare_natCast (m n : ℕ) : compare (m : ℤ) (n : ℤ) = compare m n := by
  have hmono : StrictMono fun n : ℕ => (n : ℤ) := fun _ _ h => Int.ofNat_lt.mpr h
  rw [← cmp_eq_compare, ← cmp_eq_compare]
  exact hmono.cmp_map_eq m n

/-- **Unpacked numbers are compared by their places.** -/
theorem compare_eq (u v : UnpackedFloat) :
    u.compare v = (place? u).bind fun p => (place? v).map fun q => comparePlaces p q := by
  cases u with
  | notANumber => rfl
  | infinity s => cases v with
      | notANumber => cases s <;> rfl
      | zero t => cases s <;> rfl
      | infinity t => cases s <;> cases t <;> rfl
      | finite t n f hn => cases s <;> cases t <;> rfl
  | zero s => cases v with
      | notANumber => rfl
      | zero t => rfl
      | infinity t => cases t <;> rfl
      | finite t n f hn => cases t <;> rfl
  | finite s m e hm => cases v with
      | notANumber => cases s <;> rfl
      | zero t => cases s <;> rfl
      | infinity t => cases s <;> cases t <;> rfl
      | finite t n f hn =>
          -- on one side of zero, the exponents and the mantissas decide
          cases s with
          | positive => cases t with
              | positive =>
                  show some ((compare e f).then (compare m n)) =
                    some ((compare e f).then (compare (m : ℤ) (n : ℤ)))
                  rw [compare_natCast]
              | negative => rfl
          | negative => cases t with
              | positive => rfl
              | negative =>
                  show some ((compare e f).then (compare m n)).swap =
                    some ((compare (-e) (-f)).then (compare (-(m : ℤ)) (-(n : ℤ))))
                  rw [compare_neg, compare_neg, compare_natCast, Ordering.swap_then]

/-! ## Places are in linear order -/

/-- A place as an element of the lexicographic order. -/
def lexicographic (p : ℤ × ℤ × ℤ) : ℤ ×ₗ ℤ ×ₗ ℤ := toLex (p.1, toLex p.2)

theorem comparePlaces_eq (p q : ℤ × ℤ × ℤ) :
    comparePlaces p q = compare (lexicographic p) (lexicographic q) := by
  simp only [comparePlaces, lexicographic, Prod.Lex.compare_def, compareLex, compareOn,
    ofLex_toLex]

variable {x y z : Float}

/-- The place of a double. -/
def placeOf? (x : Float) : Option (ℤ ×ₗ ℤ ×ₗ ℤ) := (place? x.toModel.unpack).map lexicographic

theorem compare_unpack (x y : Float) :
    x.toModel.unpack.compare y.toModel.unpack =
      (placeOf? x).bind fun p => (placeOf? y).map fun q => compare p q := by
  rw [compare_eq, placeOf?, placeOf?]
  cases place? x.toModel.unpack with
  | none => rfl
  | some p =>
      cases place? y.toModel.unpack with
      | none => rfl
      | some q => exact congrArg some (comparePlaces_eq p q)

theorem lt_iff : x < y ↔ ∃ p q, placeOf? x = some p ∧ placeOf? y = some q ∧ p < q := by
  have hlt : x < y ↔ x.toModel.unpack.compare y.toModel.unpack = some .lt := by
    constructor
    · intro h
      have hmodel : x.toModel.unpack.lt y.toModel.unpack = true := of_decide_eq_true h
      exact beq_iff_eq.mp hmodel
    · intro h
      have hmodel : x.toModel.unpack.lt y.toModel.unpack = true := beq_iff_eq.mpr h
      exact decide_eq_true hmodel
  rw [hlt, compare_unpack]
  cases placeOf? x <;> cases placeOf? y <;> simp [compare_lt_iff_lt]

theorem le_iff : x ≤ y ↔ ∃ p q, placeOf? x = some p ∧ placeOf? y = some q ∧ p ≤ q := by
  have hle : x ≤ y ↔ (x.toModel.unpack.compare y.toModel.unpack).any (·.isLE) = true := by
    constructor
    · intro h
      exact of_decide_eq_true h
    · intro h
      exact decide_eq_true h
  rw [hle, compare_unpack]
  cases placeOf? x <;> cases placeOf? y <;> simp [← compare_le_iff_le, Ordering.isLE_iff_ne_gt]

/-- **What is at most a number that lies below another lies below that one, too.** -/
theorem lt_of_le_lt (hxy : x ≤ y) (hyz : y < z) : x < z := by
  obtain ⟨p, q, hp, hq, hle⟩ := le_iff.mp hxy
  obtain ⟨q', r, hq', hr, hlt⟩ := lt_iff.mp hyz
  obtain rfl : q = q' := Option.some.inj (hq.symm.trans hq')
  exact lt_iff.mpr ⟨p, r, hp, hr, lt_of_le_of_lt hle hlt⟩

end PocketCalc.Number
