/-!
# Doubles by rank and by unit

The magnitudes of the finite doubles, in increasing order, are numbered from zero: the number of
a magnitude is its *rank*, and it is the bit pattern without the sign bit. Every magnitude is a
whole count of *units* of `2 ^ -1074`, the smallest positive double. With these two numbers a
statement about doubles is a statement about natural numbers: `units` takes a rank to the exact
magnitude, and `nearestRank` takes a fraction to the rank of the double closest to it. Powers are
spelled `Nat.pow`, which is the same term whatever else is imported.
-/

namespace PocketCalc.Number

/-- The rank of infinity, one above the largest finite magnitude. -/
def infiniteRank : Nat := 0x7FF * Nat.pow 2 52

/-- How many units make one. -/
def unitsPerOne : Nat := Nat.pow 2 1074

/-- The magnitude of a finite rank in units. The first two binades share one spacing; each later
binade has `2 ^ 52` members at twice the spacing of the one before. -/
def units (rank : Nat) : Nat :=
  let members := Nat.pow 2 52
  if rank < members then rank
  else (members + rank % members) * Nat.pow 2 (rank / members - 1)

/-- The rank of a double, whatever its sign. -/
def rank (x : Float) : Nat := x.toBits.toNat % Nat.pow 2 63

/-- Whether the sign bit is set; it is for `-0.0`. -/
def isNegative (x : Float) : Bool := decide (Nat.pow 2 63 ≤ x.toBits.toNat)

/-- The double of a given sign and rank. -/
def ofRank (negative : Bool) (rank : Nat) : Float :=
  Float.ofBits (UInt64.ofNat (if negative then Nat.pow 2 63 + rank else rank))

/-- What a double denotes. -/
inductive Denotation where
  /-- No number. -/
  | nan
  /-- Infinity of either sign. -/
  | infinite (negative : Bool)
  /-- The magnitude of a finite rank, under a sign. -/
  | finite (negative : Bool) (rank : Nat)
  deriving DecidableEq

/-- Ranks above that of infinity denote no number. -/
def denotation (x : Float) : Denotation :=
  if rank x < infiniteRank then .finite (isNegative x) (rank x)
  else if rank x = infiniteRank then .infinite (isNegative x)
  else .nan

/-! ## The nearest double -/

/-- The whole number nearest to `num / den`; a half goes to the even neighbour. -/
def roundHalfEven (num den : Nat) : Nat :=
  let below := num / den
  let rest := num % den
  if 2 * rest < den then below
  else if den < 2 * rest then below + 1
  else below + below % 2

/-- The rank of the double nearest to `num / den`, halves to the even rank. With `53` leading bits
kept, `shift` counts the bits dropped from the number of units; a carry into the next binade and
an overflow to infinity need no case of their own, because ranks run through binades in order. -/
def nearestRank (num den : Nat) : Nat :=
  let scaled := num * unitsPerOne
  let shift := (scaled / den).log2 - 52
  min (roundHalfEven scaled (den * Nat.pow 2 shift) + shift * Nat.pow 2 52) infiniteRank

end PocketCalc.Number
