import PocketCalc.Number.Layout

/-!
# Numbers on the display

The display shows a whole number with all its digits and any other number with a limited count of
significant digits, without trailing zeros. A number below `10 ^ -4` gets an exponent of at least
two digits.

A number that is not whole is rounded to significant digits first. Whether that made it whole is
asked of the double that the rounded decimal reads back as, and its leading place decides between
the notations. For the positional one the number itself is rounded a second time, to as many
decimal places as the first rounding left.
-/

namespace PocketCalc.Number

/-- Significant digits shown where no setting says otherwise. -/
def defaultPrecision : Nat := 10

/-- The largest count of significant digits that still tells doubles apart. -/
def maxPrecision : Nat := 17

/-- The count of digits that a precision stands for. -/
def clampPrecision (precision : Nat) : Nat := min (max precision 1) maxPrecision

/-- An exponent in digits, at least two of them. -/
def twoDigits (n : Nat) : List Char :=
  let ds := Nat.toDigits 10 n
  List.replicate (2 - ds.length) '0' ++ ds

/-- Whether the magnitude of a rank is a whole number. -/
def isWhole (rank : Nat) : Bool := units rank % unitsPerOne == 0

/-- A whole number with all its digits; zero has no sign. -/
def wholeText (negative : Bool) (rank : Nat) : List Char :=
  let size := units rank
  if size = 0 then ['0'] else signed negative (Nat.toDigits 10 (size / unitsPerOne))

/-- A number that is not whole, with a count of significant digits. -/
def significantText (count : Nat) (negative : Bool) (rank : Nat) : List Char :=
  let size := units rank
  let rounded := toSignificant count size unitsPerOne
  if isWhole rounded.rank then wholeText negative rounded.rank
  else
    let place := rounded.leadingPlace
    signed negative <|
      if place < -4 then scientific rounded.trimmed.digits ('-' :: twoDigits place.natAbs)
      else
        let again := (toPlaces (count - 1 - place).toNat size unitsPerOne).trimmed
        positional again.digits again.exponent

/-- The text of a double on the display. -/
def shown (precision : Nat) (x : Float) : List Char :=
  match denotation x with
  | .nan => "nan".toList
  | .infinite negative => signed negative "inf".toList
  | .finite negative rank =>
    if isWhole rank then wholeText negative rank
    else significantText (clampPrecision precision) negative rank

/-- A finite double is shown by its sign and its rank. -/
theorem shown_of_finite {precision : Nat} {x : Float} (h : rank x < infiniteRank) :
    shown precision x =
      if isWhole (rank x) then wholeText (isNegative x) (rank x)
      else significantText (clampPrecision precision) (isNegative x) (rank x) := by
  unfold shown denotation
  rw [if_pos h]

end PocketCalc.Number
