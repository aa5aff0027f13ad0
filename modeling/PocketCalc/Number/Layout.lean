import PocketCalc.Number.Shortest

/-!
# Number texts

A number text is a digit string laid out around a point, or in front of an exponent. The three
styles of this module write a double with the fewest digits that read back; they differ in where
positional notation ends and in how special values are spelled. `PocketCalc.Number.Shown` has the
text with a limited count of digits.
-/

namespace PocketCalc.Number

/-- Digits laid out in positional notation, the last one standing for `10 ^ exponent`. There is a
point only in front of a fraction, and a digit in front of every point. -/
def positional (digits : List Char) (exponent : Int) : List Char :=
  let places := (-exponent).toNat
  if places = 0 then digits ++ List.replicate exponent.toNat '0'
  else if places < digits.length then
    digits.take (digits.length - places) ++ '.' :: digits.drop (digits.length - places)
  else '0' :: '.' :: (List.replicate (places - digits.length) '0' ++ digits)

/-- Digits laid out with a point behind the first, followed by a power of ten as written. -/
def scientific (digits exponent : List Char) : List Char :=
  match digits with
  | [] => []
  | [d] => d :: 'e' :: exponent
  | d :: ds => d :: '.' :: (ds ++ 'e' :: exponent)

/-- A text under a sign. -/
def signed (negative : Bool) (cs : List Char) : List Char :=
  if negative then '-' :: cs else cs

/-- How a style spells a double. -/
structure Style where
  /-- Whether a number with this power of ten in front is written positionally. -/
  isPositional : Int → Bool
  /-- What a whole number in positional notation ends in. -/
  wholeEnd : List Char
  /-- The sign of a power of ten that is not negative. -/
  plus : List Char
  /-- The choice between two equally close shortest decimals. -/
  tie : Tie
  nan : List Char
  /-- Infinity, by whether it is negative. -/
  infinity : Bool → List Char

namespace Style

/-- A finite decimal without trailing zeros, as the style spells it. -/
def writeDecimal (style : Style) (d : Decimal) : List Char :=
  let place := d.leadingPlace
  if style.isPositional place then
    positional d.digits d.exponent ++ (if 0 ≤ d.exponent then style.wholeEnd else [])
  else
    scientific d.digits ((if 0 ≤ place then style.plus else ['-']) ++ Nat.toDigits 10 place.natAbs)

/-- A double as the style spells it; both zeros keep their sign. -/
def write (style : Style) (x : Float) : List Char :=
  match denotation x with
  | .nan => style.nan
  | .infinite negative => style.infinity negative
  | .finite negative rank =>
    let d := if rank = 0 then ⟨0, 0⟩ else shortest style.tie rank
    signed negative (style.writeDecimal d)

end Style

/-- Numbers in messages about tokens: a fraction or an exponent always shows. -/
def tokenStyle : Style where
  isPositional place := -4 ≤ place && place < 16
  wholeEnd := ['.', '0']
  plus := []
  tie := .up
  nan := "NaN".toList
  infinity negative := signed negative "inf".toList

/-- Numbers written out in full, never with an exponent. -/
def fullStyle : Style where
  isPositional _ := true
  wholeEnd := []
  plus := []
  tie := .up
  nan := "NaN".toList
  infinity negative := signed negative "inf".toList

/-- Numbers in JSON, which has no word for special values. -/
def jsonStyle : Style where
  isPositional place := -5 ≤ place && place < 16
  wholeEnd := ['.', '0']
  plus := ['+']
  tie := .even
  nan := "null".toList
  infinity _ := "null".toList

end PocketCalc.Number
