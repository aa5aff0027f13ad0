import PocketCalc.Number.Decimal

/-!
# Numerals

A numeral is an unsigned number as it is written: digits, possibly a point with more digits,
possibly an exponent. `Numeral.split` takes the longest numeral off the front of a text; which
characters count as digits is a parameter. `Numeral.decimal` is the number written.
-/

namespace PocketCalc.Number

/-- A sign in front of a text, if there is one, and the text behind it. -/
def splitSign : List Char → Option Char × List Char
  | '+' :: cs => (some '+', cs)
  | '-' :: cs => (some '-', cs)
  | cs => (none, cs)

/-- The exponent part of a numeral. -/
structure Exponent where
  /-- The letter in front, `e` or `E`. -/
  mark : Char
  sign : Option Char
  digits : List Char
  deriving DecidableEq

namespace Exponent

/-- The exponent as written. -/
def text (e : Exponent) : List Char := e.mark :: (e.sign.toList ++ e.digits)

/-- The power of ten meant. -/
def value (e : Exponent) : Int :=
  let size : Int := Nat.ofDigitChars 10 e.digits 0
  if e.sign = some '-' then -size else size

/-- An exponent at the front of a text: a letter, possibly a sign, and at least one digit. -/
def split? (isDigit : Char → Bool) : List Char → Option (Exponent × List Char)
  | [] => none
  | mark :: cs =>
    let signed := splitSign cs
    let digits := signed.2.takeWhile isDigit
    if (mark = 'e' ∨ mark = 'E') ∧ digits ≠ [] then
      some (⟨mark, signed.1, digits⟩, signed.2.dropWhile isDigit)
    else none

end Exponent

/-- An unsigned number as written. -/
structure Numeral where
  /-- The digits in front of the point. -/
  whole : List Char
  /-- The digits behind the point, where there is a point. -/
  fraction : Option (List Char)
  exponent : Option Exponent
  deriving DecidableEq

namespace Numeral

/-- The numeral as written. -/
def text (n : Numeral) : List Char :=
  n.whole ++ (n.fraction.map ('.' :: ·)).getD [] ++ (n.exponent.map Exponent.text).getD []

/-- The digits on both sides of the point. -/
def digits (n : Numeral) : List Char := n.whole ++ n.fraction.getD []

/-- Digits alone, without a point or an exponent. -/
def isPlain (n : Numeral) : Bool := n.fraction.isNone && n.exponent.isNone

/-- Plain digits that start with a zero without being all zeros. -/
def hasLeadingZero (n : Numeral) : Bool :=
  n.isPlain && n.whole.head? == some '0' && n.whole.any (· != '0')

/-- The number written. -/
def decimal (n : Numeral) : Decimal :=
  ⟨Nat.ofDigitChars 10 n.digits 0,
    (n.exponent.map Exponent.value).getD 0 - (n.fraction.getD []).length⟩

/-- A point and the digits behind it, if the text starts with a point. -/
def splitFraction (isDigit : Char → Bool) : List Char → Option (List Char) × List Char
  | '.' :: cs => (some (cs.takeWhile isDigit), cs.dropWhile isDigit)
  | cs => (none, cs)

/-- The longest numeral at the front of a text and what follows it. Where the text starts with
neither a digit nor a point and a digit, the numeral has no digits and counts for nothing. -/
def split (isDigit : Char → Bool) (cs : List Char) : Numeral × List Char :=
  let whole := cs.takeWhile isDigit
  let (fraction, rest) := splitFraction isDigit (cs.dropWhile isDigit)
  match Exponent.split? isDigit rest with
  | some (exponent, rest) => (⟨whole, fraction, some exponent⟩, rest)
  | none => (⟨whole, fraction, none⟩, rest)

end Numeral

/-! ## Splitting loses nothing -/

theorem splitSign_append (cs : List Char) :
    (splitSign cs).1.toList ++ (splitSign cs).2 = cs := by
  unfold splitSign
  split <;> simp

theorem Exponent.split?_append {isDigit : Char → Bool} {cs rest : List Char} {e : Exponent}
    (h : Exponent.split? isDigit cs = some (e, rest)) : e.text ++ rest = cs := by
  cases cs with
  | nil => simp [split?] at h
  | cons mark cs =>
    simp only [split?] at h
    split at h
    · cases h
      simp [text, List.takeWhile_append_dropWhile, splitSign_append]
    · simp at h

theorem Numeral.splitFraction_append (isDigit : Char → Bool) (cs : List Char) :
    ((splitFraction isDigit cs).1.map ('.' :: ·)).getD [] ++ (splitFraction isDigit cs).2 = cs := by
  unfold splitFraction
  split <;> simp [List.takeWhile_append_dropWhile]

/-- The numeral and the rest together are the text. -/
theorem Numeral.split_append (isDigit : Char → Bool) (cs : List Char) :
    (split isDigit cs).1.text ++ (split isDigit cs).2 = cs := by
  have hf := splitFraction_append isDigit (cs.dropWhile isDigit)
  have hw := List.takeWhile_append_dropWhile (p := isDigit) (l := cs)
  unfold split
  cases he : Exponent.split? isDigit (splitFraction isDigit (cs.dropWhile isDigit)).2 with
  | none => simp only [he, text]; rw [List.append_assoc, List.append_assoc]; simp [hf, hw]
  | some p =>
    have := Exponent.split?_append he
    simp only [he, text, Option.map_some, Option.getD_some]
    rw [List.append_assoc, List.append_assoc, this, hf, hw]

end PocketCalc.Number
