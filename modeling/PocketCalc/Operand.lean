import PocketCalc.Error
import PocketCalc.Number.Numeral
import PocketCalc.Text.Blank

/-!
# Operands

An operand is what a user hands to an operation: a whole number, a decimal number, or a text that
is neither. A text is refused where its value is needed, never turned into a number.
-/

namespace PocketCalc

open PocketCalc.Number

/-- A value handed to an operation. -/
inductive Operand where
  | int (value : Int)
  | float (value : Float)
  | text (word : String)
  deriving DecidableEq

namespace Operand

/-- The whole numbers that a signed word of 64 bits holds. -/
def fitsWord (n : Int) : Bool := -0x8000000000000000 ≤ n && n < 0x8000000000000000

/-- Reads a signed numeral with nothing around it: a sign, digits with an optional point, an
optional exponent, all in ASCII. Digits alone make a whole number where a word can hold it, so
`-0` is the whole number zero. -/
def readNumber? (cs : List Char) : Option Operand :=
  let (sign, body) := splitSign cs
  let (numeral, rest) := Numeral.split Char.isDigit body
  if numeral.digits = [] ∨ rest ≠ [] then none
  else
    let negative := sign = some '-'
    let size : Int := numeral.decimal.coefficient
    let whole := if negative then -size else size
    if numeral.isPlain && fitsWord whole then some (.int whole)
    else some (.float (numeral.decimal.toFloat negative))

/-- Reads an operand from a text. Blanks around it do not count. -/
def read (cs : List Char) : Operand :=
  let trimmed := Text.trim cs
  (readNumber? trimmed).getD (.text (String.ofList trimmed))

/-- The number that an operand stands for. -/
def value : Operand → Except Error Float
  | .int n => .ok (ofInt n)
  | .float x => .ok x
  | .text word => .error (.invalidOperand (.text word))

end Operand

end PocketCalc
