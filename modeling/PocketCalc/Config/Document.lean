import PocketCalc.Number.Numeral

/-!
# Settings documents

A settings document is the part of TOML that settings need: a line is empty, a comment, or a key
with an integer, a decimal number or a truth value. A key is bare or quoted. Everything else that
TOML can say is refused here, because no setting has a value of another kind.
-/

namespace PocketCalc.Config

open PocketCalc.Number

/-- The value of a setting. -/
inductive Scalar where
  | integer (n : Int)
  | decimal (x : Float)
  | truth (b : Bool)
  deriving DecidableEq

/-- A key and its value. -/
structure Entry where
  key : String
  value : Scalar
  deriving DecidableEq

namespace Document

/-! ## Characters -/

/-- The blanks inside a line. -/
def isGap (c : Char) : Bool := c == ' ' || c == '\t'

/-- The text without the blanks in front. -/
def skipGap (cs : List Char) : List Char := cs.dropWhile isGap

/-- The characters that a comment and a quoted key may hold: no control character but the tab. -/
def isText (c : Char) : Bool := c == '\t' || (0x20 ≤ c.toNat && c.toNat != 0x7F)

/-- The characters of a bare key. -/
def isBareKeyChar (c : Char) : Bool := c.isAlphanum || c == '_' || c == '-'

/-- The value of a digit in bases up to sixteen. -/
def digitValue? (c : Char) : Option Nat :=
  if c.isDigit then some (c.toNat - '0'.toNat)
  else if 'a' ≤ c ∧ c ≤ 'f' then some (c.toNat - 'a'.toNat + 10)
  else if 'A' ≤ c ∧ c ≤ 'F' then some (c.toNat - 'A'.toNat + 10)
  else none

/-- Whether a character is a digit of a base. -/
def isDigitOf (base : Nat) (c : Char) : Bool := (digitValue? c).any (· < base)

/-- The number that digits of a base spell. -/
def ofDigits (base : Nat) (cs : List Char) : Nat :=
  cs.foldl (fun n c => n * base + (digitValue? c).getD 0) 0

/-! ## Values -/

/-- The digits of a number without the underscores between them. An underscore needs a digit on
either side; `afterDigit` says whether one precedes. -/
def dropSeparators (isDigit : Char → Bool) (afterDigit : Bool) : List Char → Option (List Char)
  | [] => some []
  | '_' :: c :: cs =>
    if afterDigit && isDigit c then dropSeparators isDigit false (c :: cs) else none
  | c :: cs => if c == '_' then none else (dropSeparators isDigit (isDigit c) cs).map (c :: ·)

/-- Integers of 64 bits, with a sign or without. -/
def integer? (n : Int) : Option Scalar :=
  if -0x8000000000000000 ≤ n ∧ n < 0x10000000000000000 then some (.integer n) else none

/-- An integer in the digits of a base, behind the mark of the base. -/
def basedInteger? (base : Nat) (cs : List Char) : Option Scalar := do
  let digits ← dropSeparators (isDigitOf base) false cs
  if digits ≠ [] ∧ digits.all (isDigitOf base) then integer? (ofDigits base digits) else none

/-- A number in decimal digits. It has digits on both sides of a point, no redundant zero in
front, and it is refused where it is too large for a double. -/
def decimalNumber? (cs : List Char) : Option Scalar := do
  let (sign, body) := splitSign cs
  let digits ← dropSeparators Char.isDigit false body
  let (numeral, rest) := Numeral.split Char.isDigit digits
  let negative := sign = some '-'
  if rest ≠ [] ∨ numeral.whole = [] ∨ numeral.fraction = some [] ∨
      (numeral.whole.head? = some '0' ∧ numeral.whole ≠ ['0']) then none
  else if numeral.isPlain then
    let size : Int := numeral.decimal.coefficient
    integer? (if negative then -size else size)
  else if numeral.decimal.rank = infiniteRank then none
  else some (.decimal (numeral.decimal.toFloat negative))

/-- The special numbers under a sign. -/
def specialNumber? (cs : List Char) : Option Scalar :=
  let (sign, body) := splitSign cs
  if body = "inf".toList then some (.decimal (ofRank (sign = some '-') infiniteRank))
  else if body = "nan".toList then some (.decimal (0 / 0))
  else none

/-- A value. -/
def scalar? (cs : List Char) : Option Scalar :=
  if cs = "true".toList then some (.truth true)
  else if cs = "false".toList then some (.truth false)
  else match cs with
    | '0' :: 'x' :: cs => basedInteger? 16 cs
    | '0' :: 'o' :: cs => basedInteger? 8 cs
    | '0' :: 'b' :: cs => basedInteger? 2 cs
    | cs => specialNumber? cs <|> decimalNumber? cs

/-! ## Keys -/

/-- A character given by a code point in hexadecimal digits. -/
def escapedChar? (digits : List Char) : Option Char :=
  let n := ofDigits 16 digits
  if digits.all (isDigitOf 16) ∧ n.isValidChar then some (Char.ofNat n) else none

/-- The text of a key in double quotes, from behind the opening quote to behind the closing
one. -/
def quotedKey? (cs : List Char) : Option (List Char × List Char) :=
  match cs with
  | '"' :: cs => some ([], cs)
  | '\\' :: 'b' :: cs => (quotedKey? cs).map fun (key, rest) => ('\x08' :: key, rest)
  | '\\' :: 't' :: cs => (quotedKey? cs).map fun (key, rest) => ('\t' :: key, rest)
  | '\\' :: 'n' :: cs => (quotedKey? cs).map fun (key, rest) => ('\n' :: key, rest)
  | '\\' :: 'f' :: cs => (quotedKey? cs).map fun (key, rest) => ('\x0c' :: key, rest)
  | '\\' :: 'r' :: cs => (quotedKey? cs).map fun (key, rest) => ('\r' :: key, rest)
  | '\\' :: 'e' :: cs => (quotedKey? cs).map fun (key, rest) => ('\x1b' :: key, rest)
  | '\\' :: '"' :: cs => (quotedKey? cs).map fun (key, rest) => ('"' :: key, rest)
  | '\\' :: '\\' :: cs => (quotedKey? cs).map fun (key, rest) => ('\\' :: key, rest)
  | '\\' :: 'x' :: a :: b :: cs => do
    let x ← escapedChar? [a, b]
    let (key, rest) ← quotedKey? cs
    return (x :: key, rest)
  | '\\' :: 'u' :: a :: b :: c :: d :: cs => do
    let x ← escapedChar? [a, b, c, d]
    let (key, rest) ← quotedKey? cs
    return (x :: key, rest)
  | '\\' :: 'U' :: a :: b :: c :: d :: e :: f :: g :: h :: cs => do
    let x ← escapedChar? [a, b, c, d, e, f, g, h]
    let (key, rest) ← quotedKey? cs
    return (x :: key, rest)
  | '\\' :: _ => none
  | c :: cs => if isText c then (quotedKey? cs).map fun (key, rest) => (c :: key, rest) else none
  | [] => none

/-- A key at the front of a line and what follows it. -/
def key? (cs : List Char) : Option (String × List Char) :=
  match cs with
  | '"' :: cs => (quotedKey? cs).map fun (key, rest) => (String.ofList key, rest)
  | '\'' :: cs =>
    let key := cs.takeWhile fun c => isText c && c != '\''
    match cs.drop key.length with
    | '\'' :: rest => some (String.ofList key, rest)
    | _ => none
  | cs =>
    let key := cs.takeWhile isBareKeyChar
    if key = [] then none else some (String.ofList key, cs.drop key.length)

/-! ## Lines -/

/-- The rest of a line behind its entry: blanks and possibly a comment. -/
def isEnd (cs : List Char) : Bool :=
  match skipGap cs with
  | [] => true
  | '#' :: comment => comment.all isText
  | _ => false

/-- The end of a value: a blank or a comment. -/
def isValueEnd (c : Char) : Bool := isGap c || c == '#'

/-- A line: an entry, or nothing. -/
def line? (cs : List Char) : Option (Option Entry) :=
  if isEnd cs then some none
  else do
    let (key, rest) ← key? (skipGap cs)
    match skipGap rest with
    | '=' :: rest =>
      let rest := skipGap rest
      let value ← scalar? (rest.takeWhile (!isValueEnd ·))
      if isEnd (rest.dropWhile (!isValueEnd ·)) then return some ⟨key, value⟩ else none
    | _ => none

/-- The lines of a document, the first one continuing the characters of `line`, which are held
reversed. A newline may have a carriage return in front of it. -/
def splitFrom (line : List Char) : List Char → List (List Char)
  | [] => [line.reverse]
  | '\r' :: '\n' :: cs => line.reverse :: splitFrom [] cs
  | '\n' :: cs => line.reverse :: splitFrom [] cs
  | c :: cs => splitFrom (c :: line) cs

/-- A document without the byte order mark that it may start with. -/
def dropMark : List Char → List Char
  | '\uFEFF' :: cs => cs
  | cs => cs

/-- The entries of a document, in order. -/
def entries? (cs : List Char) : Option (List Entry) := do
  let lines ← (splitFrom [] (dropMark cs)).mapM line?
  return lines.filterMap id

end Document

end PocketCalc.Config
