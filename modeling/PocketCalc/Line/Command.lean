import PocketCalc.Environment
import PocketCalc.Text.DecimalDigit

/-!
# Commands of the text loop

A line is a command by its shape. In order of preference it is

1. a function name and one word;
2. a number, an operator mark and one word, blanks around the mark being optional;
3. a word, an operator mark and one word, likewise, with the shortest first word that works;
4. three words with letters in the middle.

A number is cut as long as possible, so that the sign in `1e+5` stays in the number, and `**` is
preferred to `*` where both leave a word. Operands are not judged here: a word that is no number
is refused by the operation.
-/

namespace PocketCalc

open PocketCalc.Number

/-- What a line asks for. -/
inductive Command where
  | quit
  | unary (op : UnaryOperation) (arg : Operand)
  | binary (op : BinaryOperation) (lhs rhs : Operand)
  deriving DecidableEq

namespace Line

/-- A line cut at its operator. -/
structure Cut where
  lhs : List Char
  symbol : List Char
  rhs : List Char
  deriving DecidableEq

/-- A function name starts with an ASCII letter and goes on with ASCII letters and digits. -/
def isFunctionName : List Char → Bool
  | [] => false
  | c :: cs => c.isAlpha && cs.all Char.isAlphanum

/-- The operator marks of one character. -/
def isMark (c : Char) : Bool :=
  c == '-' || c == '+' || c == '*' || c == '/' || c == '^' || c == '×' || c == '÷' || c == '−'

/-- A text that is one word behind optional blanks. -/
def word? (cs : List Char) : Option (List Char) :=
  let word := Text.trimStart cs
  if word ≠ [] ∧ word.all (!Text.isBlank ·) then some word else none

/-- A text that is an operator mark and one word, with optional blanks in front of either: the
mark and the word. -/
def markAndWord? (cs : List Char) : Option (List Char × List Char) :=
  match Text.trimStart cs with
  | '*' :: '*' :: rest =>
    match word? rest with
    | some word => some (['*', '*'], word)
    | none => (word? ('*' :: rest)).map (['*'], ·)
  | c :: rest => if isMark c then (word? rest).map ([c], ·) else none
  | [] => none

/-- A function name and a word. -/
def functionCut? (cs : List Char) : Option (List Char × List Char) :=
  match Text.words cs with
  | [name, word] => if isFunctionName name then some (name, word) else none
  | _ => none

/-- A number, an operator mark and a word. -/
def numberCut? (cs : List Char) : Option Cut :=
  let (sign, body) := splitSign cs
  let (numeral, rest) := Numeral.split Text.isDecimalDigit body
  if numeral.digits = [] then none
  else (markAndWord? rest).map fun (symbol, rhs) => ⟨sign.toList ++ numeral.text, symbol, rhs⟩

/-- A word that continues the characters of `lhs`, an operator mark and a word. -/
def symbolCutFrom? (lhs : List Char) : List Char → Option Cut
  | [] => none
  | c :: cs =>
    if Text.isBlank c then none
    else match markAndWord? cs with
      | some (symbol, rhs) => some ⟨lhs ++ [c], symbol, rhs⟩
      | none => symbolCutFrom? (lhs ++ [c]) cs

/-- A word, an operator mark and a word. -/
def symbolCut? (cs : List Char) : Option Cut := symbolCutFrom? [] cs

/-- Three words, the middle one of ASCII letters. -/
def wordCut? (cs : List Char) : Option Cut :=
  match Text.words cs with
  | [lhs, symbol, rhs] => if symbol.all Char.isAlpha then some ⟨lhs, symbol, rhs⟩ else none
  | _ => none

/-- The cut of a line at its operator. -/
def cut? (cs : List Char) : Option Cut := numberCut? cs <|> symbolCut? cs <|> wordCut? cs

/-- The words that end the loop, in any mixture of upper and lower case. -/
def isQuit (cs : List Char) : Bool :=
  let lower := cs.map Char.toLower
  lower == "quit".toList || lower == "exit".toList

end Line

namespace Command

/-- The command of a function line. -/
def ofFunction (name arg : List Char) : Except Error Command :=
  match UnaryOperation.ofName? (String.ofList name) with
  | some op => .ok (.unary op (Operand.read arg))
  | none => .error (.malformed (.unknownFunction (String.ofList name)))

/-- The command of a line that was cut at its operator. -/
def ofCut (cut : Line.Cut) : Except Error Command :=
  match BinaryOperation.ofSymbol? (String.ofList cut.symbol) with
  | some op => .ok (.binary op (Operand.read cut.lhs) (Operand.read cut.rhs))
  | none => .error (.malformed (.unknownOperator (String.ofList cut.symbol)))

/-- The command of a line. Blanks around the line do not count. -/
def ofLine (line : List Char) : Except Error Command :=
  let trimmed := Text.trim line
  if trimmed.isEmpty then .error .emptyInput
  else if Line.isQuit trimmed then .ok .quit
  else match Line.functionCut? trimmed with
    | some (name, arg) => ofFunction name arg
    | none =>
      match Line.cut? trimmed with
      | some cut => ofCut cut
      | none => .error (.malformed (.unknownShape (String.ofList trimmed)))

end Command

end PocketCalc
