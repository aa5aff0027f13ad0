import PocketCalc.Calculator
import PocketCalc.Keypad.Buffer
import PocketCalc.Keypad.Key

/-!
# The keypad

A keypad holds the text being typed, a memory register, the text on the display, and what is left
of the last result. Keys add to the text, with a guard here and there so that two operators never
meet; `=` evaluates it and puts the shown value in its place. The display is a field of its own,
which each key brings up to date; that it never falls out of step with the rest is an invariant of
the keys and not of the type.
-/

namespace PocketCalc

/-- The state of a keypad. -/
structure Keypad where
  buffer : Buffer := {}
  memory : Float := 0
  /-- Whether the next number, name or parenthesis starts a new text. -/
  justEvaluated : Bool := false
  display : String := "0"
  /-- Whether the display shows an error. -/
  isError : Bool := false
  /-- The last result before rounding, while the text is its shown form. -/
  lastValue : Option Float := none
  deriving DecidableEq

namespace Keypad

/-- The keypad with its display brought up to date: the text, or a zero where there is none. -/
def refreshed (pad : Keypad) : Keypad :=
  { pad with isError := false, display := if pad.buffer.isEmpty then "0" else pad.buffer.text }

/-- Whether the next number replaces the text. -/
def startsFresh (pad : Keypad) : Bool := pad.justEvaluated || pad.buffer.isInitial

/-- The keypad with another text, which is being typed. -/
def enter (pad : Keypad) (buffer : Buffer) : Keypad :=
  refreshed { pad with buffer, justEvaluated := false }

/-- The keypad with its text given up over an error. -/
def fail (pad : Keypad) (error : Error) : Keypad :=
  { pad with buffer := {}, lastValue := none, justEvaluated := true, isError := true,
             display := error.shortMessage }

/-- The keypad without its last result. -/
def forget (pad : Keypad) : Keypad := { pad with lastValue := none }

/-! ## Typing -/

/-- A digit replaces a fresh text and extends any other. -/
def pressDigit (pad : Keypad) (c : Char) : Keypad :=
  pad.enter (if pad.startsFresh then ⟨[c]⟩ else pad.buffer.push c)

/-- A point starts a new text behind a result, and is refused where the number has one. -/
def pressPoint (pad : Keypad) : Keypad :=
  pad.enter
    (if pad.justEvaluated then ⟨['.']⟩
    else if pad.buffer.trailingSegmentHasPoint then pad.buffer
    else pad.buffer.push '.')

/-- A minus in front of everything or behind an opening parenthesis is a sign. Any other operator
needs an operand in front of it and is refused without one. -/
def pressOperator (pad : Keypad) (op : BinaryOperation) : Keypad :=
  pad.enter
    (if op = .subtract ∧ (pad.buffer.isEmpty ∨ pad.buffer.endsWithOpenParen) then
      pad.buffer.push '-'
    else if pad.buffer.isEmpty ∨ pad.buffer.endsWithOperatorOrOpen then pad.buffer
    else pad.buffer.append (' ' :: (op.typed.toList ++ [' '])))

/-- A term replaces a fresh text. Behind an operand it is multiplied to it. -/
def insertTerm (pad : Keypad) (term : List Char) (fresh : Bool) : Keypad :=
  pad.enter
    (if fresh then ⟨term⟩
    else if pad.buffer.endsWithOperatorOrOpen then pad.buffer.append term
    else pad.buffer.append (" * ".toList ++ term))

/-- A function takes a typed zero as an operand. -/
def pressFunction (pad : Keypad) (name : String) : Keypad :=
  pad.insertTerm (name.toList ++ ['(']) (pad.justEvaluated || pad.buffer.isEmpty)

/-- A parenthesis starts a new text behind a result. -/
def pressParen (pad : Keypad) (c : Char) : Keypad :=
  pad.enter (if pad.justEvaluated then ⟨[c]⟩ else pad.buffer.push c)

/-! ## Evaluating and memory -/

/-- The text is replaced by its shown value, or given up over its error. A result stays as it is,
and without a text there is nothing to do but to take an error off the display. -/
def pressEvaluate (calculator : Calculator) (pad : Keypad) : Keypad :=
  if pad.buffer.isEmpty || (pad.justEvaluated && pad.lastValue.isSome) then pad.refreshed
  else
    match calculator.report pad.buffer.chars with
    | .success _ value display =>
      refreshed { pad with buffer := ⟨display.toList⟩, lastValue := some value,
                           justEvaluated := true }
    | .failure _ error => pad.fail error

/-- The number that a memory key works with: a result before rounding, else the value of the text,
or of what the display shows where there is no text. An error on the display has no value. -/
def memoryOperand (calculator : Calculator) (pad : Keypad) : Except Error Float :=
  match pad.lastValue.filter fun _ => pad.justEvaluated with
  | some value => .ok value
  | none =>
    if !pad.buffer.isEmpty then (calculator.report pad.buffer.chars).result
    else if pad.isError then .error .emptyInput
    else (calculator.report pad.display.toList).result

/-- Stores what `update` makes of the operand. The text stays, and the next number starts a new
one. -/
def updateMemory (calculator : Calculator) (pad : Keypad) (update : Float → Except Error Float) :
    Keypad :=
  match pad.memoryOperand calculator >>= update with
  | .ok memory => refreshed { pad with memory, justEvaluated := true }
  | .error error => pad.fail error

/-- The memory keys. Recalling types the stored number with all the digits it needs. -/
def pressMemory (calculator : Calculator) (pad : Keypad) : MemoryAction → Keypad
  | .clear => { pad with memory := 0 }
  | .recall => pad.forget.insertTerm (Number.fullStyle.write pad.memory) pad.startsFresh
  | .store => pad.updateMemory calculator .ok
  | .add => pad.updateMemory calculator (BinaryOperation.add.apply pad.memory)
  | .subtract => pad.updateMemory calculator (BinaryOperation.subtract.apply pad.memory)

/-! ## Pressing keys -/

/-- The keypad after a key. All but `=` and the memory keys let go of the last result first. -/
def press (calculator : Calculator) (pad : Keypad) (key : Key) : Keypad :=
  let pad := if key.keepsResult then pad else pad.forget
  match key with
  | .digit c => pad.pressDigit c
  | .point => pad.pressPoint
  | .operator op => pad.pressOperator op
  | .function name => pad.pressFunction name
  | .constant name => pad.insertTerm name.toList pad.startsFresh
  | .openParen => pad.pressParen '('
  | .closeParen => pad.pressParen ')'
  | .clearAll => pad.enter {}
  | .clearLast => pad.enter pad.buffer.dropLast
  | .evaluate => pad.pressEvaluate calculator
  | .memory action => pad.pressMemory calculator action

/-- The keypad after the key that a label stands for. A label of no key leaves the keypad as it
is, because nothing is returned. -/
def pressLabel (calculator : Calculator) (pad : Keypad) (label : List Char) : Except Error Keypad :=
  (Key.ofLabel calculator.env label).map (pad.press calculator)

/-- The keypad after some keys. -/
def run (calculator : Calculator) (pad : Keypad) (keys : List Key) : Keypad :=
  keys.foldl (press calculator) pad

/-- The displays after the labels of a list that stand for keys, one each, and the keypad in the
end. Other labels are passed over. -/
def pressAll (calculator : Calculator) (pad : Keypad) : List (List Char) → List String × Keypad
  | [] => ([], pad)
  | label :: labels =>
    match pad.pressLabel calculator label with
    | .error _ => pressAll calculator pad labels
    | .ok pad =>
      let (displays, final) := pressAll calculator pad labels
      (pad.display :: displays, final)

end Keypad

end PocketCalc
