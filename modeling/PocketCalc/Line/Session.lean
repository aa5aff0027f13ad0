import PocketCalc.Calculator
import PocketCalc.Line.Command

/-!
# Sessions of the text loop

A session reads bytes line by line and answers each line on its own. It ends at a line that asks
for it, at the end of the input, or at a line that is not UTF-8.
-/

namespace PocketCalc

/-- What one line comes to: an answer, nothing where the line ends the session, or an error. -/
def Calculator.answer (calculator : Calculator) (line : List Char) :
    Except Error (Option String) := do
  match ← Command.ofLine line with
  | .quit => return none
  | .unary op arg =>
    return some (String.ofList (calculator.shown (← calculator.env.call (.unary op) [arg])))
  | .binary op lhs rhs =>
    return some (String.ofList (calculator.shown (← calculator.env.call (.binary op) [lhs, rhs])))

namespace Line

/-- The lines of some bytes, the first one continuing the bytes of `line`, which are held
reversed. -/
def splitFrom (line : List UInt8) : List UInt8 → List (List UInt8)
  | [] => if line.isEmpty then [] else [line.reverse]
  | 10 :: bytes =>
    let line := match line with
      | 13 :: line => line
      | line => line
    line.reverse :: splitFrom [] bytes
  | b :: bytes => splitFrom (b :: line) bytes

/-- The lines of some bytes. A line ends at a newline, which does not belong to it, nor does one
carriage return in front of the newline. What follows the last newline is a line if there is
any. -/
def split (bytes : List UInt8) : List (List UInt8) := splitFrom [] bytes

/-- The text of a line, if its bytes are UTF-8. -/
def decode? (line : List UInt8) : Option (List Char) :=
  (String.fromUTF8? line.toByteArray).map String.toList

end Line

/-- What a session wrote, and whether it ended at a line that is not UTF-8. -/
structure Transcript where
  output : String
  unreadable : Bool
  deriving DecidableEq

namespace Transcript

/-- The transcript with a text in front of its output. -/
def prepend (text : String) (t : Transcript) : Transcript := { t with output := text ++ t.output }

end Transcript

/-- The output for what one line came to; nothing where it ends the session. -/
def Line.written : Except Error (Option String) → Option String
  | .ok (some answer) => some ("= " ++ answer ++ "\n")
  | .ok none => none
  | .error error => some ("Error: " ++ error.message ++ "\n")

namespace Calculator

/-- The session over some lines, with a prompt in front of each and one at the end of the
input. -/
def session (calculator : Calculator) (prompt : String) : List (List UInt8) → Transcript
  | [] => ⟨prompt, false⟩
  | line :: lines =>
    match Line.decode? line with
    | none => ⟨prompt, true⟩
    | some text =>
      match Line.written (calculator.answer text) with
      | none => ⟨prompt, false⟩
      | some output => (calculator.session prompt lines).prepend (prompt ++ output)

/-- The session over some bytes, with an optional prompt. -/
def runSession (calculator : Calculator) (prompt : Option String) (input : List UInt8) :
    Transcript :=
  calculator.session (prompt.getD "") (Line.split input)

end Calculator

end PocketCalc
