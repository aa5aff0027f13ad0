import PocketCalc.Operation
import PocketCalc.Token

/-!
# Errors

Every way in which a calculation can fail, by cause. The wording is in `Error.message`, and the
few words that fit the display are in `Error.shortMessage`.
-/

namespace PocketCalc

/-- How many levels an expression may nest. -/
def maxNesting : Nat := 200

/-- Why an operand is refused. -/
inductive OperandFault where
  /-- A text that is no number. -/
  | text (word : String)
  /-- A function where a number is needed. -/
  | function (op : UnaryOperation)
  /-- A number where a function is needed. -/
  | notCallable (value : Float)
  /-- A count of arguments other than the operation's own. -/
  | argumentCount (op : Operation) (given : Nat)
  deriving DecidableEq

/-- Which operation was used outside its domain. -/
inductive DomainFault where
  | negativeRoot
  | nonPositiveLog
  | tangentPole
  deriving DecidableEq

/-- What is malformed in an expression or a command line. Positions count bytes. -/
inductive SyntaxFault where
  /-- A point without a digit on either side. -/
  | lonePoint (position : Nat)
  /-- A whole number that starts with a redundant zero. -/
  | leadingZeros (literal : String)
  /-- A character that starts no token. -/
  | unexpectedCharacter (c : Char) (position : Nat)
  /-- A token that cannot stand where it does. -/
  | unexpectedToken (kind : TokenKind) (position : Nat)
  /-- The expression stops too early. -/
  | unexpectedEnd
  /-- More levels than `maxNesting`. -/
  | nestedTooDeep
  /-- A command line that names no function. -/
  | unknownFunction (name : String)
  /-- A command line that names no operator. -/
  | unknownOperator (symbol : String)
  /-- A command line of no known shape. -/
  | unknownShape (line : String)
  deriving DecidableEq

/-- Why a calculation failed. -/
inductive Error where
  | invalidOperand (fault : OperandFault)
  | divisionByZero
  | domain (fault : DomainFault)
  | malformed (fault : SyntaxFault)
  /-- A name that the environment does not bind. -/
  | unboundName (name : String)
  | emptyInput
  /-- A keypad label that stands for no key. -/
  | unknownKey (label : String)
  deriving DecidableEq

/-- The operand as the message shows it. -/
def OperandFault.operand : OperandFault → String
  | .text word => word
  | .function op => "function " ++ op.name
  | .notCallable x => String.ofList (Number.fullStyle.write x) ++ " is not callable"
  | .argumentCount op given =>
    op.name ++ " takes " ++ op.arity.repr ++ " argument(s) but " ++ given.repr ++ " were given"

def DomainFault.message : DomainFault → String
  | .negativeRoot => "cannot calculate square root of a negative number"
  | .nonPositiveLog => "cannot calculate logarithm of a non-positive number"
  | .tangentPole => "tangent is undefined where cosine is zero (pi/2 + k*pi)"

def SyntaxFault.message : SyntaxFault → String
  | .lonePoint position => "lone decimal point at " ++ position.repr
  | .leadingZeros literal => "leading zeros in decimal literal `" ++ literal ++ "`"
  | .unexpectedCharacter c position =>
    "unexpected character `" ++ String.ofList [c] ++ "` at " ++ position.repr
  | .unexpectedToken kind position => "unexpected " ++ kind.describe ++ " at " ++ position.repr
  | .unexpectedEnd => "unexpected end of expression"
  | .nestedTooDeep => "expression nested deeper than " ++ maxNesting.repr ++ " levels"
  | .unknownFunction name => "unknown function `" ++ name ++ "`"
  | .unknownOperator symbol => "unknown operator `" ++ symbol ++ "`"
  | .unknownShape line =>
    "expected `<number> <operator> <number>` or `<function> <number>`, got `" ++ line ++ "`"

namespace Error

/-- The full message. -/
def message : Error → String
  | .invalidOperand fault => "operand `" ++ fault.operand ++ "` is not numeric"
  | .divisionByZero => "cannot divide by zero"
  | .domain fault => fault.message
  | .malformed fault => "invalid syntax: " ++ fault.message
  | .unboundName name => "name `" ++ name ++ "` is not defined"
  | .emptyInput => "nothing to evaluate"
  | .unknownKey label => "unknown key `" ++ label ++ "`"

/-- The message that fits the display. -/
def shortMessage : Error → String
  | .divisionByZero => "Error: Division by zero"
  | .malformed _ | .unboundName _ => "Error: Invalid syntax"
  | .domain _ | .invalidOperand _ => "Error: Math domain/type"
  | .emptyInput => "Error: Nothing to evaluate"
  | .unknownKey _ => "Error: Unknown key"

end Error

end PocketCalc
