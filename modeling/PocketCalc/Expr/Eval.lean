import PocketCalc.Environment
import PocketCalc.Expr

/-!
# Evaluating expressions

An expression is evaluated left to right, and the first error ends it. Its value is a number or,
for the name of a function on its own, that function; wherever a number is needed a function is an
error.
-/

namespace PocketCalc

open PocketCalc.Number

/-- What an expression evaluates to. -/
inductive Value where
  | number (value : Float)
  | function (op : UnaryOperation)
  deriving DecidableEq

namespace Value

/-- The number, where one is needed. -/
def asNumber : Value → Except Error Float
  | .number x => .ok x
  | .function op => .error (.invalidOperand (.function op))

/-- The function, where one is called. -/
def asFunction : Value → Except Error UnaryOperation
  | .function op => .ok op
  | .number x => .error (.invalidOperand (.notCallable x))

end Value

namespace Expr

/-- A power in an expression. Zero to a negative power is a division by zero here. -/
def raise (x y : Float) : Except Error Float :=
  if x == 0 && y < 0 then .error .divisionByZero else BinaryOperation.power.apply x y

mutual

/-- The value of an expression. -/
def eval (env : Environment) : Expr → Except Error Value
  | .number x => .ok (.number x)
  | .name id =>
    match env.lookup id with
    | some (.constant x) => .ok (.number x)
    | some (.function op) => .ok (.function op)
    | none => .error (.unboundName id)
  | .negate operand => do
    let x ← (← eval env operand).asNumber
    return .number (-x)
  | .plus operand => do
    let x ← (← eval env operand).asNumber
    return .number x
  | .chain first links => do
    let x ← (← eval env first).asNumber
    return .number (← evalLinks env x links)
  | .power base exponent => do
    let x ← (← eval env base).asNumber
    let y ← (← eval env exponent).asNumber
    return .number (← raise x y)
  | .call callee args => do
    let op ← (← eval env callee).asFunction
    let xs ← evalArgs env args
    return .number (← env.call (.unary op) (xs.map .float))

/-- The links of a chain applied in order to the number in front of them. -/
def evalLinks (env : Environment) (x : Float) : List (ChainOperator × Expr) → Except Error Float
  | [] => .ok x
  | (op, operand) :: links => do
    let y ← (← eval env operand).asNumber
    evalLinks env (← op.operation.apply x y) links

/-- The numbers that arguments evaluate to. -/
def evalArgs (env : Environment) : List Expr → Except Error (List Float)
  | [] => .ok []
  | arg :: args => do
    let x ← (← eval env arg).asNumber
    return x :: (← evalArgs env args)

end

end Expr

end PocketCalc
