import PocketCalc.Operation

/-!
# Expressions

The tree of an expression. A run of operators of one strength stays one flat chain, with its
operands in the order in which they are written; parentheses leave no trace.
-/

namespace PocketCalc

/-- The operators of a chain. -/
inductive ChainOperator where
  | add
  | subtract
  | multiply
  | divide
  deriving DecidableEq, Repr

/-- The operation that a chain operator stands for. -/
def ChainOperator.operation : ChainOperator → BinaryOperation
  | add => .add
  | subtract => .subtract
  | multiply => .multiply
  | divide => .divide

/-- The tree of an expression. -/
inductive Expr where
  | number (value : Float)
  | name (id : String)
  | negate (operand : Expr)
  /-- A plus sign in front; the operand still has to be a number. -/
  | plus (operand : Expr)
  /-- An operand and the operators that follow it, each with its right operand. -/
  | chain (first : Expr) (links : List (ChainOperator × Expr))
  | power (base exponent : Expr)
  | call (callee : Expr) (args : List Expr)

/-- A chain without links is its first operand. -/
def Expr.ofChain (first : Expr) (links : List (ChainOperator × Expr)) : Expr :=
  if links.isEmpty then first else .chain first links

end PocketCalc
