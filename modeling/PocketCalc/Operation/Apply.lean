import PocketCalc.Operand

/-!
# Applying operations

An operation takes operands, checks that they are numbers, then that they lie in its domain, and
computes. `isDefined` is the domain on its own.
-/

namespace PocketCalc

/-- Where the cosine is at most this large the tangent counts as undefined, unless a setting
gives another bound. -/
def defaultTangentTolerance : Float := 1e-9

namespace UnaryOperation

/-- Whether the operation has a value. -/
def isDefined (op : UnaryOperation) (tolerance x : Float) : Bool :=
  match op with
  | squareRoot => 0 ≤ x
  | naturalLog | commonLog => 0 < x
  | tangent => tolerance < x.cos.abs
  | sine | cosine => true

/-- The value, where the operation is defined. -/
def compute (op : UnaryOperation) (x : Float) : Float :=
  match op with
  | squareRoot => x.sqrt
  | naturalLog => x.log
  | commonLog => x.log10
  | sine => x.sin
  | cosine => x.cos
  | tangent => x.tan

/-- The error outside the domain. -/
def domainFault : UnaryOperation → DomainFault
  | squareRoot => .negativeRoot
  | naturalLog | commonLog => .nonPositiveLog
  | sine | cosine | tangent => .tangentPole

/-- The value or the domain error. -/
def apply (op : UnaryOperation) (tolerance x : Float) : Except Error Float :=
  if op.isDefined tolerance x then .ok (op.compute x) else .error (.domain op.domainFault)

end UnaryOperation

namespace BinaryOperation

/-- Whether the operation has a value. Only a zero divisor is excluded; a power that is no real
number is not a number, which is a value. -/
def isDefined (op : BinaryOperation) (_x y : Float) : Bool :=
  match op with
  | divide => y != 0
  | add | subtract | multiply | power => true

/-- The value, where the operation is defined. -/
def compute (op : BinaryOperation) (x y : Float) : Float :=
  match op with
  | add => x + y
  | subtract => x - y
  | multiply => x * y
  | divide => x / y
  | power => x.pow y

/-- The value or the error of a zero divisor. -/
def apply (op : BinaryOperation) (x y : Float) : Except Error Float :=
  if op.isDefined x y then .ok (op.compute x y) else .error .divisionByZero

end BinaryOperation

namespace Operation

/-- Whether the operation has a value for a list of numbers; it has none for a list of another
length than its arity. -/
def isDefined (op : Operation) (tolerance : Float) (args : List Float) : Bool :=
  match op, args with
  | .unary op, [x] => op.isDefined tolerance x
  | .binary op, [x, y] => op.isDefined x y
  | _, _ => false

/-- Applies the operation to operands. A wrong count is found first, then the first operand that
is no number, then an argument outside the domain. -/
def apply (op : Operation) (tolerance : Float) (args : List Operand) : Except Error Float :=
  match op, args with
  | .unary op, [a] => do
    let x ← a.value
    op.apply tolerance x
  | .binary op, [a, b] => do
    let x ← a.value
    let y ← b.value
    op.apply x y
  | op, args => .error (.invalidOperand (.argumentCount op args.length))

end Operation

end PocketCalc
