/-!
# Operations and their names

Eleven operations, each with a fixed count of arguments. Those on one number go by function names
in expressions; those on two go by marks and words in the line commands.
-/

namespace PocketCalc

/-- The operations on one number. -/
inductive UnaryOperation where
  | squareRoot
  | naturalLog
  | commonLog
  | sine
  | cosine
  | tangent
  deriving DecidableEq, Repr

/-- The operations on two numbers. -/
inductive BinaryOperation where
  | add
  | subtract
  | multiply
  | divide
  | power
  deriving DecidableEq, Repr

/-- An operation of either arity. -/
inductive Operation where
  | binary (op : BinaryOperation)
  | unary (op : UnaryOperation)
  deriving DecidableEq, Repr

namespace UnaryOperation

/-- The name that messages use. -/
def name : UnaryOperation → String
  | squareRoot => "sqrt"
  | naturalLog => "log"
  | commonLog => "log10"
  | sine => "sin"
  | cosine => "cos"
  | tangent => "tan"

/-- Further names of the function. -/
def aliases : UnaryOperation → List String
  | naturalLog => ["ln"]
  | _ => []

/-- All names under which the function can be called. -/
def names (op : UnaryOperation) : List String := op.name :: op.aliases

/-- Every operation on one number. -/
def all : List UnaryOperation := [squareRoot, naturalLog, commonLog, sine, cosine, tangent]

/-- The operation that goes by a function name. -/
def ofName? (name : String) : Option UnaryOperation := all.find? (·.names.contains name)

end UnaryOperation

namespace BinaryOperation

/-- The name that messages use; it is accepted as an operator, too. -/
def name : BinaryOperation → String
  | add => "add"
  | subtract => "subtract"
  | multiply => "multiply"
  | divide => "divide"
  | power => "power"

/-- The shorter spellings of the operator. -/
def marks : BinaryOperation → List String
  | add => ["+"]
  | subtract => ["-", "−"]
  | multiply => ["*", "×"]
  | divide => ["/", "÷"]
  | power => ["^", "**", "pow"]

/-- All spellings of the operator. -/
def symbols (op : BinaryOperation) : List String := op.marks ++ [op.name]

/-- Every operation on two numbers. -/
def all : List BinaryOperation := [add, subtract, multiply, divide, power]

/-- The operation that goes by an operator spelling. -/
def ofSymbol? (symbol : String) : Option BinaryOperation := all.find? (·.symbols.contains symbol)

end BinaryOperation

namespace Operation

/-- Every operation. -/
def all : List Operation :=
  BinaryOperation.all.map .binary ++ UnaryOperation.all.map .unary

/-- The count of arguments. -/
def arity : Operation → Nat
  | .unary _ => 1
  | .binary _ => 2

/-- The name that messages use. -/
def name : Operation → String
  | .unary op => op.name
  | .binary op => op.name

/-- Function names, which only the operations on one number have. -/
def names : Operation → List String
  | .unary op => op.names
  | .binary _ => []

/-- Operator spellings, which only the operations on two numbers have. -/
def symbols : Operation → List String
  | .unary _ => []
  | .binary op => op.symbols

/-- The operation with a function name. -/
def ofName? (name : String) : Option Operation := (UnaryOperation.ofName? name).map .unary

/-- The operation with an operator spelling. -/
def ofSymbol? (symbol : String) : Option Operation :=
  (BinaryOperation.ofSymbol? symbol).map .binary

end Operation

/-- Each function name leads back to its operation: no two operations share one. -/
theorem UnaryOperation.ofName?_of_mem {op : UnaryOperation} {name : String}
    (h : name ∈ op.names) : ofName? name = some op := by
  have all_names : ∀ name ∈ op.names, ofName? name = some op := by cases op <;> decide
  exact all_names name h

/-- Each operator spelling leads back to its operation: no two operations share one. -/
theorem BinaryOperation.ofSymbol?_of_mem {op : BinaryOperation} {symbol : String}
    (h : symbol ∈ op.symbols) : ofSymbol? symbol = some op := by
  have all_symbols : ∀ symbol ∈ op.symbols, ofSymbol? symbol = some op := by cases op <;> decide
  exact all_symbols symbol h

end PocketCalc
