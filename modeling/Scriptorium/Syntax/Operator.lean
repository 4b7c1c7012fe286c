/-!
# Operators

The operators of expressions and how they are written.
-/

namespace Scriptorium

/-- The operators on two integers, of which both are always computed. -/
inductive BinaryOp where
  /-- The sum. -/
  | add
  /-- The difference. -/
  | sub
  /-- The product. -/
  | mul
  /-- The quotient, rounded towards zero. -/
  | div
  /-- Are the operands equal? -/
  | eq
  /-- Do the operands differ? -/
  | notEq
  /-- Is the left operand smaller? -/
  | less
  /-- Is the left operand not larger? -/
  | lessEq
  /-- Is the left operand larger? -/
  | greater
  /-- Is the left operand not smaller? -/
  | greaterEq
  deriving DecidableEq, Repr

/-- The operators on one integer. -/
inductive UnaryOp where
  /-- The negation of a number. -/
  | neg
  /-- The negation of a truth value. -/
  | not
  deriving DecidableEq, Repr

/-- The operators that compute their right operand only when it matters. -/
inductive LogicalOp where
  /-- Do both operands hold? -/
  | and
  /-- Does one of the operands hold? -/
  | or
  deriving DecidableEq, Repr

/-- How an operator is written. -/
def BinaryOp.symbol : BinaryOp → String
  | .add => "+"
  | .sub => "-"
  | .mul => "*"
  | .div => "/"
  | .eq => "=="
  | .notEq => "!="
  | .less => "<"
  | .lessEq => "<="
  | .greater => ">"
  | .greaterEq => ">="

/-- The operators on two integers. -/
def BinaryOp.all : List BinaryOp :=
  [.add, .sub, .mul, .div, .eq, .notEq, .less, .lessEq, .greater, .greaterEq]

/-- The operator that is written as `symbol`, if there is one. -/
def BinaryOp.ofSymbol? (symbol : String) : Option BinaryOp :=
  BinaryOp.all.find? fun op => op.symbol == symbol

/-- How an operator is written. -/
def UnaryOp.symbol : UnaryOp → String
  | .neg => "-"
  | .not => "!"

/-- The operator that is written as `symbol`, if there is one. -/
def UnaryOp.ofSymbol? (symbol : String) : Option UnaryOp :=
  [UnaryOp.neg, .not].find? fun op => op.symbol == symbol

/-- How an operator is written. -/
def LogicalOp.symbol : LogicalOp → String
  | .and => "and"
  | .or => "or"

/-- The operator that is written as `symbol`, if there is one. -/
def LogicalOp.ofSymbol? (symbol : String) : Option LogicalOp :=
  [LogicalOp.and, .or].find? fun op => op.symbol == symbol

end Scriptorium
