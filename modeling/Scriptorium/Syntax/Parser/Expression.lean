import Scriptorium.Syntax.Parser.State
import Scriptorium.Text.Quoted

/-!
# Reading expressions

Expressions are read by precedence.  From loosest to tightest the forms are
assignment, `or`, `and`, equality, comparison, sum, product, sign, call, and the
primary expressions.  An assignment groups to the right, all other operators to
the left.

Line breaks are skipped before an operand and before an operator, so an operator
may start a line; they are not skipped before the parenthesis of a call or the
sign of an assignment when no operator could stand there.

The functions that call each other take a number that bounds how deep they do, and
`Parser.expression` gives them one that is large enough: every level of nesting
takes a token.
-/

namespace Scriptorium

/-! ## Operators between operands -/

/-- An operator that stands between its operands. -/
inductive Connective where
  /-- An operator that computes both operands. -/
  | binary (op : BinaryOp)
  /-- An operator that may leave out the right operand. -/
  | logical (op : LogicalOp)
  deriving DecidableEq, Repr

namespace Connective

/-- The precedence of an operator: the higher, the tighter it binds. -/
def level : Connective → Nat
  | .logical .or => 0
  | .logical .and => 1
  | .binary .eq | .binary .notEq => 2
  | .binary .greater | .binary .greaterEq | .binary .less | .binary .lessEq => 3
  | .binary .add | .binary .sub => 4
  | .binary .mul | .binary .div => 5

/-- The operator that a token stands for, if any.  The logical operators are words
of the keyword table or punctuation, the others are punctuation. -/
def ofToken? (token : Token) : Option Connective :=
  if token.is "or" then some (.logical .or)
  else if token.is "and" then some (.logical .and)
  else if token.kind = .punct then (BinaryOp.ofSymbol? token.lexeme).map .binary
  else none

/-- The node of an operator and its operands. -/
def node (left right : ExprId) : Connective → ExprKind
  | .binary op => .binary op left right
  | .logical op => .logical op left right

end Connective

/-- The sign that a token stands for, if any. -/
def UnaryOp.ofToken? (token : Token) : Option UnaryOp :=
  if token.kind = .punct then UnaryOp.ofSymbol? token.lexeme else none

namespace Parser

/-! ## Primary expressions and calls -/

/-- Stores the literal that the next token is, and takes the token. -/
def literal (value : Literal NameId) : Parser StoredExpr := do
  let token ← advance
  addExpr (.literal value) token.span

/-- Reads a literal, a variable or an expression in parentheses. -/
def primary (expression : Parser StoredExpr) : Parser StoredExpr := do
  skipNewlines
  let token ← current
  match token.kind with
  | .int value => literal (.int value)
  | .string => literal (.str (← intern (cook token.lexeme)))
  | .symbol =>
      let _ ← advance
      addExpr (.reference (← intern token.lexeme)) token.span
  | .keyword =>
      if token.lexeme = "true" then literal (.bool true)
      else if token.lexeme = "false" then literal (.bool false)
      else expectedExpression
  | .punct =>
      if token.lexeme = "(" then
        let _ ← advance
        let inner ← expression
        skipNewlines
        let _ ← expect ")"
        addExpr (.group inner.id) (← spanFrom token.span)
      else expectedExpression
  | _ => expectedExpression

/-- Reads the argument lists that follow `callee`; `fuel` bounds their number. -/
def callsFrom (expression : Parser StoredExpr) :
    (fuel : Nat) → (callee : StoredExpr) → Parser StoredExpr
  | 0, callee => return callee
  | fuel + 1, callee => do
      if ← check "(" then
        let _ ← advance
        let args ← items .tooManyArguments expression
        let slice ← addExprs (args.map StoredExpr.id)
        let called ← addExpr (.call callee.id slice) (← spanFrom callee.span)
        callsFrom expression fuel called
      else return callee

/-- Reads a primary expression and the argument lists that follow it. -/
def calls (expression : Parser StoredExpr) : Parser StoredExpr := do
  let callee ← primary expression
  callsFrom expression (← size) callee

/-! ## Operators -/

/-- Reads the assignment of an expression to `target` if the sign of one comes
next.  The target is judged after the value is read. -/
def assignment (expression : Parser StoredExpr) (target : StoredExpr) : Parser StoredExpr := do
  if ← check "=" then
    let sign ← advance
    let value ← expression
    match target.node.kind with
    | .reference name =>
        addExpr (.assign name target.span value.id) (target.span.merge value.span)
    | _ => fail .invalidAssignmentTarget sign
  else return target

mutual

/-- Reads an expression. -/
def expressionAt : (depth : Nat) → Parser StoredExpr
  | 0 => expectedExpression
  | depth + 1 => do
      let target ← operationAt depth 0
      assignment (expressionAt depth) target

/-- Reads an expression whose outermost operators bind at `level` or tighter. -/
def operationAt : (depth level : Nat) → Parser StoredExpr
  | 0, _ => expectedExpression
  | depth + 1, level => do
      let left ← signedAt depth
      operationsAt depth level left

/-- Reads the operators at `level` or tighter that follow the operand `left`,
together with their right operands. -/
def operationsAt : (depth level : Nat) → (left : StoredExpr) → Parser StoredExpr
  | 0, _, left => return left
  | depth + 1, level, left => do
      skipNewlines
      match Connective.ofToken? (← current) with
      | none => return left
      | some op =>
          if level ≤ op.level then
            let _ ← advance
            let right ← operationAt depth (op.level + 1)
            let both ← addExpr (op.node left.id right.id) (left.span.merge right.span)
            operationsAt depth level both
          else return left

/-- Reads an expression that may have signs in front. -/
def signedAt : (depth : Nat) → Parser StoredExpr
  | 0 => expectedExpression
  | depth + 1 => do
      skipNewlines
      match UnaryOp.ofToken? (← current) with
      | none => calls (expressionAt depth)
      | some op =>
          let sign ← advance
          let operand ← signedAt depth
          addExpr (.unary op operand.id) (sign.span.merge operand.span)

end

/-- Reads an expression.  At most three of the functions above call each other before
a token is taken. -/
def expression : Parser StoredExpr := do expressionAt (3 * (← size))

end Parser

end Scriptorium
