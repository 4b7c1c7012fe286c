import Scriptorium.Layout.Source

/-!
# Outlines of syntax trees

`outline` shows the shape of a program, a node a line, with the parts of a node
indented under it by two blanks a level.

The functions below put the lines of a tree in front of the pieces in `rest`.
-/

namespace Scriptorium

variable {α : Type}

/-- A line at a depth. -/
def outlineLine (depth : Nat) (text : String) (rest : List Piece) : List Piece :=
  .indent depth 2 :: .text text :: .newline :: rest

mutual

/-- The lines of an expression. -/
def Expr.outlinePieces : Expr α → (depth : Nat) → (rest : List Piece) → List Piece
  | .literal value _, depth, rest => outlineLine depth ("Literal: " ++ value.source) rest
  | .unary op operand _, depth, rest =>
      outlineLine depth ("Unary Expression: " ++ op.symbol) (operand.outlinePieces (depth + 1) rest)
  | .binary op left right _, depth, rest =>
      outlineLine depth ("Binary Expression: " ++ op.symbol)
        (left.outlinePieces (depth + 1) (right.outlinePieces (depth + 1) rest))
  | .logical op left right _, depth, rest =>
      outlineLine depth ("Logical Expression: " ++ op.symbol)
        (left.outlinePieces (depth + 1) (right.outlinePieces (depth + 1) rest))
  | .group inner _, depth, rest =>
      outlineLine depth "Grouping Expression:" (inner.outlinePieces (depth + 1) rest)
  | .reference name _, depth, rest => outlineLine depth ("Variable: " ++ name) rest
  | .assign name _ value _, depth, rest =>
      outlineLine depth ("Assignment: " ++ name) (value.outlinePieces (depth + 1) rest)
  | .call callee args _, depth, rest =>
      outlineLine depth s!"Call Expression: {args.length} arguments"
        (callee.outlinePieces (depth + 1) (Expr.outlineAll args (depth + 1) rest))

/-- The lines of expressions at the same depth. -/
def Expr.outlineAll : List (Expr α) → (depth : Nat) → (rest : List Piece) → List Piece
  | [], _, rest => rest
  | e :: es, depth, rest => e.outlinePieces depth (Expr.outlineAll es depth rest)

end

/-- The line that lists the parameters of a function. -/
def parameterLine (params : List String) : String :=
  if params.isEmpty then "Parameters: (none)" else "Parameters: " ++ ", ".intercalate params

mutual

/-- The lines of a statement. -/
def Stmt.outlinePieces : Stmt α → (depth : Nat) → (rest : List Piece) → List Piece
  | .expression expr _, depth, rest =>
      outlineLine depth "Expression Statement:" (expr.outlinePieces (depth + 1) rest)
  | .declare name none _, depth, rest => outlineLine depth ("Variable Declaration: " ++ name) rest
  | .declare name (some init) _, depth, rest =>
      outlineLine depth ("Variable Declaration: " ++ name)
        (outlineLine (depth + 1) "Initializer:" (init.outlinePieces (depth + 2) rest))
  | .block body _, depth, rest =>
      outlineLine depth "Block Statement:" (Stmt.outlineAll body (depth + 1) rest)
  | .branch cond thenBranch none _, depth, rest =>
      outlineLine depth "If Statement:"
        (outlineLine (depth + 1) "Condition:" (cond.outlinePieces (depth + 2)
          (outlineLine (depth + 1) "Then Branch:" (thenBranch.outlinePieces (depth + 2) rest))))
  | .branch cond thenBranch (some elseBranch) _, depth, rest =>
      outlineLine depth "If Statement:"
        (outlineLine (depth + 1) "Condition:" (cond.outlinePieces (depth + 2)
          (outlineLine (depth + 1) "Then Branch:" (thenBranch.outlinePieces (depth + 2)
            (outlineLine (depth + 1) "Else Branch:"
              (elseBranch.outlinePieces (depth + 2) rest))))))
  | .loop cond body _, depth, rest =>
      outlineLine depth "While Statement:"
        (outlineLine (depth + 1) "Condition:" (cond.outlinePieces (depth + 2)
          (outlineLine (depth + 1) "Body:" (body.outlinePieces (depth + 2) rest))))
  | .function name params body _, depth, rest =>
      outlineLine depth ("Function Declaration: " ++ name)
        (outlineLine (depth + 1) (parameterLine params)
          (outlineLine (depth + 1) "Body:" (Stmt.outlineAll body (depth + 2) rest)))
  | .ret none _, depth, rest => outlineLine depth "Return Statement:" rest
  | .ret (some value) _, depth, rest =>
      outlineLine depth "Return Statement:" (value.outlinePieces (depth + 1) rest)

/-- The lines of statements at the same depth. -/
def Stmt.outlineAll : List (Stmt α) → (depth : Nat) → (rest : List Piece) → List Piece
  | [], _, rest => rest
  | s :: ss, depth, rest => s.outlinePieces depth (Stmt.outlineAll ss depth rest)

end

/-- The outline of an expression at a depth. -/
def Expr.outline (e : Expr α) (depth : Nat) : String := render (e.outlinePieces depth [])

/-- The outline of a program. -/
def outline (program : List (Stmt α)) : String := render (Stmt.outlineAll program 0 [])

end Scriptorium
