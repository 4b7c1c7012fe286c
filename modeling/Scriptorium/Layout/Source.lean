import Scriptorium.Layout.Piece
import Scriptorium.Syntax.Tree
import Scriptorium.Text.Quoted

/-!
# Canonical source text

`format` writes a program in its canonical form: a statement a line, blocks indented
by four blanks, one blank between words where one is wanted, and an empty line
around every function of the top level.  Parentheses are kept as they were written.

The functions below put the pieces of a tree in front of the pieces in `rest`, the
layout of what follows it.
-/

namespace Scriptorium

variable {α : Type}

/-- How a literal is written. -/
def Literal.source : Literal String → String
  | .int value => toString value
  | .str text => quote text
  | .bool true => "true"
  | .bool false => "false"

/-! ## Expressions -/

mutual

/-- The pieces of an expression. -/
def Expr.pieces : Expr α → (rest : List Piece) → List Piece
  | .literal value _, rest => .text value.source :: rest
  | .unary op operand _, rest => .text op.symbol :: operand.pieces rest
  | .binary op left right _, rest =>
      left.pieces (.space :: .text op.symbol :: .space :: right.pieces rest)
  | .logical op left right _, rest =>
      left.pieces (.space :: .text op.symbol :: .space :: right.pieces rest)
  | .group inner _, rest => .text "(" :: inner.pieces (.text ")" :: rest)
  | .reference name _, rest => .text name :: rest
  | .assign name _ value _, rest =>
      .text name :: .space :: .text "=" :: .space :: value.pieces rest
  | .call callee args _, rest =>
      callee.pieces (.text "(" :: Expr.argumentPieces args (.text ")" :: rest))

/-- The pieces of arguments, with a comma and a blank between two of them. -/
def Expr.argumentPieces : List (Expr α) → (rest : List Piece) → List Piece
  | [], rest => rest
  | [arg], rest => arg.pieces rest
  | arg :: args, rest => arg.pieces (.text "," :: .space :: Expr.argumentPieces args rest)

end

/-- The pieces of parameters, with a comma and a blank between two of them. -/
def parameterPieces : List String → (rest : List Piece) → List Piece
  | [], rest => rest
  | [name], rest => .text name :: rest
  | name :: names, rest => .text name :: .text "," :: .space :: parameterPieces names rest

/-! ## Statements -/

/-- The blanks before a line at a level of nesting. -/
def sourceIndent (level : Nat) : Piece := .indent level 4

mutual

/-- The pieces of a statement whose line is at `level`, without its line break. -/
def Stmt.pieces : Stmt α → (level : Nat) → (rest : List Piece) → List Piece
  | .expression expr _, _, rest => expr.pieces (.text ";" :: rest)
  | .declare name none _, _, rest => .text "var" :: .space :: .text name :: .text ";" :: rest
  | .declare name (some init) _, _, rest =>
      .text "var" :: .space :: .text name :: .space :: .text "=" :: .space ::
        init.pieces (.text ";" :: rest)
  | .block body _, level, rest => Stmt.blockPieces body level rest
  | .branch cond thenBranch none _, level, rest =>
      .text "if" :: .space :: .text "(" ::
        cond.pieces (.text ")" :: .space :: thenBranch.pieces level rest)
  | .branch cond thenBranch (some elseBranch) _, level, rest =>
      .text "if" :: .space :: .text "(" ::
        cond.pieces (.text ")" :: .space ::
          thenBranch.pieces level
            (.space :: .text "else" :: .space :: elseBranch.pieces level rest))
  | .loop cond body _, level, rest =>
      .text "while" :: .space :: .text "(" ::
        cond.pieces (.text ")" :: .space :: body.pieces level rest)
  | .function name params body _, level, rest =>
      .text "fun" :: .space :: .text name :: .text "(" ::
        parameterPieces params (.text ")" :: .space :: Stmt.blockPieces body level rest)
  | .ret none _, _, rest => .text "return" :: .text ";" :: rest
  | .ret (some value) _, _, rest =>
      .text "return" :: .space :: value.pieces (.text ";" :: rest)

/-- The pieces of a block whose first line is at `level`. -/
def Stmt.blockPieces : List (Stmt α) → (level : Nat) → (rest : List Piece) → List Piece
  | [], _, rest => .text "\x7b" :: .text "\x7d" :: rest
  | stmt :: stmts, level, rest =>
      .text "\x7b" :: .newline :: sourceIndent (level + 1) ::
        stmt.pieces (level + 1) (.newline ::
          Stmt.linePieces stmts (level + 1) (sourceIndent level :: .text "\x7d" :: rest))

/-- The pieces of statements at `level`, each on lines of its own. -/
def Stmt.linePieces : List (Stmt α) → (level : Nat) → (rest : List Piece) → List Piece
  | [], _, rest => rest
  | stmt :: stmts, level, rest =>
      sourceIndent level :: stmt.pieces level (.newline :: Stmt.linePieces stmts level rest)

end

/-! ## Programs -/

/-- The pieces of a program.  An empty line stands between two neighbours of which
one is a function. -/
def programPieces : List (Stmt α) → List Piece
  | [] => []
  | [stmt] => stmt.pieces 0 [.newline]
  | stmt :: next :: stmts =>
      stmt.pieces 0 (.newline ::
        if stmt.isFunction || next.isFunction then .newline :: programPieces (next :: stmts)
        else programPieces (next :: stmts))

/-- The canonical text of an expression. -/
def Expr.format (e : Expr α) : String := render (e.pieces [])

/-- The canonical text of a program. -/
def format (program : List (Stmt α)) : String := render (programPieces program)

end Scriptorium
