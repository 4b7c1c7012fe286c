import Scriptorium.Syntax.Names
import Scriptorium.Syntax.Operator
import Scriptorium.Text.Span

/-!
# Arenas

The parser stores the nodes of a syntax tree in an `Arena`: one table of
expressions and one of statements, in which a node refers to its children by
number.  A list of children is a `Slice` of a further table.  Nodes are only ever
added, so a number stays good, and the tables show what was read and in which
order, also where a statement was left unfinished.

* `ExprNode`, `StmtNode` — the nodes;
* `Arena.addExpr`, `Arena.addStmt` — store a node;
* `Arena.addExprs`, `Arena.addStmts`, `Arena.addParams` — store a list;
* `Arena.expr?`, `Arena.stmt?`, `Arena.exprsIn?`, `Arena.stmtsIn?`,
  `Arena.paramsIn?` — read them back, with no answer for what is not stored.

Nothing forces the nodes to form trees: two nodes may share a child, and a node may
even lead back to itself.  A `Code` is an arena together with the texts that its
nodes refer to.
-/

namespace Scriptorium

/-! ## Numbers of nodes -/

/-- The number of an expression. -/
structure ExprId where
  /-- The position in the table of expressions. -/
  index : Nat
  deriving DecidableEq, Repr, Inhabited

/-- The number of a statement. -/
structure StmtId where
  /-- The position in the table of statements. -/
  index : Nat
  deriving DecidableEq, Repr, Inhabited

/-- The text that shows a number. -/
def ExprId.describe (id : ExprId) : String := s!"ExprId({id.index})"

/-- The text that shows a number. -/
def StmtId.describe (id : StmtId) : String := s!"StmtId({id.index})"

/-- The text that shows a number. -/
def NameId.describe (id : NameId) : String := s!"Name({id.index})"

/-- The text that shows a list of which the items are shown. -/
def describeList (items : List String) : String := "[" ++ ", ".intercalate items ++ "]"

/-- A stretch of a table whose entries are of type `α`. -/
structure Slice (α : Type) where
  /-- The position of the first entry. -/
  start : Nat
  /-- The number of entries. -/
  length : Nat
  deriving DecidableEq, Repr, Inhabited

namespace Slice

variable {α : Type}

/-- The position after the last entry. -/
def stop (s : Slice α) : Nat := s.start + s.length

/-- Does the slice hold no entry? -/
def isEmpty (s : Slice α) : Bool := s.length == 0

/-- The text that shows a slice of a table called `table`. -/
def describe (s : Slice α) (table : String) : String := s!"{table}({s.start}..{s.stop})"

/-- The entries of a slice of a table, if the table is long enough. -/
def of? (s : Slice α) (table : Array α) : Option (List α) :=
  if s.stop ≤ table.size then some (table.extract s.start s.stop).toList else none

end Slice

/-! ## Nodes -/

/-- A literal; its text is of type `τ`. -/
inductive Literal (τ : Type) where
  /-- A number. -/
  | int (value : Nat)
  /-- A text. -/
  | str (text : τ)
  /-- A truth value. -/
  | bool (value : Bool)
  deriving DecidableEq, Repr

/-- What an expression node is. -/
inductive ExprKind where
  /-- A literal. -/
  | literal (value : Literal NameId)
  /-- An operator on one operand. -/
  | unary (op : UnaryOp) (operand : ExprId)
  /-- An operator on two operands. -/
  | binary (op : BinaryOp) (left right : ExprId)
  /-- A logical operator. -/
  | logical (op : LogicalOp) (left right : ExprId)
  /-- An expression in parentheses. -/
  | group (inner : ExprId)
  /-- The value of a variable. -/
  | reference (name : NameId)
  /-- An assignment to the variable whose name stands at `nameSpan`. -/
  | assign (name : NameId) (nameSpan : Span) (value : ExprId)
  /-- A call. -/
  | call (callee : ExprId) (args : Slice ExprId)
  deriving DecidableEq, Repr

/-- An expression node and the text that it was read from. -/
structure ExprNode where
  /-- What the node is. -/
  kind : ExprKind
  /-- Where it was read. -/
  span : Span
  deriving DecidableEq, Repr

/-- What a statement node is. -/
inductive StmtKind where
  /-- An expression whose value is dropped. -/
  | expression (expr : ExprId)
  /-- The declaration of a variable. -/
  | declare (name : NameId) (init : Option ExprId)
  /-- A block. -/
  | block (body : Slice StmtId)
  /-- A conditional. -/
  | branch (cond : ExprId) (thenBranch : StmtId) (elseBranch : Option StmtId)
  /-- A loop. -/
  | loop (cond : ExprId) (body : StmtId)
  /-- The declaration of a function. -/
  | function (name : NameId) (params : Slice NameId) (body : Slice StmtId)
  /-- The end of a function call. -/
  | ret (value : Option ExprId)
  deriving DecidableEq, Repr

/-- A statement node and the text that it was read from. -/
structure StmtNode where
  /-- What the node is. -/
  kind : StmtKind
  /-- Where it was read. -/
  span : Span
  deriving DecidableEq, Repr

/-! ## The tables -/

/-- The nodes of a syntax tree. -/
structure Arena where
  /-- The expressions. -/
  exprs : Array ExprNode
  /-- The entries of the lists of arguments. -/
  exprLists : Array ExprId
  /-- The statements. -/
  stmts : Array StmtNode
  /-- The entries of the lists of statements. -/
  stmtLists : Array StmtId
  /-- The entries of the lists of parameters. -/
  params : Array NameId
  deriving DecidableEq, Repr

namespace Arena

/-- The arena without nodes. -/
def empty : Arena := ⟨#[], #[], #[], #[], #[]⟩

/-- Stores an expression. -/
def addExpr (a : Arena) (node : ExprNode) : ExprId × Arena :=
  (⟨a.exprs.size⟩, { a with exprs := a.exprs.push node })

/-- Stores a statement. -/
def addStmt (a : Arena) (node : StmtNode) : StmtId × Arena :=
  (⟨a.stmts.size⟩, { a with stmts := a.stmts.push node })

/-- Stores a list of expressions. -/
def addExprs (a : Arena) (ids : List ExprId) : Slice ExprId × Arena :=
  (⟨a.exprLists.size, ids.length⟩, { a with exprLists := a.exprLists.appendList ids })

/-- Stores a list of statements. -/
def addStmts (a : Arena) (ids : List StmtId) : Slice StmtId × Arena :=
  (⟨a.stmtLists.size, ids.length⟩, { a with stmtLists := a.stmtLists.appendList ids })

/-- Stores a list of parameters. -/
def addParams (a : Arena) (names : List NameId) : Slice NameId × Arena :=
  (⟨a.params.size, names.length⟩, { a with params := a.params.appendList names })

/-- The expression with a number. -/
def expr? (a : Arena) (id : ExprId) : Option ExprNode := a.exprs[id.index]?

/-- The statement with a number. -/
def stmt? (a : Arena) (id : StmtId) : Option StmtNode := a.stmts[id.index]?

/-- The expressions of a list. -/
def exprsIn? (a : Arena) (s : Slice ExprId) : Option (List ExprId) := s.of? a.exprLists

/-- The statements of a list. -/
def stmtsIn? (a : Arena) (s : Slice StmtId) : Option (List StmtId) := s.of? a.stmtLists

/-- The parameters of a list. -/
def paramsIn? (a : Arena) (s : Slice NameId) : Option (List NameId) := s.of? a.params

end Arena

/-! ## Code -/

/-- The nodes of a program and the texts that they refer to. -/
structure Code where
  /-- The nodes. -/
  arena : Arena
  /-- The names and texts of the nodes. -/
  names : NameTable
  deriving DecidableEq, Repr

/-- The code without nodes. -/
def Code.empty : Code := ⟨.empty, .empty⟩

end Scriptorium
