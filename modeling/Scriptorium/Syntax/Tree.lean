import Scriptorium.Syntax.Arena

/-!
# Syntax trees

`Expr` and `Stmt` are the trees of the language.  Every node carries a note of
type `α`: the trees of a source text note the `Origin` of each node, and
`Expr.erase` and `Stmt.erase` drop the notes, so that two trees are the same up to
where they were read when their erasures are equal.

`Code.exprOf?` and `Code.stmtOf?` read trees off an arena.  They have no answer when
a number leads out of a table or around in a circle.
-/

namespace Scriptorium

/-! ## Trees -/

/-- An expression. -/
inductive Expr (α : Type) where
  /-- A literal. -/
  | literal (value : Literal String) (note : α)
  /-- An operator on one operand. -/
  | unary (op : UnaryOp) (operand : Expr α) (note : α)
  /-- An operator on two operands. -/
  | binary (op : BinaryOp) (left right : Expr α) (note : α)
  /-- A logical operator. -/
  | logical (op : LogicalOp) (left right : Expr α) (note : α)
  /-- An expression in parentheses. -/
  | group (inner : Expr α) (note : α)
  /-- The value of a variable. -/
  | reference (name : String) (note : α)
  /-- An assignment; `target` is the note of the name assigned to. -/
  | assign (name : String) (target : α) (value : Expr α) (note : α)
  /-- A call. -/
  | call (callee : Expr α) (args : List (Expr α)) (note : α)
  deriving Repr

/-- A statement. -/
inductive Stmt (α : Type) where
  /-- An expression whose value is dropped. -/
  | expression (expr : Expr α) (note : α)
  /-- The declaration of a variable. -/
  | declare (name : String) (init : Option (Expr α)) (note : α)
  /-- A block. -/
  | block (body : List (Stmt α)) (note : α)
  /-- A conditional. -/
  | branch (cond : Expr α) (thenBranch : Stmt α) (elseBranch : Option (Stmt α)) (note : α)
  /-- A loop. -/
  | loop (cond : Expr α) (body : Stmt α) (note : α)
  /-- The declaration of a function. -/
  | function (name : String) (params : List String) (body : List (Stmt α)) (note : α)
  /-- The end of a function call. -/
  | ret (value : Option (Expr α)) (note : α)
  deriving Repr

variable {α β : Type}

/-- The note of an expression. -/
def Expr.note : Expr α → α
  | .literal _ note | .unary _ _ note | .binary _ _ _ note | .logical _ _ _ note
  | .group _ note | .reference _ note | .assign _ _ _ note | .call _ _ note => note

/-- The note of a statement. -/
def Stmt.note : Stmt α → α
  | .expression _ note | .declare _ _ note | .block _ note | .branch _ _ _ note
  | .loop _ _ note | .function _ _ _ note | .ret _ note => note

/-- Is the statement the declaration of a function? -/
def Stmt.isFunction : Stmt α → Bool
  | .function .. => true
  | _ => false

/-! ## Changing the notes -/

mutual

/-- The expression with every note changed by `f`. -/
def Expr.map (f : α → β) : Expr α → Expr β
  | .literal value note => .literal value (f note)
  | .unary op operand note => .unary op (operand.map f) (f note)
  | .binary op left right note => .binary op (left.map f) (right.map f) (f note)
  | .logical op left right note => .logical op (left.map f) (right.map f) (f note)
  | .group inner note => .group (inner.map f) (f note)
  | .reference name note => .reference name (f note)
  | .assign name target value note => .assign name (f target) (value.map f) (f note)
  | .call callee args note => .call (callee.map f) (Expr.mapAll f args) (f note)

/-- The expressions with every note changed by `f`. -/
def Expr.mapAll (f : α → β) : List (Expr α) → List (Expr β)
  | [] => []
  | e :: es => e.map f :: Expr.mapAll f es

end

mutual

/-- The statement with every note changed by `f`. -/
def Stmt.map (f : α → β) : Stmt α → Stmt β
  | .expression expr note => .expression (expr.map f) (f note)
  | .declare name init note => .declare name (init.map (Expr.map f)) (f note)
  | .block body note => .block (Stmt.mapAll f body) (f note)
  | .branch cond thenBranch elseBranch note =>
      .branch (cond.map f) (thenBranch.map f) (Stmt.mapOption f elseBranch) (f note)
  | .loop cond body note => .loop (cond.map f) (body.map f) (f note)
  | .function name params body note => .function name params (Stmt.mapAll f body) (f note)
  | .ret value note => .ret (value.map (Expr.map f)) (f note)

/-- The statements with every note changed by `f`. -/
def Stmt.mapAll (f : α → β) : List (Stmt α) → List (Stmt β)
  | [] => []
  | s :: ss => s.map f :: Stmt.mapAll f ss

/-- The statement, if any, with every note changed by `f`. -/
def Stmt.mapOption (f : α → β) : Option (Stmt α) → Option (Stmt β)
  | none => none
  | some s => some (s.map f)

end

/-- The expression without its notes. -/
def Expr.erase (e : Expr α) : Expr Unit := e.map fun _ => ()

/-- The statement without its notes. -/
def Stmt.erase (s : Stmt α) : Stmt Unit := s.map fun _ => ()

/-! ## Reading trees off an arena -/

/-- Where a node of a tree comes from. -/
structure Origin where
  /-- The number of the node in its arena. -/
  id : Nat
  /-- The text that it was read from. -/
  span : Span
  deriving DecidableEq, Repr, Inhabited

namespace Code

/-- The tree of an expression that is at most `depth` nodes deep. -/
def exprTree? (c : Code) : (depth : Nat) → ExprId → Option (Expr Origin)
  | 0, _ => none
  | depth + 1, id => do
      let node ← c.arena.expr? id
      let note : Origin := ⟨id.index, node.span⟩
      match node.kind with
      | .literal (.int value) => return .literal (.int value) note
      | .literal (.str text) => return .literal (.str (← c.names.text? text)) note
      | .literal (.bool value) => return .literal (.bool value) note
      | .unary op operand => return .unary op (← c.exprTree? depth operand) note
      | .binary op left right =>
          return .binary op (← c.exprTree? depth left) (← c.exprTree? depth right) note
      | .logical op left right =>
          return .logical op (← c.exprTree? depth left) (← c.exprTree? depth right) note
      | .group inner => return .group (← c.exprTree? depth inner) note
      | .reference name => return .reference (← c.names.text? name) note
      | .assign name nameSpan value =>
          return .assign (← c.names.text? name) ⟨id.index, nameSpan⟩
            (← c.exprTree? depth value) note
      | .call callee args =>
          return .call (← c.exprTree? depth callee)
            (← (← c.arena.exprsIn? args).mapM (c.exprTree? depth)) note

/-- The tree of an expression. -/
def exprOf? (c : Code) (id : ExprId) : Option (Expr Origin) := c.exprTree? c.arena.exprs.size id

/-- The tree of an expression that may be absent; the outer answer is missing only
when the expression has no tree. -/
def exprOfOption? (c : Code) : Option ExprId → Option (Option (Expr Origin))
  | none => some none
  | some id => (c.exprOf? id).map some

/-- The tree of a statement that is at most `depth` statements deep. -/
def stmtTree? (c : Code) : (depth : Nat) → StmtId → Option (Stmt Origin)
  | 0, _ => none
  | depth + 1, id => do
      let node ← c.arena.stmt? id
      let note : Origin := ⟨id.index, node.span⟩
      match node.kind with
      | .expression expr => return .expression (← c.exprOf? expr) note
      | .declare name init =>
          return .declare (← c.names.text? name) (← c.exprOfOption? init) note
      | .block body => return .block (← (← c.arena.stmtsIn? body).mapM (c.stmtTree? depth)) note
      | .branch cond thenBranch elseBranch =>
          let cond ← c.exprOf? cond
          let thenTree ← c.stmtTree? depth thenBranch
          match elseBranch with
          | none => return .branch cond thenTree none note
          | some other => return .branch cond thenTree (← c.stmtTree? depth other) note
      | .loop cond body => return .loop (← c.exprOf? cond) (← c.stmtTree? depth body) note
      | .function name params body =>
          return .function (← c.names.text? name)
            (← (← c.arena.paramsIn? params).mapM c.names.text?)
            (← (← c.arena.stmtsIn? body).mapM (c.stmtTree? depth)) note
      | .ret value => return .ret (← c.exprOfOption? value) note

/-- The tree of a statement. -/
def stmtOf? (c : Code) (id : StmtId) : Option (Stmt Origin) := c.stmtTree? c.arena.stmts.size id

/-- The trees of the statements that have one. -/
def stmtsOf (c : Code) (ids : List StmtId) : List (Stmt Origin) := ids.filterMap c.stmtOf?

end Code

end Scriptorium
