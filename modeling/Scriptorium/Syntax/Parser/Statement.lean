import Scriptorium.Syntax.Parser.Expression

/-!
# Reading statements

A statement is told by its first token.  A variable declaration is not a
statement: it may stand at the top level, in a block and as the first clause of a
`for`, but not alone as a branch or as the body of a loop.

A `for` is stored as the `while` that it stands for, in a block with its first
clause if it has one:

    { first; while (condition) { body last; } }

A missing condition is `true`; other missing clauses are left out together with the
block that would hold them.
-/

namespace Scriptorium

namespace Parser

/-! ## Simple statements -/

/-- Reads an expression and the semicolon after it. -/
def expressionStatement : Parser StmtId := do
  let expr ← expression
  skipNewlines
  let _ ← expect ";"
  addStmtFrom (.expression expr.id) expr.span

/-- Reads the declaration of a variable, whose keyword comes next. -/
def variableDeclaration : Parser StmtId := do
  let keyword ← advance
  let name ← identifier
  let init ←
    if ← check "=" then
      let _ ← advance
      some <$> expression
    else pure none
  skipNewlines
  let _ ← expect ";"
  addStmtFrom (.declare name (init.map StoredExpr.id)) keyword.span

/-- Reads a `return`, which is allowed only inside a function. -/
def returnStatement (inFunction : Bool) : Parser StmtId := do
  let keyword ← current
  if !inFunction then fail .returnOutsideFunction keyword
  let _ ← advance
  skipNewlines
  let value ← if ← check ";" then pure none else some <$> expression
  skipNewlines
  let _ ← expect ";"
  addStmtFrom (.ret (value.map StoredExpr.id)) keyword.span

/-- Reads a declaration of a variable or, with `statement`, anything else. -/
def declaration (statement : Parser StmtId) : Parser StmtId := do
  skipNewlines
  if ← check "var" then variableDeclaration else statement

/-! ## Blocks -/

/-- Reads declarations up to and including the closing brace, after those in
`seen`, last one first; `opening` is the brace to be closed and `fuel` bounds the
number of declarations. -/
def declarationsFrom (opening : Token) (statement : Parser StmtId) :
    (fuel : Nat) → (seen : List StmtId) → Parser (List StmtId)
  | 0, _ => fail .unterminatedBlock opening
  | fuel + 1, seen => do
      skipNewlines
      let token ← current
      if token.is "\x7d" then
        let _ ← advance
        return seen.reverse
      else if token.isEnd then fail .unterminatedBlock opening
      else
        let stmt ← declaration statement
        declarationsFrom opening statement fuel (stmt :: seen)

/-- Reads the rest of a block, whose opening brace was taken. -/
def blockBody (opening : Token) (statement : Parser StmtId) : Parser (Slice StmtId) := do
  let stmts ← declarationsFrom opening statement (← size) []
  addStmts stmts

/-- Reads a block, whose opening brace comes next. -/
def blockStatement (statement : Parser StmtId) : Parser StmtId := do
  let opening ← advance
  let body ← blockBody opening statement
  addStmtFrom (.block body) opening.span

/-! ## Compound statements -/

/-- Reads a condition in parentheses. -/
def condition : Parser StoredExpr := do
  skipNewlines
  let _ ← expect "("
  let cond ← expression
  skipNewlines
  let _ ← expect ")"
  return cond

/-- Reads a conditional, whose keyword comes next. -/
def branchStatement (statement : Parser StmtId) : Parser StmtId := do
  let keyword ← advance
  let cond ← condition
  let thenBranch ← statement
  skipNewlines
  let elseBranch ←
    if ← check "else" then
      let _ ← advance
      some <$> statement
    else pure none
  addStmtFrom (.branch cond.id thenBranch elseBranch) keyword.span

/-- Reads a `while`, whose keyword comes next. -/
def loopStatement (statement : Parser StmtId) : Parser StmtId := do
  let keyword ← advance
  let cond ← condition
  let body ← statement
  addStmtFrom (.loop cond.id body) keyword.span

/-- Reads the first clause of a `for` and the semicolon after it. -/
def forFirst : Parser (Option StmtId) := do
  if ← check ";" then
    let _ ← advance
    return none
  else if ← check "var" then some <$> variableDeclaration
  else some <$> expressionStatement

/-- Reads a clause of a `for` and the mark that ends it. -/
def forClause (mark : String) : Parser (Option StoredExpr) := do
  skipNewlines
  let clause ← if ← check mark then pure none else some <$> expression
  skipNewlines
  let _ ← expect mark
  return clause

/-- Reads a `for`, whose keyword comes next. -/
def forStatement (statement : Parser StmtId) : Parser StmtId := do
  let keyword ← advance
  skipNewlines
  let _ ← expect "("
  skipNewlines
  let first ← forFirst
  let cond ← forClause ";"
  let last ← forClause ")"
  let body ← statement
  let body ←
    match last with
    | none => pure body
    | some last =>
        let step ← addStmt (.expression last.id) last.span
        let both ← addStmts [body, step]
        addStmtFrom (.block both) keyword.span
  let cond ←
    match cond with
    | none => addExpr (.literal (.bool true)) keyword.span
    | some cond => pure cond
  let loop ← addStmtFrom (.loop cond.id body) keyword.span
  match first with
  | none => return loop
  | some first =>
      let both ← addStmts [first, loop]
      addStmtFrom (.block both) keyword.span

/-- Reads the declaration of a function, whose keyword comes next; `statement`
reads the statements of its body. -/
def functionDeclaration (statement : Parser StmtId) : Parser StmtId := do
  let keyword ← advance
  let name ← identifier
  skipNewlines
  let _ ← expect "("
  let params ← items .tooManyParameters identifier
  let params ← addParams params
  skipNewlines
  let opening ← expect "\x7b"
  let body ← blockBody opening statement
  addStmtFrom (.function name params body) keyword.span

/-! ## Statements -/

/-- Reads a statement that is nested at most `depth` deep; `inFunction` tells
whether it stands in the body of a function. -/
def statementAt : (depth : Nat) → (inFunction : Bool) → Parser StmtId
  | 0, _ => expectedExpression
  | depth + 1, inFunction => do
      skipNewlines
      let token ← current
      if token.is "if" then branchStatement (statementAt depth inFunction)
      else if token.is "while" then loopStatement (statementAt depth inFunction)
      else if token.is "for" then forStatement (statementAt depth inFunction)
      else if token.is "fun" then functionDeclaration (statementAt depth true)
      else if token.is "return" then returnStatement inFunction
      else if token.is "\x7b" then blockStatement (statementAt depth inFunction)
      else expressionStatement

/-- Reads a statement of the top level.  A statement inside another comes after a
token of the outer one. -/
def topStatement : Parser StmtId := do statementAt (← size) false

end Parser

end Scriptorium
