import Scriptorium.Run.Arithmetic
import Scriptorium.Run.Machine

/-!
# The interpreter

`evaluate` computes an expression of a code and `execute` carries out a statement of
it.  Both look a node up under its number when they come to it, so they need no more
of the code than what the run reaches.  They take a number that bounds how deep they
call each other and themselves; a run that needs more ends as `Outcome.exhausted`,
and one that comes to a number without a node as `Outcome.stuck`.  Neither is a
result or an error.

A statement ends normally or at a `return`, whose value travels up to the call that
it ends.
-/

namespace Scriptorium

/-- How a statement ends. -/
inductive Completion where
  /-- The next statement follows. -/
  | normal
  /-- The call ends with this value. -/
  | returned (value : Value)
  deriving Repr

/-- The number of arguments that a function takes, if the value is one. -/
def Value.arity? : Value → Option Nat
  | .native f => some f.arity
  | .user f => some f.params.length
  | _ => none

/-- The name of a function; other values have none. -/
def Value.functionName : Value → String
  | .native f => f.name
  | .user f => f.name
  | _ => ""

/-- Does a left operand decide the value of a logical operator? -/
def LogicalOp.decidedBy (op : LogicalOp) (left : Value) : Bool :=
  match op with
  | .and => !left.isTrue
  | .or => left.isTrue

/-- Ends with an error at an expression. -/
def failAt {α : Type} (code : Code) (error : RunError) (expr : ExprId) : Step α := do
  let node ← Step.found (code.arena.expr? expr)
  Step.fail error node.span

/-- The truth of the value of a condition. -/
def truthOf (code : Code) (cond : ExprId) (value : Value) : Step Bool :=
  if value.isInteger then Step.pure value.isTrue
  else failAt code (.condition value.typeName) cond

mutual

/-- Computes an expression. -/
def evaluate (code : Code) : (fuel : Nat) → ExprId → Step Value
  | 0, _ => Step.exhausted
  | fuel + 1, id => do
      let node ← Step.found (code.arena.expr? id)
      match node.kind with
      | .literal (.int n) => Step.ofExcept (Value.ofLiteral n) node.span
      | .literal (.str text) => do
          let text ← Step.found (code.names.text? text)
          Step.pure (.str text)
      | .literal (.bool b) => Step.pure (.ofBool b)
      | .group inner => evaluate code fuel inner
      | .reference name => do
          let name ← Step.found (code.names.text? name)
          Step.lookup name node.span
      | .assign name nameSpan value => do
          let value ← evaluate code fuel value
          let name ← Step.found (code.names.text? name)
          Step.assign name value nameSpan
      | .unary op operand => do
          let operand ← evaluate code fuel operand
          Step.ofExcept (op.apply operand) node.span
      | .binary op left right => do
          let l ← evaluate code fuel left
          let r ← evaluate code fuel right
          Step.ofExcept (op.apply l r) node.span
      | .logical op left right => do
          let l ← evaluate code fuel left
          if !l.isInteger then failAt code (.logicalOperand op l.typeName) left
          else if op.decidedBy l then Step.pure l
          else evaluate code fuel right
      | .call callee args => do
          let callee ← evaluate code fuel callee
          let args ← Step.found (code.arena.exprsIn? args)
          let args ← evaluateAll code fuel args
          call code fuel callee args node.span

/-- Computes expressions from left to right. -/
def evaluateAll (code : Code) : (fuel : Nat) → List ExprId → Step (List Value)
  | 0, _ => Step.exhausted
  | _ + 1, [] => Step.pure []
  | fuel + 1, expr :: exprs => do
      let value ← evaluate code fuel expr
      let values ← evaluateAll code fuel exprs
      Step.pure (value :: values)

/-- Calls a value at a place of the program. -/
def call (code : Code) :
    (fuel : Nat) → (callee : Value) → (args : List Value) → (span : Span) → Step Value
  | 0, _, _, _ => Step.exhausted
  | fuel + 1, callee, args, span =>
      match callee.arity? with
      | none => Step.fail (.notCallable callee.typeName) span
      | some arity =>
          if args.length ≠ arity then
            Step.fail (.arityMismatch callee.functionName arity args.length) span
          else
            match callee with
            | .native f => Step.native f.action args span
            | .user f => callUser code fuel f args span
            | _ => Step.fail (.notCallable callee.typeName) span

/-- Calls a declared function with the right number of arguments. -/
def callUser (code : Code) :
    (fuel : Nat) → UserFunction → (args : List Value) → (span : Span) → Step Value
  | 0, _, _, _ => Step.exhausted
  | fuel + 1, f, args, span =>
      Step.inCall ⟨f.name, span⟩ do
        let frame ← Step.newFrame f.closure (f.params.zip args)
        match ← Step.inFrame frame (executeBlock code fuel f.body) with
        | .returned value => Step.pure value
        | .normal => Step.pure .zero

/-- Carries out a statement. -/
def execute (code : Code) : (fuel : Nat) → StmtId → Step Completion
  | 0, _ => Step.exhausted
  | fuel + 1, id => do
      let node ← Step.found (code.arena.stmt? id)
      match node.kind with
      | .expression expr => do
          let _ ← evaluate code fuel expr
          Step.pure .normal
      | .declare name init => do
          let value ←
            match init with
            | none => Step.pure .zero
            | some init => evaluate code fuel init
          let name ← Step.found (code.names.text? name)
          Step.define name value
          Step.pure .normal
      | .block body => Step.inNewFrame (executeBlock code fuel body)
      | .branch cond thenBranch elseBranch => do
          let value ← evaluate code fuel cond
          if ← truthOf code cond value then execute code fuel thenBranch
          else
            match elseBranch with
            | some other => execute code fuel other
            | none => Step.pure .normal
      | .loop cond body => executeLoop code fuel cond body
      | .function name params body => do
          let name ← Step.found (code.names.text? name)
          let params ← Step.found (code.arena.paramsIn? params)
          let params ← Step.found (params.mapM code.names.text?)
          let value ← Step.newFunction fun closure identity =>
            { name, declaration := id, params, body, closure, identity }
          Step.define name value
          Step.pure .normal
      | .ret none => Step.pure (.returned .zero)
      | .ret (some value) => do
          let value ← evaluate code fuel value
          Step.pure (.returned value)

/-- Carries out the statements of a block in the active frame. -/
def executeBlock (code : Code) : (fuel : Nat) → Slice StmtId → Step Completion
  | 0, _ => Step.exhausted
  | fuel + 1, body => do
      let stmts ← Step.found (code.arena.stmtsIn? body)
      executeAll code fuel stmts

/-- Carries out statements in order, up to the first that ends the call. -/
def executeAll (code : Code) : (fuel : Nat) → List StmtId → Step Completion
  | 0, _ => Step.exhausted
  | _ + 1, [] => Step.pure .normal
  | fuel + 1, stmt :: stmts => do
      match ← execute code fuel stmt with
      | .returned value => Step.pure (.returned value)
      | .normal => executeAll code fuel stmts

/-- Carries out the body of a loop, each time in a new frame, as long as the
condition holds and the call goes on. -/
def executeLoop (code : Code) : (fuel : Nat) → (cond : ExprId) → (body : StmtId) → Step Completion
  | 0, _, _ => Step.exhausted
  | fuel + 1, cond, body => do
      let value ← evaluate code fuel cond
      if ← truthOf code cond value then
        match ← Step.inNewFrame (execute code fuel body) with
        | .returned value => Step.pure (.returned value)
        | .normal => executeLoop code fuel cond body
      else Step.pure .normal

end

/-- Carries out the statements of the top level in order.  A `return` there ends the
run quietly. -/
def interpret (code : Code) (fuel : Nat) : List StmtId → Step Unit
  | [] => Step.pure ()
  | stmt :: stmts => do
      match ← execute code fuel stmt with
      | .returned _ => Step.pure ()
      | .normal => interpret code fuel stmts

end Scriptorium
