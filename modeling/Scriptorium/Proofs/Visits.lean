import Scriptorium.Proofs.Restoration
import Scriptorium.Proofs.SoundCode

/-!
# What a run comes to

A run carries out one task inside the other: a call computes its arguments, a block its
statements.  `Starts` says which tasks a task starts, one constructor for each place where
the interpreter does so, and on which machine; `Visits` follows it down to every task that
a run comes to, whether the run ends or not.  A statement about all states of a run is a
statement about the tasks that it visits.

* `Task` — something that the interpreter carries out;
* `Starts`, `Visits` — the tasks that a task starts, directly or in steps;
* `Task.Grounded` — what a task looks up is there;
* `Task.Raises` — an error that a task gives rise to by itself;
* `interpret_traced` — a run that gets stuck visits a task that is not grounded, and a run
  that fails visits a task that raises the error.
-/

namespace Scriptorium

variable {α β : Type} {code : Code} {fuel : Nat}

/-! ## Tasks -/

/-- Something that the interpreter carries out. -/
inductive Task where
  /-- Computes an expression. -/
  | evaluate (id : ExprId)
  /-- Computes expressions from left to right. -/
  | evaluateAll (ids : List ExprId)
  /-- Calls a value at a place of the program. -/
  | call (callee : Value) (args : List Value) (span : Span)
  /-- Calls a declared function with the right number of arguments. -/
  | callUser (f : UserFunction) (args : List Value) (span : Span)
  /-- Carries out a statement. -/
  | execute (id : StmtId)
  /-- Carries out the statements of a block in the active frame. -/
  | executeBlock (body : Slice StmtId)
  /-- Carries out statements in order. -/
  | executeAll (ids : List StmtId)
  /-- Carries out the body of a loop as long as the condition holds. -/
  | executeLoop (cond : ExprId) (body : StmtId)
  /-- Carries out the statements of the top level. -/
  | interpret (stmts : List StmtId)

/-- The operand that an expression computes first. -/
def ExprKind.operand? : ExprKind → Option ExprId
  | .unary _ x | .binary _ x _ | .logical _ x _ | .group x | .assign _ _ x | .call x _ => some x
  | .literal _ | .reference _ => none

/-- The expression that a statement computes first. -/
def StmtKind.operand? : StmtKind → Option ExprId
  | .expression x | .branch x _ _ => some x
  | .declare _ x | .ret x => x
  | .block _ | .loop .. | .function .. => none

/-- The machine in a new frame inside the active one. -/
def Machine.nested (m : Machine) : Machine := { m with env := m.env.pushScope.2 }

/-- The machine on which the body of a call starts: the call is under way, and a new
frame inside that of the declaration holds the arguments. -/
def Machine.called (m : Machine) (f : UserFunction) (args : List Value) (span : Span) :
    Machine :=
  let (frame, env) := m.env.newFrame (some f.closure)
  let env := (f.params.zip args).foldl (fun env b => env.defineIn frame b.1 b.2) env
  { m with calls := m.calls.add ⟨f.name, span⟩, env := (env.enter frame).2 }

/-- Carrying out the first task on the first machine starts the second task on the second
machine. -/
inductive Starts (code : Code) : Task → Machine → Task → Machine → Prop where
  /-- The first operand of an expression. -/
  | operand {id x : ExprId} {node : ExprNode} {m : Machine} :
      code.arena.expr? id = some node → node.kind.operand? = some x →
      Starts code (.evaluate id) m (.evaluate x) m
  /-- The right operand, after the left one. -/
  | binaryRight {id l r : ExprId} {op : BinaryOp} {span : Span} {m m' : Machine} {v : Value}
      {fuel : Nat} :
      code.arena.expr? id = some ⟨.binary op l r, span⟩ → evaluate code fuel l m = .done v m' →
      Starts code (.evaluate id) m (.evaluate r) m'
  /-- The right operand, when the left one does not decide. -/
  | logicalRight {id l r : ExprId} {op : LogicalOp} {span : Span} {m m' : Machine} {v : Value}
      {fuel : Nat} :
      code.arena.expr? id = some ⟨.logical op l r, span⟩ → evaluate code fuel l m = .done v m' →
      v.isInteger = true → op.decidedBy v = false →
      Starts code (.evaluate id) m (.evaluate r) m'
  /-- The arguments of a call, after the called value. -/
  | arguments {id callee : ExprId} {args : Slice ExprId} {ids : List ExprId} {span : Span}
      {m m' : Machine} {f : Value} {fuel : Nat} :
      code.arena.expr? id = some ⟨.call callee args, span⟩ →
      evaluate code fuel callee m = .done f m' → code.arena.exprsIn? args = some ids →
      Starts code (.evaluate id) m (.evaluateAll ids) m'
  /-- The call, after the arguments. -/
  | call {id callee : ExprId} {args : Slice ExprId} {ids : List ExprId} {span : Span}
      {m m' m'' : Machine} {f : Value} {vs : List Value} {fuel : Nat} :
      code.arena.expr? id = some ⟨.call callee args, span⟩ →
      evaluate code fuel callee m = .done f m' → code.arena.exprsIn? args = some ids →
      evaluateAll code fuel ids m' = .done vs m'' →
      Starts code (.evaluate id) m (.call f vs span) m''
  /-- The first of several expressions. -/
  | headExpr {id : ExprId} {ids : List ExprId} {m : Machine} :
      Starts code (.evaluateAll (id :: ids)) m (.evaluate id) m
  /-- The expressions after the first one. -/
  | tailExprs {id : ExprId} {ids : List ExprId} {m m' : Machine} {v : Value} {fuel : Nat} :
      evaluate code fuel id m = .done v m' →
      Starts code (.evaluateAll (id :: ids)) m (.evaluateAll ids) m'
  /-- The call of a declared function. -/
  | user {f : UserFunction} {args : List Value} {span : Span} {m : Machine} :
      args.length = f.params.length →
      Starts code (.call (.user f) args span) m (.callUser f args span) m
  /-- The body of a declared function, if one more call is allowed. -/
  | body {f : UserFunction} {args : List Value} {span : Span} {m : Machine} :
      m.calls.limitReached? = none →
      Starts code (.callUser f args span) m (.executeBlock f.body) (m.called f args span)
  /-- The expression that a statement computes first. -/
  | expression {id : StmtId} {x : ExprId} {node : StmtNode} {m : Machine} :
      code.arena.stmt? id = some node → node.kind.operand? = some x →
      Starts code (.execute id) m (.evaluate x) m
  /-- The statements of a block, in a new frame. -/
  | block {id : StmtId} {body : Slice StmtId} {span : Span} {m : Machine} :
      code.arena.stmt? id = some ⟨.block body, span⟩ →
      Starts code (.execute id) m (.executeBlock body) m.nested
  /-- The first branch, when the condition holds. -/
  | thenBranch {id thenBranch : StmtId} {elseBranch : Option StmtId} {cond : ExprId} {span : Span}
      {m m' : Machine} {v : Value} {fuel : Nat} :
      code.arena.stmt? id = some ⟨.branch cond thenBranch elseBranch, span⟩ →
      evaluate code fuel cond m = .done v m' → v.isTrue = true →
      Starts code (.execute id) m (.execute thenBranch) m'
  /-- The other branch, when the condition does not hold. -/
  | elseBranch {id thenBranch elseBranch : StmtId} {cond : ExprId} {span : Span}
      {m m' : Machine} {v : Value} {fuel : Nat} :
      code.arena.stmt? id = some ⟨.branch cond thenBranch (some elseBranch), span⟩ →
      evaluate code fuel cond m = .done v m' → v.isInteger = true → v.isTrue = false →
      Starts code (.execute id) m (.execute elseBranch) m'
  /-- The rounds of a loop. -/
  | loop {id body : StmtId} {cond : ExprId} {span : Span} {m : Machine} :
      code.arena.stmt? id = some ⟨.loop cond body, span⟩ →
      Starts code (.execute id) m (.executeLoop cond body) m
  /-- The listed statements of a block. -/
  | statements {body : Slice StmtId} {ids : List StmtId} {m : Machine} :
      code.arena.stmtsIn? body = some ids →
      Starts code (.executeBlock body) m (.executeAll ids) m
  /-- The first of several statements. -/
  | headStmt {id : StmtId} {ids : List StmtId} {m : Machine} :
      Starts code (.executeAll (id :: ids)) m (.execute id) m
  /-- The statements after the first one, if it does not end the call. -/
  | tailStmts {id : StmtId} {ids : List StmtId} {m m' : Machine} {fuel : Nat} :
      execute code fuel id m = .done .normal m' →
      Starts code (.executeAll (id :: ids)) m (.executeAll ids) m'
  /-- The condition of a loop. -/
  | condition {cond : ExprId} {body : StmtId} {m : Machine} :
      Starts code (.executeLoop cond body) m (.evaluate cond) m
  /-- The body of a loop, in a new frame, when the condition holds. -/
  | round {cond : ExprId} {body : StmtId} {m m' : Machine} {v : Value} {fuel : Nat} :
      evaluate code fuel cond m = .done v m' → v.isTrue = true →
      Starts code (.executeLoop cond body) m (.execute body) m'.nested
  /-- The rounds after the first one, if it does not end the call. -/
  | again {cond : ExprId} {body : StmtId} {m m' m'' : Machine} {v : Value} {fuel : Nat} :
      evaluate code fuel cond m = .done v m' → v.isTrue = true →
      Step.inNewFrame (execute code fuel body) m' = .done .normal m'' →
      Starts code (.executeLoop cond body) m (.executeLoop cond body) m''
  /-- The first statement of the top level. -/
  | headTop {id : StmtId} {ids : List StmtId} {m : Machine} :
      Starts code (.interpret (id :: ids)) m (.execute id) m
  /-- The statements of the top level after the first one. -/
  | tailTop {id : StmtId} {ids : List StmtId} {m m' : Machine} {fuel : Nat} :
      execute code fuel id m = .done .normal m' →
      Starts code (.interpret (id :: ids)) m (.interpret ids) m'

/-- Carrying out the task `t` on the machine `m` comes to the given task on the given
machine. -/
inductive Visits (code : Code) (t : Task) (m : Machine) : Task → Machine → Prop where
  /-- The task itself. -/
  | start : Visits code t m t m
  /-- A task that a visited one starts. -/
  | step {t' t'' : Task} {m' m'' : Machine} :
      Visits code t m t' m' → Starts code t' m' t'' m'' → Visits code t m t'' m''

theorem Visits.of_starts {t t' t'' : Task} {m m' m'' : Machine} (h : Starts code t m t' m')
    (h' : Visits code t' m' t'' m'') : Visits code t m t'' m'' := by
  induction h' with
  | start => exact .step .start h
  | step _ hnext ih => exact .step ih hnext

/-! ## What can go wrong at a task -/

/-- An expression is stored under the number. -/
def Code.HoldsExpr (code : Code) (id : ExprId) : Prop := ∃ node, code.arena.expr? id = some node

/-- The names and lists that computing an expression looks up are there. -/
def ExprKind.Grounded (code : Code) : ExprKind → Prop
  | .literal (.str text) => code.Knows text
  | .reference name | .assign name _ _ => code.Knows name
  | .logical _ left _ => code.HoldsExpr left
  | .call _ args => ∃ ids, code.arena.exprsIn? args = some ids
  | _ => True

/-- The names and lists that carrying out a statement looks up are there. -/
def StmtKind.Grounded (code : Code) : StmtKind → Prop
  | .declare name _ => code.Knows name
  | .branch cond _ _ => code.HoldsExpr cond
  | .function name params _ => code.Knows name ∧ code.KnowsAll params
  | _ => True

/-- All that a task looks up by itself is there. -/
def Task.Grounded (code : Code) : Task → Prop
  | .evaluate id => ∃ node, code.arena.expr? id = some node ∧ node.kind.Grounded code
  | .execute id => ∃ node, code.arena.stmt? id = some node ∧ node.kind.Grounded code
  | .executeBlock body => ∃ ids, code.arena.stmtsIn? body = some ids
  | .executeLoop cond _ => code.HoldsExpr cond
  | _ => True

/-- An error of an expression stands at the expression, at the name that it assigns to, or
at the left operand of a logical operator. -/
def ExprNode.Site (code : Code) (node : ExprNode) (site : Span) : Prop :=
  site = node.span ∨ (∃ name value, node.kind = .assign name site value) ∨
    ∃ op l r left, node.kind = .logical op l r ∧ code.arena.expr? l = some left ∧ site = left.span

/-- The places at which a task raises errors. -/
def Task.Site (code : Code) (site : Span) : Task → Prop
  | .evaluate id => ∃ node, code.arena.expr? id = some node ∧ node.Site code site
  | .call _ _ span | .callUser _ _ span => site = span
  | .execute id => ∃ cond t e span node, code.arena.stmt? id = some ⟨.branch cond t e, span⟩ ∧
      code.arena.expr? cond = some node ∧ site = node.span
  | .executeLoop cond _ => ∃ node, code.arena.expr? cond = some node ∧ site = node.span
  | _ => False

/-- An error that was just made: it has no place and no calls yet.  If it says that there
are too many calls, there are as many as are allowed. -/
structure RunError.Fresh (e : RunError) (calls : CallStack) : Prop where
  span : e.span = none
  backtrace : e.backtrace = []
  limit : ∀ limit, e.fault = .callDepthExceeded limit → calls.limitReached? = some limit

/-- Carrying out the task by itself fails with an error. -/
inductive Task.Raises (code : Code) (m : Machine) : Task → RunError → Prop where
  /-- The error is made for the task. -/
  | fresh {t : Task} {e : RunError} {site : Span} :
      t.Site code site → e.Fresh m.calls → Raises code m t (m.calls.attach (e.locate site))
  /-- The error is that of a function that is provided. -/
  | native {f : NativeFunction} {args : List Value} {span : Span} {e : RunError} :
      f.action = .raise e →
      Raises code m (.call (.native f) args span) (m.calls.attach (e.locate span))

/-- If a computation that belongs to a task on a machine goes wrong, it does so at a task
that is visited. -/
def Outcome.Traced (code : Code) (t : Task) (m : Machine) : Outcome α → Prop
  | .done _ _ | .exhausted => True
  | .failed e _ => ∃ t' m', Visits code t m t' m' ∧ t'.Raises code m' e
  | .stuck => ∃ t' m', Visits code t m t' m' ∧ ¬ t'.Grounded code

/-! ## Errors that were just made -/

theorem RunError.fresh_ofFault {fault : RunFault} {calls : CallStack}
    (h : ∀ limit, fault ≠ .callDepthExceeded limit) (notes : List String) :
    (ofFault fault notes).Fresh calls :=
  ⟨rfl, rfl, fun limit hlimit => absurd hlimit (h limit)⟩

theorem RunError.fresh_callDepthExceeded {limit : Nat} {calls : CallStack}
    (h : calls.limitReached? = some limit) : (callDepthExceeded limit).Fresh calls := by
  refine ⟨rfl, rfl, fun other hother => ?_⟩
  cases hother
  exact h

theorem Value.fresh_of_ofLiteral {n : Nat} {e : RunError} {calls : CallStack}
    (h : Value.ofLiteral n = .error e) : e.Fresh calls := by
  unfold ofLiteral at h
  split at h
  · cases h
  split at h
  · cases h
  · cases h
    exact RunError.fresh_ofFault (fun _ => by simp) _

theorem UnaryOp.fresh_of_apply {op : UnaryOp} {v : Value} {e : RunError} {calls : CallStack}
    (h : op.apply v = .error e) : e.Fresh calls := by
  unfold apply at h
  split at h
  · cases h
    exact RunError.fresh_ofFault (fun _ => by simp) _
  · cases h
  split at h
  · cases h
  · cases h
    exact RunError.fresh_ofFault (fun _ => by simp) _

theorem BinaryOp.fresh_of_apply {op : BinaryOp} {v w : Value} {e : RunError} {calls : CallStack}
    (h : op.apply v w = .error e) : e.Fresh calls := by
  unfold apply at h
  split at h
  · cases h
    exact RunError.fresh_ofFault (fun _ => by simp) _
  · cases h
    exact RunError.fresh_ofFault (fun _ => by simp) _
  split at h
  · cases h
    exact RunError.fresh_ofFault (fun _ => by simp) _
  · cases h
  split at h
  · cases h
  · cases h
    exact RunError.fresh_ofFault (fun _ => by simp) _

/-! ## Tracing a failure to its task -/

/-- What a computation that restores and has a result has left alone. -/
theorem Step.Restores.of_done {x : Step α} {a : α} {m m' : Machine} (hx : x.Restores)
    (h : x m = .done a m') : m.Restored m' := by
  have hxm := hx m
  rw [h] at hxm
  exact hxm

/-- A task is started with the same calls under way, unless it is the body of a call. -/
theorem Starts.calls_eq {t t' : Task} {m m' : Machine} (h : Starts code t m t' m') :
    m'.calls = m.calls ∨ ∃ f args span, t = .callUser f args span ∧
      m.calls.limitReached? = none ∧ m'.calls = m.calls.add ⟨f.name, span⟩ := by
  have hrestores := restoresAll code
  cases h with
  | operand | headExpr | user | expression | block | loop | statements | headStmt | condition
  | headTop => exact .inl rfl
  | binaryRight _ h₁ => exact .inl (((hrestores _).evaluate _).of_done h₁).calls
  | logicalRight _ h₁ => exact .inl (((hrestores _).evaluate _).of_done h₁).calls
  | arguments _ h₁ => exact .inl (((hrestores _).evaluate _).of_done h₁).calls
  | call _ h₁ _ h₂ =>
    exact .inl ((((hrestores _).evaluate _).of_done h₁).trans
      (((hrestores _).evaluateAll _).of_done h₂)).calls
  | tailExprs h₁ => exact .inl (((hrestores _).evaluate _).of_done h₁).calls
  | body hlimit => exact .inr ⟨_, _, _, rfl, hlimit, rfl⟩
  | thenBranch _ h₁ => exact .inl (((hrestores _).evaluate _).of_done h₁).calls
  | elseBranch _ h₁ => exact .inl (((hrestores _).evaluate _).of_done h₁).calls
  | tailStmts h₁ => exact .inl (((hrestores _).execute _).of_done h₁).calls
  | round h₁ => exact .inl (((hrestores _).evaluate _).of_done h₁).calls
  | again h₁ _ h₂ =>
    exact .inl ((((hrestores _).evaluate _).of_done h₁).trans
      (((hrestores _).execute _).inNewFrame.of_done h₂)).calls
  | tailTop h₁ => exact .inl (((hrestores _).execute _).of_done h₁).calls

namespace Outcome.Traced

variable {t t' : Task} {m m' m₁ : Machine}

theorem of_starts {o : Outcome α} (h : Starts code t m t' m') (ho : o.Traced code t' m') :
    o.Traced code t m := by
  cases o with
  | done a m₁ => trivial
  | failed e m₁ =>
    obtain ⟨s, n, hvisits, hraises⟩ := ho
    exact ⟨s, n, .of_starts h hvisits, hraises⟩
  | stuck =>
    obtain ⟨s, n, hvisits, hs⟩ := ho
    exact ⟨s, n, .of_starts h hvisits, hs⟩
  | exhausted => trivial

theorem bind {x : Step α} {f : α → Step β} (hx : (x m₁).Traced code t m)
    (hf : ∀ a m₂, x m₁ = .done a m₂ → (f a m₂).Traced code t m) :
    ((x >>= f) m₁).Traced code t m := by
  show Outcome.Traced code t m (Step.bind x f m₁)
  unfold Step.bind
  cases h : x m₁ with
  | done a m₂ => exact hf a m₂ h
  | failed e m₂ =>
    rw [h] at hx
    exact hx
  | stuck =>
    rw [h] at hx
    exact hx
  | exhausted => trivial

/-- What is not found is missing from the ground of the task. -/
theorem found_bind {held : Option α} {f : α → Step β} (hheld : held = none → ¬ t.Grounded code)
    (hf : ∀ a, held = some a → (f a m₁).Traced code t m) :
    ((Step.found held >>= f) m₁).Traced code t m := by
  cases held with
  | none => exact ⟨t, m, .start, hheld rfl⟩
  | some a => exact hf a rfl

theorem fail {e : RunError} {site : Span} (hsite : t.Site code site) (he : e.Fresh m.calls)
    (hcalls : m₁.calls = m.calls) : (Step.fail e site m₁ : Outcome α).Traced code t m := by
  rw [Step.fail, hcalls]
  exact ⟨t, m, .start, .fresh hsite he⟩

theorem ofExcept {result : Except RunError α} {site : Span} (hsite : t.Site code site)
    (he : ∀ e, result = .error e → e.Fresh m.calls) (hcalls : m₁.calls = m.calls) :
    (Step.ofExcept result site m₁).Traced code t m := by
  cases result with
  | ok a => trivial
  | error e => exact fail hsite (he e rfl) hcalls

theorem after {o : Outcome α} (h : o.Traced code t m) (g : Machine → Machine) :
    (o.after g).Traced code t m := by
  cases o with
  | done a m₁ => trivial
  | failed e m₁ => exact h
  | stuck => exact h
  | exhausted => trivial

theorem inFrame {x : Step α} {f : FrameId}
    (h : (x { m₁ with env := (m₁.env.enter f).2 }).Traced code t m) :
    (Step.inFrame f x m₁).Traced code t m := by
  rw [Step.inFrame_eq]
  exact h.after _

theorem inNewFrame {x : Step α} (h : (x m₁.nested).Traced code t m) :
    (Step.inNewFrame x m₁).Traced code t m :=
  inFrame h

theorem inCall {x : Step α} {call : CallFrame} (hsite : t.Site code call.callSpan)
    (h : m.calls.limitReached? = none →
      (x { m with calls := m.calls.add call }).Traced code t m) :
    (Step.inCall call x m).Traced code t m := by
  cases hlimit : m.calls.limitReached? with
  | some limit =>
    rw [Step.inCall_refused hlimit]
    exact fail hsite (RunError.fresh_callDepthExceeded hlimit) rfl
  | none =>
    rw [Step.inCall_eq hlimit]
    exact (h hlimit).after _

end Outcome.Traced

/-- With the bound `fuel`, what goes wrong in the interpreter goes wrong at a visited
task. -/
structure TracesAll (code : Code) (fuel : Nat) : Prop where
  evaluate : ∀ id m, (evaluate code fuel id m).Traced code (.evaluate id) m
  evaluateAll : ∀ ids m, (evaluateAll code fuel ids m).Traced code (.evaluateAll ids) m
  call : ∀ callee args span m,
    (call code fuel callee args span m).Traced code (.call callee args span) m
  callUser : ∀ f args span m,
    (callUser code fuel f args span m).Traced code (.callUser f args span) m
  execute : ∀ id m, (execute code fuel id m).Traced code (.execute id) m
  executeBlock : ∀ body m, (executeBlock code fuel body m).Traced code (.executeBlock body) m
  executeAll : ∀ ids m, (executeAll code fuel ids m).Traced code (.executeAll ids) m
  executeLoop : ∀ cond body m,
    (executeLoop code fuel cond body m).Traced code (.executeLoop cond body) m

namespace TracesAll

variable (h : TracesAll code fuel)
include h

/-- The part of a task that starts at once, on the same machine or on a later one. -/
theorem evaluate_of_starts {t : Task} {m m₁ : Machine} {id : ExprId}
    (hs : Starts code t m (.evaluate id) m₁) :
    (Scriptorium.evaluate code fuel id m₁).Traced code t m :=
  .of_starts hs (h.evaluate id m₁)

end TracesAll

/-- What is not found has no properties either. -/
theorem not_exists_of_eq_none {held : Option α} {P : α → Prop} (h : held = none) :
    ¬ ∃ a, held = some a ∧ P a := by
  rintro ⟨a, ha, -⟩
  rw [h] at ha
  cases ha

/-- What a stored expression refers to is part of the ground of its task. -/
theorem not_grounded_evaluate {id : ExprId} {node : ExprNode}
    (hnode : code.arena.expr? id = some node) (h : ¬ node.kind.Grounded code) :
    ¬ (Task.evaluate id).Grounded code := by
  rintro ⟨node', hnode', hground⟩
  rw [hnode] at hnode'
  cases hnode'
  exact h hground

theorem not_grounded_execute {id : StmtId} {node : StmtNode}
    (hnode : code.arena.stmt? id = some node) (h : ¬ node.kind.Grounded code) :
    ¬ (Task.execute id).Grounded code := by
  rintro ⟨node', hnode', hground⟩
  rw [hnode] at hnode'
  cases hnode'
  exact h hground

theorem not_knows {name : NameId} (h : code.names.text? name = none) : ¬ code.Knows name :=
  fun hname => Option.ne_none_iff_exists'.2 hname h

/-- Names that are all known have texts. -/
theorem Code.exists_texts {ids : List NameId} (h : ∀ id ∈ ids, code.Knows id) :
    ∃ texts, ids.mapM code.names.text? = some texts := by
  induction ids with
  | nil => exact ⟨[], rfl⟩
  | cons id ids ih =>
    obtain ⟨text, htext⟩ := h id (by simp)
    obtain ⟨texts, htexts⟩ := ih fun other hother => h other (by simp [hother])
    exact ⟨text :: texts, by simp [List.mapM_cons, htext, htexts]⟩

namespace TracesAll

theorem evaluate_succ (h : TracesAll code fuel) (id : ExprId) (m : Machine) :
    (Scriptorium.evaluate code (fuel + 1) id m).Traced code (.evaluate id) m := by
  have hrestores := restoresAll code fuel
  rw [Scriptorium.evaluate]
  refine .found_bind not_exists_of_eq_none fun node hnode => ?_
  obtain ⟨kind, span⟩ := node
  have hsite : (Task.evaluate id).Site code span := ⟨_, hnode, .inl rfl⟩
  have operand : ∀ {x}, kind.operand? = some x →
      (Scriptorium.evaluate code fuel x m).Traced code (.evaluate id) m := fun hx =>
    h.evaluate_of_starts (.operand hnode hx)
  cases kind with
  | literal value =>
    cases value with
    | int n => exact .ofExcept hsite (fun _ => Value.fresh_of_ofLiteral) rfl
    | str text =>
      exact .found_bind (fun hnone => not_grounded_evaluate hnode (not_knows hnone))
        fun _ _ => trivial
    | bool b => trivial
  | group inner => exact operand rfl
  | reference name =>
    refine .found_bind (fun hnone => not_grounded_evaluate hnode (not_knows hnone))
      fun text _ => ?_
    unfold Step.lookup
    split
    · trivial
    · exact .fail hsite (RunError.fresh_ofFault (fun _ => by simp) _) rfl
  | assign name nameSpan value =>
    refine .bind (operand rfl) fun v m₁ hm₁ => ?_
    refine .found_bind (fun hnone => not_grounded_evaluate hnode (not_knows hnone))
      fun text _ => ?_
    unfold Step.assign
    split
    · trivial
    · exact .fail ⟨_, hnode, .inr (.inl ⟨name, value, rfl⟩)⟩
        (RunError.fresh_ofFault (fun _ => by simp) _) ((hrestores.evaluate _).of_done hm₁).calls
  | unary op x =>
    refine .bind (operand rfl) fun v m₁ hm₁ => ?_
    exact .ofExcept hsite (fun _ => UnaryOp.fresh_of_apply)
      ((hrestores.evaluate _).of_done hm₁).calls
  | binary op l r =>
    refine .bind (operand rfl) fun v m₁ hm₁ => ?_
    refine .bind (h.evaluate_of_starts (.binaryRight hnode hm₁)) fun w m₂ hm₂ => ?_
    exact .ofExcept hsite (fun _ => BinaryOp.fresh_of_apply)
      (((hrestores.evaluate _).of_done hm₁).trans ((hrestores.evaluate _).of_done hm₂)).calls
  | logical op l r =>
    refine .bind (operand rfl) fun v m₁ hm₁ => ?_
    by_cases hinteger : v.isInteger = true
    · by_cases hdecided : op.decidedBy v = true
      · simp only [hinteger, hdecided, Bool.not_true, Bool.false_eq_true, if_false, if_true]
        trivial
      · simp only [hinteger, hdecided, Bool.not_true, Bool.false_eq_true, if_false]
        exact h.evaluate_of_starts (.logicalRight hnode hm₁ hinteger (by simpa using hdecided))
    · simp only [hinteger, Bool.not_false, if_true]
      refine .found_bind (fun hnone => not_grounded_evaluate hnode fun hheld =>
        Option.ne_none_iff_exists'.2 hheld hnone) fun left hleft => ?_
      exact .fail ⟨_, hnode, .inr (.inr ⟨op, l, r, left, rfl, hleft, rfl⟩)⟩
        (RunError.fresh_ofFault (fun _ => by simp) _) ((hrestores.evaluate _).of_done hm₁).calls
  | call callee args =>
    refine .bind (operand rfl) fun f m₁ hm₁ => ?_
    refine .found_bind (fun hnone => not_grounded_evaluate hnode fun hheld =>
      Option.ne_none_iff_exists'.2 hheld hnone) fun ids hids => ?_
    refine .bind (.of_starts (.arguments hnode hm₁ hids) (h.evaluateAll ids m₁))
      fun vs m₂ hm₂ => ?_
    exact .of_starts (.call hnode hm₁ hids hm₂) (h.call f vs span m₂)

theorem evaluateAll_succ (h : TracesAll code fuel) (ids : List ExprId) (m : Machine) :
    (Scriptorium.evaluateAll code (fuel + 1) ids m).Traced code (.evaluateAll ids) m := by
  cases ids with
  | nil => trivial
  | cons id ids =>
    rw [Scriptorium.evaluateAll]
    refine .bind (h.evaluate_of_starts .headExpr) fun v m₁ hm₁ => ?_
    exact .bind (.of_starts (.tailExprs hm₁) (h.evaluateAll ids m₁)) fun _ _ _ => trivial

/-- Of the functions that are provided, only one that is made to fail fails. -/
theorem traced_native (f : NativeFunction) (args : List Value) (span : Span) (m : Machine) :
    (Step.native f.action args span m).Traced code (.call (.native f) args span) m := by
  cases haction : f.action with
  | raise e => exact ⟨_, m, .start, .native haction⟩
  | clock => trivial
  | print => trivial
  | println => trivial
  | zero => trivial
  | firstArgument => trivial
  | argumentCount => trivial

theorem call_succ (h : TracesAll code fuel) (callee : Value) (args : List Value) (span : Span)
    (m : Machine) :
    (Scriptorium.call code (fuel + 1) callee args span m).Traced code (.call callee args span)
      m := by
  have hfail : ∀ {fault : RunFault} (notes : List String),
      (∀ limit, fault ≠ .callDepthExceeded limit) →
      (Step.fail (.ofFault fault notes) span m : Outcome Value).Traced code
        (.call callee args span) m := fun notes hfault =>
    .fail rfl (RunError.fresh_ofFault hfault notes) rfl
  unfold Scriptorium.call
  cases callee with
  | native f =>
    simp only [Value.arity?]
    split
    · exact hfail _ (fun _ => by simp)
    · exact traced_native f args span m
  | user f =>
    simp only [Value.arity?]
    split
    · exact hfail _ (fun _ => by simp)
    · next hlength =>
      exact .of_starts (.user (Decidable.not_not.1 hlength)) (h.callUser f args span m)
  | int n => exact hfail _ (fun _ => by simp)
  | wide n => exact hfail _ (fun _ => by simp)
  | str text => exact hfail _ (fun _ => by simp)

theorem callUser_succ (h : TracesAll code fuel) (f : UserFunction) (args : List Value)
    (span : Span) (m : Machine) :
    (Scriptorium.callUser code (fuel + 1) f args span m).Traced code (.callUser f args span)
      m := by
  rw [Scriptorium.callUser_succ]
  refine .inCall rfl fun hlimit => ?_
  refine .bind (x := Step.newFrame f.closure (f.params.zip args)) trivial fun frame m₁ hm₁ => ?_
  cases hm₁
  refine .bind (.inFrame (.of_starts (.body hlimit) (h.executeBlock f.body _)))
    fun completion m₂ _ => ?_
  cases completion with
  | normal => trivial
  | returned value => trivial

/-- A value of a condition that is no integer is an error at the condition. -/
theorem traced_truthOf {t : Task} {m m₁ : Machine} {cond : ExprId} (value : Value)
    (hground : t.Grounded code → code.HoldsExpr cond)
    (hsite : ∀ node, code.arena.expr? cond = some node → t.Site code node.span)
    (hcalls : m₁.calls = m.calls) : (truthOf code cond value m₁).Traced code t m := by
  unfold truthOf
  split
  · trivial
  · refine .found_bind (fun hnone hg => Option.ne_none_iff_exists'.2 (hground hg) hnone)
      fun node hnode => ?_
    exact .fail (hsite node hnode) (RunError.fresh_ofFault (fun _ => by simp) _) hcalls

/-- The truth of a condition tells that its value is an integer. -/
theorem truthOf_done {cond : ExprId} {value : Value} {b : Bool} {m m' : Machine}
    (h : truthOf code cond value m = .done b m') :
    value.isInteger = true ∧ value.isTrue = b ∧ m = m' := by
  unfold truthOf at h
  split at h
  · next hinteger =>
    cases h
    exact ⟨hinteger, rfl, rfl⟩
  · unfold failAt at h
    cases hcond : code.arena.expr? cond with
    | none => rw [hcond] at h; cases h
    | some node => rw [hcond] at h; cases h

theorem execute_succ (h : TracesAll code fuel) (id : StmtId) (m : Machine) :
    (Scriptorium.execute code (fuel + 1) id m).Traced code (.execute id) m := by
  have hrestores := restoresAll code fuel
  rw [Scriptorium.execute]
  refine .found_bind not_exists_of_eq_none fun node hnode => ?_
  obtain ⟨kind, span⟩ := node
  have operand : ∀ {x}, kind.operand? = some x →
      (Scriptorium.evaluate code fuel x m).Traced code (.execute id) m := fun hx =>
    h.evaluate_of_starts (.expression hnode hx)
  cases kind with
  | expression x => exact .bind (operand rfl) fun _ _ _ => trivial
  | declare name init =>
    have hname : ∀ value m₁, ((do
        let name ← Step.found (code.names.text? name)
        Step.define name value
        Step.pure Completion.normal : Step Completion) m₁).Traced code (.execute id) m :=
      fun value m₁ => .found_bind
        (fun hnone => not_grounded_execute hnode (not_knows hnone)) fun _ _ => trivial
    cases init with
    | none => exact .bind (x := Step.pure Value.zero) trivial fun v m₁ _ => hname v m₁
    | some x => exact .bind (operand rfl) fun v m₁ _ => hname v m₁
  | block body => exact .inNewFrame (.of_starts (.block hnode) (h.executeBlock body _))
  | branch cond thenBranch elseBranch =>
    refine .bind (operand rfl) fun v m₁ hm₁ => ?_
    refine .bind (traced_truthOf v ?_ ?_ ((hrestores.evaluate _).of_done hm₁).calls)
      fun b m₂ hm₂ => ?_
    · rintro ⟨node, hnode', hground⟩
      rw [hnode] at hnode'
      cases hnode'
      exact hground
    · exact fun left hleft => ⟨_, _, _, _, left, hnode, hleft, rfl⟩
    obtain ⟨hinteger, htrue, rfl⟩ := truthOf_done hm₂
    cases b with
    | true => exact .of_starts (.thenBranch hnode hm₁ htrue) (h.execute thenBranch m₁)
    | false =>
      cases elseBranch with
      | none => trivial
      | some other =>
        exact .of_starts (.elseBranch hnode hm₁ hinteger htrue) (h.execute other m₁)
  | loop cond body => exact .of_starts (.loop hnode) (h.executeLoop cond body m)
  | function name params body =>
    refine .found_bind (fun hnone => not_grounded_execute hnode fun hg => not_knows hnone hg.1)
      fun _ _ => ?_
    refine .found_bind (fun hnone => not_grounded_execute hnode fun hg =>
      not_exists_of_eq_none hnone hg.2) fun ids hids => ?_
    refine .found_bind ?_ fun _ _ => trivial
    · refine fun hnone => not_grounded_execute hnode ?_
      rintro ⟨-, ids', hids', hknown⟩
      rw [hids] at hids'
      cases hids'
      obtain ⟨texts, htexts⟩ := Code.exists_texts hknown
      rw [hnone] at htexts
      cases htexts
  | ret value =>
    cases value with
    | none => trivial
    | some x => exact .bind (operand rfl) fun _ _ _ => trivial

theorem executeBlock_succ (h : TracesAll code fuel) (body : Slice StmtId) (m : Machine) :
    (Scriptorium.executeBlock code (fuel + 1) body m).Traced code (.executeBlock body) m := by
  rw [Scriptorium.executeBlock]
  exact .found_bind (fun hnone hheld => Option.ne_none_iff_exists'.2 hheld hnone)
    fun ids hids => .of_starts (.statements hids) (h.executeAll ids m)

theorem executeAll_succ (h : TracesAll code fuel) (ids : List StmtId) (m : Machine) :
    (Scriptorium.executeAll code (fuel + 1) ids m).Traced code (.executeAll ids) m := by
  cases ids with
  | nil => trivial
  | cons id ids =>
    rw [Scriptorium.executeAll]
    refine .bind (.of_starts .headStmt (h.execute id m)) fun completion m₁ hm₁ => ?_
    cases completion with
    | normal => exact .of_starts (.tailStmts hm₁) (h.executeAll ids m₁)
    | returned value => trivial

theorem executeLoop_succ (h : TracesAll code fuel) (cond : ExprId) (body : StmtId) (m : Machine) :
    (Scriptorium.executeLoop code (fuel + 1) cond body m).Traced code (.executeLoop cond body)
      m := by
  rw [Scriptorium.executeLoop]
  refine .bind (h.evaluate_of_starts .condition) fun v m₁ hm₁ => ?_
  refine .bind (traced_truthOf v id (fun node hnode => ⟨node, hnode, rfl⟩)
    (((restoresAll code fuel).evaluate cond).of_done hm₁).calls) fun b m₂ hm₂ => ?_
  obtain ⟨-, htrue, rfl⟩ := truthOf_done hm₂
  cases b with
  | true =>
    refine .bind (.inNewFrame (.of_starts (.round hm₁ htrue) (h.execute body _)))
      fun completion m₂ hm₂ => ?_
    cases completion with
    | normal => exact .of_starts (.again hm₁ htrue hm₂) (h.executeLoop cond body m₂)
    | returned value => trivial
  | false => trivial

end TracesAll

/-- With every bound, what goes wrong in the interpreter goes wrong at a visited task. -/
theorem tracesAll (code : Code) (fuel : Nat) : TracesAll code fuel := by
  induction fuel with
  | zero =>
    exact ⟨fun _ _ => trivial, fun _ _ => trivial, fun _ _ _ _ => trivial,
      fun _ _ _ _ => trivial, fun _ _ => trivial, fun _ _ => trivial, fun _ _ => trivial,
      fun _ _ _ => trivial⟩
  | succ fuel ih =>
    exact ⟨ih.evaluate_succ, ih.evaluateAll_succ, ih.call_succ, ih.callUser_succ,
      ih.execute_succ, ih.executeBlock_succ, ih.executeAll_succ, ih.executeLoop_succ⟩

/-- A run that gets stuck visits a task that is not grounded, and a run that fails visits a
task that raises the error. -/
theorem interpret_traced (code : Code) (fuel : Nat) (stmts : List StmtId) (m : Machine) :
    (interpret code fuel stmts m).Traced code (.interpret stmts) m := by
  induction stmts generalizing m with
  | nil => trivial
  | cons id ids ih =>
    rw [interpret]
    refine .bind (.of_starts .headTop ((tracesAll code fuel).execute id m))
      fun completion m₁ hm₁ => ?_
    cases completion with
    | normal => exact .of_starts (.tailTop hm₁) (ih m₁)
    | returned value => trivial

end Scriptorium
