import Scriptorium.Run.Interpreter

/-!
# Properties of computations

The interpreter makes its computations out of a few others.  A property that these have, and
that is handed on from the parts of a computation to the whole, is one of all computations of
the interpreter, whatever the code and the bound are.

* `Step.Closed` — what is asked of such a property;
* `Step.Closed.interpreter`, `Step.Closed.interpret` — the interpreter has it.
-/

namespace Scriptorium

/-- The property is one of the computations from which the interpreter starts, and it is
handed on by the ways in which the interpreter puts computations together. -/
structure Step.Closed (P : {α : Type} → Step α → Prop) : Prop where
  pure : ∀ {α : Type} (a : α), P (Step.pure a)
  exhausted : ∀ {α : Type}, P (Step.exhausted : Step α)
  found : ∀ {α : Type} (held : Option α), P (Step.found held)
  fail : ∀ {α : Type} (e : RunError) (span : Span), P (Step.fail e span : Step α)
  bind : ∀ {α β : Type} {x : Step α} {f : α → Step β}, P x → (∀ a, P (f a)) → P (x >>= f)
  inFrame : ∀ {α : Type} {x : Step α} (f : FrameId), P x → P (Step.inFrame f x)
  inNewFrame : ∀ {α : Type} {x : Step α}, P x → P (Step.inNewFrame x)
  inCall : ∀ {α : Type} {x : Step α} (call : CallFrame), P x → P (Step.inCall call x)
  define : ∀ name value, P (Step.define name value)
  lookup : ∀ name span, P (Step.lookup name span)
  assign : ∀ name value span, P (Step.assign name value span)
  newFrame : ∀ parent bindings, P (Step.newFrame parent bindings)
  newFunction : ∀ make, P (Step.newFunction make)
  native : ∀ action args span, P (Step.native action args span)

/-- The body of a call: what is done between adding the call and taking it off. -/
def callBody (code : Code) (fuel : Nat) (f : UserFunction) (args : List Value) : Step Value := do
  let frame ← Step.newFrame f.closure (f.params.zip args)
  match ← Step.inFrame frame (executeBlock code fuel f.body) with
  | .returned value => Step.pure value
  | .normal => Step.pure .zero

theorem callUser_succ (code : Code) (fuel : Nat) (f : UserFunction) (args : List Value)
    (span : Span) :
    callUser code (fuel + 1) f args span
      = Step.inCall ⟨f.name, span⟩ (callBody code fuel f args) := by
  rw [callUser]
  rfl

/-- With the bound `fuel`, the functions of the interpreter have the property. -/
structure Step.HoldsAll (P : {α : Type} → Step α → Prop) (code : Code) (fuel : Nat) : Prop where
  evaluate : ∀ id, P (evaluate code fuel id)
  evaluateAll : ∀ ids, P (evaluateAll code fuel ids)
  call : ∀ callee args span, P (call code fuel callee args span)
  callUser : ∀ f args span, P (callUser code fuel f args span)
  execute : ∀ id, P (execute code fuel id)
  executeBlock : ∀ body, P (executeBlock code fuel body)
  executeAll : ∀ ids, P (executeAll code fuel ids)
  executeLoop : ∀ cond body, P (executeLoop code fuel cond body)

namespace Step.Closed

variable {P : {α : Type} → Step α → Prop} {code : Code} {fuel : Nat}

theorem ofExcept (hP : Closed P) {α : Type} (result : Except RunError α) (span : Span) :
    P (Step.ofExcept result span) := by
  cases result with
  | ok a => exact hP.pure a
  | error e => exact hP.fail e span

theorem failAt (hP : Closed P) {α : Type} (e : RunError) (expr : ExprId) :
    P (Scriptorium.failAt code e expr : Step α) :=
  hP.bind (hP.found _) fun _ => hP.fail _ _

theorem truthOf (hP : Closed P) (cond : ExprId) (value : Value) :
    P (Scriptorium.truthOf code cond value) := by
  unfold Scriptorium.truthOf
  split
  · exact hP.pure _
  · exact hP.failAt _ _

theorem evaluate_succ (hP : Closed P) (h : HoldsAll P code fuel) (id : ExprId) :
    P (evaluate code (fuel + 1) id) := by
  rw [evaluate]
  refine hP.bind (hP.found _) fun node => ?_
  split
  · exact hP.ofExcept _ _
  · exact hP.bind (hP.found _) fun _ => hP.pure _
  · exact hP.pure _
  · exact h.evaluate _
  · exact hP.bind (hP.found _) fun _ => hP.lookup _ _
  · exact hP.bind (h.evaluate _) fun _ => hP.bind (hP.found _) fun _ => hP.assign _ _ _
  · exact hP.bind (h.evaluate _) fun _ => hP.ofExcept _ _
  · exact hP.bind (h.evaluate _) fun _ => hP.bind (h.evaluate _) fun _ => hP.ofExcept _ _
  · refine hP.bind (h.evaluate _) fun l => ?_
    split
    · exact hP.failAt _ _
    split
    · exact hP.pure _
    · exact h.evaluate _
  · exact hP.bind (h.evaluate _) fun _ => hP.bind (hP.found _) fun _ =>
      hP.bind (h.evaluateAll _) fun _ => h.call _ _ _

theorem evaluateAll_succ (hP : Closed P) (h : HoldsAll P code fuel) (ids : List ExprId) :
    P (evaluateAll code (fuel + 1) ids) := by
  cases ids with
  | nil => exact hP.pure _
  | cons id ids =>
    rw [evaluateAll]
    exact hP.bind (h.evaluate _) fun _ => hP.bind (h.evaluateAll _) fun _ => hP.pure _

theorem call_succ (hP : Closed P) (h : HoldsAll P code fuel) (callee : Value)
    (args : List Value) (span : Span) : P (call code (fuel + 1) callee args span) := by
  unfold call
  split
  · exact hP.fail _ _
  split
  · exact hP.fail _ _
  split
  · exact hP.native _ _ _
  · exact h.callUser _ _ _
  · exact hP.fail _ _

theorem callBody (hP : Closed P) (h : HoldsAll P code fuel) (f : UserFunction)
    (args : List Value) : P (Scriptorium.callBody code fuel f args) := by
  refine hP.bind (hP.newFrame _ _) fun frame => ?_
  refine hP.bind (hP.inFrame frame (h.executeBlock _)) fun completion => ?_
  cases completion with
  | normal => exact hP.pure _
  | returned value => exact hP.pure _

theorem execute_succ (hP : Closed P) (h : HoldsAll P code fuel) (id : StmtId) :
    P (execute code (fuel + 1) id) := by
  rw [execute]
  refine hP.bind (hP.found _) fun node => ?_
  split
  · exact hP.bind (h.evaluate _) fun _ => hP.pure _
  · next name init _ =>
    have hname : ∀ value, P (do
        let name ← Step.found (code.names.text? name)
        Step.define name value
        Step.pure Completion.normal : Step Completion) := fun value =>
      hP.bind (hP.found _) fun _ => hP.bind (hP.define _ _) fun _ => hP.pure _
    cases init with
    | none => exact hP.bind (hP.pure _) hname
    | some init => exact hP.bind (h.evaluate init) hname
  · exact hP.inNewFrame (h.executeBlock _)
  · refine hP.bind (h.evaluate _) fun value => hP.bind (hP.truthOf _ _) fun b => ?_
    split
    · exact h.execute _
    split
    · exact h.execute _
    · exact hP.pure _
  · exact h.executeLoop _ _
  · exact hP.bind (hP.found _) fun _ => hP.bind (hP.found _) fun _ =>
      hP.bind (hP.found _) fun _ => hP.bind (hP.newFunction _) fun _ =>
      hP.bind (hP.define _ _) fun _ => hP.pure _
  · exact hP.pure _
  · exact hP.bind (h.evaluate _) fun _ => hP.pure _

theorem executeBlock_succ (hP : Closed P) (h : HoldsAll P code fuel) (body : Slice StmtId) :
    P (executeBlock code (fuel + 1) body) := by
  rw [executeBlock]
  exact hP.bind (hP.found _) fun _ => h.executeAll _

theorem executeAll_succ (hP : Closed P) (h : HoldsAll P code fuel) (ids : List StmtId) :
    P (executeAll code (fuel + 1) ids) := by
  cases ids with
  | nil => exact hP.pure _
  | cons id ids =>
    rw [executeAll]
    refine hP.bind (h.execute id) fun completion => ?_
    cases completion with
    | normal => exact h.executeAll ids
    | returned value => exact hP.pure _

theorem executeLoop_succ (hP : Closed P) (h : HoldsAll P code fuel) (cond : ExprId)
    (body : StmtId) : P (executeLoop code (fuel + 1) cond body) := by
  rw [executeLoop]
  refine hP.bind (h.evaluate cond) fun value => hP.bind (hP.truthOf _ _) fun b => ?_
  split
  · refine hP.bind (hP.inNewFrame (h.execute body)) fun completion => ?_
    cases completion with
    | normal => exact h.executeLoop cond body
    | returned value => exact hP.pure _
  · exact hP.pure _

/-- With every bound, the functions of the interpreter have the property. -/
theorem interpreter (hP : Closed P) (code : Code) (fuel : Nat) : HoldsAll P code fuel := by
  induction fuel with
  | zero =>
    exact ⟨fun _ => hP.exhausted, fun _ => hP.exhausted, fun _ _ _ => hP.exhausted,
      fun _ _ _ => hP.exhausted, fun _ => hP.exhausted, fun _ => hP.exhausted,
      fun _ => hP.exhausted, fun _ _ => hP.exhausted⟩
  | succ fuel ih =>
    refine ⟨hP.evaluate_succ ih, hP.evaluateAll_succ ih, hP.call_succ ih,
      fun f args span => ?_, hP.execute_succ ih, hP.executeBlock_succ ih,
      hP.executeAll_succ ih, hP.executeLoop_succ ih⟩
    rw [callUser_succ]
    exact hP.inCall _ (hP.callBody ih f args)

theorem interpret (hP : Closed P) (code : Code) (fuel : Nat) (stmts : List StmtId) :
    P (Scriptorium.interpret code fuel stmts) := by
  induction stmts with
  | nil => exact hP.pure ()
  | cons stmt stmts ih =>
    refine hP.bind ((hP.interpreter code fuel).execute stmt) fun completion => ?_
    cases completion with
    | normal => exact ih
    | returned value => exact hP.pure ()

end Step.Closed

end Scriptorium
