import Scriptorium.Program.Script
import Scriptorium.Proofs.AlikeSteps
import Scriptorium.Proofs.TreeNodes

/-!
# Runs of the same trees

What a run does depends on the trees of the program only: not on the numbers of their
nodes and names, and not on places.  Two codes that hold the same trees are run side by
side, with the same bound, and the machines stay alike.

* `Simulates` — each function of the interpreter is alike on two codes, with a bound;
* `simulates` — it is so with every bound;
* `interpret_alike` — programs with the same trees run alike.
-/

namespace Scriptorium

variable {c d : Code}

/-- The lists of statements have the same trees. -/
def SameBody (c d : Code) (body body' : Slice StmtId) : Prop :=
  ∃ ids ids' ss, c.arena.stmtsIn? body = some ids ∧ List.Forall₂ c.StmtAt ids ss ∧
    d.arena.stmtsIn? body' = some ids' ∧ List.Forall₂ d.StmtAt ids' ss

/-- The statements end alike. -/
inductive Completion.Alike (B : Slice StmtId → Slice StmtId → Prop) :
    Completion → Completion → Prop where
  /-- The next statement follows. -/
  | normal : Alike B .normal .normal
  /-- The call ends. -/
  | returned {v v' : Value} : Value.Alike B v v' → Alike B (.returned v) (.returned v')

/-- With the bound `fuel`, the interpreter does the same on the two codes. -/
structure Simulates (c d : Code) (fuel : Nat) : Prop where
  evaluate : ∀ {id id' e}, c.ExprAt id e → d.ExprAt id' e →
    Step.Alike (SameBody c d) (Value.Alike (SameBody c d)) (evaluate c fuel id)
      (evaluate d fuel id')
  evaluateAll : ∀ {ids ids' es}, List.Forall₂ c.ExprAt ids es → List.Forall₂ d.ExprAt ids' es →
    Step.Alike (SameBody c d) (List.Forall₂ (Value.Alike (SameBody c d)))
      (evaluateAll c fuel ids) (evaluateAll d fuel ids')
  call : ∀ {f f' args args'} (span span' : Span), Value.Alike (SameBody c d) f f' →
    List.Forall₂ (Value.Alike (SameBody c d)) args args' →
    Step.Alike (SameBody c d) (Value.Alike (SameBody c d)) (call c fuel f args span)
      (call d fuel f' args' span')
  callUser : ∀ {f f' args args'} (span span' : Span),
    Value.Alike (SameBody c d) (.user f) (.user f') →
    List.Forall₂ (Value.Alike (SameBody c d)) args args' →
    Step.Alike (SameBody c d) (Value.Alike (SameBody c d)) (callUser c fuel f args span)
      (callUser d fuel f' args' span')
  execute : ∀ {id id' s}, c.StmtAt id s → d.StmtAt id' s →
    Step.Alike (SameBody c d) (Completion.Alike (SameBody c d)) (execute c fuel id)
      (execute d fuel id')
  executeBlock : ∀ {body body'}, SameBody c d body body' →
    Step.Alike (SameBody c d) (Completion.Alike (SameBody c d)) (executeBlock c fuel body)
      (executeBlock d fuel body')
  executeAll : ∀ {ids ids' ss}, List.Forall₂ c.StmtAt ids ss → List.Forall₂ d.StmtAt ids' ss →
    Step.Alike (SameBody c d) (Completion.Alike (SameBody c d)) (executeAll c fuel ids)
      (executeAll d fuel ids')
  executeLoop : ∀ {cond cond' body body' e s}, c.ExprAt cond e → d.ExprAt cond' e →
    c.StmtAt body s → d.StmtAt body' s →
    Step.Alike (SameBody c d) (Completion.Alike (SameBody c d)) (executeLoop c fuel cond body)
      (executeLoop d fuel cond' body')

/-! ## Errors and conditions -/

theorem Code.ExprAt.exists_node {id : ExprId} {e : Expr Unit} (h : c.ExprAt id e) :
    ∃ node, c.arena.expr? id = some node := by
  cases h <;> exact ⟨_, by assumption⟩

section Conditions

variable {id id' : ExprId} {e : Expr Unit}

theorem alike_failAt {α β : Type} {R : α → β → Prop} (hc : c.ExprAt id e) (hd : d.ExprAt id' e)
    (error : RunError) : Step.Alike (SameBody c d) R (failAt c error id) (failAt d error id') := by
  obtain ⟨node, hnode⟩ := hc.exists_node
  obtain ⟨node', hnode'⟩ := hd.exists_node
  exact .found_bind hnode hnode' (Step.alike_fail error.alike_refl _ _)

theorem alike_truthOf (hc : c.ExprAt id e) (hd : d.ExprAt id' e) {v v' : Value}
    (hv : Value.Alike (SameBody c d) v v') :
    Step.Alike (SameBody c d) Eq (truthOf c id v) (truthOf d id' v') := by
  unfold truthOf
  rw [hv.resembles.isInteger_eq, hv.resembles.isTrue_eq, hv.resembles.typeName_eq]
  split
  · exact Step.alike_pure rfl
  · exact alike_failAt hc hd _

end Conditions

/-! ## Expressions -/

namespace Simulates

variable {n : Nat}

theorem evaluate_succ (h : Simulates c d n) {id id' : ExprId} {e : Expr Unit}
    (hc : c.ExprAt id e) (hd : d.ExprAt id' e) :
    Step.Alike (SameBody c d) (Value.Alike (SameBody c d)) (Scriptorium.evaluate c (n + 1) id)
      (Scriptorium.evaluate d (n + 1) id') := by
  rw [Scriptorium.evaluate, Scriptorium.evaluate]
  cases hc with
  | int hnode =>
    cases hd with
    | int hnode' =>
      exact .found_bind hnode hnode'
        (Step.alike_ofExcept rfl (fun _ => Value.isInteger_of_ofLiteral) _ _)
  | str hnode htext =>
    cases hd with
    | str hnode' htext' =>
      exact .found_bind hnode hnode' (.found_bind htext htext' (Step.alike_pure (.str _)))
  | bool hnode =>
    cases hd with
    | bool hnode' => exact .found_bind hnode hnode' (Step.alike_pure (.int _))
  | unary hnode ho =>
    cases hd with
    | unary hnode' ho' =>
      refine .found_bind hnode hnode' ((h.evaluate ho ho').bind fun v v' hv => ?_)
      exact Step.alike_ofExcept (UnaryOp.apply_eq _ hv.resembles)
        (fun _ => UnaryOp.isInteger_of_apply) _ _
  | binary hnode hl hr =>
    cases hd with
    | binary hnode' hl' hr' =>
      refine .found_bind hnode hnode' ((h.evaluate hl hl').bind fun v v' hv => ?_)
      refine (h.evaluate hr hr').bind fun w w' hw => ?_
      exact Step.alike_ofExcept (BinaryOp.apply_eq _ hv.resembles hw.resembles)
        (fun _ => BinaryOp.isInteger_of_apply) _ _
  | logical hnode hl hr =>
    cases hd with
    | logical hnode' hl' hr' =>
      refine .found_bind hnode hnode' ((h.evaluate hl hl').bind fun v v' hv => ?_)
      rw [hv.resembles.isInteger_eq, hv.resembles.typeName_eq, hv.resembles.decidedBy_eq]
      split
      · exact alike_failAt hl hl' _
      split
      · exact Step.alike_pure hv
      · exact h.evaluate hr hr'
  | group hnode hi =>
    cases hd with
    | group hnode' hi' => exact .found_bind hnode hnode' (h.evaluate hi hi')
  | reference hnode hname =>
    cases hd with
    | reference hnode' hname' =>
      exact .found_bind hnode hnode' (.found_bind hname hname' (Step.alike_lookup _ _ _))
  | assign hnode hname hvalue =>
    cases hd with
    | assign hnode' hname' hvalue' =>
      refine .found_bind hnode hnode' ((h.evaluate hvalue hvalue').bind fun v v' hv => ?_)
      exact .found_bind hname hname' (Step.alike_assign _ hv _ _)
  | call hnode hf hargs hes =>
    cases hd with
    | call hnode' hf' hargs' hes' =>
      refine .found_bind hnode hnode' ((h.evaluate hf hf').bind fun v v' hv => ?_)
      refine .found_bind hargs hargs' ((h.evaluateAll hes hes').bind fun vs vs' hvs => ?_)
      exact h.call _ _ hv hvs

theorem evaluateAll_succ (h : Simulates c d n) {ids ids' : List ExprId} {es : List (Expr Unit)}
    (hc : List.Forall₂ c.ExprAt ids es) (hd : List.Forall₂ d.ExprAt ids' es) :
    Step.Alike (SameBody c d) (List.Forall₂ (Value.Alike (SameBody c d)))
      (Scriptorium.evaluateAll c (n + 1) ids) (Scriptorium.evaluateAll d (n + 1) ids') := by
  cases hc with
  | nil =>
    cases hd
    exact Step.alike_pure .nil
  | cons he hes =>
    cases hd with
    | cons he' hes' =>
      rw [Scriptorium.evaluateAll, Scriptorium.evaluateAll]
      refine (h.evaluate he he').bind fun v v' hv => ?_
      refine (h.evaluateAll hes hes').bind fun vs vs' hvs => ?_
      exact Step.alike_pure (.cons hv hvs)

/-! ## Calls -/

theorem call_succ (h : Simulates c d n) {f f' : Value} {args args' : List Value}
    (span span' : Span) (hf : Value.Alike (SameBody c d) f f')
    (hargs : List.Forall₂ (Value.Alike (SameBody c d)) args args') :
    Step.Alike (SameBody c d) (Value.Alike (SameBody c d))
      (Scriptorium.call c (n + 1) f args span) (Scriptorium.call d (n + 1) f' args' span') := by
  unfold Scriptorium.call
  have hsame := hf.resembles
  rw [hsame.arity?_eq, hsame.typeName_eq, hsame.functionName_eq, hargs.length_eq]
  split
  · exact Step.alike_fail (RunError.alike_refl _) _ _
  split
  · exact Step.alike_fail (RunError.alike_refl _) _ _
  cases hf with
  | native f => exact Step.alike_native f.action hargs _ _
  | user hname hparams hclosure hidentity hbody =>
    exact h.callUser _ _ (.user hname hparams hclosure hidentity hbody) hargs
  | int | wide | str => exact Step.alike_fail (RunError.alike_refl _) _ _

theorem callUser_succ (h : Simulates c d n) {f f' : UserFunction} {args args' : List Value}
    (span span' : Span) (hf : Value.Alike (SameBody c d) (.user f) (.user f'))
    (hargs : List.Forall₂ (Value.Alike (SameBody c d)) args args') :
    Step.Alike (SameBody c d) (Value.Alike (SameBody c d))
      (Scriptorium.callUser c (n + 1) f args span)
      (Scriptorium.callUser d (n + 1) f' args' span') := by
  cases hf with
  | user hname hparams hclosure hidentity hbody =>
    rw [Scriptorium.callUser, Scriptorium.callUser, hparams, hclosure]
    refine Step.Alike.inCall hname ((Step.alike_newFrame _ (rel_zip _ hargs)).bind ?_)
    rintro frame _ rfl
    refine ((h.executeBlock hbody).inFrame frame).bind ?_
    rintro _ _ (- | hv)
    · exact Step.alike_pure (.int 0)
    · exact Step.alike_pure hv

/-! ## Statements -/

theorem alike_declare {name name' : NameId} {text : String}
    (hname : c.names.text? name = some text) (hname' : d.names.text? name' = some text)
    {v v' : Value} (hv : Value.Alike (SameBody c d) v v') :
    Step.Alike (SameBody c d) (Completion.Alike (SameBody c d))
      (do
        let name ← Step.found (c.names.text? name)
        Step.define name v
        Step.pure .normal)
      (do
        let name ← Step.found (d.names.text? name')
        Step.define name v'
        Step.pure .normal) :=
  .found_bind hname hname' ((Step.alike_define _ hv).bind fun _ _ _ => Step.alike_pure .normal)

theorem execute_succ (h : Simulates c d n) {id id' : StmtId} {s : Stmt Unit}
    (hc : c.StmtAt id s) (hd : d.StmtAt id' s) :
    Step.Alike (SameBody c d) (Completion.Alike (SameBody c d))
      (Scriptorium.execute c (n + 1) id) (Scriptorium.execute d (n + 1) id') := by
  rw [Scriptorium.execute, Scriptorium.execute]
  cases hc with
  | expression hnode he =>
    cases hd with
    | expression hnode' he' =>
      refine .found_bind hnode hnode' ((h.evaluate he he').bind fun v v' hv => ?_)
      exact Step.alike_pure .normal
  | declare hnode hname hinit =>
    cases hd with
    | declare hnode' hname' hinit' =>
      refine .found_bind hnode hnode' ?_
      cases hinit with
      | none =>
        cases hinit'
        exact alike_declare hname hname' (.int 0)
      | some he =>
        cases hinit' with
        | some he' => exact (h.evaluate he he').bind fun v v' => alike_declare hname hname'
  | block hnode hids hss =>
    cases hd with
    | block hnode' hids' hss' =>
      refine .found_bind hnode hnode' (Step.Alike.inNewFrame (h.executeBlock ?_))
      exact ⟨_, _, _, hids, hss, hids', hss'⟩
  | branch hnode hcond hthen =>
    cases hd with
    | branch hnode' hcond' hthen' =>
      refine .found_bind hnode hnode' ((h.evaluate hcond hcond').bind fun v v' hv => ?_)
      refine (alike_truthOf hcond hcond' hv).bind ?_
      rintro b _ rfl
      split
      · exact h.execute hthen hthen'
      · exact Step.alike_pure .normal
  | branchElse hnode hcond hthen helse =>
    cases hd with
    | branchElse hnode' hcond' hthen' helse' =>
      refine .found_bind hnode hnode' ((h.evaluate hcond hcond').bind fun v v' hv => ?_)
      refine (alike_truthOf hcond hcond' hv).bind ?_
      rintro b _ rfl
      split
      · exact h.execute hthen hthen'
      · exact h.execute helse helse'
  | loop hnode hcond hbody =>
    cases hd with
    | loop hnode' hcond' hbody' =>
      exact .found_bind hnode hnode' (h.executeLoop hcond hcond' hbody hbody')
  | function hnode hname hparams hnames hids hss =>
    cases hd with
    | function hnode' hname' hparams' hnames' hids' hss' =>
      refine .found_bind hnode hnode' (.found_bind hname hname' ?_)
      refine .found_bind hparams hparams' (.found_bind hnames hnames' ?_)
      refine (Step.alike_newFunction fun f i => ?_).bind fun v v' hv => ?_
      · exact .user rfl rfl rfl rfl ⟨_, _, _, hids, hss, hids', hss'⟩
      · exact (Step.alike_define _ hv).bind fun _ _ _ => Step.alike_pure .normal
  | ret hnode hvalue =>
    cases hd with
    | ret hnode' hvalue' =>
      refine .found_bind hnode hnode' ?_
      cases hvalue with
      | none =>
        cases hvalue'
        exact Step.alike_pure (.returned (.int 0))
      | some he =>
        cases hvalue' with
        | some he' => exact (h.evaluate he he').bind fun v v' hv => Step.alike_pure (.returned hv)

theorem executeBlock_succ (h : Simulates c d n) {body body' : Slice StmtId}
    (hbody : SameBody c d body body') :
    Step.Alike (SameBody c d) (Completion.Alike (SameBody c d))
      (Scriptorium.executeBlock c (n + 1) body) (Scriptorium.executeBlock d (n + 1) body') := by
  obtain ⟨ids, ids', ss, hids, hss, hids', hss'⟩ := hbody
  rw [Scriptorium.executeBlock, Scriptorium.executeBlock]
  exact .found_bind hids hids' (h.executeAll hss hss')

theorem executeAll_succ (h : Simulates c d n) {ids ids' : List StmtId} {ss : List (Stmt Unit)}
    (hc : List.Forall₂ c.StmtAt ids ss) (hd : List.Forall₂ d.StmtAt ids' ss) :
    Step.Alike (SameBody c d) (Completion.Alike (SameBody c d))
      (Scriptorium.executeAll c (n + 1) ids) (Scriptorium.executeAll d (n + 1) ids') := by
  cases hc with
  | nil =>
    cases hd
    exact Step.alike_pure .normal
  | cons hs hss =>
    cases hd with
    | cons hs' hss' =>
      rw [Scriptorium.executeAll, Scriptorium.executeAll]
      refine (h.execute hs hs').bind ?_
      rintro _ _ (- | hv)
      · exact h.executeAll hss hss'
      · exact Step.alike_pure (.returned hv)

theorem executeLoop_succ (h : Simulates c d n) {cond cond' : ExprId} {body body' : StmtId}
    {e : Expr Unit} {s : Stmt Unit} (hcond : c.ExprAt cond e) (hcond' : d.ExprAt cond' e)
    (hbody : c.StmtAt body s) (hbody' : d.StmtAt body' s) :
    Step.Alike (SameBody c d) (Completion.Alike (SameBody c d))
      (Scriptorium.executeLoop c (n + 1) cond body)
      (Scriptorium.executeLoop d (n + 1) cond' body') := by
  rw [Scriptorium.executeLoop, Scriptorium.executeLoop]
  refine (h.evaluate hcond hcond').bind fun v v' hv => ?_
  refine (alike_truthOf hcond hcond' hv).bind ?_
  rintro b _ rfl
  split
  · refine ((h.execute hbody hbody').inNewFrame).bind ?_
    rintro _ _ (- | hv)
    · exact h.executeLoop hcond hcond' hbody hbody'
    · exact Step.alike_pure (.returned hv)
  · exact Step.alike_pure .normal

end Simulates

/-! ## Runs -/

/-- With every bound, the interpreter does the same on the two codes. -/
theorem simulates (c d : Code) (fuel : Nat) : Simulates c d fuel := by
  induction fuel with
  | zero =>
    exact ⟨fun _ _ => Step.alike_exhausted, fun _ _ => Step.alike_exhausted,
      fun _ _ _ _ => Step.alike_exhausted, fun _ _ _ _ => Step.alike_exhausted,
      fun _ _ => Step.alike_exhausted, fun _ => Step.alike_exhausted,
      fun _ _ => Step.alike_exhausted, fun _ _ _ _ => Step.alike_exhausted⟩
  | succ n ih =>
    exact ⟨ih.evaluate_succ, ih.evaluateAll_succ, ih.call_succ, ih.callUser_succ,
      ih.execute_succ, ih.executeBlock_succ, ih.executeAll_succ, ih.executeLoop_succ⟩

/-- Programs with the same trees run alike. -/
theorem interpret_alike {ids ids' : List StmtId} {ss : List (Stmt Unit)} (fuel : Nat)
    (hc : List.Forall₂ c.StmtAt ids ss) (hd : List.Forall₂ d.StmtAt ids' ss) :
    Step.Alike (SameBody c d) (fun _ _ => True) (interpret c fuel ids)
      (interpret d fuel ids') := by
  induction hc generalizing ids' with
  | nil =>
    cases hd
    exact Step.alike_pure trivial
  | cons hs _ ih =>
    cases hd with
    | cons hs' hss' =>
      refine ((simulates c d fuel).execute hs hs').bind ?_
      rintro _ _ (- | hv)
      · exact ih hss'
      · exact Step.alike_pure trivial

end Scriptorium
