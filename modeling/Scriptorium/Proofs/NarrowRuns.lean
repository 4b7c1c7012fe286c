import Scriptorium.Proofs.FormattedRuns
import Scriptorium.Proofs.FrameGraph
import Scriptorium.Proofs.NarrowMachines

/-!
# Runs without wide integers

The run of a narrow program comes to narrow nodes only, on machines whose variables are
narrow, and it passes on narrow values.  So no wide integer is ever bound, computed or
printed, whatever the limit on the calls is.

* `NarrowAll`, `narrowAll` — the functions of the interpreter leave narrow variables and
  answer narrow values;
* `Task.Narrow`, `Starts.narrow`, `Visits.narrow` — narrow tasks start narrow tasks;
* `run_narrow` — what this means for the run of a text.
-/

namespace Scriptorium

variable {code : Code} {fuel : Nat} {m : Machine}

/-! ## The interpreter -/

/-- The value of a `return` is narrow. -/
def Completion.Narrow (code : Code) : Completion → Prop
  | .normal => True
  | .returned v => v.Narrow code

/-- With the bound `fuel`, the functions of the interpreter keep variables narrow and answer
narrow values, if they come to narrow nodes only. -/
structure NarrowAll (code : Code) (fuel : Nat) : Prop where
  evaluate : ∀ id m, m.env.Narrow code → code.NarrowExpr id →
    (evaluate code fuel id m).Narrow code (Value.Narrow code)
  evaluateAll : ∀ ids m, m.env.Narrow code → (∀ id ∈ ids, code.NarrowExpr id) →
    (evaluateAll code fuel ids m).Narrow code fun vs => ∀ v ∈ vs, v.Narrow code
  call : ∀ f args span m, m.env.Narrow code → f.Narrow code → (∀ v ∈ args, v.Narrow code) →
    (call code fuel f args span m).Narrow code (Value.Narrow code)
  callUser : ∀ f args span m, m.env.Narrow code → code.NarrowStmts f.body →
    (∀ v ∈ args, v.Narrow code) →
    (callUser code fuel f args span m).Narrow code (Value.Narrow code)
  execute : ∀ id m, m.env.Narrow code → code.NarrowStmt id →
    (execute code fuel id m).Narrow code (Completion.Narrow code)
  executeBlock : ∀ body m, m.env.Narrow code → code.NarrowStmts body →
    (executeBlock code fuel body m).Narrow code (Completion.Narrow code)
  executeAll : ∀ ids m, m.env.Narrow code → (∀ id ∈ ids, code.NarrowStmt id) →
    (executeAll code fuel ids m).Narrow code (Completion.Narrow code)
  executeLoop : ∀ cond body m, m.env.Narrow code → code.NarrowExpr cond →
    code.NarrowStmt body →
    (executeLoop code fuel cond body m).Narrow code (Completion.Narrow code)

theorem narrow_truthOf (hm : m.env.Narrow code) (cond : ExprId) (v : Value) :
    (truthOf code cond v m).Narrow code fun _ => True := by
  unfold truthOf
  split
  · exact ⟨hm, trivial⟩
  · exact .found_bind fun _ _ => .fail hm _ _

namespace NarrowAll

theorem evaluate_succ (h : NarrowAll code fuel) (id : ExprId) (hm : m.env.Narrow code)
    (hid : code.NarrowExpr id) :
    (Scriptorium.evaluate code (fuel + 1) id m).Narrow code (Value.Narrow code) := by
  rw [Scriptorium.evaluate]
  refine .found_bind fun node hnode => ?_
  have hkind := hid.kind hnode
  obtain ⟨kind, span⟩ := node
  cases kind with
  | literal value =>
    cases value with
    | int n => exact .ofExcept hm fun v hv => .of_ofLiteral hkind hv
    | str text => exact .found_bind fun text _ => ⟨hm, trivial⟩
    | bool b => exact ⟨hm, trivial⟩
  | group inner => exact h.evaluate inner m hm hkind
  | reference name =>
    refine .found_bind fun text htext => .lookup hm ?_ span
    rintro rfl
    exact hkind htext
  | assign name nameSpan value =>
    exact .bind (h.evaluate value m hm hkind) fun v m₁ hm₁ hv =>
      .found_bind fun text _ => .assign hm₁ text hv nameSpan
  | unary op x =>
    exact .bind (h.evaluate x m hm hkind) fun v m₁ hm₁ hv =>
      .ofExcept hm₁ fun w hw => hv.unary hw
  | binary op l r =>
    exact .bind (h.evaluate l m hm hkind.1) fun v m₁ hm₁ hv =>
      .bind (h.evaluate r m₁ hm₁ hkind.2) fun w m₂ hm₂ hw =>
        .ofExcept hm₂ fun x hx => hv.binary hw hx
  | logical op l r =>
    refine .bind (h.evaluate l m hm hkind.1) fun v m₁ hm₁ hv => ?_
    split
    · exact .found_bind fun _ _ => .fail hm₁ _ _
    split
    · exact ⟨hm₁, hv⟩
    · exact h.evaluate r m₁ hm₁ hkind.2
  | call callee args =>
    refine .bind (h.evaluate callee m hm hkind.1) fun f m₁ hm₁ hf =>
      .found_bind fun ids hids => ?_
    exact .bind (h.evaluateAll ids m₁ hm₁ (hkind.2 ids hids)) fun vs m₂ hm₂ hargs =>
      h.call f vs span m₂ hm₂ hf hargs

theorem evaluateAll_succ (h : NarrowAll code fuel) (ids : List ExprId) (hm : m.env.Narrow code)
    (hids : ∀ id ∈ ids, code.NarrowExpr id) :
    (Scriptorium.evaluateAll code (fuel + 1) ids m).Narrow code
      fun vs => ∀ v ∈ vs, v.Narrow code := by
  cases ids with
  | nil => exact ⟨hm, by simp⟩
  | cons id ids =>
    rw [Scriptorium.evaluateAll]
    obtain ⟨hid, hids⟩ := List.forall_mem_cons.1 hids
    refine .bind (h.evaluate id m hm hid) fun v m₁ hm₁ hv => ?_
    exact .bind (h.evaluateAll ids m₁ hm₁ hids) fun vs m₂ hm₂ hvs =>
      ⟨hm₂, List.forall_mem_cons.2 ⟨hv, hvs⟩⟩

theorem call_succ (h : NarrowAll code fuel) (f : Value) (args : List Value) (span : Span)
    (hm : m.env.Narrow code) (hf : f.Narrow code) (hargs : ∀ v ∈ args, v.Narrow code) :
    (Scriptorium.call code (fuel + 1) f args span m).Narrow code (Value.Narrow code) := by
  unfold Scriptorium.call
  cases f with
  | native f =>
    simp only [Value.arity?]
    split
    · exact .fail hm _ _
    · exact .native hm hf hargs span
  | user f =>
    simp only [Value.arity?]
    split
    · exact .fail hm _ _
    · exact h.callUser f args span m hm hf hargs
  | int n => exact .fail hm _ _
  | wide n => exact .fail hm _ _
  | str text => exact .fail hm _ _

theorem callUser_succ (h : NarrowAll code fuel) (f : UserFunction) (args : List Value)
    (span : Span) (hm : m.env.Narrow code) (hf : code.NarrowStmts f.body)
    (hargs : ∀ v ∈ args, v.Narrow code) :
    (Scriptorium.callUser code (fuel + 1) f args span m).Narrow code (Value.Narrow code) := by
  rw [Scriptorium.callUser_succ]
  refine .inCall hm ?_
  refine .bind (R := fun _ => True) (x := Step.newFrame f.closure (f.params.zip args))
    ⟨Machine.narrow_called hm f hargs span, trivial⟩ fun frame m₁ hm₁ _ => ?_
  refine .bind (.inFrame (h.executeBlock f.body _ hm₁ hf)) fun completion m₂ hm₂ hc => ?_
  cases completion with
  | normal => exact ⟨hm₂, trivial⟩
  | returned v => exact ⟨hm₂, hc⟩

theorem execute_succ (h : NarrowAll code fuel) (id : StmtId) (hm : m.env.Narrow code)
    (hid : code.NarrowStmt id) :
    (Scriptorium.execute code (fuel + 1) id m).Narrow code (Completion.Narrow code) := by
  have hdefine : ∀ text v m₁, m₁.env.Narrow code → v.Narrow code →
      ((do Step.define text v; Step.pure Completion.normal : Step Completion) m₁).Narrow code
        (Completion.Narrow code) := fun text v m₁ hm₁ hv =>
    .bind (.define hm₁ text hv) fun _ m₂ hm₂ _ => ⟨hm₂, trivial⟩
  rw [Scriptorium.execute]
  refine .found_bind fun node hnode => ?_
  have hkind := hid.kind hnode
  obtain ⟨kind, span⟩ := node
  cases kind with
  | expression x => exact .bind (h.evaluate x m hm hkind) fun v m₁ hm₁ _ => ⟨hm₁, trivial⟩
  | declare name init =>
    cases init with
    | none =>
      have hzero : (Step.pure Value.zero m).Narrow code (Value.Narrow code) := ⟨hm, trivial⟩
      exact .bind hzero fun v m₁ hm₁ hv => .found_bind fun text _ => hdefine text v m₁ hm₁ hv
    | some x =>
      exact .bind (h.evaluate x m hm (hkind x rfl)) fun v m₁ hm₁ hv =>
        .found_bind fun text _ => hdefine text v m₁ hm₁ hv
  | block body => exact .inNewFrame (h.executeBlock body _ (Machine.narrow_nested hm) hkind)
  | branch cond thenBranch elseBranch =>
    refine .bind (h.evaluate cond m hm hkind.1) fun v m₁ hm₁ _ => ?_
    refine .bind (narrow_truthOf hm₁ cond v) fun b m₂ hm₂ _ => ?_
    split
    · exact h.execute thenBranch m₂ hm₂ hkind.2.1
    · cases elseBranch with
      | none => exact ⟨hm₂, trivial⟩
      | some other => exact h.execute other m₂ hm₂ (hkind.2.2 other rfl)
  | loop cond body => exact h.executeLoop cond body m hm hkind.1 hkind.2
  | function name params body =>
    exact .found_bind fun text _ => .found_bind fun _ _ => .found_bind fun _ _ =>
      hdefine text _ { m with nextIdentity := m.nextIdentity + 1 } hm hkind
  | ret value =>
    cases value with
    | none => exact ⟨hm, trivial⟩
    | some x => exact .bind (h.evaluate x m hm (hkind x rfl)) fun v m₁ hm₁ hv => ⟨hm₁, hv⟩

theorem executeBlock_succ (h : NarrowAll code fuel) (body : Slice StmtId)
    (hm : m.env.Narrow code) (hbody : code.NarrowStmts body) :
    (Scriptorium.executeBlock code (fuel + 1) body m).Narrow code (Completion.Narrow code) := by
  rw [Scriptorium.executeBlock]
  exact .found_bind fun ids hids => h.executeAll ids m hm (hbody ids hids)

theorem executeAll_succ (h : NarrowAll code fuel) (ids : List StmtId) (hm : m.env.Narrow code)
    (hids : ∀ id ∈ ids, code.NarrowStmt id) :
    (Scriptorium.executeAll code (fuel + 1) ids m).Narrow code (Completion.Narrow code) := by
  cases ids with
  | nil => exact ⟨hm, trivial⟩
  | cons id ids =>
    rw [Scriptorium.executeAll]
    obtain ⟨hid, hids⟩ := List.forall_mem_cons.1 hids
    refine .bind (h.execute id m hm hid) fun completion m₁ hm₁ hc => ?_
    cases completion with
    | normal => exact h.executeAll ids m₁ hm₁ hids
    | returned v => exact ⟨hm₁, hc⟩

theorem executeLoop_succ (h : NarrowAll code fuel) (cond : ExprId) (body : StmtId)
    (hm : m.env.Narrow code) (hcond : code.NarrowExpr cond) (hbody : code.NarrowStmt body) :
    (Scriptorium.executeLoop code (fuel + 1) cond body m).Narrow code
      (Completion.Narrow code) := by
  rw [Scriptorium.executeLoop]
  refine .bind (h.evaluate cond m hm hcond) fun v m₁ hm₁ _ => ?_
  refine .bind (narrow_truthOf hm₁ cond v) fun b m₂ hm₂ _ => ?_
  split
  · refine .bind (.inNewFrame (h.execute body _ (Machine.narrow_nested hm₂) hbody))
      fun completion m₃ hm₃ hc => ?_
    cases completion with
    | normal => exact h.executeLoop cond body m₃ hm₃ hcond hbody
    | returned v => exact ⟨hm₃, hc⟩
  · exact ⟨hm₂, trivial⟩

end NarrowAll

/-- With every bound, the functions of the interpreter keep variables narrow. -/
theorem narrowAll (code : Code) (fuel : Nat) : NarrowAll code fuel := by
  induction fuel with
  | zero =>
    exact ⟨fun _ _ _ _ => trivial, fun _ _ _ _ => trivial, fun _ _ _ _ _ _ _ => trivial,
      fun _ _ _ _ _ _ _ => trivial, fun _ _ _ _ => trivial, fun _ _ _ _ => trivial,
      fun _ _ _ _ => trivial, fun _ _ _ _ _ _ => trivial⟩
  | succ fuel ih =>
    exact ⟨fun id _ => ih.evaluate_succ id, fun ids _ => ih.evaluateAll_succ ids,
      fun f args span _ => ih.call_succ f args span,
      fun f args span _ => ih.callUser_succ f args span, fun id _ => ih.execute_succ id,
      fun body _ => ih.executeBlock_succ body, fun ids _ => ih.executeAll_succ ids,
      fun cond body _ => ih.executeLoop_succ cond body⟩

theorem narrow_interpret (code : Code) (fuel : Nat) (stmts : List StmtId)
    (hm : m.env.Narrow code) (hstmts : ∀ id ∈ stmts, code.NarrowStmt id) :
    (interpret code fuel stmts m).Narrow code fun _ => True := by
  induction stmts generalizing m with
  | nil => exact ⟨hm, trivial⟩
  | cons id ids ih =>
    rw [interpret]
    obtain ⟨hid, hids⟩ := List.forall_mem_cons.1 hstmts
    refine .bind ((narrowAll code fuel).execute id m hm hid) fun completion m₁ hm₁ _ => ?_
    cases completion with
    | normal => exact ih hm₁ hids
    | returned v => exact ⟨hm₁, trivial⟩

/-! ## Tasks -/

/-- The nodes and values of the task are narrow. -/
def Task.Narrow (code : Code) : Task → Prop
  | .evaluate id => code.NarrowExpr id
  | .evaluateAll ids => ∀ id ∈ ids, code.NarrowExpr id
  | .call f args _ => f.Narrow code ∧ ∀ v ∈ args, v.Narrow code
  | .callUser f args _ => code.NarrowStmts f.body ∧ ∀ v ∈ args, v.Narrow code
  | .execute id => code.NarrowStmt id
  | .executeBlock body => code.NarrowStmts body
  | .executeAll ids | .interpret ids => ∀ id ∈ ids, code.NarrowStmt id
  | .executeLoop cond body => code.NarrowExpr cond ∧ code.NarrowStmt body

theorem Outcome.Narrow.of_done {α : Type} {x : Step α} {R : α → Prop} {a : α} {m' : Machine}
    (h : (x m).Narrow code R) (hx : x m = .done a m') : m'.env.Narrow code ∧ R a := by
  rw [hx] at h
  exact h

theorem Outcome.Narrow.of_machine? {α : Type} {R : α → Prop} {o : Outcome α} {m' : Machine}
    (h : o.Narrow code R) (ho : o.machine? = some m') : m'.env.Narrow code := by
  cases o with
  | done a m =>
    cases ho
    exact h.1
  | failed e m =>
    cases ho
    exact h
  | stuck => cases ho
  | exhausted => cases ho

/-- A narrow task leaves narrow variables. -/
theorem Task.Ends.narrow {t : Task} {m' : Machine} (h : t.Ends code m m')
    (hm : m.env.Narrow code) (ht : t.Narrow code) : m'.env.Narrow code := by
  obtain ⟨fuel, h⟩ := h
  have hall := narrowAll code fuel
  cases t with
  | evaluate id => exact (hall.evaluate id m hm ht).of_machine? h
  | evaluateAll ids => exact (hall.evaluateAll ids m hm ht).of_machine? h
  | call f args span => exact (hall.call f args span m hm ht.1 ht.2).of_machine? h
  | callUser f args span => exact (hall.callUser f args span m hm ht.1 ht.2).of_machine? h
  | execute id => exact (hall.execute id m hm ht).of_machine? h
  | executeBlock body => exact (hall.executeBlock body m hm ht).of_machine? h
  | executeAll ids => exact (hall.executeAll ids m hm ht).of_machine? h
  | executeLoop cond body => exact (hall.executeLoop cond body m hm ht.1 ht.2).of_machine? h
  | interpret stmts => exact (narrow_interpret code fuel stmts hm ht).of_machine? h

theorem ExprKind.Narrow.operand {kind : ExprKind} {x : ExprId} (h : kind.Narrow code)
    (hx : kind.operand? = some x) : code.NarrowExpr x := by
  cases kind with
  | literal value => cases hx
  | reference name => cases hx
  | unary op y => cases hx; exact h
  | group y => cases hx; exact h
  | assign name span y => cases hx; exact h
  | binary op l r => cases hx; exact h.1
  | logical op l r => cases hx; exact h.1
  | call callee args => cases hx; exact h.1

theorem StmtKind.Narrow.operand {kind : StmtKind} {x : ExprId} (h : kind.Narrow code)
    (hx : kind.operand? = some x) : code.NarrowExpr x := by
  cases kind with
  | expression y => cases hx; exact h
  | branch cond t e => cases hx; exact h.1
  | declare name init => cases hx; exact h x rfl
  | ret value => cases hx; exact h x rfl
  | block body => cases hx
  | loop cond body => cases hx
  | function name params body => cases hx

/-- A narrow task starts narrow tasks, with narrow variables. -/
theorem Starts.narrow {t t' : Task} {m' : Machine} (h : Starts code t m t' m')
    (hm : m.env.Narrow code) (ht : t.Narrow code) : m'.env.Narrow code ∧ t'.Narrow code := by
  have evaluated : ∀ {fuel id n v n'}, evaluate code fuel id n = .done v n' →
      n.env.Narrow code → code.NarrowExpr id → n'.env.Narrow code ∧ v.Narrow code :=
    fun hv hn hid => ((narrowAll code _).evaluate _ _ hn hid).of_done hv
  have executed : ∀ {fuel id c m'}, execute code fuel id m = .done c m' → code.NarrowStmt id →
      m'.env.Narrow code := fun hc hid => (((narrowAll code _).execute _ _ hm hid).of_done hc).1
  cases h with
  | operand hnode hx => exact ⟨hm, (Code.NarrowExpr.kind ht hnode).operand hx⟩
  | binaryRight hnode hl =>
    have hkind := Code.NarrowExpr.kind ht hnode
    exact ⟨(evaluated hl hm hkind.1).1, hkind.2⟩
  | logicalRight hnode hl =>
    have hkind := Code.NarrowExpr.kind ht hnode
    exact ⟨(evaluated hl hm hkind.1).1, hkind.2⟩
  | arguments hnode hf hids =>
    have hkind := Code.NarrowExpr.kind ht hnode
    exact ⟨(evaluated hf hm hkind.1).1, hkind.2 _ hids⟩
  | call hnode hf hids hvs =>
    have hkind := Code.NarrowExpr.kind ht hnode
    obtain ⟨hm₁, hf⟩ := evaluated hf hm hkind.1
    obtain ⟨hm₂, hargs⟩ := ((narrowAll code _).evaluateAll _ _ hm₁ (hkind.2 _ hids)).of_done hvs
    exact ⟨hm₂, hf, hargs⟩
  | headExpr => exact ⟨hm, ht _ List.mem_cons_self⟩
  | tailExprs hv =>
    obtain ⟨hid, hids⟩ := List.forall_mem_cons.1 ht
    exact ⟨(evaluated hv hm hid).1, hids⟩
  | user => exact ⟨hm, ht⟩
  | body => exact ⟨Machine.narrow_called hm _ ht.2 _, ht.1⟩
  | expression hnode hx => exact ⟨hm, (Code.NarrowStmt.kind ht hnode).operand hx⟩
  | block hnode => exact ⟨Machine.narrow_nested hm, Code.NarrowStmt.kind ht hnode⟩
  | thenBranch hnode hv =>
    have hkind := Code.NarrowStmt.kind ht hnode
    exact ⟨(evaluated hv hm hkind.1).1, hkind.2.1⟩
  | elseBranch hnode hv =>
    have hkind := Code.NarrowStmt.kind ht hnode
    exact ⟨(evaluated hv hm hkind.1).1, hkind.2.2 _ rfl⟩
  | loop hnode => exact ⟨hm, Code.NarrowStmt.kind ht hnode⟩
  | statements hids => exact ⟨hm, ht _ hids⟩
  | headStmt => exact ⟨hm, ht _ List.mem_cons_self⟩
  | tailStmts hc =>
    obtain ⟨hid, hids⟩ := List.forall_mem_cons.1 ht
    exact ⟨executed hc hid, hids⟩
  | condition => exact ⟨hm, ht.1⟩
  | round hv => exact ⟨Machine.narrow_nested (evaluated hv hm ht.1).1, ht.2⟩
  | @again cond body _ _ _ _ fuel hv _ hround =>
    have hm₁ := (evaluated hv hm ht.1).1
    have hbody := (narrowAll code fuel).execute body _ (Machine.narrow_nested hm₁) ht.2
    exact ⟨((Outcome.Narrow.inNewFrame hbody).of_done hround).1, ht⟩
  | headTop => exact ⟨hm, ht _ List.mem_cons_self⟩
  | tailTop hc =>
    obtain ⟨hid, hids⟩ := List.forall_mem_cons.1 ht
    exact ⟨executed hc hid, hids⟩

/-- A narrow task comes to narrow tasks only, with narrow variables. -/
theorem Visits.narrow {t t' : Task} {m' : Machine} (h : Visits code t m t' m')
    (hm : m.env.Narrow code) (ht : t.Narrow code) : m'.env.Narrow code ∧ t'.Narrow code := by
  induction h with
  | start => exact ⟨hm, ht⟩
  | step _ hstarts ih => exact hstarts.narrow ih.1 ih.2

theorem Reached.narrow {t : Task} {n : Machine} (h : Reached code t m n)
    (hm : m.env.Narrow code) (ht : t.Narrow code) : n.env.Narrow code := by
  cases h with
  | started hvisits => exact (hvisits.narrow hm ht).1
  | ended hvisits hends =>
    obtain ⟨hm', ht'⟩ := hvisits.narrow hm ht
    exact hends.narrow hm' ht'

/-! ## Whole runs -/

/-- The statements of a narrow program are narrow. -/
theorem narrow_interpret_start {source : String}
    (h : Stmt.areNarrow (parse source).program = true) :
    (Task.interpret (parse source).module).Narrow (parse source).code := by
  obtain ⟨trees, htrees, -, -⟩ := parse_sound source
  have hall : Stmt.areNarrow trees = true := by
    rw [← htrees.stmtsOf, Stmt.areNarrow_erase]
    exact h
  rw [Stmt.areNarrow_eq_all] at hall
  exact Code.forall_of_forall₂ htrees.stmtAt hall

/-- If no literal of a program needs more than 32 bits and no reference asks for `clock`,
then in no state of its run, whatever the limit on the calls and the clock are, is a variable
bound to a wide integer, no expression has one as its value, no call answers one, and every
integer that is printed lies in the range of 32 bits. -/
theorem run_narrow {source : String} (h : Stmt.areNarrow (parse source).program = true)
    (settings : Settings) :
    let code := (parse source).code
    let run := Task.interpret (parse source).module
    (∀ m, Reached code run settings.machine m → ∀ f frame, m.env.frame? f = some frame →
      ∀ b ∈ frame.bindings, b.2.isWide = false) ∧
    (∀ id m fuel v m', Visits code run settings.machine (.evaluate id) m →
      evaluate code fuel id m = .done v m' → v.isWide = false) ∧
    (∀ callee args span m fuel v m', Visits code run settings.machine (.call callee args span) m →
      call code fuel callee args span m = .done v m' → v.isWide = false) ∧
    ∀ f args span m, Visits code run settings.machine (.call (.native f) args span) m →
      ∀ v ∈ args, v.isWide = false ∧
        ∀ n, v.toInt? = some n → Width.narrow.least ≤ n ∧ n ≤ Width.narrow.greatest := by
  intro code run
  have hm₀ : settings.machine.env.Narrow code := Machine.narrow_start _ _ _
  have ht₀ : run.Narrow code := narrow_interpret_start h
  refine ⟨fun m hreached f frame hframe b hb => ?_, fun id m fuel v m' hvisits hv => ?_,
    fun callee args span m fuel v m' hvisits hv => ?_, fun f args span m hvisits v hv => ?_⟩
  · exact (hreached.narrow hm₀ ht₀ f frame hframe b hb).isWide
  · obtain ⟨hm, hid⟩ := hvisits.narrow hm₀ ht₀
    exact (((narrowAll code fuel).evaluate id m hm hid).of_done hv).2.isWide
  · obtain ⟨hm, hcallee, hargs⟩ := hvisits.narrow hm₀ ht₀
    exact (((narrowAll code fuel).call callee args span m hm hcallee hargs).of_done hv).2.isWide
  · obtain ⟨-, -, hargs⟩ := hvisits.narrow hm₀ ht₀
    exact ⟨(hargs v hv).isWide, fun n hn => (hargs v hv).bounds hn⟩

/-- A sum at the upper end of the range, under a variable that is named like the clock. -/
theorem run_narrow_sum :
    Stmt.areNarrow (parse "var x = 2147483646 + 1; clock = x; print(x - 1);").program = true ∧
    ∃ m, runSource ⟨some 9, .empty, .fixed 0, 60⟩
        "var x = 2147483646 + 1; clock = x; print(x - 1);" = .finished m ∧
      ∀ f frame, m.env.frame? f = some frame → ∀ b ∈ frame.bindings, b.2.isWide = false := by
  have hnarrow : Stmt.areNarrow
      (parse "var x = 2147483646 + 1; clock = x; print(x - 1);").program = true := by
    decide +kernel
  have hsucceeded : (runSource ⟨some 9, .empty, .fixed 0, 60⟩
      "var x = 2147483646 + 1; clock = x; print(x - 1);").succeeded = true := by decide +kernel
  obtain ⟨m, hrun⟩ := RunResult.exists_of_succeeded hsucceeded
  obtain ⟨hbound, -⟩ := run_narrow hnarrow ⟨some 9, .empty, .fixed 0, 60⟩
  exact ⟨hnarrow, m, hrun, hbound m (reached_runSource (.inl hrun))⟩

end Scriptorium
