import Scriptorium.Proofs.RunOrder

/-!
# The parts of a task

The tasks that a task starts, put together in the way in which the interpreter puts the task
together: first this task, then, where it ended with a value, those that depend on the value.
A statement about all parts of a task can then be proved along the computation, part by part.

* `Tasks` — some tasks, each on a machine, with `Tasks.only`, `Tasks.given` and `Tasks.andThen`
  to put them together;
* `Task.Parts` — the parts of a task, by its form;
* `starts_iff` — the parts of a task are the tasks that it starts.
-/

namespace Scriptorium

variable {α β : Type} {code : Code}

/-! ## Tasks on machines -/

/-- Some tasks, each on a machine. -/
def Tasks : Type := Task → Machine → Prop

namespace Tasks

/-- No task. -/
def none : Tasks := fun _ _ => False

/-- One task on one machine. -/
def only (t : Task) (m : Machine) : Tasks := fun u n => u = t ∧ n = m

/-- The tasks, if the condition holds. -/
def given (p : Prop) (S : Tasks) : Tasks := fun u n => p ∧ S u n

/-- The tasks for what is held, if something is. -/
def held (held : Option α) (S : α → Tasks) : Tasks := fun u n => ∃ a, held = some a ∧ S a u n

/-- The first tasks and, if the computation has a result with some bound, those after it. -/
def andThen (S : Tasks) (x : Nat → Step α) (m : Machine) (next : α → Machine → Tasks) : Tasks :=
  fun u n => S u n ∨ ∃ fuel a m', x fuel m = .done a m' ∧ next a m' u n

/-- The tasks after a statement, if it does not end the call. -/
def unlessReturned (S : Tasks) : Completion → Tasks
  | .normal => S
  | .returned _ => none

theorem andThen_first {S : Tasks} {x : Nat → Step α} {m : Machine} {next : α → Machine → Tasks}
    {u : Task} {n : Machine} (h : S u n) : S.andThen x m next u n := .inl h

theorem andThen_next {S : Tasks} {x : Nat → Step α} {m m' : Machine} {next : α → Machine → Tasks}
    {u : Task} {n : Machine} {fuel : Nat} {a : α} (h : x fuel m = .done a m')
    (hnext : next a m' u n) : S.andThen x m next u n := .inr ⟨fuel, a, m', h, hnext⟩

end Tasks

/-! ## Parts -/

/-- The parts of an expression at a place, on a machine. -/
def ExprKind.Parts (code : Code) (m : Machine) (span : Span) : ExprKind → Tasks
  | .literal _ | .reference _ => .none
  | .group x | .unary _ x | .assign _ _ x => .only (.evaluate x) m
  | .binary _ l r =>
      (Tasks.only (.evaluate l) m).andThen (evaluate code · l) m fun _ => .only (.evaluate r)
  | .logical op l r =>
      (Tasks.only (.evaluate l) m).andThen (evaluate code · l) m fun v m₁ =>
        .given (v.isInteger = true ∧ op.decidedBy v = false) (.only (.evaluate r) m₁)
  | .call callee args =>
      (Tasks.only (.evaluate callee) m).andThen (evaluate code · callee) m fun f m₁ =>
        .held (code.arena.exprsIn? args) fun ids =>
          (Tasks.only (.evaluateAll ids) m₁).andThen (evaluateAll code · ids) m₁ fun vs =>
            .only (.call f vs span)

/-- The parts of a statement on a machine. -/
def StmtKind.Parts (code : Code) (m : Machine) : StmtKind → Tasks
  | .expression x | .declare _ (some x) | .ret (some x) => .only (.evaluate x) m
  | .declare _ none | .ret none | .function .. => .none
  | .block body => .only (.executeBlock body) m.nested
  | .branch cond thenBranch elseBranch =>
      (Tasks.only (.evaluate cond) m).andThen (evaluate code · cond) m fun v m₁ =>
        .given (v.isInteger = true) (if v.isTrue then .only (.execute thenBranch) m₁
          else .held elseBranch fun other => .only (.execute other) m₁)
  | .loop cond body => .only (.executeLoop cond body) m

/-- The parts of a task on a machine. -/
def Task.Parts (code : Code) (m : Machine) : Task → Tasks
  | .evaluate id => .held (code.arena.expr? id) fun node => node.kind.Parts code m node.span
  | .evaluateAll [] => .none
  | .evaluateAll (id :: ids) =>
      (Tasks.only (.evaluate id) m).andThen (Scriptorium.evaluate code · id) m fun _ =>
        .only (.evaluateAll ids)
  | .call (.user f) args span =>
      .given (args.length = f.params.length) (.only (.callUser f args span) m)
  | .call .. => .none
  | .callUser f args span =>
      .given (m.calls.limitReached? = none) (.only (.executeBlock f.body) (m.called f args span))
  | .execute id => .held (code.arena.stmt? id) fun node => node.kind.Parts code m
  | .executeBlock body => .held (code.arena.stmtsIn? body) fun ids => .only (.executeAll ids) m
  | .executeAll [] => .none
  | .executeAll (id :: ids) =>
      (Tasks.only (.execute id) m).andThen (Scriptorium.execute code · id) m fun c m₁ =>
        Tasks.unlessReturned (.only (.executeAll ids) m₁) c
  | .executeLoop cond body =>
      (Tasks.only (.evaluate cond) m).andThen (Scriptorium.evaluate code · cond) m fun v m₁ =>
        .given (v.isInteger = true) (.given (v.isTrue = true)
          ((Tasks.only (.execute body) m₁.nested).andThen
            (fun fuel => Step.inNewFrame (Scriptorium.execute code fuel body)) m₁ fun c m₂ =>
              Tasks.unlessReturned (.only (.executeLoop cond body) m₂) c))
  | .interpret [] => .none
  | .interpret (id :: ids) =>
      (Tasks.only (.execute id) m).andThen (Scriptorium.execute code · id) m fun c m₁ =>
        Tasks.unlessReturned (.only (.interpret ids) m₁) c

/-! ## Parts and started tasks -/

section Parts

variable {t u : Task} {m n : Machine}

/-- What an expression computes first is one of its parts. -/
theorem ExprKind.parts_operand {kind : ExprKind} {span : Span} {x : ExprId}
    (h : kind.operand? = some x) : kind.Parts code m span (.evaluate x) m := by
  cases kind with
  | literal value => cases h
  | reference name => cases h
  | group y => cases h; exact ⟨rfl, rfl⟩
  | unary op y => cases h; exact ⟨rfl, rfl⟩
  | assign name nameSpan y => cases h; exact ⟨rfl, rfl⟩
  | binary op l r => cases h; exact .inl ⟨rfl, rfl⟩
  | logical op l r => cases h; exact .inl ⟨rfl, rfl⟩
  | call callee args => cases h; exact .inl ⟨rfl, rfl⟩

theorem StmtKind.parts_operand {kind : StmtKind} {x : ExprId} (h : kind.operand? = some x) :
    kind.Parts code m (.evaluate x) m := by
  cases kind with
  | expression y => cases h; exact ⟨rfl, rfl⟩
  | declare name init => cases h; exact ⟨rfl, rfl⟩
  | branch cond thenBranch elseBranch => cases h; exact .inl ⟨rfl, rfl⟩
  | ret value => cases h; exact ⟨rfl, rfl⟩
  | block body => cases h
  | loop cond body => cases h
  | function name params body => cases h

/-- What a task starts is one of its parts. -/
theorem Starts.parts (h : Starts code t m u n) : t.Parts code m u n := by
  cases h with
  | operand hnode hx => exact ⟨_, hnode, ExprKind.parts_operand hx⟩
  | binaryRight hnode hl => exact ⟨_, hnode, Tasks.andThen_next hl ⟨rfl, rfl⟩⟩
  | logicalRight hnode hl hinteger hdecided =>
    exact ⟨_, hnode, Tasks.andThen_next hl ⟨⟨hinteger, hdecided⟩, rfl, rfl⟩⟩
  | arguments hnode hf hids =>
    exact ⟨_, hnode, Tasks.andThen_next hf ⟨_, hids, Tasks.andThen_first ⟨rfl, rfl⟩⟩⟩
  | call hnode hf hids hvs =>
    exact ⟨_, hnode, Tasks.andThen_next hf ⟨_, hids, Tasks.andThen_next hvs ⟨rfl, rfl⟩⟩⟩
  | headExpr => exact Tasks.andThen_first ⟨rfl, rfl⟩
  | tailExprs hv => exact Tasks.andThen_next hv ⟨rfl, rfl⟩
  | user hlength => exact ⟨hlength, rfl, rfl⟩
  | body hlimit => exact ⟨hlimit, rfl, rfl⟩
  | expression hnode hx => exact ⟨_, hnode, StmtKind.parts_operand hx⟩
  | block hnode => exact ⟨_, hnode, rfl, rfl⟩
  | thenBranch hnode hv htrue =>
    refine ⟨_, hnode, Tasks.andThen_next hv ⟨Value.isInteger_of_isTrue htrue, ?_⟩⟩
    rw [if_pos htrue]
    exact ⟨rfl, rfl⟩
  | elseBranch hnode hv hinteger hfalse =>
    refine ⟨_, hnode, Tasks.andThen_next hv ⟨hinteger, ?_⟩⟩
    rw [if_neg (by simp [hfalse])]
    exact ⟨_, rfl, rfl, rfl⟩
  | loop hnode => exact ⟨_, hnode, rfl, rfl⟩
  | statements hids => exact ⟨_, hids, rfl, rfl⟩
  | headStmt => exact Tasks.andThen_first ⟨rfl, rfl⟩
  | tailStmts hv => exact Tasks.andThen_next hv ⟨rfl, rfl⟩
  | condition => exact Tasks.andThen_first ⟨rfl, rfl⟩
  | round hv htrue =>
    exact Tasks.andThen_next hv
      ⟨Value.isInteger_of_isTrue htrue, htrue, Tasks.andThen_first ⟨rfl, rfl⟩⟩
  | again hv htrue hround =>
    exact Tasks.andThen_next hv
      ⟨Value.isInteger_of_isTrue htrue, htrue, Tasks.andThen_next hround ⟨rfl, rfl⟩⟩
  | headTop => exact Tasks.andThen_first ⟨rfl, rfl⟩
  | tailTop hv => exact Tasks.andThen_next hv ⟨rfl, rfl⟩

/-- Of two computations one after the other, both have their results with one bound. -/
theorem Step.exists_common_bound {x : Nat → Step α} {y : Nat → Step β}
    (hx : ∀ {fuel fuel'} limit, fuel ≤ fuel' → Step.Truncates limit (x fuel) (x fuel'))
    (hy : ∀ {fuel fuel'} limit, fuel ≤ fuel' → Step.Truncates limit (y fuel) (y fuel'))
    {fuel fuel' : Nat} {m m₁ m₂ : Machine} {a : α} {b : β} (ha : x fuel m = .done a m₁)
    (hb : y fuel' m₁ = .done b m₂) : ∃ both, x both m = .done a m₁ ∧ y both m₁ = .done b m₂ :=
  ⟨max fuel fuel',
    ((hx m.calls.limit (Nat.le_max_left ..)).eq_of_ends (by simp [ha])).trans ha,
    ((hy m₁.calls.limit (Nat.le_max_right ..)).eq_of_ends (by simp [hb])).trans hb⟩

theorem ExprKind.Parts.starts {id : ExprId} {node : ExprNode}
    (hnode : code.arena.expr? id = some node) (h : node.kind.Parts code m node.span u n) :
    Starts code (.evaluate id) m u n := by
  obtain ⟨kind, span⟩ := node
  cases kind with
  | literal value => exact h.elim
  | reference name => exact h.elim
  | group x | unary op x | assign name nameSpan x =>
    obtain ⟨rfl, rfl⟩ := h
    exact .operand hnode rfl
  | binary op l r =>
    obtain ⟨rfl, rfl⟩ | ⟨fuel, v, m₁, hv, rfl, rfl⟩ := h
    · exact .operand hnode rfl
    · exact .binaryRight hnode hv
  | logical op l r =>
    obtain ⟨rfl, rfl⟩ | ⟨fuel, v, m₁, hv, ⟨hinteger, hdecided⟩, rfl, rfl⟩ := h
    · exact .operand hnode rfl
    · exact .logicalRight hnode hv hinteger hdecided
  | call callee args =>
    obtain ⟨rfl, rfl⟩ | ⟨fuel, f, m₁, hf, ids, hids, h⟩ := h
    · exact .operand hnode rfl
    obtain ⟨rfl, rfl⟩ | ⟨fuel', vs, m₂, hvs, rfl, rfl⟩ := h
    · exact .arguments hnode hf hids
    · obtain ⟨both, hf', hvs'⟩ := Step.exists_common_bound
        (fun limit hle => (truncatesAll code limit hle).evaluate callee)
        (fun limit hle => (truncatesAll code limit hle).evaluateAll ids) hf hvs
      exact .call hnode hf' hids hvs'

theorem StmtKind.Parts.starts {id : StmtId} {node : StmtNode}
    (hnode : code.arena.stmt? id = some node) (h : node.kind.Parts code m u n) :
    Starts code (.execute id) m u n := by
  obtain ⟨kind, span⟩ := node
  cases kind with
  | expression x =>
    obtain ⟨rfl, rfl⟩ := h
    exact .expression hnode rfl
  | declare name init =>
    cases init with
    | none => exact h.elim
    | some x =>
      obtain ⟨rfl, rfl⟩ := h
      exact .expression hnode rfl
  | ret value =>
    cases value with
    | none => exact h.elim
    | some x =>
      obtain ⟨rfl, rfl⟩ := h
      exact .expression hnode rfl
  | function name params body => exact h.elim
  | block body =>
    obtain ⟨rfl, rfl⟩ := h
    exact .block hnode
  | branch cond thenBranch elseBranch =>
    obtain ⟨rfl, rfl⟩ | ⟨fuel, v, m₁, hv, hinteger, h⟩ := h
    · exact .expression hnode rfl
    cases htrue : v.isTrue with
    | true =>
      rw [if_pos htrue] at h
      obtain ⟨rfl, rfl⟩ := h
      exact .thenBranch hnode hv htrue
    | false =>
      rw [if_neg (by simp [htrue])] at h
      obtain ⟨other, rfl, rfl, rfl⟩ := h
      exact .elseBranch hnode hv hinteger htrue
  | loop cond body =>
    obtain ⟨rfl, rfl⟩ := h
    exact .loop hnode

theorem Tasks.of_unlessReturned {S : Tasks} {c : Completion}
    (h : Tasks.unlessReturned S c u n) : c = .normal ∧ S u n := by
  cases c with
  | normal => exact ⟨rfl, h⟩
  | returned value => exact h.elim

/-- The parts of a task are the tasks that it starts. -/
theorem starts_iff : Starts code t m u n ↔ t.Parts code m u n := by
  refine ⟨Starts.parts, fun h => ?_⟩
  cases t with
  | evaluate id =>
    obtain ⟨node, hnode, h⟩ := h
    exact h.starts hnode
  | execute id =>
    obtain ⟨node, hnode, h⟩ := h
    exact h.starts hnode
  | evaluateAll ids =>
    cases ids with
    | nil => exact h.elim
    | cons id ids =>
      obtain ⟨rfl, rfl⟩ | ⟨fuel, v, m₁, hv, rfl, rfl⟩ := h
      · exact .headExpr
      · exact .tailExprs hv
  | call callee args span =>
    cases callee with
    | user f =>
      obtain ⟨hlength, rfl, rfl⟩ := h
      exact .user hlength
    | native f | int k | wide k | str text => exact h.elim
  | callUser f args span =>
    obtain ⟨hlimit, rfl, rfl⟩ := h
    exact .body hlimit
  | executeBlock body =>
    obtain ⟨ids, hids, rfl, rfl⟩ := h
    exact .statements hids
  | executeAll ids =>
    cases ids with
    | nil => exact h.elim
    | cons id ids =>
      obtain ⟨rfl, rfl⟩ | ⟨fuel, c, m₁, hc, h⟩ := h
      · exact .headStmt
      · obtain ⟨rfl, rfl, rfl⟩ := Tasks.of_unlessReturned h
        exact .tailStmts hc
  | executeLoop cond body =>
    obtain ⟨rfl, rfl⟩ | ⟨fuel, v, m₁, hv, -, htrue, h⟩ := h
    · exact .condition
    obtain ⟨rfl, rfl⟩ | ⟨fuel', c, m₂, hc, h⟩ := h
    · exact .round hv htrue
    · obtain ⟨rfl, rfl, rfl⟩ := Tasks.of_unlessReturned h
      obtain ⟨both, hv', hc'⟩ := Step.exists_common_bound
        (fun limit hle => (truncatesAll code limit hle).evaluate cond)
        (fun limit hle => ((truncatesAll code limit hle).execute body).inNewFrame) hv hc
      exact .again hv' htrue hc'
  | interpret ids =>
    cases ids with
    | nil => exact h.elim
    | cons id ids =>
      obtain ⟨rfl, rfl⟩ | ⟨fuel, c, m₁, hc, h⟩ := h
      · exact .headTop
      · obtain ⟨rfl, rfl, rfl⟩ := Tasks.of_unlessReturned h
        exact .tailTop hc

end Parts

end Scriptorium
