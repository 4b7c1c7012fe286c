import Scriptorium.Proofs.CallLimit
import Scriptorium.Proofs.FrameChanges

/-!
# The order of a run

A run does one thing after the other.  Of two tasks that it comes to, either one is part of
the other, or one has ended before the other is started; and what a run leaves behind, the
tasks that come later find, so of two machines of a run one extends the other.

* `Outcome.machine?`, `Task.Ends` — the machine that a task leaves where it ends;
* `Starts.ends`, `Visits.ends` — where a task ends, all that it came to has ended before;
* `Starts.order` — the tasks that a task starts, one after the other;
* `Visits.order` — the tasks that a run comes to, one after or inside the other;
* `Reached`, `Reached.total` — the machines of a run, one after the other.
-/

namespace Scriptorium

variable {α β γ : Type} {code : Code} {fuel : Nat}

/-! ## Where a computation ends -/

/-- The machine that a computation left, if it ended. -/
def Outcome.machine? : Outcome α → Option Machine
  | .done _ m | .failed _ m => some m
  | .stuck | .exhausted => none

theorem Outcome.Leaves.of_machine? {P : Machine → Prop} {o : Outcome α} {m : Machine}
    (h : o.Leaves P) (ho : o.machine? = some m) : P m := by
  cases o <;> cases ho <;> exact h

theorem Outcome.ne_exhausted_of_machine? {o : Outcome α} {m : Machine} (h : o.machine? = some m) :
    o ≠ .exhausted := by
  rintro rfl
  cases h

/-- Whatever the bounds are, a computation ends in one way. -/
theorem Step.machine?_unique {x : Nat → Step α}
    (hx : ∀ {fuel fuel'} limit, fuel ≤ fuel' → Step.Truncates limit (x fuel) (x fuel'))
    {fuel fuel' : Nat} {m m₁ m₂ : Machine} (h₁ : (x fuel m).machine? = some m₁)
    (h₂ : (x fuel' m).machine? = some m₂) : x fuel m = x fuel' m := by
  have hmore : ∀ {fuel m₃}, (x fuel m).machine? = some m₃ →
      ∀ {fuel'}, fuel ≤ fuel' → x fuel' m = x fuel m := fun h _ hle =>
    (hx m.calls.limit hle).eq_of_ends (Outcome.ne_exhausted_of_machine? h)
  rw [← hmore h₁ (Nat.le_max_left fuel fuel'), hmore h₂ (Nat.le_max_right fuel fuel')]

/-- With the bound `fuel`, the machine that a task leaves where it ends. -/
def Task.machine? (code : Code) (fuel : Nat) (m : Machine) : Task → Option Machine
  | .evaluate id => (Scriptorium.evaluate code fuel id m).machine?
  | .evaluateAll ids => (Scriptorium.evaluateAll code fuel ids m).machine?
  | .call callee args span => (Scriptorium.call code fuel callee args span m).machine?
  | .callUser f args span => (Scriptorium.callUser code fuel f args span m).machine?
  | .execute id => (Scriptorium.execute code fuel id m).machine?
  | .executeBlock body => (Scriptorium.executeBlock code fuel body m).machine?
  | .executeAll ids => (Scriptorium.executeAll code fuel ids m).machine?
  | .executeLoop cond body => (Scriptorium.executeLoop code fuel cond body m).machine?
  | .interpret stmts => (Scriptorium.interpret code fuel stmts m).machine?

/-- Carrying out the task on the machine `m` ends, with a result or an error, and leaves the
machine `m'`. -/
def Task.Ends (code : Code) (t : Task) (m m' : Machine) : Prop :=
  ∃ fuel, t.machine? code fuel m = some m'

theorem Task.Ends.unique {t : Task} {m m₁ m₂ : Machine} (h₁ : t.Ends code m m₁)
    (h₂ : t.Ends code m m₂) : m₁ = m₂ := by
  obtain ⟨fuel, h₁⟩ := h₁
  obtain ⟨fuel', h₂⟩ := h₂
  have hsame : ∀ {α : Type} {x : Nat → Step α},
      (∀ {fuel fuel'} limit, fuel ≤ fuel' → Step.Truncates limit (x fuel) (x fuel')) →
      (x fuel m).machine? = some m₁ → (x fuel' m).machine? = some m₂ → m₁ = m₂ := by
    intro α x hx h₁ h₂
    rw [Step.machine?_unique hx h₁ h₂] at h₁
    exact Option.some.inj (h₁.symm.trans h₂)
  have hall := fun {fuel fuel' : Nat} (limit : Option Nat) (hle : fuel ≤ fuel') =>
    truncatesAll code limit hle
  cases t with
  | evaluate id => exact hsame (fun limit hle => (hall limit hle).evaluate id) h₁ h₂
  | evaluateAll ids => exact hsame (fun limit hle => (hall limit hle).evaluateAll ids) h₁ h₂
  | call callee args span =>
    exact hsame (fun limit hle => (hall limit hle).call callee args span) h₁ h₂
  | callUser f args span =>
    exact hsame (fun limit hle => (hall limit hle).callUser f args span) h₁ h₂
  | execute id => exact hsame (fun limit hle => (hall limit hle).execute id) h₁ h₂
  | executeBlock body => exact hsame (fun limit hle => (hall limit hle).executeBlock body) h₁ h₂
  | executeAll ids => exact hsame (fun limit hle => (hall limit hle).executeAll ids) h₁ h₂
  | executeLoop cond body =>
    exact hsame (fun limit hle => (hall limit hle).executeLoop cond body) h₁ h₂
  | interpret stmts =>
    exact hsame (fun limit hle => truncates_interpret code limit hle stmts) h₁ h₂

theorem Task.Ends.restored {t : Task} {m m' : Machine} (h : t.Ends code m m') : m.Restored m' := by
  obtain ⟨fuel, h⟩ := h
  have hall := restoresAll code fuel
  cases t with
  | evaluate id => exact (hall.evaluate id m).of_machine? h
  | evaluateAll ids => exact (hall.evaluateAll ids m).of_machine? h
  | call callee args span => exact (hall.call callee args span m).of_machine? h
  | callUser f args span => exact (hall.callUser f args span m).of_machine? h
  | execute id => exact (hall.execute id m).of_machine? h
  | executeBlock body => exact (hall.executeBlock body m).of_machine? h
  | executeAll ids => exact (hall.executeAll ids m).of_machine? h
  | executeLoop cond body => exact (hall.executeLoop cond body m).of_machine? h
  | interpret stmts => exact (restores_interpret code fuel stmts m).of_machine? h

/-! ## Parts of a computation -/

/-- Where the second computation ends, the first one has ended before. -/
def Outcome.Before (o₁ : Outcome α) (o₂ : Outcome β) : Prop :=
  ∀ m₂, o₂.machine? = some m₂ → ∃ m₁, o₁.machine? = some m₁ ∧ m₁.env.Extends m₂.env

namespace Outcome.Before

variable {o : Outcome α} {m m₁ : Machine}

theorem refl (o : Outcome α) : o.Before o := fun m h => ⟨m, h, .refl _⟩

/-- The first of two computations one after the other. -/
theorem bind {x : Step β} {f : β → Step γ} (hx : o.Before (x m)) (hf : ∀ b, (f b).Restores) :
    o.Before ((x >>= f) m) := by
  show o.Before (Step.bind x f m)
  unfold Step.bind
  cases h : x m with
  | done b m₁ =>
    intro m₂ h₂
    obtain ⟨m₃, h₃, hextends⟩ := hx m₁ (by rw [h]; rfl)
    exact ⟨m₃, h₃, hextends.trans ((hf b m₁).of_machine? h₂).frames⟩
  | failed e m₁ =>
    rw [h] at hx
    exact hx
  | stuck => exact fun _ h => nomatch h
  | exhausted => exact fun _ h => nomatch h

/-- The second of two computations one after the other; the first one is known to have a
result, perhaps with another bound. -/
theorem bind_after {x : Nat → Step β}
    (hx : ∀ {fuel fuel'} limit, fuel ≤ fuel' → Step.Truncates limit (x fuel) (x fuel'))
    {fuel fuel' : Nat} {f : β → Step γ} {b : β} (h : x fuel' m = .done b m₁)
    (hf : o.Before (f b m₁)) : o.Before ((x fuel >>= f) m) := by
  show o.Before (Step.bind (x fuel) f m)
  have hends : (x fuel' m).machine? = some m₁ := by rw [h]; rfl
  have hsame : ∀ m₂, (x fuel m).machine? = some m₂ → x fuel m = .done b m₁ := fun m₂ h₂ =>
    (Step.machine?_unique hx h₂ hends).trans h
  unfold Step.bind
  cases hdone : x fuel m with
  | done c m₂ =>
    cases hdone.symm.trans (hsame m₂ (by rw [hdone]; rfl))
    exact hf
  | failed e m₂ => cases hdone.symm.trans (hsame m₂ (by rw [hdone]; rfl))
  | stuck => exact fun _ h => nomatch h
  | exhausted => exact fun _ h => nomatch h

theorem found_bind {held : Option β} {f : β → Step γ} {b : β} (h : held = some b)
    (hf : o.Before (f b m)) : o.Before ((Step.found held >>= f) m) := by
  subst h
  exact hf

theorem after {o' : Outcome β} (h : o.Before o') {g : Machine → Machine}
    (hg : ∀ m : Machine, m.env.Extends (g m).env) : o.Before (o'.after g) := by
  cases o' with
  | done b m₁ =>
    rintro _ ⟨⟩
    obtain ⟨m₂, h₂, hextends⟩ := h m₁ rfl
    exact ⟨m₂, h₂, hextends.trans (hg m₁)⟩
  | failed e m₁ =>
    rintro _ ⟨⟩
    obtain ⟨m₂, h₂, hextends⟩ := h m₁ rfl
    exact ⟨m₂, h₂, hextends.trans (hg m₁)⟩
  | stuck => exact h
  | exhausted => exact h

theorem inFrame {x : Step β} {f : FrameId} (h : o.Before (x { m with env := (m.env.enter f).2 })) :
    o.Before (Step.inFrame f x m) := by
  rw [Step.inFrame_eq]
  exact h.after fun _ => Environment.extends_restore _ _

theorem inNewFrame {x : Step β} (h : o.Before (x m.nested)) : o.Before (Step.inNewFrame x m) :=
  inFrame h

end Outcome.Before

/-! ## The parts of a task -/

open Step Outcome.Before

variable {m m₁ m₂ : Machine}

theorem before_evaluate_bind {α : Type} {o : Outcome α} {x : ExprId} {f : Value → Step β}
    {fuel' : Nat} {v : Value} (h : evaluate code fuel' x m = .done v m₁)
    (hf : o.Before (f v m₁)) : o.Before ((evaluate code fuel x >>= f) m) :=
  bind_after (x := fun fuel => evaluate code fuel x)
    (fun limit hle => (truncatesAll code limit hle).evaluate x) h hf

/-- The first operand is a part of the expression. -/
theorem before_operand {id x : ExprId} {node : ExprNode} (hnode : code.arena.expr? id = some node)
    (hx : node.kind.operand? = some x) :
    (evaluate code fuel x m).Before (evaluate code (fuel + 1) id m) := by
  have hall := restoresAll code fuel
  rw [evaluate]
  refine .found_bind hnode ?_
  obtain ⟨kind, span⟩ := node
  cases kind with
  | literal value => cases hx
  | reference name => cases hx
  | group y => cases hx; exact .refl _
  | unary op y => cases hx; exact .bind (.refl _) fun _ => restores_ofExcept _ _
  | binary op l r =>
    cases hx
    exact .bind (.refl _) fun _ => (hall.evaluate _).bind fun _ => restores_ofExcept _ _
  | logical op l r =>
    cases hx
    refine .bind (.refl _) fun v => ?_
    split
    · exact restores_closed.failAt _ _
    split
    · exact restores_pure _
    · exact hall.evaluate _
  | assign name nameSpan y =>
    cases hx
    exact .bind (.refl _) fun _ => (restores_found _).bind fun _ => restores_assign _ _ _
  | call callee args =>
    cases hx
    exact .bind (.refl _) fun _ => (restores_found _).bind fun _ =>
      (hall.evaluateAll _).bind fun _ => hall.call _ _ _

/-- The expression that a statement computes first is a part of it. -/
theorem before_expression {id : StmtId} {x : ExprId} {node : StmtNode}
    (hnode : code.arena.stmt? id = some node) (hx : node.kind.operand? = some x) :
    (evaluate code fuel x m).Before (execute code (fuel + 1) id m) := by
  have hall := restoresAll code fuel
  rw [execute]
  refine .found_bind hnode ?_
  obtain ⟨kind, span⟩ := node
  cases kind with
  | expression y => cases hx; exact .bind (.refl _) fun _ => restores_pure _
  | declare name init =>
    cases hx
    exact .bind (.refl _) fun _ => (restores_found _).bind fun _ =>
      (restores_define _ _).bind fun _ => restores_pure _
  | branch cond thenBranch elseBranch =>
    cases hx
    refine .bind (.refl _) fun v => (restores_closed.truthOf _ _).bind fun b => ?_
    split
    · exact hall.execute _
    split
    · exact hall.execute _
    · exact restores_pure _
  | ret value =>
    cases hx
    exact .bind (.refl _) fun _ => restores_pure _
  | block body => cases hx
  | loop cond body => cases hx
  | function name params body => cases hx

theorem truthOf_of_isInteger {cond : ExprId} {v : Value} (h : v.isInteger = true) :
    truthOf code cond v m = .done v.isTrue m := by
  rw [truthOf, if_pos h]
  rfl

theorem Value.isInteger_of_isTrue {v : Value} (h : v.isTrue = true) : v.isInteger = true := by
  cases v with
  | int n => rfl
  | wide n => rfl
  | str text => cases h
  | native f => cases h
  | user f => cases h

theorem before_truthOf_bind {o : Outcome α} {cond : ExprId} {v : Value} {f : Bool → Step β}
    (h : v.isInteger = true) (hf : o.Before (f v.isTrue m)) :
    o.Before ((truthOf code cond v >>= f) m) := by
  show o.Before (Step.bind (truthOf code cond v) f m)
  rw [Step.bind, truthOf_of_isInteger h]
  exact hf

/-- Where the second task ends with its bound, the first one has ended before with its own. -/
def Task.Before (code : Code) (fuel' : Nat) (t' : Task) (m' : Machine) (fuel : Nat) (t : Task)
    (m : Machine) : Prop :=
  ∀ m₂, t.machine? code fuel m = some m₂ →
    ∃ m₁, t'.machine? code fuel' m' = some m₁ ∧ m₁.env.Extends m₂.env

section Parts

variable {t' : Task} {m' : Machine}

theorem Starts.before_evaluate {id : ExprId} (h : Starts code (.evaluate id) m t' m')
    (fuel : Nat) : Task.Before code fuel t' m' (fuel + 1) (.evaluate id) m := by
  have hall := restoresAll code fuel
  cases h with
  | operand hnode hx => exact before_operand hnode hx
  | @binaryRight _ l r op span _ _ _ _ hnode hl =>
    show (evaluate code fuel r m').Before (evaluate code (fuel + 1) id m)
    rw [evaluate]
    refine .found_bind hnode (before_evaluate_bind hl ?_)
    exact .bind (.refl _) fun _ => restores_ofExcept _ _
  | @logicalRight _ l r op span _ _ v _ hnode hl hinteger hdecided =>
    show (evaluate code fuel r m').Before (evaluate code (fuel + 1) id m)
    rw [evaluate]
    refine .found_bind hnode (before_evaluate_bind hl ?_)
    simp only [hinteger, hdecided, Bool.not_true, Bool.false_eq_true, if_false]
    exact .refl _
  | @arguments _ callee args ids span _ _ f _ hnode hf hids =>
    show (evaluateAll code fuel ids m').Before (evaluate code (fuel + 1) id m)
    rw [evaluate]
    refine .found_bind hnode (before_evaluate_bind hf (.found_bind hids ?_))
    exact .bind (.refl _) fun _ => hall.call _ _ _
  | @call _ callee args ids span _ _ _ f vs _ hnode hf hids hvs =>
    show (Scriptorium.call code fuel f vs span m').Before (evaluate code (fuel + 1) id m)
    rw [evaluate]
    refine .found_bind hnode (before_evaluate_bind hf (.found_bind hids ?_))
    exact .bind_after (x := fun fuel => evaluateAll code fuel ids)
      (fun limit hle => (truncatesAll code limit hle).evaluateAll ids) hvs (.refl _)

theorem Starts.before_callUser {f : UserFunction} {args : List Value} {span : Span}
    (h : Starts code (.callUser f args span) m t' m') (fuel : Nat) :
    Task.Before code fuel t' m' (fuel + 1) (.callUser f args span) m := by
  cases h with
  | body hlimit =>
    show (executeBlock code fuel f.body (m.called f args span)).Before
      (Scriptorium.callUser code (fuel + 1) f args span m)
    rw [callUser_succ, inCall_eq hlimit]
    refine .after ?_ fun m₁ => .refl _
    refine .bind (x := Step.inFrame ⟨m.env.frames.size⟩ (executeBlock code fuel f.body))
      (.inFrame (.refl _)) fun completion => ?_
    cases completion with
    | normal => exact restores_pure _
    | returned value => exact restores_pure _

theorem Starts.before_execute {id : StmtId} (h : Starts code (.execute id) m t' m')
    (fuel : Nat) : Task.Before code fuel t' m' (fuel + 1) (.execute id) m := by
  cases h with
  | expression hnode hx => exact before_expression hnode hx
  | @block _ body span _ hnode =>
    show (executeBlock code fuel body m.nested).Before (execute code (fuel + 1) id m)
    rw [execute]
    exact .found_bind hnode (.inNewFrame (.refl _))
  | @thenBranch _ thenBranch elseBranch cond span _ _ v _ hnode hv htrue =>
    show (execute code fuel thenBranch m').Before (execute code (fuel + 1) id m)
    rw [execute]
    refine .found_bind hnode (before_evaluate_bind hv ?_)
    refine before_truthOf_bind (Value.isInteger_of_isTrue htrue) ?_
    rw [htrue]
    exact .refl _
  | @elseBranch _ thenBranch elseBranch cond span _ _ v _ hnode hv hinteger htrue =>
    show (execute code fuel elseBranch m').Before (execute code (fuel + 1) id m)
    rw [execute]
    refine .found_bind hnode (before_evaluate_bind hv (before_truthOf_bind hinteger ?_))
    rw [htrue]
    exact .refl _
  | @loop _ body cond span _ hnode =>
    show (executeLoop code fuel cond body m).Before (execute code (fuel + 1) id m)
    rw [execute]
    exact .found_bind hnode (.refl _)

theorem Starts.before_executeLoop {cond : ExprId} {body : StmtId}
    (h : Starts code (.executeLoop cond body) m t' m') (fuel : Nat) :
    Task.Before code fuel t' m' (fuel + 1) (.executeLoop cond body) m := by
  have hall := restoresAll code fuel
  cases h with
  | condition =>
    show (evaluate code fuel cond m).Before (executeLoop code (fuel + 1) cond body m)
    rw [executeLoop]
    refine .bind (.refl _) fun v => (restores_closed.truthOf _ _).bind fun b => ?_
    split
    · refine (hall.execute body).inNewFrame.bind fun completion => ?_
      cases completion with
      | normal => exact hall.executeLoop cond body
      | returned value => exact restores_pure _
    · exact restores_pure _
  | @round _ _ _ m₁ v _ hv htrue =>
    show (execute code fuel body m₁.nested).Before (executeLoop code (fuel + 1) cond body m)
    rw [executeLoop]
    refine before_evaluate_bind hv (before_truthOf_bind (Value.isInteger_of_isTrue htrue) ?_)
    rw [htrue]
    refine .bind (.inNewFrame (.refl _)) fun completion => ?_
    cases completion with
    | normal => exact hall.executeLoop cond body
    | returned value => exact restores_pure _
  | @again _ _ _ m₁ _ v _ hv htrue hround =>
    show (executeLoop code fuel cond body m').Before (executeLoop code (fuel + 1) cond body m)
    rw [executeLoop]
    refine before_evaluate_bind hv (before_truthOf_bind (Value.isInteger_of_isTrue htrue) ?_)
    rw [htrue]
    exact .bind_after (x := fun fuel => Step.inNewFrame (execute code fuel body))
      (fun limit hle => ((truncatesAll code limit hle).execute body).inNewFrame) hround (.refl _)

theorem Starts.before_executeAll {ids : List StmtId} (h : Starts code (.executeAll ids) m t' m')
    (fuel : Nat) : Task.Before code fuel t' m' (fuel + 1) (.executeAll ids) m := by
  cases h with
  | @headStmt id ids _ =>
    show (execute code fuel id m).Before (executeAll code (fuel + 1) (id :: ids) m)
    rw [executeAll]
    refine .bind (.refl _) fun completion => ?_
    cases completion with
    | normal => exact (restoresAll code fuel).executeAll ids
    | returned value => exact restores_pure _
  | @tailStmts id ids _ _ _ hv =>
    show (executeAll code fuel ids m').Before (executeAll code (fuel + 1) (id :: ids) m)
    rw [executeAll]
    exact .bind_after (x := fun fuel => execute code fuel id)
      (fun limit hle => (truncatesAll code limit hle).execute id) hv (.refl _)

/-- The statements of the top level have the bound of the run. -/
theorem Starts.before_interpret {ids : List StmtId} (h : Starts code (.interpret ids) m t' m')
    (fuel : Nat) : Task.Before code fuel t' m' fuel (.interpret ids) m := by
  cases h with
  | @headTop id ids _ =>
    show (execute code fuel id m).Before (interpret code fuel (id :: ids) m)
    rw [interpret]
    refine .bind (.refl _) fun completion => ?_
    cases completion with
    | normal => exact restores_interpret code _ ids
    | returned value => exact restores_pure _
  | @tailTop id ids _ _ _ hv =>
    show (interpret code fuel ids m').Before (interpret code fuel (id :: ids) m)
    rw [interpret]
    exact .bind_after (x := fun fuel => execute code fuel id)
      (fun limit hle => (truncatesAll code limit hle).execute id) hv (.refl _)

/-- A task that is started is a part of the task that starts it. -/
theorem Starts.before {t : Task} (h : Starts code t m t' m') (fuel : Nat) :
    ∃ fuel', Task.Before code fuel' t' m' (fuel + 1) t m := by
  cases t with
  | evaluate id => exact ⟨fuel, h.before_evaluate fuel⟩
  | evaluateAll ids =>
    refine ⟨fuel, ?_⟩
    cases h with
    | @headExpr id ids _ =>
      show (evaluate code fuel id m).Before (evaluateAll code (fuel + 1) (id :: ids) m)
      rw [evaluateAll]
      exact .bind (.refl _) fun _ => ((restoresAll code fuel).evaluateAll ids).bind fun _ =>
        restores_pure _
    | @tailExprs id ids _ _ _ _ hv =>
      show (evaluateAll code fuel ids m').Before (evaluateAll code (fuel + 1) (id :: ids) m)
      rw [evaluateAll]
      exact before_evaluate_bind hv (.bind (.refl _) fun _ => restores_pure _)
  | call callee args span =>
    refine ⟨fuel, ?_⟩
    cases h with
    | @user f _ _ _ hlength =>
      show (Scriptorium.callUser code fuel f args span m).Before
        (Scriptorium.call code (fuel + 1) (.user f) args span m)
      unfold Scriptorium.call
      simp only [Value.arity?, hlength, ne_eq, not_true_eq_false, if_false]
      exact .refl _
  | callUser f args span => exact ⟨fuel, h.before_callUser fuel⟩
  | execute id => exact ⟨fuel, h.before_execute fuel⟩
  | executeBlock body =>
    refine ⟨fuel, ?_⟩
    cases h with
    | @statements _ ids _ hids =>
      show (executeAll code fuel ids m).Before (executeBlock code (fuel + 1) body m)
      rw [executeBlock]
      exact .found_bind hids (.refl _)
  | executeAll ids => exact ⟨fuel, h.before_executeAll fuel⟩
  | executeLoop cond body => exact ⟨fuel, h.before_executeLoop fuel⟩
  | interpret ids => exact ⟨fuel + 1, h.before_interpret (fuel + 1)⟩

end Parts

/-- Where a task ends, each task that it starts has ended before. -/
theorem Starts.ends {t t' : Task} {m m' m'' : Machine} (h : Starts code t m t' m')
    (hends : t.Ends code m m'') :
    ∃ m₁, t'.Ends code m' m₁ ∧ m₁.env.Extends m''.env := by
  obtain ⟨fuel, hfuel⟩ := hends
  cases fuel with
  | zero => cases h <;> cases hfuel
  | succ fuel =>
    obtain ⟨fuel', hbefore⟩ := h.before fuel
    obtain ⟨m₁, hm₁, hextends⟩ := hbefore m'' hfuel
    exact ⟨m₁, ⟨fuel', hm₁⟩, hextends⟩

/-- Where a task ends, all that it came to has ended before. -/
theorem Visits.ends {t t' : Task} {m m' m'' : Machine} (h : Visits code t m t' m')
    (hends : t.Ends code m m'') :
    ∃ m₁, t'.Ends code m' m₁ ∧ m₁.env.Extends m''.env := by
  induction h with
  | start => exact ⟨m'', hends, .refl _⟩
  | step _ hstarts ih =>
    obtain ⟨m₁, hm₁, hextends⟩ := ih
    obtain ⟨m₂, hm₂, hextends'⟩ := hstarts.ends hm₁
    exact ⟨m₂, hm₂, hextends'.trans hextends⟩

/-- What a task comes to is the task itself, or a task that one of those comes to that it
starts. -/
theorem Visits.eq_or_starts {t t' : Task} {m m' : Machine} (h : Visits code t m t' m') :
    (t' = t ∧ m' = m) ∨ ∃ u n, Starts code t m u n ∧ Visits code u n t' m' := by
  induction h with
  | start => exact .inl ⟨rfl, rfl⟩
  | step _ hstarts ih =>
    rcases ih with ⟨rfl, rfl⟩ | ⟨u, n, hu, hvisits⟩
    · exact .inr ⟨_, _, hstarts, .start⟩
    · exact .inr ⟨u, n, hu, .step hvisits hstarts⟩

/-! ## One after the other -/

/-- The task has ended before the machine `m₂` is there.  Active on `m₂` is the frame that is
active on `m`, or one that was not there when the task ended. -/
def Precedes (code : Code) (m : Machine) (t₁ : Task) (m₁ m₂ : Machine) : Prop :=
  ∃ m', t₁.Ends code m₁ m' ∧ m'.env.Extends m₂.env ∧
    (m₂.env.active = m.env.active ∨ m'.env.frames.size ≤ m₂.env.active.index)

namespace Precedes

variable {t : Task} {m m' m₁ m₂ : Machine}

/-- What comes after a task in the frame that was active before. -/
theorem of_ends (h : t.Ends code m₁ m') (hextends : m'.env.Extends m₂.env)
    (hactive : m₂.env.active = m.env.active) : Precedes code m t m₁ m₂ :=
  ⟨m', h, hextends, .inl hactive⟩

theorem evaluate {x : ExprId} {v : Value} (h : evaluate code fuel x m = .done v m') :
    Precedes code m (.evaluate x) m m' :=
  of_ends ⟨fuel, by rw [Task.machine?, h]; rfl⟩ (.refl _)
    (((restoresAll code fuel).evaluate x).of_done h).active

theorem execute {id : StmtId} {c : Completion} (h : execute code fuel id m = .done c m') :
    Precedes code m (.execute id) m m' :=
  of_ends ⟨fuel, by rw [Task.machine?, h]; rfl⟩ (.refl _)
    (((restoresAll code fuel).execute id).of_done h).active

end Precedes

/-- The tasks are the same, or one of them has ended before the other one starts. -/
def Successive (code : Code) (m : Machine) (t₁ : Task) (m₁ : Machine) (t₂ : Task) (m₂ : Machine) :
    Prop :=
  (t₁ = t₂ ∧ m₁ = m₂) ∨ Precedes code m t₁ m₁ m₂ ∨ Precedes code m t₂ m₂ m₁

section Order

variable {t t₁ t₂ : Task} {m m₁ m₂ : Machine}

theorem Successive.symm (h : Successive code m t₁ m₁ t₂ m₂) : Successive code m t₂ m₂ t₁ m₁ := by
  rcases h with ⟨rfl, rfl⟩ | h
  · exact .inl ⟨rfl, rfl⟩
  · exact .inr h.symm

/-- The first operand comes before all else that an expression starts. -/
theorem successive_operand {id x : ExprId} {node : ExprNode}
    (hnode : code.arena.expr? id = some node)
    (hx : node.kind.operand? = some x) (h : Starts code (.evaluate id) m t₂ m₂) :
    Successive code m (.evaluate x) m t₂ m₂ := by
  cases h with
  | operand hnode' hx' =>
    cases hnode.symm.trans hnode'
    cases hx.symm.trans hx'
    exact .inl ⟨rfl, rfl⟩
  | binaryRight hnode' hl =>
    cases hnode.symm.trans hnode'
    cases hx
    exact .inr (.inl (.evaluate hl))
  | logicalRight hnode' hl =>
    cases hnode.symm.trans hnode'
    cases hx
    exact .inr (.inl (.evaluate hl))
  | arguments hnode' hf =>
    cases hnode.symm.trans hnode'
    cases hx
    exact .inr (.inl (.evaluate hf))
  | @call _ _ _ _ _ _ m' _ f _ fuel hnode' hf _ hvs =>
    cases hnode.symm.trans hnode'
    cases hx
    have hargs := ((restoresAll code fuel).evaluateAll _).of_done hvs
    have hcallee := ((restoresAll code fuel).evaluate x).of_done hf
    exact .inr (.inl (.of_ends ⟨fuel, by rw [Task.machine?, hf]; rfl⟩ hargs.frames
      (hargs.active.trans hcallee.active)))

/-- What a statement computes first comes before all else that it starts. -/
theorem successive_expression {id : StmtId} {x : ExprId} {node : StmtNode}
    (hnode : code.arena.stmt? id = some node) (hx : node.kind.operand? = some x)
    (h : Starts code (.execute id) m t₂ m₂) : Successive code m (.evaluate x) m t₂ m₂ := by
  cases h with
  | expression hnode' hx' =>
    cases hnode.symm.trans hnode'
    cases hx.symm.trans hx'
    exact .inl ⟨rfl, rfl⟩
  | block hnode' | loop hnode' =>
    cases hnode.symm.trans hnode'
    cases hx
  | thenBranch hnode' hv =>
    cases hnode.symm.trans hnode'
    cases hx
    exact .inr (.inl (.evaluate hv))
  | elseBranch hnode' hv =>
    cases hnode.symm.trans hnode'
    cases hx
    exact .inr (.inl (.evaluate hv))

/-- The condition comes before all else that a loop starts. -/
theorem successive_condition {cond : ExprId} {body : StmtId}
    (h : Starts code (.executeLoop cond body) m t₂ m₂) :
    Successive code m (.evaluate cond) m t₂ m₂ := by
  cases h with
  | condition => exact .inl ⟨rfl, rfl⟩
  | @round _ _ _ m' v fuel hv =>
    exact .inr (.inl ⟨m', ⟨fuel, by rw [Task.machine?, hv]; rfl⟩,
      m'.env.extends_newFrame _, .inr (Nat.le_refl _)⟩)
  | @again _ _ _ m' _ v fuel hv _ hround =>
    have hcond := ((restoresAll code fuel).evaluate cond).of_done hv
    have hbody := ((restoresAll code fuel).execute body).inNewFrame.of_done hround
    exact .inr (.inl (.of_ends ⟨fuel, by rw [Task.machine?, hv]; rfl⟩ hbody.frames
      (hbody.active.trans hcond.active)))

/-- The arguments come before the call. -/
theorem successive_arguments {callee : ExprId} {ids : List ExprId} {span : Span} {m' : Machine}
    {f : Value} {vs : List Value} {fuel fuel' : Nat} (hf : evaluate code fuel callee m = .done f m')
    (hvs : evaluateAll code fuel' ids m' = .done vs m₂) :
    Successive code m (.evaluateAll ids) m' (.call f vs span) m₂ := by
  have hcallee := ((restoresAll code fuel).evaluate callee).of_done hf
  have hargs := ((restoresAll code fuel').evaluateAll ids).of_done hvs
  exact .inr (.inl (.of_ends ⟨fuel', by rw [Task.machine?, hvs]; rfl⟩ (.refl _)
    (hargs.active.trans hcallee.active)))

/-- A round of a loop comes before the rounds after it. -/
theorem successive_round {cond : ExprId} {body : StmtId} {m' : Machine} {v : Value}
    {fuel fuel' : Nat} (hv : evaluate code fuel cond m = .done v m')
    (hround : Step.inNewFrame (execute code fuel' body) m' = .done .normal m₂) :
    Successive code m (.execute body) m'.nested (.executeLoop cond body) m₂ := by
  have hcond := ((restoresAll code fuel).evaluate cond).of_done hv
  have hactive := ((restoresAll code fuel').execute body).inNewFrame.of_done hround
  obtain ⟨p, hp, hextends⟩ := Outcome.Before.inNewFrame (x := execute code fuel' body)
    (.refl (execute code fuel' body m'.nested)) m₂ (by rw [hround]; rfl)
  exact .inr (.inl (.of_ends ⟨fuel', hp⟩ hextends (hactive.active.trans hcond.active)))

/-- The branches of a statement are not both taken. -/
theorem not_thenBranch_elseBranch {cond : ExprId} {v v' : Value} {fuel fuel' : Nat}
    (hv : evaluate code fuel cond m = .done v m₁) (htrue : v.isTrue = true)
    (hv' : evaluate code fuel' cond m = .done v' m₂) (hfalse : v'.isTrue = false) : False := by
  obtain ⟨rfl, -⟩ := evaluate_unique hv hv'
  rw [htrue] at hfalse
  cases hfalse

theorem Starts.order_evaluate {id : ExprId} (h₁ : Starts code (.evaluate id) m t₁ m₁)
    (h₂ : Starts code (.evaluate id) m t₂ m₂) : Successive code m t₁ m₁ t₂ m₂ := by
  cases h₁ with
  | operand hnode hx => exact successive_operand hnode hx h₂
  | binaryRight hnode hl =>
    cases h₂ with
    | operand hnode' hx => exact (successive_operand hnode' hx (.binaryRight hnode hl)).symm
    | binaryRight hnode' hl' =>
      cases hnode.symm.trans hnode'
      obtain ⟨-, rfl⟩ := evaluate_unique hl hl'
      exact .inl ⟨rfl, rfl⟩
    | logicalRight hnode' | arguments hnode' | call hnode' => cases hnode.symm.trans hnode'
  | logicalRight hnode hl hinteger hdecided =>
    cases h₂ with
    | operand hnode' hx =>
      exact (successive_operand hnode' hx (.logicalRight hnode hl hinteger hdecided)).symm
    | logicalRight hnode' hl' =>
      cases hnode.symm.trans hnode'
      obtain ⟨-, rfl⟩ := evaluate_unique hl hl'
      exact .inl ⟨rfl, rfl⟩
    | binaryRight hnode' | arguments hnode' | call hnode' => cases hnode.symm.trans hnode'
  | arguments hnode hf hids =>
    cases h₂ with
    | operand hnode' hx => exact (successive_operand hnode' hx (.arguments hnode hf hids)).symm
    | arguments hnode' hf' hids' =>
      cases hnode.symm.trans hnode'
      cases hids.symm.trans hids'
      obtain ⟨-, rfl⟩ := evaluate_unique hf hf'
      exact .inl ⟨rfl, rfl⟩
    | call hnode' hf' hids' hvs =>
      cases hnode.symm.trans hnode'
      cases hids.symm.trans hids'
      obtain ⟨-, rfl⟩ := evaluate_unique hf hf'
      exact successive_arguments hf' hvs
    | binaryRight hnode' | logicalRight hnode' => cases hnode.symm.trans hnode'
  | call hnode hf hids hvs =>
    cases h₂ with
    | operand hnode' hx => exact (successive_operand hnode' hx (.call hnode hf hids hvs)).symm
    | arguments hnode' hf' hids' =>
      cases hnode.symm.trans hnode'
      cases hids.symm.trans hids'
      obtain ⟨-, rfl⟩ := evaluate_unique hf hf'
      exact (successive_arguments hf hvs).symm
    | call hnode' hf' hids' hvs' =>
      cases hnode.symm.trans hnode'
      cases hids.symm.trans hids'
      obtain ⟨rfl, rfl⟩ := evaluate_unique hf hf'
      obtain ⟨rfl, rfl⟩ := evaluateAll_unique hvs hvs'
      exact .inl ⟨rfl, rfl⟩
    | binaryRight hnode' | logicalRight hnode' => cases hnode.symm.trans hnode'

theorem Starts.order_execute {id : StmtId} (h₁ : Starts code (.execute id) m t₁ m₁)
    (h₂ : Starts code (.execute id) m t₂ m₂) : Successive code m t₁ m₁ t₂ m₂ := by
  cases h₁ with
  | expression hnode hx => exact successive_expression hnode hx h₂
  | block hnode =>
    cases h₂ with
    | expression hnode' hx =>
      cases hnode.symm.trans hnode'
      cases hx
    | block hnode' =>
      cases hnode.symm.trans hnode'
      exact .inl ⟨rfl, rfl⟩
    | thenBranch hnode' | elseBranch hnode' | loop hnode' => cases hnode.symm.trans hnode'
  | thenBranch hnode hv htrue =>
    cases h₂ with
    | expression hnode' hx =>
      exact (successive_expression hnode' hx (.thenBranch hnode hv htrue)).symm
    | thenBranch hnode' hv' =>
      cases hnode.symm.trans hnode'
      obtain ⟨-, rfl⟩ := evaluate_unique hv hv'
      exact .inl ⟨rfl, rfl⟩
    | elseBranch hnode' hv' _ hfalse =>
      cases hnode.symm.trans hnode'
      exact (not_thenBranch_elseBranch hv htrue hv' hfalse).elim
    | block hnode' | loop hnode' => cases hnode.symm.trans hnode'
  | elseBranch hnode hv hinteger hfalse =>
    cases h₂ with
    | expression hnode' hx =>
      exact (successive_expression hnode' hx (.elseBranch hnode hv hinteger hfalse)).symm
    | thenBranch hnode' hv' htrue =>
      cases hnode.symm.trans hnode'
      exact (not_thenBranch_elseBranch hv' htrue hv hfalse).elim
    | elseBranch hnode' hv' =>
      cases hnode.symm.trans hnode'
      obtain ⟨-, rfl⟩ := evaluate_unique hv hv'
      exact .inl ⟨rfl, rfl⟩
    | block hnode' | loop hnode' => cases hnode.symm.trans hnode'
  | loop hnode =>
    cases h₂ with
    | expression hnode' hx =>
      cases hnode.symm.trans hnode'
      cases hx
    | loop hnode' =>
      cases hnode.symm.trans hnode'
      exact .inl ⟨rfl, rfl⟩
    | thenBranch hnode' | elseBranch hnode' | block hnode' => cases hnode.symm.trans hnode'

theorem Starts.order_executeLoop {cond : ExprId} {body : StmtId}
    (h₁ : Starts code (.executeLoop cond body) m t₁ m₁)
    (h₂ : Starts code (.executeLoop cond body) m t₂ m₂) : Successive code m t₁ m₁ t₂ m₂ := by
  cases h₁ with
  | condition => exact successive_condition h₂
  | round hv htrue =>
    cases h₂ with
    | condition => exact (successive_condition (.round hv htrue)).symm
    | round hv' =>
      obtain ⟨-, rfl⟩ := evaluate_unique hv hv'
      exact .inl ⟨rfl, rfl⟩
    | again hv' _ hround =>
      obtain ⟨-, rfl⟩ := evaluate_unique hv hv'
      exact successive_round hv hround
  | again hv htrue hround =>
    cases h₂ with
    | condition => exact (successive_condition (.again hv htrue hround)).symm
    | round hv' =>
      obtain ⟨-, rfl⟩ := evaluate_unique hv hv'
      exact (successive_round hv hround).symm
    | again hv' _ hround' =>
      obtain ⟨-, rfl⟩ := evaluate_unique hv hv'
      obtain ⟨-, rfl⟩ := round_unique hround hround'
      exact .inl ⟨rfl, rfl⟩

/-- Of two tasks that a task starts, one ends before the other starts. -/
theorem Starts.order (h₁ : Starts code t m t₁ m₁) (h₂ : Starts code t m t₂ m₂) :
    Successive code m t₁ m₁ t₂ m₂ := by
  cases t with
  | evaluate id => exact h₁.order_evaluate h₂
  | execute id => exact h₁.order_execute h₂
  | executeLoop cond body => exact h₁.order_executeLoop h₂
  | call callee args span | callUser f args span =>
    cases h₁
    cases h₂
    exact .inl ⟨rfl, rfl⟩
  | executeBlock body =>
    cases h₁ with
    | statements hids =>
      cases h₂ with
      | statements hids' =>
        cases hids.symm.trans hids'
        exact .inl ⟨rfl, rfl⟩
  | evaluateAll ids =>
    cases h₁ with
    | headExpr =>
      cases h₂ with
      | headExpr => exact .inl ⟨rfl, rfl⟩
      | tailExprs hv => exact .inr (.inl (.evaluate hv))
    | tailExprs hv =>
      cases h₂ with
      | headExpr => exact .inr (.inr (.evaluate hv))
      | tailExprs hv' =>
        obtain ⟨-, rfl⟩ := evaluate_unique hv hv'
        exact .inl ⟨rfl, rfl⟩
  | executeAll ids =>
    cases h₁ with
    | headStmt =>
      cases h₂ with
      | headStmt => exact .inl ⟨rfl, rfl⟩
      | tailStmts hv => exact .inr (.inl (.execute hv))
    | tailStmts hv =>
      cases h₂ with
      | headStmt => exact .inr (.inr (.execute hv))
      | tailStmts hv' =>
        obtain ⟨-, rfl⟩ := execute_unique hv hv'
        exact .inl ⟨rfl, rfl⟩
  | interpret ids =>
    cases h₁ with
    | headTop =>
      cases h₂ with
      | headTop => exact .inl ⟨rfl, rfl⟩
      | tailTop hv => exact .inr (.inl (.execute hv))
    | tailTop hv =>
      cases h₂ with
      | headTop => exact .inr (.inr (.execute hv))
      | tailTop hv' =>
        obtain ⟨-, rfl⟩ := execute_unique hv hv'
        exact .inl ⟨rfl, rfl⟩

/-- Of two tasks that a task comes to, one is part of the other, or one has ended before the
other starts. -/
theorem Visits.order (h₁ : Visits code t m t₁ m₁) (h₂ : Visits code t m t₂ m₂) :
    Visits code t₁ m₁ t₂ m₂ ∨ Visits code t₂ m₂ t₁ m₁ ∨
      (∃ m', t₁.Ends code m₁ m' ∧ m'.env.Extends m₂.env) ∨
      ∃ m', t₂.Ends code m₂ m' ∧ m'.env.Extends m₁.env := by
  induction h₁ with
  | start => exact .inl h₂
  | @step t' t₁ m' m₁ hvisits hstarts ih =>
    have hgrows := hstarts.grows.extends_frames
    rcases ih with hinside | hinside | ⟨p, hp, hextends⟩ | ⟨p, hp, hextends⟩
    · -- both lie in the task that starts the first one
      rcases hinside.eq_or_starts with ⟨rfl, rfl⟩ | ⟨u, n, hu, hvisits₂⟩
      · exact .inr (.inl (.step .start hstarts))
      · rcases hstarts.order hu with ⟨rfl, rfl⟩ | ⟨p, hp, hextends, -⟩ | ⟨p, hp, hextends, -⟩
        · exact .inl hvisits₂
        · exact .inr (.inr (.inl ⟨p, hp, hextends.trans hvisits₂.grows.extends_frames⟩))
        · obtain ⟨q, hq, hextends'⟩ := hvisits₂.ends hp
          exact .inr (.inr (.inr ⟨q, hq, hextends'.trans hextends⟩))
    · exact .inr (.inl (.step hinside hstarts))
    · obtain ⟨q, hq, hextends'⟩ := hstarts.ends hp
      exact .inr (.inr (.inl ⟨q, hq, hextends'.trans hextends⟩))
    · exact .inr (.inr (.inr ⟨p, hp, hextends.trans hgrows⟩))

end Order

/-! ## The machines of a run -/

/-- The machines that a task comes to: those on which the tasks start that it comes to, and
those that these tasks leave. -/
inductive Reached (code : Code) (t : Task) (m : Machine) : Machine → Prop where
  /-- A task starts on the machine. -/
  | started {t' : Task} {m' : Machine} : Visits code t m t' m' → Reached code t m m'
  /-- A task leaves the machine where it ends. -/
  | ended {t' : Task} {m' m'' : Machine} :
      Visits code t m t' m' → t'.Ends code m' m'' → Reached code t m m''

section Order

variable {t t₁ t₂ : Task} {m m₁ m₂ n₁ n₂ : Machine}

/-- The machine is one on which the task starts, or one that it leaves. -/
def Task.Bounds (code : Code) (t : Task) (m n : Machine) : Prop := n = m ∨ t.Ends code m n

theorem Task.Bounds.extends_frames (h : t.Bounds code m n₁) : m.env.Extends n₁.env := by
  rcases h with rfl | h
  · exact .refl _
  · exact h.restored.frames

theorem Task.Bounds.extends_ends (h : t.Bounds code m n₁) (hends : t.Ends code m n₂) :
    n₁.env.Extends n₂.env := by
  rcases h with rfl | h
  · exact hends.restored.frames
  · rw [h.unique hends]
    exact .refl _

theorem Reached.exists_bounds (h : Reached code t m n₁) :
    ∃ t₁ m₁, Visits code t m t₁ m₁ ∧ t₁.Bounds code m₁ n₁ := by
  cases h with
  | started hvisits => exact ⟨_, n₁, hvisits, .inl rfl⟩
  | ended hvisits hends => exact ⟨_, _, hvisits, .inr hends⟩

/-- Where one task is part of another, so are the machines of both. -/
theorem Visits.bounds (h : Visits code t₁ m₁ t₂ m₂) (h₁ : t₁.Bounds code m₁ n₁)
    (h₂ : t₂.Bounds code m₂ n₂) : n₁.env.Extends n₂.env ∨ n₂.env.Extends n₁.env := by
  rcases h₁ with rfl | hends
  · exact .inl (h.grows.extends_frames.trans h₂.extends_frames)
  · obtain ⟨p, hp, hextends⟩ := h.ends hends
    exact .inr ((h₂.extends_ends hp).trans hextends)

/-- Of two machines of a run, one has the frames of the other. -/
theorem Reached.total (h₁ : Reached code t m n₁) (h₂ : Reached code t m n₂) :
    n₁.env.Extends n₂.env ∨ n₂.env.Extends n₁.env := by
  obtain ⟨t₁, m₁, hvisits₁, hbounds₁⟩ := h₁.exists_bounds
  obtain ⟨t₂, m₂, hvisits₂, hbounds₂⟩ := h₂.exists_bounds
  rcases hvisits₁.order hvisits₂ with hinside | hinside | ⟨p, hp, hextends⟩ | ⟨p, hp, hextends⟩
  · exact hinside.bounds hbounds₁ hbounds₂
  · exact (hinside.bounds hbounds₂ hbounds₁).symm
  · exact .inl (((hbounds₁.extends_ends hp).trans hextends).trans hbounds₂.extends_frames)
  · exact .inr (((hbounds₂.extends_ends hp).trans hextends).trans hbounds₁.extends_frames)

end Order

end Scriptorium
