import Scriptorium.Proofs.CallLimit

/-!
# The interpreter without its bound

The functions of the interpreter take a number that bounds how deep they go.  A run that ends
within a bound ends in the same way within every larger one, so what an expression does can
be told without a bound: it is what the run does with any bound that is large enough, if there
is one.  Told so, an expression does what its node says with what its operands do, and no
bound is counted down on the way.

* `Step.Settles` — a larger bound changes nothing about a computation that ends;
* `Step.unbounded` — what a computation does with a bound that is large enough;
* `Step.unbounded_bind` — a sequence of computations has no bound if its parts have none;
* `value`, `effect` — what an expression and a statement do;
* `value_group`, `value_unary`, `value_logical`, `effect_branch` — what their nodes say.
-/

namespace Scriptorium

variable {α β : Type}

namespace Step

/-- A larger bound changes nothing about a computation that ends. -/
def Settles (x : Nat → Step α) : Prop :=
  ∀ (n n' : Nat) (m : Machine), n ≤ n' → x n m ≠ .exhausted → x n' m = x n m

open Classical in
/-- The computation with a bound that is large enough, if there is one. -/
noncomputable def unbounded (x : Nat → Step α) : Step α := fun m =>
  if h : ∃ n, x n m ≠ .exhausted then x h.choose m else .exhausted

/-! ## Bounds that are large enough -/

section Settles

variable {x y : Nat → Step α} {m : Machine}

theorem unbounded_eq_exhausted (h : ∀ n, x n m = .exhausted) : unbounded x m = .exhausted :=
  dif_neg (fun ⟨n, hn⟩ => hn (h n))

theorem Settles.unbounded_eq (hx : Settles x) {n : Nat} (h : x n m ≠ .exhausted) :
    unbounded x m = x n m := by
  have hsome : ∃ n, x n m ≠ .exhausted := ⟨n, h⟩
  rw [unbounded, dif_pos hsome]
  rcases Nat.le_total n hsome.choose with hle | hle
  · exact hx _ _ m hle h
  · exact (hx _ _ m hle hsome.choose_spec).symm

/-- From some bound on, the computation does what it does without one. -/
theorem Settles.exists_eq (hx : Settles x) (m : Machine) :
    ∃ least, ∀ n ≥ least, x n m = unbounded x m := by
  by_cases h : ∃ n, x n m ≠ .exhausted
  · obtain ⟨least, hends⟩ := h
    exact ⟨least, fun n hn => (hx _ _ m hn hends).trans (hx.unbounded_eq hends).symm⟩
  · have hnever : ∀ n, x n m = .exhausted := fun n => not_not.1 (not_exists.1 h n)
    exact ⟨0, fun n _ => (hnever n).trans (unbounded_eq_exhausted hnever).symm⟩

/-- Only the large bounds matter. -/
theorem Settles.unbounded_eq_of (hx : Settles x) {o : Outcome α} (least : Nat)
    (h : ∀ n ≥ least, x n m = o) : unbounded x m = o := by
  obtain ⟨least', h'⟩ := hx.exists_eq m
  rw [← h' (max least least') (Nat.le_max_right _ _), h _ (Nat.le_max_left _ _)]

theorem unbounded_const (x : Step α) : unbounded (fun _ => x) = x :=
  funext fun _ => Settles.unbounded_eq_of (fun _ _ _ _ _ => rfl) 0 fun _ _ => rfl

/-- The first bound can be left out. -/
theorem Settles.unbounded_succ (hx : Settles x) (h : ∀ n, x (n + 1) = y n) :
    unbounded y = unbounded x := by
  have hy : Settles y := by
    intro n n' m hle hends
    rw [← h, ← h] at *
    exact hx _ _ m (Nat.succ_le_succ hle) hends
  funext m
  obtain ⟨least, hleast⟩ := hx.exists_eq m
  refine hy.unbounded_eq_of least fun n hn => ?_
  rw [← h]
  exact hleast (n + 1) (Nat.le_succ_of_le hn)

end Settles

/-! ## Sequences -/

section Sequences

variable {x : Nat → Step α} {f : Nat → α → Step β}

theorem Settles.bind (hx : Settles x) (hf : ∀ a, Settles (f · a)) :
    Settles fun n => x n >>= f n := by
  intro n n' m hle hends
  have hsame : x n' m = x n m := by
    refine hx n n' m hle fun h => hends ?_
    show Step.bind (x n) (f n) m = _
    rw [Step.bind, h]
  show Step.bind (x n') (f n') m = Step.bind (x n) (f n) m
  rw [Step.bind, Step.bind, hsame]
  cases h : x n m with
  | done a m₁ =>
    refine hf a n n' m₁ hle fun hnot => hends ?_
    show Step.bind (x n) (f n) m = _
    rw [Step.bind, h]
    exact hnot
  | failed | stuck | exhausted => rfl

theorem unbounded_bind (hx : Settles x) (hf : ∀ a, Settles (f · a)) :
    unbounded (fun n => x n >>= f n) = unbounded x >>= fun a => unbounded (f · a) := by
  funext m
  obtain ⟨least, hleast⟩ := hx.exists_eq m
  show _ = Step.bind (unbounded x) _ m
  have hshow : ∀ n, (x n >>= f n) m = Step.bind (x n) (f n) m := fun _ => rfl
  cases h : unbounded x m with
  | done a m₁ =>
    obtain ⟨least', hleast'⟩ := (hf a).exists_eq m₁
    refine (hx.bind hf).unbounded_eq_of (max least least') fun n hn => ?_
    rw [hshow, Step.bind, Step.bind, hleast n (Nat.le_trans (Nat.le_max_left ..) hn), h]
    exact hleast' n (Nat.le_trans (Nat.le_max_right ..) hn)
  | failed | stuck | exhausted =>
    refine (hx.bind hf).unbounded_eq_of least fun n hn => ?_
    rw [hshow, Step.bind, Step.bind, hleast n hn, h]

end Sequences

end Step

open Step

/-! ## Expressions and statements -/

section Nodes

variable {c : Code}

theorem settles_evaluate (c : Code) (id : ExprId) : Settles (evaluate c · id) :=
  fun _ _ m hle hends => ((truncatesAll c m.calls.limit hle).evaluate id).eq_of_ends hends

theorem settles_execute (c : Code) (id : StmtId) : Settles (execute c · id) :=
  fun _ _ m hle hends => ((truncatesAll c m.calls.limit hle).execute id).eq_of_ends hends

theorem settles_const (x : Step α) : Settles fun _ => x :=
  fun _ _ _ _ _ => rfl

/-- What an expression does. -/
noncomputable def value (c : Code) (id : ExprId) : Step Value := unbounded (evaluate c · id)

/-- What a statement does. -/
noncomputable def effect (c : Code) (id : StmtId) : Step Completion := unbounded (execute c · id)

/-- A value is that of an expression. -/
theorem exists_node_of_value {id : ExprId} {v : Value} {m m₁ : Machine}
    (h : value c id m = .done v m₁) : ∃ node, c.arena.expr? id = some node := by
  by_contra hnone
  have hnone : c.arena.expr? id = none := Option.eq_none_iff_forall_ne_some.2
    fun node hnode => hnone ⟨node, hnode⟩
  have hstuck : value c id m = .stuck := by
    refine (settles_evaluate c id).unbounded_eq_of 1 fun n hn => ?_
    obtain ⟨n, rfl⟩ := Nat.exists_eq_add_of_le' hn
    rw [evaluate, hnone]
    rfl
  rw [hstuck] at h
  cases h

theorem value_group {id inner : ExprId} {span : Span}
    (h : c.arena.expr? id = some ⟨.group inner, span⟩) : value c id = value c inner := by
  refine ((settles_evaluate c id).unbounded_succ fun n => ?_).symm
  rw [evaluate, h]
  rfl

theorem value_unary {id operand : ExprId} {op : UnaryOp} {span : Span}
    (h : c.arena.expr? id = some ⟨.unary op operand, span⟩) :
    value c id = value c operand >>= fun v => ofExcept (op.apply v) span := by
  have hnode : ∀ n, evaluate c (n + 1) id =
      evaluate c n operand >>= fun v => ofExcept (op.apply v) span := by
    intro n
    rw [evaluate, h]
    rfl
  rw [value, ← (settles_evaluate c id).unbounded_succ hnode,
    unbounded_bind (f := fun _ v => ofExcept (op.apply v) span) (settles_evaluate c operand)
      fun _ => settles_const _]
  simp only [unbounded_const]
  rfl

theorem value_logical {id left right : ExprId} {op : LogicalOp} {span : Span}
    (h : c.arena.expr? id = some ⟨.logical op left right, span⟩) :
    value c id = value c left >>= fun l =>
      if !l.isInteger then failAt c (.logicalOperand op l.typeName) left
      else if op.decidedBy l then Step.pure l
      else value c right := by
  have hnode : ∀ n, evaluate c (n + 1) id = evaluate c n left >>= fun l =>
      if !l.isInteger then failAt c (.logicalOperand op l.typeName) left
      else if op.decidedBy l then Step.pure l
      else evaluate c n right := by
    intro n
    rw [evaluate, h]
    rfl
  rw [value, ← (settles_evaluate c id).unbounded_succ hnode,
    unbounded_bind (settles_evaluate c left) fun l => ?_]
  · congr 1
    funext l
    split
    · exact unbounded_const _
    split
    · exact unbounded_const _
    · rfl
  · split
    · exact settles_const _
    split
    · exact settles_const _
    · exact settles_evaluate c right

theorem effect_branch {id thenBranch elseBranch : StmtId} {cond : ExprId} {span : Span}
    (h : c.arena.stmt? id = some ⟨.branch cond thenBranch (some elseBranch), span⟩) :
    effect c id = value c cond >>= fun v => truthOf c cond v >>= fun b =>
      effect c (if b then thenBranch else elseBranch) := by
  have hnode : ∀ n, execute c (n + 1) id =
      evaluate c n cond >>= fun v => truthOf c cond v >>= fun b =>
        execute c n (if b then thenBranch else elseBranch) := by
    intro n
    rw [execute, h]
    show (evaluate c n cond >>= fun v => truthOf c cond v >>= fun b =>
      if b = true then execute c n thenBranch else execute c n elseBranch) = _
    simp only [apply_ite (execute c n)]
  have hbranch : ∀ v, Settles fun n => truthOf c cond v >>= fun b =>
      execute c n (if b then thenBranch else elseBranch) := fun v =>
    (settles_const _).bind fun b => settles_execute c _
  rw [effect, ← (settles_execute c id).unbounded_succ hnode,
    unbounded_bind (settles_evaluate c cond) hbranch]
  congr 1
  funext v
  rw [unbounded_bind (settles_const _) fun b => settles_execute c _, unbounded_const]
  rfl

end Nodes

end Scriptorium
