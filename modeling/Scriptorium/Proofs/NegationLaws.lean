import Scriptorium.Proofs.AlikeRuns
import Scriptorium.Proofs.Returns
import Scriptorium.Proofs.UnboundedRuns

/-!
# Negations of logical operators and conditions

Only the integer one counts as true, and a logical operator answers one of its operands as it
is.  Still `!(a and b)` does the same as `!a or !b`, and `!(a or b)` as `!a and !b`: the right
operand is computed in the same cases, and what is answered is the negation of the same
operand.  In the same way, `if (a) s else t` does what `if (!a) t else s` does.  An operand
that is no integer is refused on both sides, though by another operator; so the causes of
errors are the same and their places and notes are not.

* `Step.Accords`, `EndAlike` — what it means to do the same, without a bound and with one;
* `Code.NegatedJoin`, `Code.JoinedNegations`, `Code.Branches`, `Code.BranchesOnNot` — the two
  sides of the laws, up to parentheses;
* `accords_deMorgan`, `accords_branches` — the laws for operands that do the same;
* `negation_laws` — the laws for the same operands, stored once or twice.
-/

namespace Scriptorium

variable {α β α' β' : Type} {M : Machine → Machine → Prop}

/-- The operator that a negation turns an operator into. -/
def LogicalOp.dual : LogicalOp → LogicalOp
  | .and => .or
  | .or => .and

/-! ## Doing the same -/

/-- The computations ended in the same way: with results related by `R` or with errors of the
same cause, and with machines related by `M`. -/
inductive Outcome.Accords (M : Machine → Machine → Prop) (R : α → β → Prop) :
    Outcome α → Outcome β → Prop where
  /-- Both have a result. -/
  | done {a : α} {b : β} {m m' : Machine} : R a b → M m m' → Accords M R (.done a m) (.done b m')
  /-- Both went wrong. -/
  | failed {e e' : RunError} {m m' : Machine} :
      e.fault = e'.fault → M m m' → Accords M R (.failed e m) (.failed e' m')
  /-- Both got stuck. -/
  | stuck : Accords M R .stuck .stuck
  /-- Neither ended. -/
  | exhausted : Accords M R .exhausted .exhausted

/-- From related machines, the computations end in the same way. -/
def Step.Accords (M : Machine → Machine → Prop) (R : α → β → Prop) (x : Step α) (y : Step β) :
    Prop :=
  ∀ m m', M m m' → Outcome.Accords M R (x m) (y m')

/-- From related machines, each of the computations ends within some bound if the other one
does, and in the same way. -/
def EndAlike (M : Machine → Machine → Prop) (R : α → β → Prop) (x : Nat → Step α)
    (y : Nat → Step β) : Prop :=
  ∀ m m', M m m' →
    (∀ n, x n m ≠ .exhausted → ∃ n', Outcome.Accords M R (x n m) (y n' m')) ∧
    (∀ n', y n' m' ≠ .exhausted → ∃ n, Outcome.Accords M R (x n m) (y n' m'))

namespace Step

variable {R : α → β → Prop} {S : α' → β' → Prop}

theorem accords_pure {a : α} {b : β} (h : R a b) :
    Accords M R (pure a : Step α) (pure b : Step β) :=
  fun _ _ hm => .done h hm

theorem accords_fail {e e' : RunError} (h : e.fault = e'.fault) (span span' : Span) :
    Accords M R (fail e span : Step α) (fail e' span' : Step β) := by
  have hfault : ∀ (m : Machine) (e : RunError) (span : Span),
      (m.calls.attach (e.locate span)).fault = e.fault := by
    intro m e span
    unfold CallStack.attach RunError.locate
    split <;> split <;> rfl
  refine fun m m' hm => .failed ?_ hm
  rw [hfault, hfault, h]

/-- What the second computations do counts for the results that the first ones can have. -/
theorem Accords.bind {x : Step α} {y : Step β} {f : α → Step α'} {g : β → Step β'}
    (hx : Accords M R x y)
    (hf : ∀ m m₁ a b, x m = .done a m₁ → R a b → Accords M S (f a) (g b)) :
    Accords M S (x >>= f) (y >>= g) := by
  intro m m' hm
  have hends := hx m m' hm
  show Outcome.Accords M S (Step.bind x f m) (Step.bind y g m')
  unfold Step.bind
  generalize y m' = o' at hends
  cases hxm : x m with
  | done a m₁ =>
    rw [hxm] at hends
    cases hends with
    | done hab hm₁ => exact hf m m₁ a _ hxm hab _ _ hm₁
  | failed e m₁ =>
    rw [hxm] at hends
    cases hends with
    | failed hfault hm₁ => exact .failed hfault hm₁
  | stuck =>
    rw [hxm] at hends
    cases hends
    exact .stuck
  | exhausted =>
    rw [hxm] at hends
    cases hends
    exact .exhausted

theorem accords_refl (x : Step α) : Accords Eq Eq x x := by
  rintro m _ rfl
  cases x m with
  | done a m₁ => exact .done rfl rfl
  | failed e m₁ => exact .failed rfl rfl
  | stuck => exact .stuck
  | exhausted => exact .exhausted

theorem pure_bind (a : α) (f : α → Step β) : (Step.pure a >>= f) = f a := rfl

theorem fail_bind (e : RunError) (span : Span) (f : α → Step β) :
    (fail e span >>= f) = fail e span := rfl

/-- Computations that are alike with every bound do the same without one. -/
theorem accords_unbounded {B : Slice StmtId → Slice StmtId → Prop} {x : Nat → Step α}
    {y : Nat → Step β} (hx : Settles x) (hy : Settles y)
    (h : ∀ n, Step.Alike B R (x n) (y n)) :
    Accords (Machine.Alike B) R (unbounded x) (unbounded y) := by
  intro m m' hm
  obtain ⟨least, hleast⟩ := hx.exists_eq m
  obtain ⟨least', hleast'⟩ := hy.exists_eq m'
  have hends := h (max least least') m m' hm
  rw [hleast _ (Nat.le_max_left ..), hleast' _ (Nat.le_max_right ..)] at hends
  generalize unbounded x m = o at hends ⊢
  generalize unbounded y m' = o' at hends ⊢
  cases hends with
  | done hab hm => exact .done hab hm
  | failed he hm => exact .failed he.fault hm
  | exhausted => exact .exhausted

/-- Computations that do the same without a bound end alike with bounds. -/
theorem Accords.endAlike {x : Nat → Step α} {y : Nat → Step β} (hx : Settles x) (hy : Settles y)
    (h : Accords M R (unbounded x) (unbounded y)) : EndAlike M R x y := by
  intro m m' hm
  have hends := h m m' hm
  constructor
  · intro n hn
    obtain ⟨n', hn'⟩ := hy.exists_eq m'
    rw [hx.unbounded_eq hn, ← hn' n' le_rfl] at hends
    exact ⟨n', hends⟩
  · intro n' hn'
    obtain ⟨n, hn⟩ := hx.exists_eq m
    rw [hy.unbounded_eq hn', ← hn n le_rfl] at hends
    exact ⟨n, hends⟩

end Step

open Step

/-! ## The sides of the laws -/

namespace Code

variable (c : Code)

/-- The first expression is the second one, perhaps in parentheses. -/
inductive Parens : ExprId → ExprId → Prop where
  /-- No parentheses. -/
  | none (id : ExprId) : Parens id id
  /-- One pair more. -/
  | group {id inner x : ExprId} {span : Span} :
      c.arena.expr? id = some ⟨.group inner, span⟩ → Parens inner x → Parens id x

/-- The expression `id` is `!a`. -/
def Negates (id a : ExprId) : Prop :=
  ∃ node operand span, c.Parens id node ∧
    c.arena.expr? node = some ⟨.unary .not operand, span⟩ ∧ c.Parens operand a

/-- The expression `id` is `a op b`. -/
def Joins (op : LogicalOp) (id a b : ExprId) : Prop :=
  ∃ node left right span, c.Parens id node ∧
    c.arena.expr? node = some ⟨.logical op left right, span⟩ ∧ c.Parens left a ∧
    c.Parens right b

/-- The expression `id` is `!(a op b)`. -/
def NegatedJoin (op : LogicalOp) (id a b : ExprId) : Prop :=
  ∃ joined, c.Negates id joined ∧ c.Joins op joined a b

/-- The expression `id` is `!a op !b`. -/
def JoinedNegations (op : LogicalOp) (id a b : ExprId) : Prop :=
  ∃ left right, c.Joins op id left right ∧ c.Negates left a ∧ c.Negates right b

/-- The statement `id` is `if (a) s else t`. -/
def Branches (id : StmtId) (a : ExprId) (s t : StmtId) : Prop :=
  ∃ cond span, c.arena.stmt? id = some ⟨.branch cond s (some t), span⟩ ∧ c.Parens cond a

/-- The statement `id` is `if (!a) s else t`. -/
def BranchesOnNot (id : StmtId) (a : ExprId) (s t : StmtId) : Prop :=
  ∃ cond, c.Branches id cond s t ∧ c.Negates cond a

end Code

section Sides

variable {c : Code}

theorem value_parens {id x : ExprId} (h : c.Parens id x) : value c id = value c x := by
  induction h with
  | none => rfl
  | group hnode _ ih => rw [value_group hnode, ih]

theorem value_negates {id a : ExprId} (h : c.Negates id a) :
    ∃ span, value c id = value c a >>= fun v => ofExcept (UnaryOp.not.apply v) span := by
  obtain ⟨node, operand, span, houter, hnode, hoperand⟩ := h
  refine ⟨span, ?_⟩
  rw [value_parens houter, value_unary hnode, value_parens hoperand]

theorem value_joins {op : LogicalOp} {id a b : ExprId} (h : c.Joins op id a b) :
    ∃ left, value c left = value c a ∧ value c id = value c a >>= fun l =>
      if !l.isInteger then failAt c (.logicalOperand op l.typeName) left
      else if op.decidedBy l then Step.pure l
      else value c b := by
  obtain ⟨node, left, right, span, houter, hnode, hleft, hright⟩ := h
  refine ⟨left, value_parens hleft, ?_⟩
  rw [value_parens houter, value_logical hnode, value_parens hleft, value_parens hright]

/-- An error at an expression that has a value. -/
theorem failAt_of_value {id : ExprId} {v : Value} {m m₁ : Machine}
    (h : value c id m = .done v m₁) (e : RunError) :
    ∃ span, (failAt c e id : Step α) = fail e span := by
  obtain ⟨node, hnode⟩ := exists_node_of_value h
  refine ⟨node.span, ?_⟩
  rw [failAt, hnode]
  rfl

theorem not_apply_of_isInteger {v : Value} (h : v.isInteger = true) :
    UnaryOp.not.apply v = .ok (.ofBool !v.isTrue) := by
  obtain ⟨n, hn⟩ := Option.isSome_iff_exists.1 h
  unfold UnaryOp.apply
  rw [hn]

theorem not_apply_of_not_isInteger {v : Value} (h : v.isInteger = false) :
    UnaryOp.not.apply v = .error (.unaryOperand .not v.typeName) := by
  have hnone : v.toInt? = none := Option.isSome_eq_false_iff.1 h |> Option.isNone_iff_eq_none.1
  unfold UnaryOp.apply
  rw [hnone]

/-- What follows the negation of an integer. -/
theorem not_bind_of_isInteger {v : Value} (h : v.isInteger = true) (span : Span)
    (f : Value → Step α) :
    (ofExcept (UnaryOp.not.apply v) span >>= f) = f (.ofBool !v.isTrue) := by
  rw [not_apply_of_isInteger h]
  rfl

/-- Nothing follows the negation of something else. -/
theorem not_bind_of_not_isInteger {v : Value} (h : v.isInteger = false) (span : Span)
    (f : Value → Step α) : (ofExcept (UnaryOp.not.apply v) span >>= f) =
      fail (.unaryOperand .not v.typeName) span := by
  rw [not_apply_of_not_isInteger h]
  rfl

theorem isTrue_ofBool (b : Bool) : (Value.ofBool b).isTrue = b := by
  cases b <;> decide

theorem isInteger_ofBool (b : Bool) : (Value.ofBool b).isInteger = true := rfl

theorem decidedBy_dual (op : LogicalOp) (v : Value) :
    op.dual.decidedBy (.ofBool !v.isTrue) = op.decidedBy v := by
  cases op <;> simp [LogicalOp.dual, LogicalOp.decidedBy, isTrue_ofBool]

end Sides

/-! ## The laws for operands that do the same -/

section Laws

variable {c d : Code} {V : Value → Value → Prop} {C : Completion → Completion → Prop}
  {a b a' b' : ExprId}

/-- The negations of values that are related. -/
theorem accords_not (hresembles : ∀ v w, V v w → v.Resembles w)
    (hinteger : ∀ v, v.isInteger = true → V v v) {v w : Value} (h : V v w) (span span' : Span) :
    Step.Accords M V (ofExcept (UnaryOp.not.apply v) span)
      (ofExcept (UnaryOp.not.apply w) span') := by
  rw [UnaryOp.apply_eq .not (hresembles v w h)]
  cases hw : UnaryOp.not.apply w with
  | ok u => exact accords_pure (hinteger u (UnaryOp.isInteger_of_apply hw))
  | error e => exact accords_fail rfl span span'

theorem accords_deMorgan (hresembles : ∀ v w, V v w → v.Resembles w)
    (hinteger : ∀ v, v.isInteger = true → V v v) (ha : Step.Accords M V (value c a) (value d a'))
    (hb : Step.Accords M V (value c b) (value d b')) {op : LogicalOp} {x y : ExprId}
    (hx : c.NegatedJoin op x a b) (hy : d.JoinedNegations op.dual y a' b') :
    Step.Accords M V (value c x) (value d y) := by
  obtain ⟨joined, hnot, hjoined⟩ := hx
  obtain ⟨first, second, hjoin, hnot₁, hnot₂⟩ := hy
  obtain ⟨span, hx⟩ := value_negates hnot
  obtain ⟨left, hleft, hjoined⟩ := value_joins hjoined
  obtain ⟨left', -, hy⟩ := value_joins hjoin
  obtain ⟨span₁, hfirst⟩ := value_negates hnot₁
  obtain ⟨span₂, hsecond⟩ := value_negates hnot₂
  rw [hx, hjoined, hy, hfirst, hsecond, bind_assoc, bind_assoc]
  refine ha.bind fun m m₁ v w hv hvw => ?_
  have hsame := hresembles v w hvw
  cases hint : v.isInteger with
  | false =>
    -- both sides refuse the left operand
    obtain ⟨place, hplace⟩ := failAt_of_value (hleft.symm ▸ hv : value c left m = _)
      (α := Value) (.logicalOperand op v.typeName)
    rw [not_bind_of_not_isInteger (hsame.isInteger_eq ▸ hint), ← hsame.typeName_eq, Bool.not_false,
      if_pos rfl, hplace, Step.fail_bind]
    refine accords_fail ?_ place span₁
    rfl
  | true =>
    rw [not_bind_of_isInteger (hsame.isInteger_eq ▸ hint), ← hsame.isTrue_eq, decidedBy_dual,
      isInteger_ofBool]
    simp only [Bool.not_true, Bool.false_eq_true, if_false]
    split
    · -- both sides answer for the left operand
      rw [Step.pure_bind, not_apply_of_isInteger hint]
      exact accords_pure (hinteger _ rfl)
    · exact hb.bind fun _ _ _ _ _ h => accords_not hresembles hinteger h span span₂

theorem accords_branches (hresembles : ∀ v w, V v w → v.Resembles w)
    (ha : Step.Accords M V (value c a) (value d a')) {s t s' t' i j : StmtId}
    (hs : Step.Accords M C (effect c s) (effect d s'))
    (ht : Step.Accords M C (effect c t) (effect d t')) (hi : c.Branches i a s t)
    (hj : d.BranchesOnNot j a' t' s') : Step.Accords M C (effect c i) (effect d j) := by
  obtain ⟨cond, span, hi, hcond⟩ := hi
  obtain ⟨ncond, ⟨cond', span', hj, hncond⟩, hnot⟩ := hj
  obtain ⟨place, hvalue⟩ := value_negates hnot
  rw [effect_branch hi, effect_branch hj, value_parens hcond, value_parens hncond, hvalue,
    bind_assoc]
  refine ha.bind fun m m₁ v w hv hvw => ?_
  have hsame := hresembles v w hvw
  cases hint : v.isInteger with
  | false =>
    -- the conditional refuses the one condition, and the negation the other one
    obtain ⟨place', hplace⟩ := failAt_of_value (value_parens hcond ▸ hv : value c cond m = _)
      (α := Bool) (.condition v.typeName)
    rw [not_bind_of_not_isInteger (hsame.isInteger_eq ▸ hint), ← hsame.typeName_eq, truthOf, hint,
      if_neg Bool.false_ne_true, hplace, Step.fail_bind]
    refine accords_fail ?_ place' place
    rfl
  | true =>
    rw [not_bind_of_isInteger (hsame.isInteger_eq ▸ hint), ← hsame.isTrue_eq, truthOf, hint,
      if_pos rfl, truthOf, if_pos (isInteger_ofBool _), isTrue_ofBool, Step.pure_bind,
      Step.pure_bind]
    cases v.isTrue with
    | false => exact ht
    | true => exact hs

end Laws

/-! ## The laws -/

/-- The same expression, in two places, does the same. -/
theorem accords_value {c d : Code} {id id' : ExprId} {e : Expr Unit} (h : c.ExprAt id e)
    (h' : d.ExprAt id' e) :
    Step.Accords (Machine.Alike (SameBody c d)) (Value.Alike (SameBody c d)) (value c id)
      (value d id') :=
  accords_unbounded (settles_evaluate c id) (settles_evaluate d id')
    fun n => (simulates c d n).evaluate h h'

/-- The same statement, in two places, does the same. -/
theorem accords_effect {c d : Code} {id id' : StmtId} {s : Stmt Unit} (h : c.StmtAt id s)
    (h' : d.StmtAt id' s) :
    Step.Accords (Machine.Alike (SameBody c d)) (Completion.Alike (SameBody c d)) (effect c id)
      (effect d id') :=
  accords_unbounded (settles_execute c id) (settles_execute d id')
    fun n => (simulates c d n).execute h h'

/-- From every machine, `!(a and b)` and `!a or !b` do the same, and so do `!(a or b)` and
`!a and !b`, and `if (a) s else t` and `if (!a) t else s`: if one of the two ends, then so does
the other, both with the same value or both with an error of the same cause, and both leave the
same machine.  When the two sides are made of the same nodes, then nothing else differs.  They
can also be made of nodes with the same trees, in one code or in two; then values and machines
are the same but for where the bodies of functions are stored. -/
theorem negation_laws :
    (∀ (c : Code) (op : LogicalOp) (a b x y : ExprId),
      c.NegatedJoin op x a b → c.JoinedNegations op.dual y a b →
      EndAlike Eq Eq (evaluate c · x) (evaluate c · y)) ∧
    (∀ (c : Code) (a : ExprId) (s t i j : StmtId),
      c.Branches i a s t → c.BranchesOnNot j a t s →
      EndAlike Eq Eq (execute c · i) (execute c · j)) ∧
    (∀ (c d : Code) (op : LogicalOp) (e f : Expr Unit) (a b x a' b' y : ExprId),
      c.ExprAt a e → c.ExprAt b f → d.ExprAt a' e → d.ExprAt b' f →
      c.NegatedJoin op x a b → d.JoinedNegations op.dual y a' b' →
      EndAlike (Machine.Alike (SameBody c d)) (Value.Alike (SameBody c d))
        (evaluate c · x) (evaluate d · y)) ∧
    (∀ (c d : Code) (e : Expr Unit) (u v : Stmt Unit) (a a' : ExprId) (s t i s' t' j : StmtId),
      c.ExprAt a e → c.StmtAt s u → c.StmtAt t v → d.ExprAt a' e → d.StmtAt s' u →
      d.StmtAt t' v → c.Branches i a s t → d.BranchesOnNot j a' t' s' →
      EndAlike (Machine.Alike (SameBody c d)) (Completion.Alike (SameBody c d))
        (execute c · i) (execute d · j)) := by
  have hresembles : ∀ v w : Value, v = w → v.Resembles w := by
    rintro v _ rfl
    exact .same v
  refine ⟨?_, ?_, ?_, ?_⟩
  · intro c op a b x y hx hy
    exact (accords_deMorgan hresembles (fun _ _ => rfl) (accords_refl _) (accords_refl _) hx
      hy).endAlike (settles_evaluate c x) (settles_evaluate c y)
  · intro c a s t i j hi hj
    exact (accords_branches hresembles (accords_refl _) (accords_refl _) (accords_refl _) hi
      hj).endAlike (settles_execute c i) (settles_execute c j)
  · intro c d op e f a b x a' b' y ha hb ha' hb' hx hy
    exact (accords_deMorgan (fun _ _ h => h.resembles) (fun _ h => .of_isInteger h)
      (accords_value ha ha') (accords_value hb hb') hx hy).endAlike (settles_evaluate c x)
      (settles_evaluate d y)
  · intro c d e u v a a' s t i s' t' j ha hs ht ha' hs' ht' hi hj
    exact (accords_branches (fun _ _ h => h.resembles) (accords_value ha ha')
      (accords_effect hs hs') (accords_effect ht ht') hi hj).endAlike (settles_execute c i)
      (settles_execute d j)

/-- Both sides of a law in one text. -/
theorem negation_laws_text :
    let c := (parse "!(a and b); !a or !b;").code
    c.ExprAt ⟨0⟩ (.reference "a" ()) ∧ c.ExprAt ⟨5⟩ (.reference "a" ()) ∧
      c.ExprAt ⟨1⟩ (.reference "b" ()) ∧ c.ExprAt ⟨7⟩ (.reference "b" ()) ∧
      c.NegatedJoin .and ⟨4⟩ ⟨0⟩ ⟨1⟩ ∧ c.JoinedNegations .or ⟨9⟩ ⟨5⟩ ⟨7⟩ ∧
      EndAlike (Machine.Alike (SameBody c c)) (Value.Alike (SameBody c c))
        (evaluate c · ⟨4⟩) (evaluate c · ⟨9⟩) := by
  intro c
  obtain ⟨hnames, hstored, hnot, hgroup, hand, hor, hnot₁, hnot₂⟩ :
      (c.names.text? ⟨1⟩ = some "a" ∧ c.names.text? ⟨2⟩ = some "b") ∧
      (c.arena.expr? ⟨0⟩ = some ⟨.reference ⟨1⟩, ⟨2, 3⟩⟩ ∧
        c.arena.expr? ⟨5⟩ = some ⟨.reference ⟨1⟩, ⟨13, 14⟩⟩ ∧
        c.arena.expr? ⟨1⟩ = some ⟨.reference ⟨2⟩, ⟨8, 9⟩⟩ ∧
        c.arena.expr? ⟨7⟩ = some ⟨.reference ⟨2⟩, ⟨19, 20⟩⟩) ∧
      c.arena.expr? ⟨4⟩ = some ⟨.unary .not ⟨3⟩, ⟨0, 10⟩⟩ ∧
      c.arena.expr? ⟨3⟩ = some ⟨.group ⟨2⟩, ⟨1, 10⟩⟩ ∧
      c.arena.expr? ⟨2⟩ = some ⟨.logical .and ⟨0⟩ ⟨1⟩, ⟨2, 9⟩⟩ ∧
      c.arena.expr? ⟨9⟩ = some ⟨.logical .or ⟨6⟩ ⟨8⟩, ⟨12, 20⟩⟩ ∧
      c.arena.expr? ⟨6⟩ = some ⟨.unary .not ⟨5⟩, ⟨12, 14⟩⟩ ∧
      c.arena.expr? ⟨8⟩ = some ⟨.unary .not ⟨7⟩, ⟨18, 20⟩⟩ := by
    decide +kernel
  have ha : c.ExprAt ⟨0⟩ (.reference "a" ()) := .reference hstored.1 hnames.1
  have ha' : c.ExprAt ⟨5⟩ (.reference "a" ()) := .reference hstored.2.1 hnames.1
  have hb : c.ExprAt ⟨1⟩ (.reference "b" ()) := .reference hstored.2.2.1 hnames.2
  have hb' : c.ExprAt ⟨7⟩ (.reference "b" ()) := .reference hstored.2.2.2 hnames.2
  have hx : c.NegatedJoin .and ⟨4⟩ ⟨0⟩ ⟨1⟩ :=
    ⟨⟨2⟩, ⟨⟨4⟩, ⟨3⟩, _, .none _, hnot, .group hgroup (.none _)⟩,
      ⟨⟨2⟩, ⟨0⟩, ⟨1⟩, _, .none _, hand, .none _, .none _⟩⟩
  have hy : c.JoinedNegations .or ⟨9⟩ ⟨5⟩ ⟨7⟩ :=
    ⟨⟨6⟩, ⟨8⟩, ⟨⟨9⟩, ⟨6⟩, ⟨8⟩, _, .none _, hor, .none _, .none _⟩,
      ⟨⟨6⟩, ⟨5⟩, _, .none _, hnot₁, .none _⟩, ⟨⟨8⟩, ⟨7⟩, _, .none _, hnot₂, .none _⟩⟩
  exact ⟨ha, ha', hb, hb', hx, hy,
    negation_laws.2.2.1 c c .and _ _ _ _ _ _ _ _ ha hb ha' hb' hx hy⟩

end Scriptorium
