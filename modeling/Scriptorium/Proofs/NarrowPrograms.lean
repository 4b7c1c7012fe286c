import Scriptorium.Proofs.TreeNodes
import Scriptorium.Run.Value

/-!
# Programs without large numbers

A program is narrow if none of its literals needs more than 32 bits and it never asks for
the clock.  A run sees the nodes of a program and not its trees, so that the same is said
of nodes, and handed down from each node to those that it refers to.

* `Expr.isNarrow`, `Stmt.isNarrow` — narrow trees;
* `Code.NarrowExpr`, `Code.NarrowStmt` — nodes at the root of narrow trees;
* `Code.NarrowExpr.kind`, `Code.NarrowStmt.kind` — what such nodes refer to is narrow.
-/

namespace Scriptorium

variable {α β : Type}

/-! ## Trees -/

mutual

/-- No number in the expression needs more than 32 bits, and no reference asks for
`clock`. -/
def Expr.isNarrow : Expr α → Bool
  | .literal (.int n) _ => decide ((n : Int) ≤ Width.narrow.greatest)
  | .literal _ _ => true
  | .unary _ operand _ => operand.isNarrow
  | .binary _ left right _ | .logical _ left right _ => left.isNarrow && right.isNarrow
  | .group inner _ => inner.isNarrow
  | .reference name _ => name != "clock"
  | .assign _ _ value _ => value.isNarrow
  | .call callee args _ => callee.isNarrow && Expr.areNarrow args

/-- All of the expressions are narrow. -/
def Expr.areNarrow : List (Expr α) → Bool
  | [] => true
  | e :: es => e.isNarrow && Expr.areNarrow es

end

mutual

/-- No number in the statement needs more than 32 bits, and no reference asks for
`clock`. -/
def Stmt.isNarrow : Stmt α → Bool
  | .expression expr _ => expr.isNarrow
  | .declare _ init _ => init.all Expr.isNarrow
  | .block body _ => Stmt.areNarrow body
  | .branch cond thenBranch none _ => cond.isNarrow && thenBranch.isNarrow
  | .branch cond thenBranch (some elseBranch) _ =>
      cond.isNarrow && thenBranch.isNarrow && elseBranch.isNarrow
  | .loop cond body _ => cond.isNarrow && body.isNarrow
  | .function _ _ body _ => Stmt.areNarrow body
  | .ret value _ => value.all Expr.isNarrow

/-- All of the statements are narrow. -/
def Stmt.areNarrow : List (Stmt α) → Bool
  | [] => true
  | s :: ss => s.isNarrow && Stmt.areNarrow ss

end

theorem Expr.areNarrow_eq_all (es : List (Expr α)) : areNarrow es = es.all isNarrow := by
  induction es with
  | nil => rfl
  | cons e es ih => rw [areNarrow, ih, List.all_cons]

theorem Stmt.areNarrow_eq_all (ss : List (Stmt α)) : areNarrow ss = ss.all isNarrow := by
  induction ss with
  | nil => rfl
  | cons s ss ih => rw [areNarrow, ih, List.all_cons]

/-! ### The notes do not matter -/

mutual

theorem Expr.isNarrow_map (f : α → β) : (e : Expr α) → (e.map f).isNarrow = e.isNarrow
  | .literal (.int _) _ => rfl
  | .literal (.str _) _ => rfl
  | .literal (.bool _) _ => rfl
  | .unary _ operand _ => operand.isNarrow_map f
  | .binary _ left right _ => congrArg₂ _ (left.isNarrow_map f) (right.isNarrow_map f)
  | .logical _ left right _ => congrArg₂ _ (left.isNarrow_map f) (right.isNarrow_map f)
  | .group inner _ => inner.isNarrow_map f
  | .reference _ _ => rfl
  | .assign _ _ value _ => value.isNarrow_map f
  | .call callee args _ => congrArg₂ _ (callee.isNarrow_map f) (Expr.areNarrow_mapAll f args)

theorem Expr.areNarrow_mapAll (f : α → β) :
    (es : List (Expr α)) → Expr.areNarrow (Expr.mapAll f es) = Expr.areNarrow es
  | [] => rfl
  | e :: es => congrArg₂ _ (e.isNarrow_map f) (Expr.areNarrow_mapAll f es)

end

theorem Expr.all_isNarrow_map (f : α → β) (e : Option (Expr α)) :
    (e.map (Expr.map f)).all Expr.isNarrow = e.all Expr.isNarrow := by
  cases e with
  | none => rfl
  | some e => exact e.isNarrow_map f

mutual

theorem Stmt.isNarrow_map (f : α → β) : (s : Stmt α) → (s.map f).isNarrow = s.isNarrow
  | .expression expr _ => expr.isNarrow_map f
  | .declare _ init _ => Expr.all_isNarrow_map f init
  | .block body _ => Stmt.areNarrow_mapAll f body
  | .branch cond thenBranch none _ =>
      congrArg₂ _ (cond.isNarrow_map f) (thenBranch.isNarrow_map f)
  | .branch cond thenBranch (some elseBranch) _ =>
      congrArg₂ _ (congrArg₂ _ (cond.isNarrow_map f) (thenBranch.isNarrow_map f))
        (elseBranch.isNarrow_map f)
  | .loop cond body _ => congrArg₂ _ (cond.isNarrow_map f) (body.isNarrow_map f)
  | .function _ _ body _ => Stmt.areNarrow_mapAll f body
  | .ret value _ => Expr.all_isNarrow_map f value

theorem Stmt.areNarrow_mapAll (f : α → β) :
    (ss : List (Stmt α)) → Stmt.areNarrow (Stmt.mapAll f ss) = Stmt.areNarrow ss
  | [] => rfl
  | s :: ss => congrArg₂ _ (s.isNarrow_map f) (Stmt.areNarrow_mapAll f ss)

end

theorem Stmt.areNarrow_erase (ss : List (Stmt α)) :
    Stmt.areNarrow (ss.map Stmt.erase) = Stmt.areNarrow ss := by
  rw [← Stmt.areNarrow_mapAll (fun _ => ()) ss, Stmt.mapAll_eq_map]
  rfl

/-! ## Nodes -/

namespace Code

variable {c : Code}

/-- The node is the root of a narrow expression. -/
def NarrowExpr (c : Code) (id : ExprId) : Prop := ∃ e, c.ExprAt id e ∧ e.isNarrow = true

/-- The node is the root of a narrow statement. -/
def NarrowStmt (c : Code) (id : StmtId) : Prop := ∃ s, c.StmtAt id s ∧ s.isNarrow = true

/-- The listed nodes are roots of narrow expressions. -/
def NarrowExprs (c : Code) (args : Slice ExprId) : Prop :=
  ∀ ids, c.arena.exprsIn? args = some ids → ∀ id ∈ ids, c.NarrowExpr id

/-- The listed nodes are roots of narrow statements. -/
def NarrowStmts (c : Code) (body : Slice StmtId) : Prop :=
  ∀ ids, c.arena.stmtsIn? body = some ids → ∀ id ∈ ids, c.NarrowStmt id

end Code

/-- What the node of an expression holds and refers to is narrow. -/
def ExprKind.Narrow (c : Code) : ExprKind → Prop
  | .literal (.int n) => (n : Int) ≤ Width.narrow.greatest
  | .literal _ => True
  | .unary _ x | .group x | .assign _ _ x => c.NarrowExpr x
  | .binary _ l r | .logical _ l r => c.NarrowExpr l ∧ c.NarrowExpr r
  | .reference name => c.names.text? name ≠ some "clock"
  | .call callee args => c.NarrowExpr callee ∧ c.NarrowExprs args

/-- What the node of a statement refers to is narrow. -/
def StmtKind.Narrow (c : Code) : StmtKind → Prop
  | .expression x => c.NarrowExpr x
  | .declare _ init => ∀ x ∈ init, c.NarrowExpr x
  | .block body | .function _ _ body => c.NarrowStmts body
  | .branch cond thenBranch elseBranch =>
      c.NarrowExpr cond ∧ c.NarrowStmt thenBranch ∧ ∀ s ∈ elseBranch, c.NarrowStmt s
  | .loop cond body => c.NarrowExpr cond ∧ c.NarrowStmt body
  | .ret value => ∀ x ∈ value, c.NarrowExpr x

namespace Code

variable {c : Code}

/-- Nodes with trees one by one, all of which have a property. -/
theorem forall_of_forall₂ {ι τ : Type} {R : ι → τ → Prop} {p : τ → Bool} {ids : List ι}
    {ts : List τ} (h : List.Forall₂ R ids ts) (hall : ts.all p = true) :
    ∀ id ∈ ids, ∃ t, R id t ∧ p t = true := by
  induction h with
  | nil => simp
  | @cons id t ids ts ht _ ih =>
    rw [List.all_cons, Bool.and_eq_true] at hall
    exact List.forall_mem_cons.2 ⟨⟨t, ht, hall.1⟩, ih hall.2⟩

theorem narrowExpr_of_rel {init : Option ExprId} {e : Option (Expr Unit)}
    (h : Option.Rel c.ExprAt init e) (he : e.all Expr.isNarrow = true) :
    ∀ x ∈ init, c.NarrowExpr x := by
  cases h with
  | none => simp
  | some h =>
    rintro _ ⟨⟩
    exact ⟨_, h, he⟩

theorem NarrowExpr.kind {id : ExprId} {node : ExprNode} (h : c.NarrowExpr id)
    (hnode : c.arena.expr? id = some node) : node.kind.Narrow c := by
  obtain ⟨e, he, hnarrow⟩ := h
  cases he with
  | int h =>
    cases hnode.symm.trans h
    rw [Expr.isNarrow, decide_eq_true_iff] at hnarrow
    exact hnarrow
  | str h => cases hnode.symm.trans h; trivial
  | bool h => cases hnode.symm.trans h; trivial
  | unary h hx => cases hnode.symm.trans h; exact ⟨_, hx, hnarrow⟩
  | group h hx => cases hnode.symm.trans h; exact ⟨_, hx, hnarrow⟩
  | assign h _ hx => cases hnode.symm.trans h; exact ⟨_, hx, hnarrow⟩
  | binary h hl hr =>
    cases hnode.symm.trans h
    obtain ⟨hl', hr'⟩ := Bool.and_eq_true_iff.1 hnarrow
    exact ⟨⟨_, hl, hl'⟩, _, hr, hr'⟩
  | logical h hl hr =>
    cases hnode.symm.trans h
    obtain ⟨hl', hr'⟩ := Bool.and_eq_true_iff.1 hnarrow
    exact ⟨⟨_, hl, hl'⟩, _, hr, hr'⟩
  | reference h htext =>
    cases hnode.symm.trans h
    rw [ExprKind.Narrow, htext]
    simpa [Expr.isNarrow] using hnarrow
  | call h hf hids hes =>
    cases hnode.symm.trans h
    obtain ⟨hf', hes'⟩ := Bool.and_eq_true_iff.1 hnarrow
    rw [Expr.areNarrow_eq_all] at hes'
    refine ⟨⟨_, hf, hf'⟩, fun ids hids' => ?_⟩
    cases hids.symm.trans hids'
    exact forall_of_forall₂ hes hes'

theorem NarrowStmt.kind {id : StmtId} {node : StmtNode} (h : c.NarrowStmt id)
    (hnode : c.arena.stmt? id = some node) : node.kind.Narrow c := by
  have hbody : ∀ {body : Slice StmtId} {ids : List StmtId} {ss : List (Stmt Unit)},
      c.arena.stmtsIn? body = some ids → List.Forall₂ c.StmtAt ids ss →
      Stmt.areNarrow ss = true → c.NarrowStmts body := by
    intro body ids ss hids hss hnarrow ids' hids'
    cases hids.symm.trans hids'
    rw [Stmt.areNarrow_eq_all] at hnarrow
    exact forall_of_forall₂ hss hnarrow
  obtain ⟨s, hs, hnarrow⟩ := h
  cases hs with
  | expression h hx => cases hnode.symm.trans h; exact ⟨_, hx, hnarrow⟩
  | declare h _ hx => cases hnode.symm.trans h; exact narrowExpr_of_rel hx hnarrow
  | block h hids hss => cases hnode.symm.trans h; exact hbody hids hss hnarrow
  | branch h hc ht =>
    cases hnode.symm.trans h
    obtain ⟨hc', ht'⟩ := Bool.and_eq_true_iff.1 hnarrow
    exact ⟨⟨_, hc, hc'⟩, ⟨_, ht, ht'⟩, by simp⟩
  | branchElse h hc ht he =>
    cases hnode.symm.trans h
    obtain ⟨hct, he'⟩ := Bool.and_eq_true_iff.1 hnarrow
    obtain ⟨hc', ht'⟩ := Bool.and_eq_true_iff.1 hct
    refine ⟨⟨_, hc, hc'⟩, ⟨_, ht, ht'⟩, ?_⟩
    rintro _ ⟨⟩
    exact ⟨_, he, he'⟩
  | loop h hc hb =>
    cases hnode.symm.trans h
    obtain ⟨hc', hb'⟩ := Bool.and_eq_true_iff.1 hnarrow
    exact ⟨⟨_, hc, hc'⟩, _, hb, hb'⟩
  | function h _ _ _ hids hss => cases hnode.symm.trans h; exact hbody hids hss hnarrow
  | ret h hx => cases hnode.symm.trans h; exact narrowExpr_of_rel hx hnarrow

end Code

end Scriptorium
