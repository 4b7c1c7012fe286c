import Scriptorium.Proofs.ArenaGrowth
import Scriptorium.Proofs.Shape

/-!
# The nodes of a tree

A run never sees a tree: it looks one node up after the other.  `Code.ExprAt` and
`Code.StmtAt` say node by node that a number is the root of a tree, whatever the depth of
the tree and wherever its nodes are stored, so that two codes can be compared at the
nodes that a run comes to.

* `Code.ExprAt`, `Code.StmtAt` — the node under a number is the root of a tree;
* `exprAt_of_exprTree?`, `stmtAt_of_stmtTree?` — so is every node that a tree can be read
  from.
-/

namespace Scriptorium

namespace Code

variable {c : Code}

/-! ## Expressions -/

/-- The node under a number is the root of the tree. -/
inductive ExprAt (c : Code) : ExprId → Expr Unit → Prop where
  /-- A number. -/
  | int {id : ExprId} {span : Span} {n : Nat} :
      c.arena.expr? id = some ⟨.literal (.int n), span⟩ → ExprAt c id (.literal (.int n) ())
  /-- A text. -/
  | str {id : ExprId} {span : Span} {name : NameId} {text : String} :
      c.arena.expr? id = some ⟨.literal (.str name), span⟩ → c.names.text? name = some text →
      ExprAt c id (.literal (.str text) ())
  /-- A truth value. -/
  | bool {id : ExprId} {span : Span} {b : Bool} :
      c.arena.expr? id = some ⟨.literal (.bool b), span⟩ → ExprAt c id (.literal (.bool b) ())
  /-- An operator on one operand. -/
  | unary {id operand : ExprId} {span : Span} {op : UnaryOp} {e : Expr Unit} :
      c.arena.expr? id = some ⟨.unary op operand, span⟩ → ExprAt c operand e →
      ExprAt c id (.unary op e ())
  /-- An operator on two operands. -/
  | binary {id left right : ExprId} {span : Span} {op : BinaryOp} {l r : Expr Unit} :
      c.arena.expr? id = some ⟨.binary op left right, span⟩ → ExprAt c left l →
      ExprAt c right r → ExprAt c id (.binary op l r ())
  /-- A logical operator. -/
  | logical {id left right : ExprId} {span : Span} {op : LogicalOp} {l r : Expr Unit} :
      c.arena.expr? id = some ⟨.logical op left right, span⟩ → ExprAt c left l →
      ExprAt c right r → ExprAt c id (.logical op l r ())
  /-- An expression in parentheses. -/
  | group {id inner : ExprId} {span : Span} {e : Expr Unit} :
      c.arena.expr? id = some ⟨.group inner, span⟩ → ExprAt c inner e →
      ExprAt c id (.group e ())
  /-- The value of a variable. -/
  | reference {id : ExprId} {span : Span} {name : NameId} {text : String} :
      c.arena.expr? id = some ⟨.reference name, span⟩ → c.names.text? name = some text →
      ExprAt c id (.reference text ())
  /-- An assignment. -/
  | assign {id value : ExprId} {span nameSpan : Span} {name : NameId} {text : String}
      {v : Expr Unit} :
      c.arena.expr? id = some ⟨.assign name nameSpan value, span⟩ →
      c.names.text? name = some text → ExprAt c value v → ExprAt c id (.assign text () v ())
  /-- A call. -/
  | call {id callee : ExprId} {span : Span} {args : Slice ExprId} {ids : List ExprId}
      {f : Expr Unit} {es : List (Expr Unit)} :
      c.arena.expr? id = some ⟨.call callee args, span⟩ → ExprAt c callee f →
      c.arena.exprsIn? args = some ids → List.Forall₂ (ExprAt c) ids es →
      ExprAt c id (.call f es ())

/-- Trees that were read one by one are trees of the members. -/
theorem forall₂_of_mapM {α β γ : Type} {f : α → Option β} {erase : β → γ} {R : α → γ → Prop}
    (h : ∀ a b, f a = some b → R a (erase b)) {as : List α} {bs : List β}
    (hbs : as.mapM f = some bs) : List.Forall₂ R as (bs.map erase) :=
  List.forall₂_map_right_iff.2 ((mapM_eq_some_iff.1 hbs).imp h)

theorem exprAt_of_exprTree? {n : Nat} {id : ExprId} {t : Expr Origin}
    (h : c.exprTree? n id = some t) : c.ExprAt id t.erase := by
  induction n generalizing id t with
  | zero => exact absurd h (by simp [exprTree?])
  | succ n ih =>
    simp only [exprTree?, Option.bind_eq_bind, Option.bind_eq_some_iff] at h
    obtain ⟨⟨kind, span⟩, hnode, h⟩ := h
    split at h <;>
    simp only [Option.bind_eq_some_iff, Option.pure_def, Option.some.injEq] at h <;>
    rename_i heq <;> cases heq
    · subst h
      exact .int hnode
    · obtain ⟨text, htext, rfl⟩ := h
      exact .str hnode htext
    · subst h
      exact .bool hnode
    · obtain ⟨operand, ho, rfl⟩ := h
      exact .unary hnode (ih ho)
    · obtain ⟨left, hl, right, hr, rfl⟩ := h
      exact .binary hnode (ih hl) (ih hr)
    · obtain ⟨left, hl, right, hr, rfl⟩ := h
      exact .logical hnode (ih hl) (ih hr)
    · obtain ⟨inner, hi, rfl⟩ := h
      exact .group hnode (ih hi)
    · obtain ⟨name, hn, rfl⟩ := h
      exact .reference hnode hn
    · obtain ⟨name, hn, value, hv, rfl⟩ := h
      exact .assign hnode hn (ih hv)
    · obtain ⟨callee, hc, ids, hids, args, hargs, rfl⟩ := h
      rw [Expr.erase_call]
      exact .call hnode (ih hc) hids (forall₂_of_mapM (fun _ _ => ih) hargs)

theorem optionExprAt_of_exprOfOption? {id : Option ExprId} {t : Option (Expr Origin)}
    (h : c.exprOfOption? id = some t) : Option.Rel c.ExprAt id (t.map Expr.erase) := by
  cases id with
  | none =>
    cases h
    exact .none
  | some id =>
    obtain ⟨e, he, rfl⟩ := Option.map_eq_some_iff.1 h
    exact .some (exprAt_of_exprTree? he)

/-! ## Statements -/

/-- The node under a number is the root of the tree. -/
inductive StmtAt (c : Code) : StmtId → Stmt Unit → Prop where
  /-- An expression. -/
  | expression {id : StmtId} {span : Span} {expr : ExprId} {e : Expr Unit} :
      c.arena.stmt? id = some ⟨.expression expr, span⟩ → c.ExprAt expr e →
      StmtAt c id (.expression e ())
  /-- The declaration of a variable. -/
  | declare {id : StmtId} {span : Span} {name : NameId} {text : String} {init : Option ExprId}
      {e : Option (Expr Unit)} :
      c.arena.stmt? id = some ⟨.declare name init, span⟩ → c.names.text? name = some text →
      Option.Rel c.ExprAt init e → StmtAt c id (.declare text e ())
  /-- A block. -/
  | block {id : StmtId} {span : Span} {body : Slice StmtId} {ids : List StmtId}
      {ss : List (Stmt Unit)} :
      c.arena.stmt? id = some ⟨.block body, span⟩ → c.arena.stmtsIn? body = some ids →
      List.Forall₂ (StmtAt c) ids ss → StmtAt c id (.block ss ())
  /-- A conditional without `else`. -/
  | branch {id thenBranch : StmtId} {span : Span} {cond : ExprId} {e : Expr Unit}
      {s : Stmt Unit} :
      c.arena.stmt? id = some ⟨.branch cond thenBranch none, span⟩ → c.ExprAt cond e →
      StmtAt c thenBranch s → StmtAt c id (.branch e s none ())
  /-- A conditional with `else`. -/
  | branchElse {id thenBranch elseBranch : StmtId} {span : Span} {cond : ExprId} {e : Expr Unit}
      {s s' : Stmt Unit} :
      c.arena.stmt? id = some ⟨.branch cond thenBranch (some elseBranch), span⟩ →
      c.ExprAt cond e → StmtAt c thenBranch s → StmtAt c elseBranch s' →
      StmtAt c id (.branch e s (some s') ())
  /-- A loop. -/
  | loop {id body : StmtId} {span : Span} {cond : ExprId} {e : Expr Unit} {s : Stmt Unit} :
      c.arena.stmt? id = some ⟨.loop cond body, span⟩ → c.ExprAt cond e → StmtAt c body s →
      StmtAt c id (.loop e s ())
  /-- The declaration of a function. -/
  | function {id : StmtId} {span : Span} {name : NameId} {text : String} {params : Slice NameId}
      {names : List NameId} {texts : List String} {body : Slice StmtId} {ids : List StmtId}
      {ss : List (Stmt Unit)} :
      c.arena.stmt? id = some ⟨.function name params body, span⟩ →
      c.names.text? name = some text → c.arena.paramsIn? params = some names →
      names.mapM c.names.text? = some texts → c.arena.stmtsIn? body = some ids →
      List.Forall₂ (StmtAt c) ids ss → StmtAt c id (.function text texts ss ())
  /-- A `return`. -/
  | ret {id : StmtId} {span : Span} {value : Option ExprId} {e : Option (Expr Unit)} :
      c.arena.stmt? id = some ⟨.ret value, span⟩ → Option.Rel c.ExprAt value e →
      StmtAt c id (.ret e ())

theorem stmtAt_of_stmtTree? {n : Nat} {id : StmtId} {t : Stmt Origin}
    (h : c.stmtTree? n id = some t) : c.StmtAt id t.erase := by
  induction n generalizing id t with
  | zero => exact absurd h (by simp [stmtTree?])
  | succ n ih =>
    simp only [stmtTree?, Option.bind_eq_bind, Option.bind_eq_some_iff] at h
    obtain ⟨⟨kind, span⟩, hnode, h⟩ := h
    split at h <;>
    simp only [Option.bind_eq_some_iff, Option.pure_def, Option.some.injEq] at h <;>
    rename_i heq <;> cases heq
    · obtain ⟨expr, he, rfl⟩ := h
      exact .expression hnode (exprAt_of_exprTree? he)
    · obtain ⟨name, hn, init, hi, rfl⟩ := h
      exact .declare hnode hn (optionExprAt_of_exprOfOption? hi)
    · obtain ⟨ids, hids, body, hb, rfl⟩ := h
      rw [Stmt.erase_block]
      exact .block hnode hids (forall₂_of_mapM (fun _ _ => ih) hb)
    · obtain ⟨cond, hc, thenTree, ht, h⟩ := h
      split at h
      · cases h
        exact .branch hnode (exprAt_of_exprTree? hc) (ih ht)
      · obtain ⟨other, ho, h⟩ := Option.bind_eq_some_iff.1 h
        cases h
        exact .branchElse hnode (exprAt_of_exprTree? hc) (ih ht) (ih ho)
    · obtain ⟨cond, hc, body, hb, rfl⟩ := h
      exact .loop hnode (exprAt_of_exprTree? hc) (ih hb)
    · obtain ⟨name, hn, ids, hids, params, hp, sids, hsids, body, hb, rfl⟩ := h
      rw [Stmt.erase_function]
      exact .function hnode hn hids hp hsids (forall₂_of_mapM (fun _ _ => ih) hb)
    · obtain ⟨value, hv, rfl⟩ := h
      exact .ret hnode (optionExprAt_of_exprOfOption? hv)

end Code

end Scriptorium
