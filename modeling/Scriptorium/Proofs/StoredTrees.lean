import Scriptorium.Proofs.ArenaGrowth
import Scriptorium.Proofs.Shape

/-!
# Trees that are stored in an arena

A node that is added last gets the largest number so far, so its children, which are
there already, have smaller ones.  Hence a node whose number is `n` has a tree that
is at most `n + 1` nodes deep, and that is the bound under which `Code.HasExpr` and
`Code.HasStmt` read it.

`Code.BuildsExpr` and `Code.BuildsStmt` say of a node that is not stored yet which
tree it will have; there is a lemma about each kind of node.
-/

namespace Scriptorium

namespace Code

variable {c d : Code}

/-! ## Stored trees -/

/-- The tree under a number is `e`, up to its notes. -/
def HasExpr (c : Code) (id : ExprId) (e : Expr Unit) : Prop :=
  ∃ t, c.exprTree? (id.index + 1) id = some t ∧ t.erase = e

/-- The tree under a number is `s`, up to its notes. -/
def HasStmt (c : Code) (id : StmtId) (s : Stmt Unit) : Prop :=
  ∃ t, c.stmtTree? (id.index + 1) id = some t ∧ t.erase = s

theorem HasExpr.mono (h : c.Extends d) {id : ExprId} {e : Expr Unit} (he : c.HasExpr id e) :
    d.HasExpr id e := by
  obtain ⟨t, ht, rfl⟩ := he
  exact ⟨t, exprTree?_mono h le_rfl ht, rfl⟩

theorem HasStmt.mono (h : c.Extends d) {id : StmtId} {s : Stmt Unit} (hs : c.HasStmt id s) :
    d.HasStmt id s := by
  obtain ⟨t, ht, rfl⟩ := hs
  exact ⟨t, stmtTree?_mono h le_rfl ht, rfl⟩

theorem HasExpr.lt {id : ExprId} {e : Expr Unit} (h : c.HasExpr id e) :
    id.index < c.arena.exprs.size := by
  obtain ⟨t, ht, -⟩ := h
  simp only [exprTree?, Option.bind_eq_bind, Option.bind_eq_some_iff] at ht
  obtain ⟨node, hnode, -⟩ := ht
  exact (Array.getElem?_eq_some_iff.1 hnode).1

theorem HasStmt.lt {id : StmtId} {s : Stmt Unit} (h : c.HasStmt id s) :
    id.index < c.arena.stmts.size := by
  obtain ⟨t, ht, -⟩ := h
  simp only [stmtTree?, Option.bind_eq_bind, Option.bind_eq_some_iff] at ht
  obtain ⟨node, hnode, -⟩ := ht
  exact (Array.getElem?_eq_some_iff.1 hnode).1

/-- A stored tree can be read with any bound that is at least the size of the table. -/
theorem HasExpr.tree {id : ExprId} {e : Expr Unit} (h : c.HasExpr id e) (hd : c.Extends d)
    {n : Nat} (hn : c.arena.exprs.size ≤ n) : ∃ t, d.exprTree? n id = some t ∧ t.erase = e := by
  have hlt := h.lt
  obtain ⟨t, ht, rfl⟩ := h
  exact ⟨t, exprTree?_mono hd (by omega) ht, rfl⟩

theorem HasStmt.tree {id : StmtId} {s : Stmt Unit} (h : c.HasStmt id s) (hd : c.Extends d)
    {n : Nat} (hn : c.arena.stmts.size ≤ n) : ∃ t, d.stmtTree? n id = some t ∧ t.erase = s := by
  have hlt := h.lt
  obtain ⟨t, ht, rfl⟩ := h
  exact ⟨t, stmtTree?_mono hd (by omega) ht, rfl⟩

theorem HasExpr.exprOf? {id : ExprId} {e : Expr Unit} (h : c.HasExpr id e) :
    ∃ t, c.exprOf? id = some t ∧ t.erase = e :=
  h.tree (.refl c) le_rfl

theorem HasStmt.stmtOf? {id : StmtId} {s : Stmt Unit} (h : c.HasStmt id s) :
    ∃ t, c.stmtOf? id = some t ∧ t.erase = s :=
  h.tree (.refl c) le_rfl

/-- Answers for all members of a list, up to the notes, are an answer for the list. -/
theorem mapM_erase {α β γ : Type} {f : α → Option β} {erase : β → γ} {ids : List α}
    {es : List γ} (h : List.Forall₂ (fun id e => ∃ t, f id = some t ∧ erase t = e) ids es) :
    ∃ ts, ids.mapM f = some ts ∧ ts.map erase = es := by
  induction h with
  | nil => exact ⟨[], rfl, rfl⟩
  | cons h _ ih =>
    obtain ⟨t, ht, rfl⟩ := h
    obtain ⟨ts, hts, rfl⟩ := ih
    exact ⟨t :: ts, by simp [ht, hts], rfl⟩

theorem HasExpr.trees {ids : List ExprId} {es : List (Expr Unit)}
    (h : List.Forall₂ c.HasExpr ids es) (hd : c.Extends d) {n : Nat}
    (hn : c.arena.exprs.size ≤ n) :
    ∃ ts, ids.mapM (d.exprTree? n) = some ts ∧ ts.map Expr.erase = es :=
  mapM_erase (h.imp fun _ _ he => he.tree hd hn)

theorem HasStmt.trees {ids : List StmtId} {ss : List (Stmt Unit)}
    (h : List.Forall₂ c.HasStmt ids ss) (hd : c.Extends d) {n : Nat}
    (hn : c.arena.stmts.size ≤ n) :
    ∃ ts, ids.mapM (d.stmtTree? n) = some ts ∧ ts.map Stmt.erase = ss :=
  mapM_erase (h.imp fun _ _ hs => hs.tree hd hn)

/-- An expression that may be absent has its tree, if it is there. -/
theorem HasExpr.option {id : Option ExprId} {e : Option (Expr Unit)}
    (h : Option.Rel c.HasExpr id e) (hd : c.Extends d) :
    ∃ t, d.exprOfOption? id = some t ∧ t.map Expr.erase = e := by
  cases h with
  | none => exact ⟨none, rfl, rfl⟩
  | some h =>
    obtain ⟨t, ht, rfl⟩ := (h.mono hd).exprOf?
    exact ⟨some t, by simp [exprOfOption?, ht], rfl⟩

/-! ## Trees of nodes that are yet to be stored -/

/-- An expression node, stored next, will have the tree `e`. -/
def BuildsExpr (c : Code) (kind : ExprKind) (e : Expr Unit) : Prop :=
  ∀ d, c.Extends d → ∀ id span, d.arena.expr? id = some ⟨kind, span⟩ →
    ∃ t, d.exprTree? (c.arena.exprs.size + 1) id = some t ∧ t.erase = e

/-- A statement node, stored next, will have the tree `s`. -/
def BuildsStmt (c : Code) (kind : StmtKind) (s : Stmt Unit) : Prop :=
  ∀ d, c.Extends d → ∀ id span, d.arena.stmt? id = some ⟨kind, span⟩ →
    ∃ t, d.stmtTree? (c.arena.stmts.size + 1) id = some t ∧ t.erase = s

namespace BuildsExpr

theorem int (c : Code) (n : Nat) : c.BuildsExpr (.literal (.int n)) (.literal (.int n) ()) := by
  intro d _ id span hnode
  exact ⟨.literal (.int n) ⟨id.index, span⟩, by simp [exprTree?, hnode], rfl⟩

theorem bool (c : Code) (b : Bool) :
    c.BuildsExpr (.literal (.bool b)) (.literal (.bool b) ()) := by
  intro d _ id span hnode
  exact ⟨.literal (.bool b) ⟨id.index, span⟩, by simp [exprTree?, hnode], rfl⟩

theorem str {name : NameId} {text : String} (h : c.names.text? name = some text) :
    c.BuildsExpr (.literal (.str name)) (.literal (.str text) ()) := by
  intro d hd id span hnode
  exact ⟨.literal (.str text) ⟨id.index, span⟩, by simp [exprTree?, hnode, hd.text?_eq h], rfl⟩

theorem reference {name : NameId} {text : String} (h : c.names.text? name = some text) :
    c.BuildsExpr (.reference name) (.reference text ()) := by
  intro d hd id span hnode
  exact ⟨.reference text ⟨id.index, span⟩, by simp [exprTree?, hnode, hd.text?_eq h], rfl⟩

theorem group {inner : ExprId} {e : Expr Unit} (h : c.HasExpr inner e) :
    c.BuildsExpr (.group inner) (.group e ()) := by
  intro d hd id span hnode
  obtain ⟨t, ht, rfl⟩ := h.tree hd le_rfl
  exact ⟨.group t ⟨id.index, span⟩, by simp [exprTree?, hnode, ht], rfl⟩

theorem unary {op : UnaryOp} {operand : ExprId} {e : Expr Unit} (h : c.HasExpr operand e) :
    c.BuildsExpr (.unary op operand) (.unary op e ()) := by
  intro d hd id span hnode
  obtain ⟨t, ht, rfl⟩ := h.tree hd le_rfl
  exact ⟨.unary op t ⟨id.index, span⟩, by simp [exprTree?, hnode, ht], rfl⟩

theorem connective {op : Connective} {left right : ExprId} {l r : Expr Unit}
    (hl : c.HasExpr left l) (hr : c.HasExpr right r) :
    c.BuildsExpr (op.node left right) (op.tree l r) := by
  intro d hd id span hnode
  obtain ⟨tl, htl, rfl⟩ := hl.tree hd le_rfl
  obtain ⟨tr, htr, rfl⟩ := hr.tree hd le_rfl
  cases op with
  | binary op =>
    exact ⟨.binary op tl tr ⟨id.index, span⟩,
      by simp [exprTree?, hnode, Connective.node, htl, htr], rfl⟩
  | logical op =>
    exact ⟨.logical op tl tr ⟨id.index, span⟩,
      by simp [exprTree?, hnode, Connective.node, htl, htr], rfl⟩

theorem assign {name : NameId} {text : String} {nameSpan : Span} {value : ExprId}
    {v : Expr Unit} (hn : c.names.text? name = some text) (hv : c.HasExpr value v) :
    c.BuildsExpr (.assign name nameSpan value) (.assign text () v ()) := by
  intro d hd id span hnode
  obtain ⟨t, ht, rfl⟩ := hv.tree hd le_rfl
  exact ⟨.assign text ⟨id.index, nameSpan⟩ t ⟨id.index, span⟩,
    by simp [exprTree?, hnode, hd.text?_eq hn, ht], rfl⟩

theorem call {callee : ExprId} {f : Expr Unit} {args : Slice ExprId} {ids : List ExprId}
    {es : List (Expr Unit)} (hf : c.HasExpr callee f) (hargs : c.arena.exprsIn? args = some ids)
    (hes : List.Forall₂ c.HasExpr ids es) :
    c.BuildsExpr (.call callee args) (.call f es ()) := by
  intro d hd id span hnode
  obtain ⟨t, ht, rfl⟩ := hf.tree hd le_rfl
  obtain ⟨ts, hts, rfl⟩ := HasExpr.trees hes hd le_rfl
  have hargs' : d.arena.exprsIn? args = some ids := hd.exprLists.of?_eq hargs
  exact ⟨.call t ts ⟨id.index, span⟩, by simp [exprTree?, hnode, ht, hargs', hts], by simp⟩

end BuildsExpr

namespace BuildsStmt

theorem expression {expr : ExprId} {e : Expr Unit} (h : c.HasExpr expr e) :
    c.BuildsStmt (.expression expr) (.expression e ()) := by
  intro d hd id span hnode
  obtain ⟨t, ht, rfl⟩ := (h.mono hd).exprOf?
  exact ⟨.expression t ⟨id.index, span⟩, by simp [stmtTree?, hnode, ht], rfl⟩

theorem declare {name : NameId} {text : String} {init : Option ExprId} {e : Option (Expr Unit)}
    (hn : c.names.text? name = some text) (h : Option.Rel c.HasExpr init e) :
    c.BuildsStmt (.declare name init) (.declare text e ()) := by
  intro d hd id span hnode
  obtain ⟨t, ht, rfl⟩ := HasExpr.option h hd
  exact ⟨.declare text t ⟨id.index, span⟩,
    by simp [stmtTree?, hnode, hd.text?_eq hn, ht], rfl⟩

theorem block {body : Slice StmtId} {ids : List StmtId} {ss : List (Stmt Unit)}
    (hb : c.arena.stmtsIn? body = some ids) (h : List.Forall₂ c.HasStmt ids ss) :
    c.BuildsStmt (.block body) (.block ss ()) := by
  intro d hd id span hnode
  obtain ⟨ts, hts, rfl⟩ := HasStmt.trees h hd le_rfl
  have hb' : d.arena.stmtsIn? body = some ids := hd.stmtLists.of?_eq hb
  exact ⟨.block ts ⟨id.index, span⟩, by simp [stmtTree?, hnode, hb', hts], by simp⟩

theorem branchNone {cond : ExprId} {thenBranch : StmtId} {e : Expr Unit} {s : Stmt Unit}
    (hc : c.HasExpr cond e) (ht : c.HasStmt thenBranch s) :
    c.BuildsStmt (.branch cond thenBranch none) (.branch e s none ()) := by
  intro d hd id span hnode
  obtain ⟨tc, htc, rfl⟩ := (hc.mono hd).exprOf?
  obtain ⟨tt, htt, rfl⟩ := ht.tree hd le_rfl
  exact ⟨.branch tc tt none ⟨id.index, span⟩, by simp [stmtTree?, hnode, htc, htt], rfl⟩

theorem branchSome {cond : ExprId} {thenBranch elseBranch : StmtId} {e : Expr Unit}
    {s s' : Stmt Unit} (hc : c.HasExpr cond e) (ht : c.HasStmt thenBranch s)
    (he : c.HasStmt elseBranch s') :
    c.BuildsStmt (.branch cond thenBranch (some elseBranch)) (.branch e s (some s') ()) := by
  intro d hd id span hnode
  obtain ⟨tc, htc, rfl⟩ := (hc.mono hd).exprOf?
  obtain ⟨tt, htt, rfl⟩ := ht.tree hd le_rfl
  obtain ⟨te, hte, rfl⟩ := he.tree hd le_rfl
  exact ⟨.branch tc tt (some te) ⟨id.index, span⟩, by simp [stmtTree?, hnode, htc, htt, hte], rfl⟩

theorem loop {cond : ExprId} {body : StmtId} {e : Expr Unit} {s : Stmt Unit}
    (hc : c.HasExpr cond e) (hb : c.HasStmt body s) :
    c.BuildsStmt (.loop cond body) (.loop e s ()) := by
  intro d hd id span hnode
  obtain ⟨tc, htc, rfl⟩ := (hc.mono hd).exprOf?
  obtain ⟨tb, htb, rfl⟩ := hb.tree hd le_rfl
  exact ⟨.loop tc tb ⟨id.index, span⟩, by simp [stmtTree?, hnode, htc, htb], rfl⟩

theorem function {name : NameId} {text : String} {params : Slice NameId} {names : List NameId}
    {texts : List String} {body : Slice StmtId} {ids : List StmtId} {ss : List (Stmt Unit)}
    (hn : c.names.text? name = some text) (hp : c.arena.paramsIn? params = some names)
    (hps : List.Forall₂ (fun n t => c.names.text? n = some t) names texts)
    (hb : c.arena.stmtsIn? body = some ids) (h : List.Forall₂ c.HasStmt ids ss) :
    c.BuildsStmt (.function name params body) (.function text texts ss ()) := by
  intro d hd id span hnode
  obtain ⟨ts, hts, rfl⟩ := HasStmt.trees h hd le_rfl
  have hb' : d.arena.stmtsIn? body = some ids := hd.stmtLists.of?_eq hb
  have hp' : d.arena.paramsIn? params = some names := hd.params.of?_eq hp
  have hps' : names.mapM d.names.text? = some texts :=
    mapM_eq_some_iff.2 (hps.imp fun _ _ => hd.text?_eq)
  exact ⟨.function text texts ts ⟨id.index, span⟩,
    by simp [stmtTree?, hnode, hd.text?_eq hn, hp', hps', hb', hts], by simp⟩

theorem ret {value : Option ExprId} {e : Option (Expr Unit)}
    (h : Option.Rel c.HasExpr value e) : c.BuildsStmt (.ret value) (.ret e ()) := by
  intro d hd id span hnode
  obtain ⟨t, ht, rfl⟩ := HasExpr.option h hd
  exact ⟨.ret t ⟨id.index, span⟩, by simp [stmtTree?, hnode, ht], rfl⟩

end BuildsStmt

end Code

end Scriptorium
