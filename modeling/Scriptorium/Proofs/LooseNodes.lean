import Scriptorium.Proofs.Forest
import Scriptorium.Syntax.Parser.State

/-!
# Loose nodes

While a text is read, the nodes that nothing refers to yet are those that some parser holds:
it has stored them and is about to store their parent.  This file keeps a ledger of them.

* `Arena.Loose` — which nodes nothing refers to; to every other one there is one reference;
* `Arena.Loose.addExpr`, `Arena.Loose.addCall`, `Arena.Loose.addAssign`,
  `Arena.Loose.addStmt`, `Arena.Loose.addBody` — storing a node takes its children out of
  the ledger and enters the node.
-/

namespace Scriptorium

/-! ## Numbers that nothing refers to -/

namespace Descent

variable {ν ι : Type} {d : Descent ν ι} {n : Nat} {refs refs' loose left fields : List ι}

open scoped List in
/-- All numbers stay accounted for when some that are loose are referred to. -/
theorem perm_refer (h : (refs ++ loose).Perm (d.numbers n)) (hrefs : refs'.Perm (fields ++ refs))
    (hloose : loose.Perm (fields ++ left)) : (refs' ++ left).Perm (d.numbers n) :=
  calc refs' ++ left
    _ ~ fields ++ refs ++ left := hrefs.append_right left
    _ ~ refs ++ fields ++ left := List.perm_append_comm.append_right left
    _ = refs ++ (fields ++ left) := List.append_assoc ..
    _ ~ refs ++ loose := hloose.symm.append_left refs
    _ ~ d.numbers n := h

/-- And when a node is stored that refers to them: then its own number is loose. -/
theorem perm_store (h : (refs ++ loose).Perm (d.numbers n)) (hrefs : refs'.Perm (fields ++ refs))
    (hloose : loose.Perm (fields ++ left)) :
    (refs' ++ d.number n :: left).Perm (d.numbers (n + 1)) := by
  rw [numbers_succ]
  refine List.perm_middle.trans (((perm_refer h hrefs hloose).cons _).trans ?_)
  exact (List.perm_append_singleton _ _).symm

end Descent

namespace Arena

variable {a b : Arena} {es xs : List StoredExpr} {ss : List StmtId}
  {pairs : List (ExprId × ExprId)} {kind : ExprKind} {span : Span}

/-! ## What storing a node adds -/

theorem size_addExpr (a : Arena) (node : ExprNode) :
    (a.addExpr node).2.exprs.size = a.exprs.size + 1 :=
  Array.size_push node

theorem size_addStmt (a : Arena) (node : StmtNode) :
    (a.addStmt node).2.stmts.size = a.stmts.size + 1 :=
  Array.size_push node

theorem expr?_addExpr_of_some {id : ExprId} {node : ExprNode} (h : a.expr? id = some node)
    (other : ExprNode) : (a.addExpr other).2.expr? id = some node :=
  (Grows.push a.exprs other).getElem?_eq h

theorem expr?_addExpr_self (a : Arena) (node : ExprNode) :
    (a.addExpr node).2.expr? ⟨a.exprs.size⟩ = some node := by
  simp [expr?, Arena.addExpr]

theorem exprRefs_addExpr (a : Arena) (node : ExprNode) :
    (a.addExpr node).2.exprRefs.Perm (node.kind.fields ++ a.exprRefs) := by
  rw [exprRefs, exprRefs, ← List.append_assoc]
  exact (ExprNode.descent.refs_push a.exprs a.exprLists node).append_right _

theorem exprRefs_addExprs (a : Arena) (ids : List ExprId) :
    (a.addExprs ids).2.exprRefs.Perm (ids ++ a.exprRefs) := by
  rw [exprRefs, exprRefs, ← List.append_assoc]
  exact (ExprNode.descent.refs_appendList a.exprs a.exprLists ids).append_right _

theorem exprRefs_addStmt (a : Arena) (node : StmtNode) :
    (a.addStmt node).2.exprRefs.Perm (node.kind.exprs ++ a.exprRefs) := by
  rw [exprRefs, exprRefs, Arena.addStmt, Array.toList_push, List.flatMap_append,
    List.flatMap_singleton, ← List.append_assoc]
  exact List.perm_append_comm

theorem stmtRefs_addStmt (a : Arena) (node : StmtNode) :
    (a.addStmt node).2.stmtRefs.Perm (node.kind.fields ++ a.stmtRefs) :=
  StmtNode.descent.refs_push a.stmts a.stmtLists node

theorem stmtRefs_addStmts (a : Arena) (ids : List StmtId) :
    (a.addStmts ids).2.stmtRefs.Perm (ids ++ a.stmtRefs) :=
  StmtNode.descent.refs_appendList a.stmts a.stmtLists ids

/-! ## Targets of assignments -/

namespace Targets

theorem of_exprs (h : a.Targets pairs) (hexprs : b.exprs = a.exprs) : b.Targets pairs := by
  obtain ⟨hassigns, honce, hreads⟩ := h
  unfold expr? at hassigns hreads
  rw [← hexprs] at hassigns hreads
  exact ⟨hassigns, honce, hreads⟩

/-- The targets are the same when an expression is added that is no assignment. -/
theorem addExpr (h : a.Targets pairs) (hkind : ∀ name nameSpan value,
    kind ≠ .assign name nameSpan value) : (a.addExpr ⟨kind, span⟩).2.Targets pairs where
  assigns := by
    intro id
    rw [h.assigns id]
    constructor
    · rintro ⟨name, nameSpan, value, span, hid⟩
      exact ⟨name, nameSpan, value, span, expr?_addExpr_of_some hid _⟩
    · rintro ⟨name, nameSpan, value, span, hid⟩
      simp only [expr?, Arena.addExpr, Array.getElem?_push] at hid
      split at hid
      · cases hid
        exact absurd rfl (hkind name nameSpan value)
      · exact ⟨name, nameSpan, value, span, hid⟩
  once := h.once
  reads := by
    intro pair hpair
    obtain ⟨name, nameSpan, value, span, hassign, htarget⟩ := h.reads pair hpair
    exact ⟨name, nameSpan, value, span, expr?_addExpr_of_some hassign _,
      expr?_addExpr_of_some htarget _⟩

/-- An assignment is added together with its target. -/
theorem addAssign (h : a.Targets pairs) {target value : ExprId} {name : NameId} {nameSpan : Span}
    (htarget : a.expr? target = some ⟨.reference name, nameSpan⟩) :
    (a.addExpr ⟨.assign name nameSpan value, span⟩).2.Targets
      ((⟨a.exprs.size⟩, target) :: pairs) where
  assigns := by
    intro id
    rw [List.map_cons, List.mem_cons, h.assigns id]
    constructor
    · rintro (rfl | ⟨name, nameSpan, value, span, hid⟩)
      · exact ⟨name, nameSpan, value, span, expr?_addExpr_self a _⟩
      · exact ⟨name, nameSpan, value, span, expr?_addExpr_of_some hid _⟩
    · rintro ⟨name, nameSpan, value, span, hid⟩
      simp only [expr?, Arena.addExpr, Array.getElem?_push] at hid
      split at hid
      · next hindex => exact .inl (congrArg ExprId.mk hindex)
      · exact .inr ⟨name, nameSpan, value, span, hid⟩
  once := by
    rw [List.map_cons, List.nodup_cons]
    refine ⟨fun hnew => ?_, h.once⟩
    obtain ⟨_, _, _, _, hnew⟩ := (h.assigns _).1 hnew
    exact absurd (Array.getElem?_eq_some_iff.1 hnew).1 (Nat.lt_irrefl _)
  reads := by
    intro pair hpair
    rcases List.mem_cons.1 hpair with rfl | hpair
    · exact ⟨name, nameSpan, value, span, expr?_addExpr_self a _, expr?_addExpr_of_some htarget _⟩
    · obtain ⟨name, nameSpan, value, span, hassign, htarget⟩ := h.reads pair hpair
      exact ⟨name, nameSpan, value, span, expr?_addExpr_of_some hassign _,
        expr?_addExpr_of_some htarget _⟩

end Targets

/-! ## The ledger -/

/-- Nothing refers to the expressions `es`, to the statements `ss` and to the targets in
`pairs`; to every other node there is one reference. -/
structure Loose (a : Arena) (es : List StoredExpr) (ss : List StmtId)
    (pairs : List (ExprId × ExprId)) : Prop where
  exprs : (a.exprRefs ++ (es.map StoredExpr.id ++ pairs.map Prod.snd)).Perm
    (ExprNode.descent.numbers a.exprs.size)
  stmts : (a.stmtRefs ++ ss).Perm (StmtNode.descent.numbers a.stmts.size)
  exprOrder : ExprNode.descent.Orderly a.exprs a.exprLists
  stmtOrder : StmtNode.descent.Orderly a.stmts a.stmtLists
  held : ∀ x ∈ es, a.expr? x.id = some x.node
  targets : a.Targets pairs

namespace Loose

theorem empty : Loose .empty [] [] [] where
  exprs := .refl _
  stmts := .refl _
  exprOrder := ⟨by simp [Arena.empty], rfl⟩
  stmtOrder := ⟨by simp [Arena.empty], rfl⟩
  held := by simp
  targets := ⟨by simp [Arena.empty, expr?], .nil, by simp⟩

/-- The order in which the loose nodes are listed does not matter. -/
theorem perm (h : a.Loose es ss pairs) {es' : List StoredExpr} {ss' : List StmtId}
    (hes : es.Perm es') (hss : ss.Perm ss') : a.Loose es' ss' pairs :=
  { h with
    exprs := (((hes.map StoredExpr.id).symm.append_right _).append_left _).trans h.exprs
    stmts := (hss.symm.append_left _).trans h.stmts
    held := fun x hx => h.held x (hes.mem_iff.2 hx) }

theorem expr_lt (h : a.Loose es ss pairs) {x : StoredExpr} (hx : x ∈ es) :
    x.id.index < a.exprs.size := by
  have hmem := h.exprs.mem_iff.1
    (List.mem_append_right _ (List.mem_append_left _ (List.mem_map_of_mem hx)))
  exact Descent.index_lt_of_mem hmem

theorem stmt_lt (h : a.Loose es ss pairs) {id : StmtId} (hid : id ∈ ss) :
    id.index < a.stmts.size :=
  Descent.index_lt_of_mem (d := StmtNode.descent)
    (h.stmts.mem_iff.1 (List.mem_append_right _ hid))

/-! ### Storing expressions -/

/-- What is held stays held, and so is the new expression. -/
theorem held_addExpr (h : ∀ x ∈ es, a.expr? x.id = some x.node) (node : ExprNode) :
    ∀ x ∈ (⟨(a.addExpr node).1, node⟩ :: es : List StoredExpr),
      (a.addExpr node).2.expr? x.id = some x.node := by
  intro x hx
  rcases List.mem_cons.1 hx with rfl | hx
  · exact expr?_addExpr_self a node
  · exact expr?_addExpr_of_some (h x hx) node

/-- An expression without lists that is no assignment. -/
theorem addExpr (h : a.Loose (xs ++ es) ss pairs) (hfields : kind.fields = xs.map StoredExpr.id)
    (hlists : kind.lists = []) (hkind : ∀ name nameSpan value,
      kind ≠ .assign name nameSpan value) :
    (a.addExpr ⟨kind, span⟩).2.Loose (⟨(a.addExpr ⟨kind, span⟩).1, ⟨kind, span⟩⟩ :: es) ss
      pairs where
  exprs := by
    rw [size_addExpr]
    exact Descent.perm_store h.exprs (exprRefs_addExpr _ _) (by simp [hfields])
  stmts := h.stmts
  exprOrder := by
    refine h.exprOrder.push hlists fun id hid => ?_
    have hid : id ∈ kind.fields := hid
    rw [hfields] at hid
    obtain ⟨x, hx, rfl⟩ := List.mem_map.1 hid
    exact h.expr_lt (List.mem_append_left es hx)
  stmtOrder := h.stmtOrder
  held := held_addExpr (fun x hx => h.held x (List.mem_append_right xs hx)) _
  targets := h.targets.addExpr hkind

/-- A call, together with the list of its arguments. -/
theorem addCall {callee : StoredExpr} (h : a.Loose (xs ++ callee :: es) ss pairs) :
    let args := a.addExprs (xs.map StoredExpr.id)
    let node : ExprNode := ⟨.call callee.id args.1, span⟩
    (args.2.addExpr node).2.Loose (⟨(args.2.addExpr node).1, node⟩ :: es) ss pairs where
  exprs := by
    have hloose := h.exprs
    rw [List.map_append, List.append_assoc] at hloose
    have hrefs := Descent.perm_refer hloose (exprRefs_addExprs _ _) (.refl _)
    rw [size_addExpr]
    exact Descent.perm_store hrefs (exprRefs_addExpr _ _) (.refl _)
  stmts := h.stmts
  exprOrder := by
    refine h.exprOrder.push_list (by simp [ExprNode.descent, ExprKind.lists, Arena.addExprs]) ?_ ?_
    · intro id hid
      obtain rfl := List.mem_singleton.1 hid
      exact h.expr_lt (List.mem_append_right xs List.mem_cons_self)
    · intro id hid
      obtain ⟨x, hx, rfl⟩ := List.mem_map.1 hid
      exact h.expr_lt (List.mem_append_left _ hx)
  stmtOrder := h.stmtOrder
  held := held_addExpr (fun x hx => h.held x
    (List.mem_append_right xs (List.mem_cons_of_mem callee hx))) _
  targets := Targets.addExpr (h.targets.of_exprs rfl) (by simp)

/-- An assignment, which takes the variable that was read as its target with it. -/
theorem addAssign {target value : StoredExpr} {name : NameId}
    (h : a.Loose (value :: target :: es) ss pairs) (htarget : target.node.kind = .reference name) :
    let node : ExprNode := ⟨.assign name target.span value.id, span⟩
    (a.addExpr node).2.Loose (⟨(a.addExpr node).1, node⟩ :: es) ss
      (((a.addExpr node).1, target.id) :: pairs) where
  exprs := by
    rw [size_addExpr]
    exact Descent.perm_store h.exprs (exprRefs_addExpr _ _) (.cons _ List.perm_middle.symm)
  stmts := h.stmts
  exprOrder := by
    refine h.exprOrder.push rfl fun id hid => ?_
    obtain rfl := List.mem_singleton.1 hid
    exact h.expr_lt List.mem_cons_self
  stmtOrder := h.stmtOrder
  held := held_addExpr (fun x hx => h.held x (by simp [hx])) _
  targets := by
    refine h.targets.addAssign ?_
    rw [h.held target (by simp), ← htarget]
    rfl

/-! ### Storing statements -/

/-- A statement without lists. -/
theorem addStmt {ys : List StmtId} (h : a.Loose (xs ++ es) (ys ++ ss) pairs) {kind : StmtKind}
    (hexprs : kind.exprs = xs.map StoredExpr.id) (hfields : kind.fields = ys)
    (hlists : kind.lists = []) :
    (a.addStmt ⟨kind, span⟩).2.Loose es ((a.addStmt ⟨kind, span⟩).1 :: ss) pairs where
  exprs := Descent.perm_refer h.exprs (exprRefs_addStmt _ _) (by simp [hexprs])
  stmts := by
    rw [size_addStmt]
    exact Descent.perm_store h.stmts (stmtRefs_addStmt _ _) (by simp [hfields])
  exprOrder := h.exprOrder
  stmtOrder := by
    refine h.stmtOrder.push hlists fun id hid => ?_
    exact h.stmt_lt (List.mem_append_left ss (hfields ▸ hid))
  held := fun x hx => h.held x (List.mem_append_right xs hx)
  targets := h.targets.of_exprs rfl

/-- Parameters are no nodes. -/
theorem addParams (h : a.Loose es ss pairs) (names : List NameId) :
    (a.addParams names).2.Loose es ss pairs :=
  ⟨h.exprs, h.stmts, h.exprOrder, h.stmtOrder, h.held, h.targets.of_exprs rfl⟩

/-- A statement whose only children are those of a list, together with the list. -/
theorem addBody {ids : List StmtId} (h : a.Loose es (ids ++ ss) pairs) {kind : StmtKind}
    (hexprs : kind.exprs = []) (hfields : kind.fields = [])
    (hlists : kind.lists = [(a.addStmts ids).1]) :
    ((a.addStmts ids).2.addStmt ⟨kind, span⟩).2.Loose es
      (((a.addStmts ids).2.addStmt ⟨kind, span⟩).1 :: ss) pairs where
  exprs := Descent.perm_refer h.exprs (exprRefs_addStmt (a.addStmts ids).2 _) (by simp [hexprs])
  stmts := by
    have hrefs := Descent.perm_refer h.stmts (stmtRefs_addStmts _ _) (.refl _)
    rw [size_addStmt]
    exact Descent.perm_store hrefs (stmtRefs_addStmt _ _) (by simp [hfields])
  exprOrder := h.exprOrder
  stmtOrder := by
    refine h.stmtOrder.push_list hlists ?_ ?_
    · simp [StmtNode.descent, hfields]
    · exact fun id hid => h.stmt_lt (List.mem_append_left ss hid)
  held := h.held
  targets := h.targets.of_exprs rfl

end Loose

end Arena

end Scriptorium
