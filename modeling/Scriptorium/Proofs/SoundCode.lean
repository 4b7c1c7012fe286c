import Scriptorium.Proofs.ArenaGrowth

/-!
# Sound codes

Nothing forces the nodes of an arena to form trees, or their numbers to be those of nodes.
In a sound code they do: what a node refers to is stored, the texts of its names are in the
table, and the text that a child was read from lies inside the text of its parent.

* `Span.Inside` — a stretch of text lies inside another;
* `ExprKind.Sound`, `StmtKind.Sound` — what it takes for a node;
* `Code.Sound` — every node that is stored is sound;
* `Code.Sound.addExpr`, `Code.Sound.addStmt`, `Code.Sound.of_extends` — adding to a sound
  code keeps it sound.
-/

namespace Scriptorium

variable {c d : Code}

/-! ## Stretches of text -/

namespace Span

/-- The first span lies inside the second one. -/
def Inside (a b : Span) : Prop := b.start ≤ a.start ∧ a.stop ≤ b.stop

theorem Inside.refl (a : Span) : a.Inside a := ⟨Nat.le_refl _, Nat.le_refl _⟩

theorem Inside.trans {a b x : Span} (h : a.Inside b) (h' : b.Inside x) : a.Inside x :=
  ⟨Nat.le_trans h'.1 h.1, Nat.le_trans h.2 h'.2⟩

theorem inside_merge_left (a b : Span) : a.Inside (a.merge b) :=
  ⟨Nat.min_le_left _ _, Nat.le_max_left _ _⟩

theorem inside_merge_right (a b : Span) : b.Inside (a.merge b) :=
  ⟨Nat.min_le_right _ _, Nat.le_max_right _ _⟩

end Span

/-! ## What a node refers to -/

namespace Code

/-- The table holds a text for the name. -/
def Knows (c : Code) (name : NameId) : Prop := ∃ text, c.names.text? name = some text

/-- The parameters are in the arena, and their names are known. -/
def KnowsAll (c : Code) (params : Slice NameId) : Prop :=
  ∃ ids, c.arena.paramsIn? params = some ids ∧ ∀ id ∈ ids, c.Knows id

/-- The expression is in the arena, and it was read inside the span. -/
def ExprInside (c : Code) (span : Span) (id : ExprId) : Prop :=
  ∃ node, c.arena.expr? id = some node ∧ node.span.Inside span

/-- The statement is in the arena, and it was read inside the span. -/
def StmtInside (c : Code) (span : Span) (id : StmtId) : Prop :=
  ∃ node, c.arena.stmt? id = some node ∧ node.span.Inside span

/-- The arguments are in the arena, and they were read inside the span. -/
def ExprsInside (c : Code) (span : Span) (args : Slice ExprId) : Prop :=
  ∃ ids, c.arena.exprsIn? args = some ids ∧ ∀ id ∈ ids, c.ExprInside span id

/-- The statements are in the arena, and they were read inside the span. -/
def StmtsInside (c : Code) (span : Span) (body : Slice StmtId) : Prop :=
  ∃ ids, c.arena.stmtsIn? body = some ids ∧ ∀ id ∈ ids, c.StmtInside span id

end Code

/-- What an expression that was read from `span` refers to is there. -/
def ExprKind.Sound (c : Code) (span : Span) : ExprKind → Prop
  | .literal (.str text) => c.Knows text
  | .literal (.int _) | .literal (.bool _) => True
  | .unary _ x | .group x => c.ExprInside span x
  | .binary _ l r | .logical _ l r => c.ExprInside span l ∧ c.ExprInside span r
  | .reference name => c.Knows name
  | .assign name nameSpan value =>
      c.Knows name ∧ nameSpan.Inside span ∧ c.ExprInside span value
  | .call callee args => c.ExprInside span callee ∧ c.ExprsInside span args

/-- What a statement that was read from `span` refers to is there. -/
def StmtKind.Sound (c : Code) (span : Span) : StmtKind → Prop
  | .expression x => c.ExprInside span x
  | .declare name init => c.Knows name ∧ ∀ x ∈ init, c.ExprInside span x
  | .block body => c.StmtsInside span body
  | .branch cond thenBranch elseBranch =>
      c.ExprInside span cond ∧ c.StmtInside span thenBranch ∧
        ∀ other ∈ elseBranch, c.StmtInside span other
  | .loop cond body => c.ExprInside span cond ∧ c.StmtInside span body
  | .function name params body => c.Knows name ∧ c.KnowsAll params ∧ c.StmtsInside span body
  | .ret value => ∀ x ∈ value, c.ExprInside span x

/-- All that the nodes of a code refer to is there, and children were read inside their
parents. -/
structure Code.Sound (c : Code) : Prop where
  exprs : ∀ id node, c.arena.expr? id = some node → node.kind.Sound c node.span
  stmts : ∀ id node, c.arena.stmt? id = some node → node.kind.Sound c node.span

/-! ## Growing codes -/

namespace Code.Extends

variable {span : Span}

theorem expr?_eq (h : c.Extends d) {id : ExprId} {node : ExprNode}
    (hnode : c.arena.expr? id = some node) : d.arena.expr? id = some node :=
  h.exprs.getElem?_eq hnode

theorem stmt?_eq (h : c.Extends d) {id : StmtId} {node : StmtNode}
    (hnode : c.arena.stmt? id = some node) : d.arena.stmt? id = some node :=
  h.stmts.getElem?_eq hnode

theorem knows (h : c.Extends d) {name : NameId} (hname : c.Knows name) : d.Knows name :=
  hname.imp fun _ => h.text?_eq

theorem knowsAll (h : c.Extends d) {params : Slice NameId} (hparams : c.KnowsAll params) :
    d.KnowsAll params := by
  obtain ⟨ids, hids, hknown⟩ := hparams
  exact ⟨ids, h.params.of?_eq hids, fun id hid => h.knows (hknown id hid)⟩

theorem exprInside (h : c.Extends d) {id : ExprId} (hid : c.ExprInside span id) :
    d.ExprInside span id :=
  hid.imp fun _ hnode => ⟨h.expr?_eq hnode.1, hnode.2⟩

theorem stmtInside (h : c.Extends d) {id : StmtId} (hid : c.StmtInside span id) :
    d.StmtInside span id :=
  hid.imp fun _ hnode => ⟨h.stmt?_eq hnode.1, hnode.2⟩

theorem exprsInside (h : c.Extends d) {args : Slice ExprId} (hargs : c.ExprsInside span args) :
    d.ExprsInside span args := by
  obtain ⟨ids, hids, hinside⟩ := hargs
  exact ⟨ids, h.exprLists.of?_eq hids, fun id hid => h.exprInside (hinside id hid)⟩

theorem stmtsInside (h : c.Extends d) {body : Slice StmtId} (hbody : c.StmtsInside span body) :
    d.StmtsInside span body := by
  obtain ⟨ids, hids, hinside⟩ := hbody
  exact ⟨ids, h.stmtLists.of?_eq hids, fun id hid => h.stmtInside (hinside id hid)⟩

/-- A sound expression is sound in every larger code. -/
theorem soundExpr (h : c.Extends d) {kind : ExprKind} (hkind : kind.Sound c span) :
    kind.Sound d span := by
  cases kind with
  | literal value =>
    cases value with
    | int n => trivial
    | str text => exact h.knows hkind
    | bool b => trivial
  | unary op x => exact h.exprInside hkind
  | binary op l r => exact ⟨h.exprInside hkind.1, h.exprInside hkind.2⟩
  | logical op l r => exact ⟨h.exprInside hkind.1, h.exprInside hkind.2⟩
  | group x => exact h.exprInside hkind
  | reference name => exact h.knows hkind
  | assign name nameSpan value =>
    exact ⟨h.knows hkind.1, hkind.2.1, h.exprInside hkind.2.2⟩
  | call callee args => exact ⟨h.exprInside hkind.1, h.exprsInside hkind.2⟩

/-- A sound statement is sound in every larger code. -/
theorem soundStmt (h : c.Extends d) {kind : StmtKind} (hkind : kind.Sound c span) :
    kind.Sound d span := by
  cases kind with
  | expression x => exact h.exprInside hkind
  | declare name init => exact ⟨h.knows hkind.1, fun x hx => h.exprInside (hkind.2 x hx)⟩
  | block body => exact h.stmtsInside hkind
  | branch cond thenBranch elseBranch =>
    exact ⟨h.exprInside hkind.1, h.stmtInside hkind.2.1,
      fun other hother => h.stmtInside (hkind.2.2 other hother)⟩
  | loop cond body => exact ⟨h.exprInside hkind.1, h.stmtInside hkind.2⟩
  | function name params body =>
    exact ⟨h.knows hkind.1, h.knowsAll hkind.2.1, h.stmtsInside hkind.2.2⟩
  | ret value => exact fun x hx => h.exprInside (hkind x hx)

end Code.Extends

namespace Code.Sound

/-- A code without new nodes stays sound. -/
theorem of_extends (hc : c.Sound) (h : c.Extends d) (hexprs : d.arena.exprs = c.arena.exprs)
    (hstmts : d.arena.stmts = c.arena.stmts) : d.Sound where
  exprs := fun id node hnode => by
    rw [Arena.expr?, hexprs] at hnode
    exact h.soundExpr (hc.exprs id node hnode)
  stmts := fun id node hnode => by
    rw [Arena.stmt?, hstmts] at hnode
    exact h.soundStmt (hc.stmts id node hnode)

/-- A code stays sound when a sound expression is added. -/
theorem addExpr (hc : c.Sound) {kind : ExprKind} {span : Span} (hkind : kind.Sound c span) :
    Code.Sound ⟨(c.arena.addExpr ⟨kind, span⟩).2, c.names⟩ := by
  have h : c.Extends ⟨(c.arena.addExpr ⟨kind, span⟩).2, c.names⟩ :=
    ⟨.push _ _, .refl _, .refl _, .refl _, .refl _, .refl _⟩
  constructor
  · intro id node hnode
    simp only [Arena.expr?, Arena.addExpr, Array.getElem?_push] at hnode
    split at hnode
    · cases hnode
      exact h.soundExpr hkind
    · exact h.soundExpr (hc.exprs id node hnode)
  · intro id node hnode
    exact h.soundStmt (hc.stmts id node hnode)

/-- A code stays sound when a sound statement is added. -/
theorem addStmt (hc : c.Sound) {kind : StmtKind} {span : Span} (hkind : kind.Sound c span) :
    Code.Sound ⟨(c.arena.addStmt ⟨kind, span⟩).2, c.names⟩ := by
  have h : c.Extends ⟨(c.arena.addStmt ⟨kind, span⟩).2, c.names⟩ :=
    ⟨.refl _, .refl _, .push _ _, .refl _, .refl _, .refl _⟩
  constructor
  · intro id node hnode
    exact h.soundExpr (hc.exprs id node hnode)
  · intro id node hnode
    simp only [Arena.stmt?, Arena.addStmt, Array.getElem?_push] at hnode
    split at hnode
    · cases hnode
      exact h.soundStmt hkind
    · exact h.soundStmt (hc.stmts id node hnode)

end Code.Sound

theorem Code.sound_empty : Code.empty.Sound := by
  constructor
  · intro id node hnode
    simp [Code.empty, Arena.empty, Arena.expr?] at hnode
  · intro id node hnode
    simp [Code.empty, Arena.empty, Arena.stmt?] at hnode

end Scriptorium
