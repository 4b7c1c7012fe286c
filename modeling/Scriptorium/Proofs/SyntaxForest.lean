import Scriptorium.Proofs.LooseParsing
import Scriptorium.Proofs.SoundParsing

/-!
# What is read of a text is a forest

Evaluation and layout follow the references of an arena, so they end only because an arena
that was read is a forest.  That holds of a text with a syntax error as well, where the nodes
of the unfinished statement are left over.  Without an error only the targets of assignments
are: a target is read as a variable before the sign of the assignment shows up.

* `Arena.Loose.forest` — the arena is a forest, whatever is loose in it;
* `Arena.Loose.covered` — if nothing is loose but the statements of the top level and the
  targets, everything else is reached;
* `parseWith_forest` — what is read of a text is a forest, and all of it is reached.
-/

namespace Scriptorium

/-! ## Arenas with loose nodes -/

namespace Arena

variable {a : Arena} {es : List StoredExpr} {ss module : List StmtId}
  {pairs : List (ExprId × ExprId)}

theorem mem_stmt_exprs {id : StmtId} {node : StmtNode} {x : ExprId}
    (hnode : a.stmt? id = some node) (hx : x ∈ node.kind.exprs) : x ∈ a.exprRefs :=
  List.mem_append_right _ (List.mem_flatMap.2
    ⟨node, Array.mem_toList_iff.2 (Array.mem_of_getElem? hnode), hx⟩)

/-- Whatever is loose, the arena is a forest. -/
theorem Loose.forest (h : a.Loose es (ss ++ module) pairs) : a.Forest module := by
  have hmodule : (a.stmtRefs ++ module).Sublist (a.stmtRefs ++ (ss ++ module)) :=
    (List.sublist_append_right ss module).append_left a.stmtRefs
  exact {
    exprs := h.exprOrder
    stmts := h.stmtOrder
    exprRefs_nodup :=
      (h.exprs.nodup_iff.2 (Descent.nodup_numbers _ _)).sublist (List.sublist_append_left _ _)
    stmtRefs_nodup := (h.stmts.nodup_iff.2 (Descent.nodup_numbers _ _)).sublist hmodule
    exprRefs_lt := fun id hid =>
      Descent.index_lt_of_mem (h.exprs.mem_iff.1 (List.mem_append_left _ hid))
    stmtRefs_lt := fun id hid =>
      Descent.index_lt_of_mem (h.stmts.mem_iff.1 (hmodule.subset hid)) }

/-- If nothing but the statements of the top level and the targets of assignments is loose,
all statements are reached. -/
theorem Loose.reachesStmt (h : a.Loose [] module pairs) {id : StmtId}
    (hid : id.index < a.stmts.size) : a.ReachesStmt module id := by
  refine h.stmtOrder.reaches (fun _ => False) (fun x hx _ => ?_) (fun _ _ hno => hno.elim)
    hid not_false
  have hmem : x ∈ a.stmtRefs ++ module :=
    h.stmts.mem_iff.2 (Descent.number_mem_numbers (d := StmtNode.descent) hx)
  exact (List.mem_append.1 hmem).symm

/-- And all expressions but the targets are. -/
theorem Loose.reachesExpr (h : a.Loose [] module pairs) {id : ExprId}
    (hid : id.index < a.exprs.size) (hout : id ∉ pairs.map Prod.snd) : a.ReachesExpr module id := by
  refine h.exprOrder.reaches (· ∈ pairs.map Prod.snd) (fun x hx hx' => ?_) ?_ hid hout
  · have hmem : x ∈ a.exprRefs ++ pairs.map Prod.snd :=
      h.exprs.mem_iff.2 (Descent.number_mem_numbers (d := ExprNode.descent) hx)
    rcases List.mem_append.1 ((List.mem_append.1 hmem).resolve_right hx') with href | hstmt
    · exact .inr href
    · obtain ⟨node, hnode, hx⟩ := List.mem_flatMap.1 hstmt
      obtain ⟨i, hi⟩ := Array.mem_iff_getElem?.1 (Array.mem_toList_iff.1 hnode)
      have hlt := (Array.getElem?_eq_some_iff.1 hi).1
      exact .inl ⟨⟨i⟩, node, h.reachesStmt hlt, hi, hx⟩
  · intro x node hx hnode
    obtain ⟨pair, hpair, rfl⟩ := List.mem_map.1 hx
    obtain ⟨name, nameSpan, -, -, -, htarget⟩ := h.targets.reads pair hpair
    obtain rfl := Option.some.inj (htarget.symm.trans hnode)
    rfl

/-- What is reached is referred to. -/
theorem ReachesExpr.mem_exprRefs {id : ExprId} (h : a.ReachesExpr module id) : id ∈ a.exprRefs := by
  rcases h.root_or_mem_refs with ⟨stmt, node, -, hnode, hid⟩ | href
  · exact mem_stmt_exprs hnode hid
  · exact List.mem_append_left _ href

theorem Loose.covered (h : a.Loose [] module pairs) : a.Covered module where
  stmts := fun id node hnode => h.reachesStmt (Array.getElem?_eq_some_iff.1 hnode).1
  exprs := by
    have hnodup := h.exprs.nodup_iff.2 (Descent.nodup_numbers _ _)
    refine ⟨pairs, h.targets, hnodup.sublist (List.sublist_append_right _ _), ?_⟩
    intro id node hnode
    constructor
    · intro hno
      by_contra hout
      exact hno (h.reachesExpr (Array.getElem?_eq_some_iff.1 hnode).1 hout)
    · intro hout hreached
      exact (List.nodup_append.1 hnodup).2.2 id hreached.mem_exprRefs id hout rfl

end Arena

/-! ## Texts -/

/-- Nothing is held between the statements of the top level. -/
theorem ParseState.holding_parseFrom (fuel : Nat) {s : ParseState} {seen : List StmtId}
    (hs : Holding seen [] [] s.arena) :
    ∃ es ss, Holding (s.parseFrom fuel seen).module es ss (s.parseFrom fuel seen).code.arena ∧
      ((s.parseFrom fuel seen).failure = none → es = [] ∧ ss = []) := by
  have hfinish : ∀ {t : ParseState} {seen : List StmtId}, Holding seen [] [] t.arena →
      Holding (t.finish seen none).module [] [] t.arena := fun h =>
    h.perm (.refl _) (List.reverse_perm _).symm
  induction fuel generalizing s seen with
  | zero => exact ⟨[], [], hfinish hs, fun _ => ⟨rfl, rfl⟩⟩
  | succ fuel ih =>
    have hstmt := HoldsStmt.topStatement.declaration [] [] s.skipNewlines hs
    rw [parseFrom]
    split
    · exact ⟨[], [], hfinish (t := s.skipNewlines) hs, fun _ => ⟨rfl, rfl⟩⟩
    · unfold Meets at hstmt
      unfold EStateM.run
      cases hrun : Parser.declaration Parser.topStatement s.skipNewlines with
      | ok stmt t =>
        rw [hrun] at hstmt
        exact ih hstmt
      | error e t =>
        rw [hrun] at hstmt
        obtain ⟨es, ss, hspilt⟩ := hstmt
        refine ⟨es, ss, hspilt.perm (.refl _) ((List.reverse_perm seen).symm.append_left ss), ?_⟩
        intro hnone
        cases hnone

/-- What is read of a text, with a syntax error or without, is a forest, in which children
were read inside their parents; without an error all of it is reached from the top level but
for the targets of assignments. -/
theorem parseWith_forest (tables : Tables) (source : String) :
    let p := parseWith tables source
    p.Sound ∧ p.code.arena.Forest p.module ∧
      (p.failure = none → p.code.arena.Covered p.module) := by
  have hstart : Holding [] [] [] (ParseState.start (tokenize tables source)).arena := by
    unfold ParseState.start
    split <;> exact ⟨[], .empty⟩
  obtain ⟨es, ss, ⟨pairs, hloose⟩, hdone⟩ :=
    ParseState.holding_parseFrom (tokenize tables source).length hstart
  refine ⟨sound_parseWith tables source, hloose.forest, fun hsuccess => ?_⟩
  obtain ⟨rfl, rfl⟩ := hdone hsuccess
  exact hloose.covered

/-- The variable that was read as the target of an assignment stays behind. -/
example : (parse "a = 1;").code.arena.exprRefs = [⟨1⟩, ⟨2⟩] := by
  decide +kernel

end Scriptorium
