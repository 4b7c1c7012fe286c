import Scriptorium.Proofs.ArenaGrowth
import Mathlib.Data.List.Nodup

/-!
# Forests

An arena only is a forest of syntax trees if no node is referred to twice and none leads
back to itself.  Expressions and statements are stored alike: a node names some of its
children itself and the others by a slice of a table of lists.  So what it takes is said
once, for any table of nodes, and then of both.

* `Descent` — how the nodes of a table refer to each other;
* `Descent.Orderly` — every node refers to earlier ones, and every entry of a list belongs
  to the list of one node;
* `Descent.Reaches` — a node is reached from some roots;
* `Descent.Orderly.reaches` — in an orderly table everything that something refers to is
  reached, but for the children of what is left out;
* `Arena.Forest` — both tables are orderly, and no node is referred to from two places;
* `Arena.Covered` — all of the arena is reached from the statements of the top level, but
  for the targets of assignments.
-/

namespace Scriptorium

/-! ## Lists that take up a table -/

/-- The slices follow each other without gaps, the first one from position `first` on and
the last one up to position `last`. -/
def Tiles {α : Type} : (first : Nat) → List (Slice α) → (last : Nat) → Prop
  | first, [], last => first = last
  | first, s :: slices, last => s.start = first ∧ Tiles s.stop slices last

namespace Tiles

variable {α : Type} {first last : Nat} {slices : List (Slice α)} {s : Slice α}

theorem first_le (h : Tiles first slices last) : first ≤ last := by
  induction slices generalizing first with
  | nil => exact Nat.le_of_eq h
  | cons s slices ih =>
    have hstop := ih h.2
    have hstart := h.1
    unfold Slice.stop at hstop
    omega

theorem stop_le (h : Tiles first slices last) (hs : s ∈ slices) : s.stop ≤ last := by
  induction slices generalizing first with
  | nil => cases hs
  | cons t slices ih =>
    rcases List.mem_cons.1 hs with rfl | hs
    · exact h.2.first_le
    · exact ih h.2 hs

/-- A slice that starts where the others end may be added. -/
theorem concat (h : Tiles first slices s.start) : Tiles first (slices ++ [s]) s.stop := by
  induction slices generalizing first with
  | nil => exact ⟨h.symm, rfl⟩
  | cons t slices ih => exact ⟨h.1, ih h.2⟩

/-- Every position is in one of the slices. -/
theorem exists_mem (h : Tiles first slices last) {i : Nat} (hfirst : first ≤ i) (hlast : i < last) :
    ∃ s ∈ slices, s.start ≤ i ∧ i < s.stop := by
  induction slices generalizing first with
  | nil =>
    have : first = last := h
    omega
  | cons s slices ih =>
    obtain ⟨hstart, hrest⟩ := h
    by_cases hi : i < s.stop
    · exact ⟨s, List.mem_cons_self, by omega, hi⟩
    · obtain ⟨t, ht, hti⟩ := ih hrest (by omega)
      exact ⟨t, List.mem_cons_of_mem s ht, hti⟩

end Tiles

namespace Slice

variable {α : Type} {table : Array α} {s : Slice α} {x : α}

/-- The entries of a slice, none if the table is too short. -/
def entries (s : Slice α) (table : Array α) : List α := (s.of? table).getD []

theorem mem_entries_of_mem {i : Nat} (hstop : s.stop ≤ table.size) (hi : s.start ≤ i)
    (hlt : i < s.stop) (hx : table[i]? = some x) : x ∈ s.entries table := by
  have hget : (table.extract s.start s.stop)[i - s.start]? = some x := by
    rw [Array.getElem?_extract, if_pos (by omega), Nat.add_sub_cancel' hi, hx]
  rw [entries, of?, if_pos hstop]
  exact Array.mem_toList_iff.2 (Array.mem_of_getElem? hget)

theorem mem_of_mem_entries (hx : x ∈ s.entries table) : x ∈ table := by
  unfold entries of? at hx
  split at hx
  · obtain ⟨i, hi⟩ := Array.mem_iff_getElem?.1 (Array.mem_toList_iff.1 hx)
    rw [Array.getElem?_extract] at hi
    split at hi
    · exact Array.mem_of_getElem? hi
    · cases hi
  · cases hx

/-- A table may grow behind a slice. -/
theorem entries_grows {larger : Array α} (hstop : s.stop ≤ table.size) (h : Grows table larger) :
    s.entries larger = s.entries table := by
  have hof : s.of? table = some (table.extract s.start s.stop).toList := by
    rw [of?, if_pos hstop]
  rw [entries, entries, h.of?_eq hof, hof]

theorem entries_appendList (table : Array α) (l : List α) :
    entries ⟨table.size, l.length⟩ (table.appendList l) = l := by
  rw [entries, of?_appendList]
  rfl

end Slice

/-! ## Tables of nodes -/

/-- How the nodes of a table refer to each other; the nodes are of type `ν`, and their
numbers of type `ι`. -/
structure Descent (ν ι : Type) where
  /-- The position of the node with a number. -/
  index : ι → Nat
  /-- The number of the node at a position. -/
  number : Nat → ι
  /-- The children that a node names itself. -/
  fields : ν → List ι
  /-- The lists of children that a node names. -/
  lists : ν → List (Slice ι)
  /-- Every position has a number. -/
  index_number : ∀ i, index (number i) = i

namespace Descent

variable {ν ι : Type} (d : Descent ν ι) (nodes : Array ν) (table : Array ι)

/-- The children of a node. -/
def children (node : ν) : List ι :=
  d.fields node ++ (d.lists node).flatMap fun s => s.entries table

/-- What is referred to from the table, once for each place: the fields of nodes and the
entries of lists. -/
def refs : List ι := nodes.toList.flatMap d.fields ++ table.toList

/-- The numbers of the first `n` nodes. -/
def numbers (n : Nat) : List ι := (List.range n).map d.number

/-- Every node refers to earlier ones, and the lists of the nodes share no entry and leave
none out. -/
structure Orderly : Prop where
  below : ∀ i node, nodes[i]? = some node → ∀ x ∈ d.children table node, d.index x < i
  tiles : Tiles 0 (nodes.toList.flatMap d.lists) table.size

/-- The node is reached from the roots. -/
inductive Reaches (root : ι → Prop) : ι → Prop
  /-- A root is. -/
  | root {x : ι} (h : root x) : Reaches root x
  /-- A child of a node that is reached is. -/
  | child {x parent : ι} {node : ν} (hparent : Reaches root parent)
      (hnode : nodes[d.index parent]? = some node) (hx : x ∈ d.children table node) :
      Reaches root x

theorem refs_push (node : ν) :
    (d.refs (nodes.push node) table).Perm (d.fields node ++ d.refs nodes table) := by
  rw [refs, refs, Array.toList_push, List.flatMap_append, List.flatMap_singleton,
    ← List.append_assoc]
  exact List.perm_append_comm.append_right _

theorem refs_appendList (l : List ι) :
    (d.refs nodes (table.appendList l)).Perm (l ++ d.refs nodes table) := by
  have htable : (table.appendList l).toList = table.toList ++ l := by simp
  rw [refs, refs, htable, ← List.append_assoc]
  exact List.perm_append_comm

variable {d nodes table} {node : ν} {x : ι} {n : Nat}

theorem numbers_succ (d : Descent ν ι) (n : Nat) :
    d.numbers (n + 1) = d.numbers n ++ [d.number n] := by
  simp [numbers, List.range_succ]

theorem index_lt_of_mem (hx : x ∈ d.numbers n) : d.index x < n := by
  obtain ⟨i, hi, rfl⟩ := List.mem_map.1 hx
  rw [d.index_number]
  exact List.mem_range.1 hi

theorem number_mem_numbers {i : Nat} (hi : i < n) : d.number i ∈ d.numbers n :=
  List.mem_map_of_mem (List.mem_range.2 hi)

theorem nodup_numbers (d : Descent ν ι) (n : Nat) : (d.numbers n).Nodup :=
  List.nodup_range.map (Function.LeftInverse.injective d.index_number)

theorem mem_refs_of_child (hnode : node ∈ nodes) (hx : x ∈ d.children table node) :
    x ∈ d.refs nodes table := by
  rcases List.mem_append.1 hx with hx | hx
  · exact List.mem_append_left _ (List.mem_flatMap.2 ⟨node, Array.mem_toList_iff.2 hnode, hx⟩)
  · obtain ⟨s, -, hx⟩ := List.mem_flatMap.1 hx
    exact List.mem_append_right _ (Array.mem_toList_iff.2 (Slice.mem_of_mem_entries hx))

namespace Orderly

theorem stop_le (h : d.Orderly nodes table) (hnode : node ∈ nodes) {s : Slice ι}
    (hs : s ∈ d.lists node) : s.stop ≤ table.size :=
  h.tiles.stop_le (List.mem_flatMap.2 ⟨node, Array.mem_toList_iff.2 hnode, hs⟩)

/-- Whatever is referred to has a parent. -/
theorem exists_parent (h : d.Orderly nodes table) (hx : x ∈ d.refs nodes table) :
    ∃ node ∈ nodes, x ∈ d.children table node := by
  rcases List.mem_append.1 hx with hx | hx
  · obtain ⟨node, hnode, hx⟩ := List.mem_flatMap.1 hx
    exact ⟨node, Array.mem_toList_iff.1 hnode, List.mem_append_left _ hx⟩
  · obtain ⟨i, hi⟩ := Array.mem_iff_getElem?.1 (Array.mem_toList_iff.1 hx)
    obtain ⟨hlt, -⟩ := Array.getElem?_eq_some_iff.1 hi
    obtain ⟨s, hs, hstart, hstop⟩ := h.tiles.exists_mem (Nat.zero_le i) hlt
    obtain ⟨node, hnode, hs⟩ := List.mem_flatMap.1 hs
    have hnode := Array.mem_toList_iff.1 hnode
    have hentry := Slice.mem_entries_of_mem (h.stop_le hnode hs) hstart hstop hi
    exact ⟨node, hnode, List.mem_append_right _ (List.mem_flatMap.2 ⟨s, hs, hentry⟩)⟩

theorem children_grows (h : d.Orderly nodes table) (hnode : node ∈ nodes) {larger : Array ι}
    (hgrows : Grows table larger) : d.children larger node = d.children table node := by
  have hentries : ∀ s ∈ d.lists node, s.entries larger = s.entries table := fun s hs =>
    Slice.entries_grows (h.stop_le hnode hs) hgrows
  rw [children, children, List.flatMap_congr hentries]

/-- A node may be added whose children are there already, with the entries of its lists. -/
theorem push_of_grows (h : d.Orderly nodes table) {larger : Array ι} (hgrows : Grows table larger)
    (hchildren : ∀ x ∈ d.children larger node, d.index x < nodes.size)
    (htiles : Tiles 0 (nodes.toList.flatMap d.lists ++ d.lists node) larger.size) :
    d.Orderly (nodes.push node) larger where
  below := by
    intro i n hn x hx
    rw [Array.getElem?_push] at hn
    split at hn
    · next hi =>
      cases hn
      exact hi ▸ hchildren x hx
    · rw [h.children_grows (Array.mem_of_getElem? hn) hgrows] at hx
      exact h.below i n hn x hx
  tiles := by simpa using htiles

/-- A node without lists may be added whose children are there already. -/
theorem push (h : d.Orderly nodes table) (hlists : d.lists node = [])
    (hfields : ∀ x ∈ d.fields node, d.index x < nodes.size) :
    d.Orderly (nodes.push node) table := by
  refine h.push_of_grows (.refl table) ?_ ?_
  · simpa [children, hlists] using hfields
  · simpa [hlists] using h.tiles

/-- A node with one list may be added, and the list with it, whose children are there
already. -/
theorem push_list (h : d.Orderly nodes table) {l : List ι}
    (hlists : d.lists node = [⟨table.size, l.length⟩])
    (hfields : ∀ x ∈ d.fields node, d.index x < nodes.size) (hl : ∀ x ∈ l, d.index x < nodes.size) :
    d.Orderly (nodes.push node) (table.appendList l) := by
  refine h.push_of_grows (.appendList table l) ?_ ?_
  · intro x hx
    simp only [children, hlists, List.flatMap_cons, List.flatMap_nil, List.append_nil,
      Slice.entries_appendList, List.mem_append] at hx
    exact hx.elim (hfields x) (hl x)
  · have hsize : (table.appendList l).size = (⟨table.size, l.length⟩ : Slice ι).stop := by
      simp [Slice.stop, ← Array.length_toList]
    rw [hlists, hsize]
    exact Tiles.concat h.tiles

/-- In an orderly table everything is reached that is a root or referred to, if what is left
out has no children. -/
theorem reaches (h : d.Orderly nodes table) {root : ι → Prop} (out : ι → Prop)
    (hin : ∀ x, d.index x < nodes.size → ¬ out x → root x ∨ x ∈ d.refs nodes table)
    (hleaf : ∀ x node, out x → nodes[d.index x]? = some node → d.children table node = [])
    (hx : d.index x < nodes.size) (hout : ¬ out x) : d.Reaches nodes table root x := by
  -- parents stand later in the table, so the induction goes from its end to its start
  induction hdistance : nodes.size - d.index x using Nat.strongRecOn generalizing x with
  | ind distance ih =>
    rcases hin x hx hout with hroot | href
    · exact .root hroot
    · obtain ⟨node, hnode, hchild⟩ := h.exists_parent href
      obtain ⟨i, hi⟩ := Array.mem_iff_getElem?.1 hnode
      obtain ⟨hlt, -⟩ := Array.getElem?_eq_some_iff.1 hi
      have hbelow := h.below i node hi x hchild
      rw [← d.index_number i] at hi hlt hbelow
      have hparent : ¬ out (d.number i) := fun hno => by
        rw [hleaf _ node hno hi] at hchild
        cases hchild
      exact .child (ih _ (by omega) hlt hparent rfl) hi hchild

end Orderly

/-- What is reached is a root or referred to. -/
theorem Reaches.root_or_mem_refs {root : ι → Prop} (h : d.Reaches nodes table root x) :
    root x ∨ x ∈ d.refs nodes table := by
  cases h with
  | root h => exact .inl h
  | child _ hnode hx => exact .inr (mem_refs_of_child (Array.mem_of_getElem? hnode) hx)

end Descent

/-! ## Expressions and statements -/

/-- The expressions that an expression names itself. -/
def ExprKind.fields : ExprKind → List ExprId
  | .literal _ | .reference _ => []
  | .unary _ x | .group x | .assign _ _ x => [x]
  | .binary _ l r | .logical _ l r => [l, r]
  | .call callee _ => [callee]

/-- The lists of expressions that an expression names. -/
def ExprKind.lists : ExprKind → List (Slice ExprId)
  | .call _ args => [args]
  | _ => []

/-- The expressions that a statement names. -/
def StmtKind.exprs : StmtKind → List ExprId
  | .expression x => [x]
  | .declare _ value | .ret value => value.toList
  | .branch cond _ _ | .loop cond _ => [cond]
  | .block _ | .function _ _ _ => []

/-- The statements that a statement names itself. -/
def StmtKind.fields : StmtKind → List StmtId
  | .branch _ thenBranch elseBranch => thenBranch :: elseBranch.toList
  | .loop _ body => [body]
  | .expression _ | .declare _ _ | .block _ | .function _ _ _ | .ret _ => []

/-- The lists of statements that a statement names. -/
def StmtKind.lists : StmtKind → List (Slice StmtId)
  | .block body | .function _ _ body => [body]
  | _ => []

/-- How expressions refer to expressions. -/
def ExprNode.descent : Descent ExprNode ExprId where
  index := ExprId.index
  number := ExprId.mk
  fields node := node.kind.fields
  lists node := node.kind.lists
  index_number _ := rfl

/-- How statements refer to statements. -/
def StmtNode.descent : Descent StmtNode StmtId where
  index := StmtId.index
  number := StmtId.mk
  fields node := node.kind.fields
  lists node := node.kind.lists
  index_number _ := rfl

namespace Arena

variable (a : Arena)

/-- The expressions that are referred to, once for each place. -/
def exprRefs : List ExprId :=
  ExprNode.descent.refs a.exprs a.exprLists ++ a.stmts.toList.flatMap fun node => node.kind.exprs

/-- The statements that other statements refer to, once for each place. -/
def stmtRefs : List StmtId := StmtNode.descent.refs a.stmts a.stmtLists

/-- With the statements `module` at the top level the nodes are those of trees: nodes refer to
earlier ones, no two lists share an entry, and no node is referred to from two places. -/
structure Forest (module : List StmtId) : Prop where
  exprs : ExprNode.descent.Orderly a.exprs a.exprLists
  stmts : StmtNode.descent.Orderly a.stmts a.stmtLists
  exprRefs_nodup : a.exprRefs.Nodup
  stmtRefs_nodup : (a.stmtRefs ++ module).Nodup
  exprRefs_lt : ∀ id ∈ a.exprRefs, id.index < a.exprs.size
  stmtRefs_lt : ∀ id ∈ a.stmtRefs ++ module, id.index < a.stmts.size

/-! ### What is reached -/

/-- The statement is reached from those of the top level. -/
def ReachesStmt (module : List StmtId) : StmtId → Prop :=
  StmtNode.descent.Reaches a.stmts a.stmtLists (· ∈ module)

/-- The expression is reached from a statement that is. -/
def ReachesExpr (module : List StmtId) : ExprId → Prop :=
  ExprNode.descent.Reaches a.exprs a.exprLists fun x =>
    ∃ id node, a.ReachesStmt module id ∧ a.stmt? id = some node ∧ x ∈ node.kind.exprs

/-- The pairs are those of an assignment and of the variable that was read as its target,
one for each assignment. -/
structure Targets (pairs : List (ExprId × ExprId)) : Prop where
  assigns : ∀ id, id ∈ pairs.map Prod.fst ↔
    ∃ name nameSpan value span, a.expr? id = some ⟨.assign name nameSpan value, span⟩
  once : (pairs.map Prod.fst).Nodup
  reads : ∀ pair ∈ pairs, ∃ name nameSpan value span,
    a.expr? pair.1 = some ⟨.assign name nameSpan value, span⟩ ∧
      a.expr? pair.2 = some ⟨.reference name, nameSpan⟩

/-- All statements are reached from those of the top level, and all expressions but the
targets of assignments, of which there is one for each assignment. -/
structure Covered (module : List StmtId) : Prop where
  stmts : ∀ id node, a.stmt? id = some node → a.ReachesStmt module id
  exprs : ∃ pairs, a.Targets pairs ∧ (pairs.map Prod.snd).Nodup ∧
    ∀ id node, a.expr? id = some node →
      (¬ a.ReachesExpr module id ↔ id ∈ pairs.map Prod.snd)

end Arena

end Scriptorium
