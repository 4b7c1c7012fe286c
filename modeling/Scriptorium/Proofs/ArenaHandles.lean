import Scriptorium.Proofs.ArenaSizes
import Scriptorium.Proofs.Forest
import Scriptorium.Proofs.ParserGrowth

/-!
# What an arena hands out

Nodes and lists are stored while those around them are still being collected: the arguments of
a call are complete before the arguments of the call in which it stands.  So they come in any
order, and each table of the arena grows at a pace of its own.  For each of them a handle is
handed out, the number of a node or the slice of a list, and it stays good.

* `Arena.Item`, `Arena.Handle` — what is stored, and what it is found under;
* `Arena.add`, `Arena.addAll`, `Arena.item?` — store an item, store some one after the other,
  and find one again;
* `Arena.item?_add`, `Arena.item?_addAll` — an item is found under its handle, and nothing
  that is stored later changes that;
* `OnlyAdds.item?_stateAfter` — nor does anything that is read later;
* `Arena.HandsOut`, `Arena.handsOut_addAll` — the numbers that are handed out follow each other,
  and the slices lie side by side;
* `handles_keep_items` — all of this for a new arena.
-/

namespace Scriptorium

/-! ## Slices side by side -/

/-- The slices have no position in common. -/
def Slice.Apart {α : Type} (s t : Slice α) : Prop :=
  ∀ i, ¬ ((s.start ≤ i ∧ i < s.stop) ∧ (t.start ≤ i ∧ i < t.stop))

theorem Slice.apart_of_stop_le {α : Type} {s t : Slice α} (h : s.stop ≤ t.start) : s.Apart t := by
  rintro i ⟨⟨-, hs⟩, ht, -⟩
  omega

theorem Slice.stop_le_of_of? {α : Type} {s : Slice α} {table : Array α} {l : List α}
    (h : s.of? table = some l) : s.stop ≤ table.size := by
  unfold of? at h
  split at h
  · assumption
  · cases h

namespace Tiles

variable {α : Type} {first middle last : Nat} {slices more : List (Slice α)} {s : Slice α}

theorem append (h : Tiles first slices middle) (hmore : Tiles middle more last) :
    Tiles first (slices ++ more) last := by
  induction slices generalizing first with
  | nil =>
    obtain rfl : first = middle := h
    exact hmore
  | cons s slices ih => exact ⟨h.1, ih h.2⟩

/-- The slices that are read off two lists, one after the other, lie side by side. -/
theorem filterMap_append {β : Type} {f : β → Option (Slice α)} {xs ys : List β}
    (h : Tiles first (xs.filterMap f) middle) (hmore : Tiles middle (ys.filterMap f) last) :
    Tiles first ((xs ++ ys).filterMap f) last := by
  rw [List.filterMap_append]
  exact h.append hmore

theorem le_start (h : Tiles first slices last) (hs : s ∈ slices) : first ≤ s.start := by
  induction slices generalizing first with
  | nil => cases hs
  | cons t slices ih =>
    obtain ⟨rfl, hrest⟩ := h
    rcases List.mem_cons.1 hs with rfl | hs
    · exact le_rfl
    · exact (Nat.le_add_right _ _).trans (ih hrest hs)

theorem pairwise_apart (h : Tiles first slices last) : slices.Pairwise Slice.Apart := by
  induction slices generalizing first with
  | nil => exact .nil
  | cons s slices ih =>
    exact .cons (fun t ht => Slice.apart_of_stop_le (h.2.le_start ht)) (ih h.2)

end Tiles

/-! ## Items and handles -/

namespace Arena

/-- Something to be stored. -/
inductive Item where
  /-- An expression. -/
  | expr (node : ExprNode)
  /-- A statement. -/
  | stmt (node : StmtNode)
  /-- A list of expressions. -/
  | exprs (ids : List ExprId)
  /-- A list of statements. -/
  | stmts (ids : List StmtId)
  /-- A list of parameters. -/
  | params (names : List NameId)
  deriving DecidableEq, Repr

/-- What is handed out for an item. -/
inductive Handle where
  /-- The number of an expression. -/
  | expr (id : ExprId)
  /-- The number of a statement. -/
  | stmt (id : StmtId)
  /-- The slice of a list of expressions. -/
  | exprs (slice : Slice ExprId)
  /-- The slice of a list of statements. -/
  | stmts (slice : Slice StmtId)
  /-- The slice of a list of parameters. -/
  | params (slice : Slice NameId)
  deriving DecidableEq, Repr

namespace Handle

/-- The number, if the handle is that of an expression. -/
def expr? : Handle → Option ExprId
  | .expr id => some id
  | _ => none

/-- The number, if the handle is that of a statement. -/
def stmt? : Handle → Option StmtId
  | .stmt id => some id
  | _ => none

/-- The slice, if the handle is that of a list of expressions. -/
def exprs? : Handle → Option (Slice ExprId)
  | .exprs slice => some slice
  | _ => none

/-- The slice, if the handle is that of a list of statements. -/
def stmts? : Handle → Option (Slice StmtId)
  | .stmts slice => some slice
  | _ => none

/-- The slice, if the handle is that of a list of parameters. -/
def params? : Handle → Option (Slice NameId)
  | .params slice => some slice
  | _ => none

/-- The number is below a bound, or the end of the slice is, and so its start and its length. -/
def Below (bound : Nat) : Handle → Prop
  | .expr id => id.index < bound
  | .stmt id => id.index < bound
  | .exprs slice => slice.stop < bound
  | .stmts slice => slice.stop < bound
  | .params slice => slice.stop < bound

end Handle

/-- Stores an item. -/
def add (a : Arena) : Item → Handle × Arena
  | .expr node => (a.addExpr node).map .expr id
  | .stmt node => (a.addStmt node).map .stmt id
  | .exprs ids => (a.addExprs ids).map .exprs id
  | .stmts ids => (a.addStmts ids).map .stmts id
  | .params names => (a.addParams names).map .params id

/-- Stores items, one after the other: their handles, and the arena after all of them. -/
def addAll (a : Arena) : List Item → List Handle × Arena
  | [] => ([], a)
  | item :: items =>
      let first := a.add item
      let rest := first.2.addAll items
      (first.1 :: rest.1, rest.2)

/-- The item with a handle. -/
def item? (a : Arena) : Handle → Option Item
  | .expr id => (a.expr? id).map .expr
  | .stmt id => (a.stmt? id).map .stmt
  | .exprs slice => (a.exprsIn? slice).map .exprs
  | .stmts slice => (a.stmtsIn? slice).map .stmts
  | .params slice => (a.paramsIn? slice).map .params

/-! ## An item is found again -/

/-- An item is found under the handle that was handed out for it. -/
theorem item?_add (a : Arena) (item : Item) : (a.add item).2.item? (a.add item).1 = some item := by
  cases item with
  | expr node => exact congrArg (Option.map Item.expr) Array.getElem?_push_size
  | stmt node => exact congrArg (Option.map Item.stmt) Array.getElem?_push_size
  | exprs ids => exact congrArg (Option.map Item.exprs) (Slice.of?_appendList a.exprLists ids)
  | stmts ids => exact congrArg (Option.map Item.stmts) (Slice.of?_appendList a.stmtLists ids)
  | params names => exact congrArg (Option.map Item.params) (Slice.of?_appendList a.params names)

end Arena

theorem map_mono {α β : Type} {f : α → β} {o o' : Option α} {y : β}
    (h : ∀ x, o = some x → o' = some x) (ho : o.map f = some y) : o'.map f = some y := by
  obtain ⟨x, hx, rfl⟩ := Option.map_eq_some_iff.1 ho
  rw [h x hx, Option.map_some]

namespace Code

open Arena

variable {c d : Code} {item : Item} {handle : Handle}

theorem extends_add (c : Code) (item : Item) :
    c.Extends { c with arena := (c.arena.add item).2 } := by
  cases item with
  | expr node => exact ⟨.push _ _, .refl _, .refl _, .refl _, .refl _, .refl _⟩
  | stmt node => exact ⟨.refl _, .refl _, .push _ _, .refl _, .refl _, .refl _⟩
  | exprs ids => exact ⟨.refl _, .appendList _ _, .refl _, .refl _, .refl _, .refl _⟩
  | stmts ids => exact ⟨.refl _, .refl _, .refl _, .appendList _ _, .refl _, .refl _⟩
  | params names => exact ⟨.refl _, .refl _, .refl _, .refl _, .appendList _ _, .refl _⟩

theorem extends_addAll (c : Code) (items : List Item) :
    c.Extends { c with arena := (c.arena.addAll items).2 } := by
  induction items generalizing c with
  | nil => exact .refl c
  | cons item items ih => exact (c.extends_add item).trans (ih _)

/-- What a code holds is found in every code that extends it. -/
theorem Extends.item?_eq (h : c.Extends d) (hitem : c.arena.item? handle = some item) :
    d.arena.item? handle = some item := by
  cases handle with
  | expr id => exact map_mono (fun _ => h.exprs.getElem?_eq) hitem
  | stmt id => exact map_mono (fun _ => h.stmts.getElem?_eq) hitem
  | exprs slice => exact map_mono (fun _ => h.exprLists.of?_eq) hitem
  | stmts slice => exact map_mono (fun _ => h.stmtLists.of?_eq) hitem
  | params slice => exact map_mono (fun _ => h.params.of?_eq) hitem

end Code

/-- What was stored before something is read is found afterwards, also if the reading fails. -/
theorem OnlyAdds.item?_stateAfter {α : Type} {p : Parser α} (h : OnlyAdds p) {s : ParseState}
    {item : Arena.Item} {handle : Arena.Handle} (hitem : s.arena.item? handle = some item) :
    (stateAfter p s).arena.item? handle = some item :=
  (h s).item?_eq hitem

namespace Arena

variable {a : Arena} {item : Item} {handle : Handle}

/-- Nothing that is stored later changes what is found under a handle. -/
theorem item?_addAll (h : a.item? handle = some item) (items : List Item) :
    (a.addAll items).2.item? handle = some item :=
  (Code.extends_addAll ⟨a, .empty⟩ items).item?_eq h

/-- In the end, each item is found under its handle. -/
theorem forall₂_item?_addAll (a : Arena) (items : List Item) :
    List.Forall₂ (fun item handle => (a.addAll items).2.item? handle = some item) items
      (a.addAll items).1 := by
  induction items generalizing a with
  | nil => exact .nil
  | cons item items ih => exact .cons (item?_addAll (item?_add a item) items) (ih _)

/-- What is found under a handle stands within the tables. -/
theorem below_of_item? (h : a.item? handle = some item) {bound : Nat} (hbound : a.Below bound) :
    handle.Below bound := by
  cases handle with
  | expr id =>
    obtain ⟨node, hnode, -⟩ := Option.map_eq_some_iff.1 h
    exact (Array.getElem?_eq_some_iff.1 hnode).1.trans hbound.exprs
  | stmt id =>
    obtain ⟨node, hnode, -⟩ := Option.map_eq_some_iff.1 h
    exact (Array.getElem?_eq_some_iff.1 hnode).1.trans hbound.stmts
  | exprs slice =>
    obtain ⟨ids, hids, -⟩ := Option.map_eq_some_iff.1 h
    exact (Slice.stop_le_of_of? hids).trans_lt hbound.exprLists
  | stmts slice =>
    obtain ⟨ids, hids, -⟩ := Option.map_eq_some_iff.1 h
    exact (Slice.stop_le_of_of? hids).trans_lt hbound.stmtLists
  | params slice =>
    obtain ⟨names, hnames, -⟩ := Option.map_eq_some_iff.1 h
    exact (Slice.stop_le_of_of? hnames).trans_lt hbound.params

/-! ## The tables grow -/

/-- The handles tell how the tables of `b` came from those of `a`: the numbers of nodes go on
where they had stopped, and the slices of lists lie side by side, from the old end of a table to
the new one. -/
structure HandsOut (a : Arena) (handles : List Handle) (b : Arena) : Prop where
  exprs : List.range a.exprs.size ++ (handles.filterMap Handle.expr?).map ExprId.index =
    List.range b.exprs.size
  stmts : List.range a.stmts.size ++ (handles.filterMap Handle.stmt?).map StmtId.index =
    List.range b.stmts.size
  exprLists : Tiles a.exprLists.size (handles.filterMap Handle.exprs?) b.exprLists.size
  stmtLists : Tiles a.stmtLists.size (handles.filterMap Handle.stmts?) b.stmtLists.size
  params : Tiles a.params.size (handles.filterMap Handle.params?) b.params.size

theorem handsOut_nil (a : Arena) : a.HandsOut [] a :=
  ⟨List.append_nil _, List.append_nil _, rfl, rfl, rfl⟩

theorem HandsOut.trans {b c : Arena} {first second : List Handle} (h : a.HandsOut first b)
    (h' : b.HandsOut second c) : a.HandsOut (first ++ second) c where
  exprs := by
    rw [List.filterMap_append, List.map_append, ← List.append_assoc, h.exprs, h'.exprs]
  stmts := by
    rw [List.filterMap_append, List.map_append, ← List.append_assoc, h.stmts, h'.stmts]
  exprLists := h.exprLists.filterMap_append h'.exprLists
  stmtLists := h.stmtLists.filterMap_append h'.stmtLists
  params := h.params.filterMap_append h'.params

theorem range_size_push {α : Type} (table : Array α) (x : α) :
    List.range table.size ++ [table.size] = List.range (table.push x).size := by
  rw [Array.size_push, List.range_succ]

theorem tiles_appendList {α : Type} (table : Array α) (l : List α) :
    Tiles table.size [(⟨table.size, l.length⟩ : Slice α)] (table.appendList l).size :=
  ⟨rfl, (size_appendList table l).symm⟩

/-- An item adds to one table and leaves the others as they are. -/
theorem handsOut_add (a : Arena) (item : Item) : a.HandsOut [(a.add item).1] (a.add item).2 := by
  cases item with
  | expr node => exact ⟨range_size_push _ node, List.append_nil _, rfl, rfl, rfl⟩
  | stmt node => exact ⟨List.append_nil _, range_size_push _ node, rfl, rfl, rfl⟩
  | exprs ids => exact ⟨List.append_nil _, List.append_nil _, tiles_appendList _ ids, rfl, rfl⟩
  | stmts ids => exact ⟨List.append_nil _, List.append_nil _, rfl, tiles_appendList _ ids, rfl⟩
  | params names =>
    exact ⟨List.append_nil _, List.append_nil _, rfl, rfl, tiles_appendList _ names⟩

theorem handsOut_addAll (a : Arena) (items : List Item) :
    a.HandsOut (a.addAll items).1 (a.addAll items).2 := by
  induction items generalizing a with
  | nil => exact handsOut_nil a
  | cons item items ih => exact (handsOut_add a item).trans (ih (a.add item).2)

end Arena

open Arena

/-- Items are stored in a new arena, one after the other and in any order.

* For each of them a handle is handed out, under which exactly this item is found afterwards,
  whatever more is stored: a node, or a list, also if it is empty.
* It is found also after a statement is read, with all lists in it, and if the reading fails.
* The numbers of expressions are handed out one after the other, from zero on, and so are those
  of statements.
* No two slices of lists of one kind have a position in common.
* If no table has as many as `2 ^ 32` entries, 32 bits are enough for the numbers of nodes and
  for the start, the length and the end of a slice. -/
theorem handles_keep_items (items : List Item) :
    let handles := (Arena.empty.addAll items).1
    let a := (Arena.empty.addAll items).2
    (∀ more, List.Forall₂ (fun item handle => (a.addAll more).2.item? handle = some item)
      items handles) ∧
    (∀ depth inFunction (s : ParseState), s.arena = a →
      List.Forall₂ (fun item handle =>
        (stateAfter (Parser.statementAt depth inFunction) s).arena.item? handle = some item)
        items handles) ∧
    (handles.filterMap Handle.expr?).map ExprId.index = List.range a.exprs.size ∧
    (handles.filterMap Handle.stmt?).map StmtId.index = List.range a.stmts.size ∧
    (handles.filterMap Handle.exprs?).Pairwise Slice.Apart ∧
    (handles.filterMap Handle.stmts?).Pairwise Slice.Apart ∧
    (handles.filterMap Handle.params?).Pairwise Slice.Apart ∧
    (a.Below (2 ^ 32) → ∀ handle ∈ handles, handle.Below (2 ^ 32)) := by
  intro handles a
  have hfinds : List.Forall₂ (fun item handle => a.item? handle = some item) items handles :=
    forall₂_item?_addAll .empty items
  have hout : Arena.empty.HandsOut handles a := handsOut_addAll .empty items
  refine ⟨?_, ?_, hout.exprs, hout.stmts, hout.exprLists.pairwise_apart,
    hout.stmtLists.pairwise_apart, hout.params.pairwise_apart, ?_⟩
  · intro more
    exact hfinds.imp fun item handle h => item?_addAll h more
  · intro depth inFunction s hs
    refine hfinds.imp fun item handle h => ?_
    exact (OnlyAdds.statementAt depth inFunction).item?_stateAfter (hs ▸ h)
  · intro hbelow handle hhandle
    obtain ⟨i, hi, rfl⟩ := List.getElem_of_mem hhandle
    exact below_of_item? (hfinds.get (hfinds.length_eq ▸ hi) hi) hbelow

/-- The list of an inner call is stored before that of the outer one, and empty lists between
them. -/
theorem handles_keep_items_nested :
    let items : List Item :=
      [.exprs [⟨2⟩, ⟨3⟩], .exprs [], .stmts [], .exprs [⟨4⟩, ⟨6⟩, ⟨7⟩]]
    let handles := (Arena.empty.addAll items).1
    handles = [.exprs ⟨0, 2⟩, .exprs ⟨2, 0⟩, .stmts ⟨0, 0⟩, .exprs ⟨2, 3⟩] ∧
      (Arena.empty.addAll items).2.Below (2 ^ 32) ∧ ∀ handle ∈ handles, handle.Below (2 ^ 32) := by
  intro items handles
  have hbelow : (Arena.empty.addAll items).2.Below (2 ^ 32) :=
    ⟨by decide, by decide, by decide, by decide, by decide⟩
  obtain ⟨-, -, -, -, -, -, -, hbits⟩ := handles_keep_items items
  exact ⟨by decide, hbelow, hbits hbelow⟩

end Scriptorium
