import Scriptorium.Syntax.Tree
import Mathlib.Data.List.Forall2
import Mathlib.Data.Option.Basic

/-!
# Growing arenas

Reading a program only ever adds to an arena and to its name table.  This file says
what that means and what it leaves alone.

* `Code.Extends` — every table of one code is the beginning of the same table of
  another;
* `exprTree?_mono`, `stmtTree?_mono` — the trees of a code are those of every code
  that extends it, and a larger bound on the depth changes nothing;
* `NameTable.text?_intern` — a text is found under the number that it was given.
-/

namespace Scriptorium

/-! ## Lists of answers -/

theorem mapM_eq_some_iff {α β : Type} {f : α → Option β} :
    ∀ {l : List α} {ys : List β},
      l.mapM f = some ys ↔ List.Forall₂ (fun a b => f a = some b) l ys := by
  intro l
  induction l with
  | nil => intro ys; simp [eq_comm]
  | cons a l ih =>
    intro ys
    simp only [List.mapM_cons, Option.bind_eq_bind, Option.pure_def, Option.bind_eq_some_iff,
      Option.some.injEq, ih, List.forall₂_cons_left_iff]
    constructor
    · rintro ⟨b, hb, bs, hbs, rfl⟩
      exact ⟨b, bs, hb, hbs, rfl⟩
    · rintro ⟨b, bs, hb, hbs, rfl⟩
      exact ⟨b, hb, bs, hbs, rfl⟩

theorem mapM_mono {α β : Type} {f g : α → Option β} (h : ∀ a b, f a = some b → g a = some b)
    {l : List α} {ys : List β} (hl : l.mapM f = some ys) : l.mapM g = some ys := by
  rw [mapM_eq_some_iff] at hl ⊢
  exact hl.imp h

theorem rel_imp {α β : Type} {R S : α → β → Prop} {x : Option α} {y : Option β}
    (h : Option.Rel R x y) (hRS : ∀ a b, R a b → S a b) : Option.Rel S x y := by
  cases h with
  | none => exact .none
  | some h => exact .some (hRS _ _ h)

/-! ## Tables -/

/-- The table `b` begins with the table `a`. -/
def Grows {α : Type} (a b : Array α) : Prop := ∃ c, b = a ++ c

namespace Grows

variable {α : Type} {a b c : Array α}

theorem refl (a : Array α) : Grows a a := ⟨#[], by simp⟩

theorem trans (h₁ : Grows a b) (h₂ : Grows b c) : Grows a c := by
  obtain ⟨x, rfl⟩ := h₁
  obtain ⟨y, rfl⟩ := h₂
  exact ⟨x ++ y, by rw [Array.append_assoc]⟩

theorem push (a : Array α) (x : α) : Grows a (a.push x) := ⟨#[x], by simp⟩

theorem appendList (a : Array α) (l : List α) : Grows a (a.appendList l) :=
  ⟨l.toArray, by apply Array.toList_inj.1; simp⟩

theorem size_le (h : Grows a b) : a.size ≤ b.size := by
  obtain ⟨x, rfl⟩ := h
  simp

theorem getElem?_eq (h : Grows a b) {i : Nat} {x : α} (hi : a[i]? = some x) : b[i]? = some x := by
  obtain ⟨y, rfl⟩ := h
  obtain ⟨hlt, -⟩ := Array.getElem?_eq_some_iff.1 hi
  rw [Array.getElem?_append_left hlt, hi]

theorem of?_eq (h : Grows a b) {s : Slice α} {l : List α} (hs : s.of? a = some l) :
    s.of? b = some l := by
  obtain ⟨x, rfl⟩ := h
  unfold Slice.of? at hs ⊢
  split at hs
  · next hle =>
    have hle' : s.stop ≤ (a ++ x).size := by rw [Array.size_append]; omega
    rw [if_pos hle', ← hs]
    have hstart : s.stop - a.size = 0 := by omega
    simp [Array.extract_append, hstart]
  · exact absurd hs (by simp)

end Grows

/-- What is appended to a table is found in the slice that it takes up. -/
theorem Slice.of?_appendList {α : Type} (a : Array α) (l : List α) :
    Slice.of? ⟨a.size, l.length⟩ (a.appendList l) = some l := by
  have h : a.appendList l = a ++ l.toArray := by apply Array.toList_inj.1; simp
  rw [h, Slice.of?, if_pos (by simp [Slice.stop])]
  simp [Array.extract_append, Slice.stop]

/-! ## Names -/

namespace NameTable

theorem find?_eq_some {t : NameTable} {text : String} {name : NameId}
    (h : t.find? text = some name) : t.text? name = some text := by
  rcases t with ⟨⟨texts⟩⟩
  simp only [find?, List.idxOf?_toArray, Option.map_eq_some_iff] at h
  obtain ⟨i, hi, rfl⟩ := h
  obtain ⟨hlt, heq, -⟩ := List.idxOf?_eq_some_iff.1 hi
  simp [text?, hlt, heq]

/-- A text is found under the number that it was given. -/
theorem text?_intern (t : NameTable) (text : String) :
    (t.intern text).2.text? (t.intern text).1 = some text := by
  unfold intern
  split
  · next name h => exact find?_eq_some h
  · simp [text?, size]

theorem grows_intern (t : NameTable) (text : String) :
    Grows t.texts (t.intern text).2.texts := by
  unfold intern
  split
  · exact Grows.refl _
  · exact Grows.push _ _

end NameTable

/-! ## Codes -/

namespace Code

/-- The code `d` holds what the code `c` holds, under the same numbers, and perhaps
more. -/
structure Extends (c d : Code) : Prop where
  exprs : Grows c.arena.exprs d.arena.exprs
  exprLists : Grows c.arena.exprLists d.arena.exprLists
  stmts : Grows c.arena.stmts d.arena.stmts
  stmtLists : Grows c.arena.stmtLists d.arena.stmtLists
  params : Grows c.arena.params d.arena.params
  names : Grows c.names.texts d.names.texts

namespace Extends

variable {c d e : Code}

theorem refl (c : Code) : c.Extends c :=
  ⟨.refl _, .refl _, .refl _, .refl _, .refl _, .refl _⟩

theorem trans (h₁ : c.Extends d) (h₂ : d.Extends e) : c.Extends e where
  exprs := h₁.exprs.trans h₂.exprs
  exprLists := h₁.exprLists.trans h₂.exprLists
  stmts := h₁.stmts.trans h₂.stmts
  stmtLists := h₁.stmtLists.trans h₂.stmtLists
  params := h₁.params.trans h₂.params
  names := h₁.names.trans h₂.names

theorem text?_eq (h : c.Extends d) {name : NameId} {text : String}
    (hn : c.names.text? name = some text) : d.names.text? name = some text :=
  h.names.getElem?_eq hn

end Extends

/-- An expression keeps its tree when the code grows, and also when the bound on the
depth does. -/
theorem exprTree?_mono {c d : Code} (h : c.Extends d) :
    ∀ {m n : Nat} {id : ExprId} {t : Expr Origin}, m ≤ n →
      c.exprTree? m id = some t → d.exprTree? n id = some t := by
  intro m
  induction m with
  | zero => intro n id t _ ht; exact absurd ht (by simp [exprTree?])
  | succ m ih =>
    intro n id t hmn ht
    obtain ⟨n, rfl⟩ : ∃ k, n = k + 1 := ⟨n - 1, by omega⟩
    have ih' : ∀ id t, c.exprTree? m id = some t → d.exprTree? n id = some t :=
      fun _ _ => ih (by omega)
    simp only [exprTree?, Option.bind_eq_bind, Option.bind_eq_some_iff] at ht ⊢
    obtain ⟨node, hnode, ht⟩ := ht
    refine ⟨node, h.exprs.getElem?_eq hnode, ?_⟩
    split at ht <;> simp only [Option.bind_eq_some_iff, Option.pure_def] at ht ⊢
    · exact ht
    · obtain ⟨text, htext, ht⟩ := ht
      exact ⟨text, h.text?_eq htext, ht⟩
    · exact ht
    · obtain ⟨operand, ho, ht⟩ := ht
      exact ⟨operand, ih' _ _ ho, ht⟩
    · obtain ⟨left, hl, right, hr, ht⟩ := ht
      exact ⟨left, ih' _ _ hl, right, ih' _ _ hr, ht⟩
    · obtain ⟨left, hl, right, hr, ht⟩ := ht
      exact ⟨left, ih' _ _ hl, right, ih' _ _ hr, ht⟩
    · obtain ⟨inner, hi, ht⟩ := ht
      exact ⟨inner, ih' _ _ hi, ht⟩
    · obtain ⟨name, hn, ht⟩ := ht
      exact ⟨name, h.text?_eq hn, ht⟩
    · obtain ⟨name, hn, value, hv, ht⟩ := ht
      exact ⟨name, h.text?_eq hn, value, ih' _ _ hv, ht⟩
    · obtain ⟨callee, hc, ids, hids, args, hargs, ht⟩ := ht
      exact ⟨callee, ih' _ _ hc, ids, h.exprLists.of?_eq hids, args, mapM_mono ih' hargs, ht⟩

theorem exprOf?_mono {c d : Code} (h : c.Extends d) {id : ExprId} {t : Expr Origin}
    (ht : c.exprOf? id = some t) : d.exprOf? id = some t :=
  exprTree?_mono h h.exprs.size_le ht

theorem exprOfOption?_mono {c d : Code} (h : c.Extends d) {id : Option ExprId}
    {t : Option (Expr Origin)} (ht : c.exprOfOption? id = some t) :
    d.exprOfOption? id = some t := by
  cases id with
  | none => exact ht
  | some id =>
    obtain ⟨e, he, rfl⟩ := Option.map_eq_some_iff.1 ht
    exact Option.map_eq_some_iff.2 ⟨e, exprOf?_mono h he, rfl⟩

/-- A statement keeps its tree when the code grows, and also when the bound on the
depth does. -/
theorem stmtTree?_mono {c d : Code} (h : c.Extends d) :
    ∀ {m n : Nat} {id : StmtId} {t : Stmt Origin}, m ≤ n →
      c.stmtTree? m id = some t → d.stmtTree? n id = some t := by
  intro m
  induction m with
  | zero => intro n id t _ ht; exact absurd ht (by simp [stmtTree?])
  | succ m ih =>
    intro n id t hmn ht
    obtain ⟨n, rfl⟩ : ∃ k, n = k + 1 := ⟨n - 1, by omega⟩
    have ih' : ∀ id t, c.stmtTree? m id = some t → d.stmtTree? n id = some t :=
      fun _ _ => ih (by omega)
    simp only [stmtTree?, Option.bind_eq_bind, Option.bind_eq_some_iff] at ht ⊢
    obtain ⟨node, hnode, ht⟩ := ht
    refine ⟨node, h.stmts.getElem?_eq hnode, ?_⟩
    split at ht <;> simp only [Option.bind_eq_some_iff, Option.pure_def] at ht ⊢
    · obtain ⟨expr, he, ht⟩ := ht
      exact ⟨expr, exprOf?_mono h he, ht⟩
    · obtain ⟨name, hn, init, hi, ht⟩ := ht
      exact ⟨name, h.text?_eq hn, init, exprOfOption?_mono h hi, ht⟩
    · obtain ⟨ids, hids, body, hb, ht⟩ := ht
      exact ⟨ids, h.stmtLists.of?_eq hids, body, mapM_mono ih' hb, ht⟩
    · obtain ⟨cond, hc, thenTree, htt, ht⟩ := ht
      refine ⟨cond, exprOf?_mono h hc, thenTree, ih' _ _ htt, ?_⟩
      split at ht
      · exact ht
      · obtain ⟨other, ho, ht⟩ := Option.bind_eq_some_iff.1 ht
        exact Option.bind_eq_some_iff.2 ⟨other, ih' _ _ ho, ht⟩
    · obtain ⟨cond, hc, body, hb, ht⟩ := ht
      exact ⟨cond, exprOf?_mono h hc, body, ih' _ _ hb, ht⟩
    · obtain ⟨name, hn, ids, hids, params, hp, sids, hsids, body, hb, ht⟩ := ht
      exact ⟨name, h.text?_eq hn, ids, h.params.of?_eq hids, params,
        mapM_mono (fun _ _ => h.text?_eq) hp, sids, h.stmtLists.of?_eq hsids, body,
        mapM_mono ih' hb, ht⟩
    · obtain ⟨value, hv, ht⟩ := ht
      exact ⟨value, exprOfOption?_mono h hv, ht⟩

end Code

end Scriptorium
