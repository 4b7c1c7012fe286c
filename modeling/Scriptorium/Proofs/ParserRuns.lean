import Scriptorium.Proofs.StoredTrees
import Scriptorium.Syntax.Parser

/-!
# Successful runs of parsers

`Runs p s a s'` says that the parser `p`, started in the state `s`, succeeds with `a`
in the state `s'`.  A run of a composed parser is taken apart by `runs_bind`, and one
of a basic parser by the lemma about it.

`Moves s ws s'` is what every parser does to the state: it takes the words `ws` from
the front and lets the code grow.  A state is `Ready` when its words are closed and no
more than the bound that the parsers use.
-/

namespace Scriptorium

/-- The parser succeeds. -/
def Runs {α : Type} (p : Parser α) (s : ParseState) (a : α) (s' : ParseState) : Prop :=
  p s = .ok a s'

section Runs

variable {α β : Type} {s s' : ParseState}

@[simp] theorem runs_pure {a b : α} : Runs (pure a) s b s' ↔ b = a ∧ s' = s := by
  simp [Runs, pure, EStateM.pure, eq_comm]

@[simp] theorem runs_bind {p : Parser α} {f : α → Parser β} {b : β} :
    Runs (p >>= f) s b s' ↔ ∃ a t, Runs p s a t ∧ Runs (f a) t b s' := by
  simp only [Runs, bind, EStateM.bind]
  cases p s with
  | ok a t => simp
  | error e t => simp

@[simp] theorem runs_map {p : Parser α} {f : α → β} {b : β} :
    Runs (f <$> p) s b s' ↔ ∃ a, Runs p s a s' ∧ b = f a := by
  simp only [Runs, Functor.map, EStateM.map]
  cases p s with
  | ok a t => simp [and_comm, eq_comm]
  | error e t => simp

@[simp] theorem runs_ite {c : Prop} [Decidable c] {p q : Parser α} {a : α} :
    Runs (if c then p else q) s a s' ↔ if c then Runs p s a s' else Runs q s a s' := by
  split <;> rfl

theorem runs_get {t : ParseState} : Runs (get : Parser ParseState) s t s' ↔ t = s ∧ s' = s := by
  show EStateM.Result.ok s s = EStateM.Result.ok t s' ↔ _
  rw [EStateM.Result.ok.injEq, eq_comm, eq_comm (a := s)]

theorem runs_modifyGet {f : ParseState → α × ParseState} {a : α} :
    Runs (modifyGet f : Parser α) s a s' ↔ a = (f s).1 ∧ s' = (f s).2 := by
  show EStateM.Result.ok (f s).1 (f s).2 = EStateM.Result.ok a s' ↔ _
  rw [EStateM.Result.ok.injEq, eq_comm, eq_comm (a := (f s).2)]

theorem not_runs_throw {e : ParseError} {a : α} : ¬ Runs (throw e : Parser α) s a s' := by
  show ¬ EStateM.Result.error e s = EStateM.Result.ok a s'
  exact nofun

namespace Parser

@[simp] theorem runs_current {t : Token} : Runs current s t s' ↔ t = s.current ∧ s' = s := by
  simp [current, runs_get, and_comm]

@[simp] theorem runs_size {n : Nat} : Runs size s n s' ↔ n = s.size ∧ s' = s := by
  simp [size, runs_get, and_comm]

@[simp] theorem runs_advance {t : Token} :
    Runs advance s t s' ↔ t = s.current ∧ s' = s.advance := by
  simp [advance, runs_modifyGet]

@[simp] theorem runs_skipNewlines {u : Unit} : Runs skipNewlines s u s' ↔ s' = s.skipNewlines := by
  simp [skipNewlines, modify, runs_modifyGet]

@[simp] theorem runs_check {text : String} {b : Bool} :
    Runs (check text) s b s' ↔ b = s.current.is text ∧ s' = s := by
  simp only [check, runs_bind, runs_current, runs_pure]
  constructor
  · rintro ⟨_, _, ⟨rfl, rfl⟩, rfl, rfl⟩
    exact ⟨rfl, rfl⟩
  · rintro ⟨rfl, rfl⟩
    exact ⟨_, _, ⟨rfl, rfl⟩, rfl, rfl⟩

@[simp] theorem runs_fail {fault : ParseFault} {t : Token} {a : α} :
    ¬ Runs (fail fault t) s a s' :=
  not_runs_throw

@[simp] theorem runs_expect {text : String} {t : Token} :
    Runs (expect text) s t s' ↔ s.current.is text = true ∧ t = s.current ∧ s' = s.advance := by
  simp only [expect, runs_bind, runs_current]
  constructor
  · rintro ⟨_, _, ⟨rfl, rfl⟩, h⟩
    split at h
    · next hc => exact ⟨hc, runs_advance.1 h⟩
    · exact absurd h runs_fail
  · rintro ⟨hc, h⟩
    exact ⟨_, _, ⟨rfl, rfl⟩, by rw [if_pos hc]; exact runs_advance.2 h⟩

@[simp] theorem runs_expectedExpression {a : α} : ¬ Runs expectedExpression s a s' := by
  simp [expectedExpression, runs_bind, runs_fail]

theorem runs_spanFrom {first span : Span} :
    Runs (spanFrom first) s span s' ↔ span = first.merge s.previous ∧ s' = s := by
  simp [spanFrom, runs_get, and_comm]

theorem runs_intern {text : String} {name : NameId} :
    Runs (intern text) s name s' ↔
      name = (s.names.intern text).1 ∧ s' = { s with names := (s.names.intern text).2 } := by
  simp [intern, runs_modifyGet]

theorem runs_addExpr {kind : ExprKind} {span : Span} {x : StoredExpr} :
    Runs (addExpr kind span) s x s' ↔
      x = ⟨⟨s.arena.exprs.size⟩, ⟨kind, span⟩⟩ ∧
        s' = { s with arena := (s.arena.addExpr ⟨kind, span⟩).2 } := by
  simp [addExpr, Arena.addExpr, runs_modifyGet]

theorem runs_addStmt {kind : StmtKind} {span : Span} {id : StmtId} :
    Runs (addStmt kind span) s id s' ↔
      id = ⟨s.arena.stmts.size⟩ ∧
        s' = { s with arena := (s.arena.addStmt ⟨kind, span⟩).2 } := by
  simp [addStmt, Arena.addStmt, runs_modifyGet]

theorem runs_addStmtFrom {kind : StmtKind} {first : Span} {id : StmtId} :
    Runs (addStmtFrom kind first) s id s' ↔
      Runs (addStmt kind (first.merge s.previous)) s id s' := by
  simp [addStmtFrom, runs_bind, runs_spanFrom]

theorem runs_addExprs {ids : List ExprId} {slice : Slice ExprId} :
    Runs (addExprs ids) s slice s' ↔
      slice = (s.arena.addExprs ids).1 ∧ s' = { s with arena := (s.arena.addExprs ids).2 } := by
  simp [addExprs, runs_modifyGet]

theorem runs_addStmts {ids : List StmtId} {slice : Slice StmtId} :
    Runs (addStmts ids) s slice s' ↔
      slice = (s.arena.addStmts ids).1 ∧ s' = { s with arena := (s.arena.addStmts ids).2 } := by
  simp [addStmts, runs_modifyGet]

theorem runs_addParams {names : List NameId} {slice : Slice NameId} :
    Runs (addParams names) s slice s' ↔
      slice = (s.arena.addParams names).1 ∧
        s' = { s with arena := (s.arena.addParams names).2 } := by
  simp [addParams, runs_modifyGet]

end Parser

end Runs

/-! ## What a state holds -/

namespace ParseState

/-- The words that are left. -/
def words (s : ParseState) : List Word := s.current.word :: s.rest.map Token.word

/-- The code read so far. -/
def code (s : ParseState) : Code := ⟨s.arena, s.names⟩

/-- The state is one that parsers meet: its words are closed, and there are no more of
them than the bound on repetition and nesting. -/
structure Ready (s : ParseState) : Prop where
  closed : Closed s.words
  bounded : s.words.length ≤ s.size

theorem Ready.pos {s : ParseState} (h : s.Ready) : 0 < s.words.length :=
  List.length_pos_iff.2 h.closed.ne_nil

/-- The end of the text is the last word. -/
theorem Ready.words_of_isEnd {s : ParseState} (h : s.Ready) (hend : s.current.isEnd = true) :
    s.words = [s.current.word] := by
  rcases s with ⟨current, rest, previous, size, arena, names⟩
  cases rest with
  | nil => rfl
  | cons t rest =>
    have : current.word.isEnd = false := h.closed.1
    rw [Token.isEnd_word, hend] at this
    exact absurd this (by simp)

theorem words_advance {s : ParseState} (h : Closed s.words) (hc : s.current.isEnd = false) :
    s.words = s.current.word :: s.advance.words := by
  rcases s with ⟨current, rest, previous, size, arena, names⟩
  cases rest with
  | nil =>
    have : current.word.isEnd = true := h
    rw [Token.isEnd_word, hc] at this
    exact absurd this (by simp)
  | cons t rest => rfl

theorem dropNewlines_word (current : Token) (previous : Span) (rest : List Token)
    (h : Closed (current.word :: rest.map Token.word)) :
    let r := dropNewlines current previous rest
    r.1.word :: r.2.2.map Token.word = skipBlank (current.word :: rest.map Token.word) := by
  induction rest generalizing current previous with
  | nil =>
    have hend : current.word.isNewline = false := by
      by_contra hn
      have := Word.isEnd_of_isNewline (Bool.not_eq_false _ ▸ hn)
      rw [show current.word.isEnd = true from h] at this
      exact absurd this (by simp)
    exact (skipBlank_cons hend).symm
  | cons t rest ih =>
    unfold dropNewlines
    by_cases hn : current.isNewline = true
    · rw [if_pos hn]
      have hw : current.word.isNewline = true := by rw [Token.isNewline_word, hn]
      have hc := (closed_cons (Word.isEnd_of_isNewline hw)).1 h
      rw [List.map_cons] at hc ⊢
      simp only [ih t current.span hc]
      have hblank : Blank [current.word] := by simpa using hw
      exact (skipBlank_append hblank).symm
    · rw [if_neg hn]
      exact (skipBlank_cons (by simpa using hn)).symm

theorem words_skipNewlines {s : ParseState} (h : Closed s.words) :
    s.skipNewlines.words = skipBlank s.words :=
  dropNewlines_word s.current s.previous s.rest h

end ParseState

/-! ## Moves -/

/-- The state `t` is a ready one that comes after the state `s`. -/
structure Later (s t : ParseState) : Prop where
  ready : t.Ready
  size : t.size = s.size
  code : s.code.Extends t.code
  shorter : t.words.length ≤ s.words.length

/-- The words `ws` are taken from the front, and the code grows. -/
structure Moves (s : ParseState) (ws : List Word) (t : ParseState) : Prop extends Later s t where
  words : s.words = ws ++ t.words

variable {s t u : ParseState} {ws vs : List Word}

theorem Later.refl (h : s.Ready) : Later s s := ⟨h, rfl, .refl _, le_rfl⟩

theorem Later.trans (h₁ : Later s t) (h₂ : Later t u) : Later s u :=
  ⟨h₂.ready, h₂.size.trans h₁.size, h₁.code.trans h₂.code, h₂.shorter.trans h₁.shorter⟩

/-- Storing something takes no words. -/
theorem Later.ofStore {arena : Arena} {names : NameTable} (hs : s.Ready)
    (h : s.code.Extends ⟨arena, names⟩) : Later s { s with arena, names } :=
  ⟨⟨hs.closed, hs.bounded⟩, rfl, h, le_rfl⟩

namespace Moves

theorem refl (h : s.Ready) : Moves s [] s := ⟨.refl h, rfl⟩

theorem trans (h₁ : Moves s ws t) (h₂ : Moves t vs u) : Moves s (ws ++ vs) u :=
  ⟨h₁.toLater.trans h₂.toLater, by rw [h₁.words, h₂.words, List.append_assoc]⟩

theorem length (h : Moves s ws t) : s.words.length = ws.length + t.words.length := by
  rw [h.words, List.length_append]

/-- Where no words are taken, the next one stays. -/
theorem word (h : Moves s [] t) : t.current.word = s.current.word :=
  (List.cons.inj h.words).1.symm

/-- The words that a move leaves, when those that it takes are known. -/
theorem words_eq (h : Moves s ws t) {rest : List Word} (hs : s.words = ws ++ rest) :
    t.words = rest :=
  List.append_cancel_left (h.words.symm.trans hs)

end Moves

/-! ## What the basic parsers do -/

namespace ParseState

theorem size_advance (s : ParseState) : s.advance.size = s.size := by
  unfold advance
  split <;> rfl

theorem code_advance (s : ParseState) : s.advance.code = s.code := by
  unfold advance code
  split <;> rfl

theorem moves_advance (hs : s.Ready) (h : s.current.isEnd = false) :
    Moves s [s.current.word] s.advance := by
  have hw := words_advance hs.closed h
  refine ⟨⟨⟨?_, ?_⟩, s.size_advance, ?_, by simp [hw]⟩, hw⟩
  · have hc := hs.closed
    rwa [hw, closed_cons (by simpa using h)] at hc
  · have hb := hs.bounded
    rw [hw, List.length_cons] at hb
    rw [size_advance]
    omega
  · rw [code_advance]
    exact .refl _

/-- A word that is known can be taken. -/
theorem moves_word (hs : s.Ready) {w : Word} (h : s.current.word = w) (hw : w.isEnd = false) :
    Moves s [w] s.advance := by
  subst h
  exact moves_advance hs (by simpa using hw)

/-- A word that is asked for and there can be taken. -/
theorem moves_of_is (hs : s.Ready) {text : String} (h : s.current.is text = true) :
    s.current.word.is text = true ∧ Moves s [s.current.word] s.advance := by
  rw [← Token.is_word] at h
  have hend := (Word.solid_of_is h).2
  rw [Token.isEnd_word] at hend
  exact ⟨h, moves_advance hs hend⟩

theorem moves_skipNewlines (hs : s.Ready) :
    ∃ nls, Blank nls ∧ Moves s nls s.skipNewlines := by
  have hw := words_skipNewlines hs.closed
  obtain ⟨nls, hnls, heq⟩ := exists_blank_append_skipBlank s.words
  have hle : s.skipNewlines.words.length ≤ s.words.length := by
    rw [hw]
    exact List.length_dropWhile_le ..
  refine ⟨nls, hnls, ⟨⟨?_, hle.trans hs.bounded⟩, rfl, .refl _, hle⟩, by rw [hw]; exact heq⟩
  rw [hw]
  exact hs.closed.skip

end ParseState

theorem faces_words (hs : s.Ready) {text : String} :
    Faces text s.words ↔ s.skipNewlines.current.is text = true := by
  have hw := ParseState.words_skipNewlines hs.closed
  constructor
  · rintro ⟨w, rest, hskip, hword⟩
    rw [← hw] at hskip
    cases hskip
    simpa using hword
  · intro h
    exact ⟨_, _, by rw [← hw]; rfl, by simpa using h⟩

theorem stops_skipNewlines {s : ParseState} (hs : s.Ready) {level : Nat} :
    Stops level s.words ↔
      ∀ op, s.skipNewlines.current.word.connective? = some op → op.level < level := by
  have hw := ParseState.words_skipNewlines hs.closed
  constructor
  · intro h op hop
    exact h _ _ op (by rw [← hw]; rfl) hop
  · intro h w rest op hskip hop
    rw [← hw] at hskip
    cases hskip
    exact h op hop

/-- An expression is stored under its number and has the given tree. -/
structure Code.Holds (c : Code) (x : StoredExpr) (e : Expr Unit) : Prop where
  node : c.arena.expr? x.id = some x.node
  tree : c.HasExpr x.id e

theorem Code.Holds.mono {c d : Code} (h : c.Extends d) {x : StoredExpr} {e : Expr Unit}
    (hx : c.Holds x e) : d.Holds x e :=
  ⟨h.exprs.getElem?_eq hx.node, hx.tree.mono h⟩

/-- An expression that is a variable has the node of one. -/
theorem Code.Holds.kind_eq_reference {c : Code} {x : StoredExpr} {name : String}
    (h : c.Holds x (.reference name ())) :
    ∃ id, x.node.kind = .reference id ∧ c.names.text? id = some name := by
  obtain ⟨t, ht, herase⟩ := h.tree
  rcases x with ⟨id, kind, span⟩
  have hnode := h.node
  cases kind <;> simp only [exprTree?, hnode, Option.bind_eq_bind, Option.bind_some,
    Option.bind_eq_some_iff, Option.pure_def, Option.some.injEq] at ht
  case reference id =>
    obtain ⟨text, htext, rfl⟩ := ht
    cases herase
    exact ⟨id, rfl, htext⟩
  case literal value =>
    cases value <;> simp only [Option.bind_eq_some_iff, Option.some.injEq] at ht
    case str => obtain ⟨_, _, rfl⟩ := ht; cases herase
    all_goals subst ht; cases herase
  case unary | group => obtain ⟨_, _, rfl⟩ := ht; cases herase
  case binary | logical | assign => obtain ⟨_, _, _, _, rfl⟩ := ht; cases herase
  case call => obtain ⟨_, _, _, _, _, _, rfl⟩ := ht; cases herase

namespace Runs

open Scriptorium.Parser

theorem intern {text : String} {name : NameId} (h : Runs (intern text) s name t)
    (hs : s.Ready) : Moves s [] t ∧ t.code.names.text? name = some text := by
  obtain ⟨rfl, rfl⟩ := runs_intern.1 h
  refine ⟨⟨Later.ofStore hs ?_, rfl⟩, NameTable.text?_intern _ _⟩
  exact ⟨.refl _, .refl _, .refl _, .refl _, .refl _, NameTable.grows_intern _ _⟩

theorem addExpr {kind : ExprKind} {span : Span} {x : StoredExpr} {e : Expr Unit}
    (h : Runs (addExpr kind span) s x t) (hs : s.Ready) (he : s.code.BuildsExpr kind e) :
    Moves s [] t ∧ t.code.Holds x e ∧ x.node.kind = kind := by
  obtain ⟨rfl, rfl⟩ := runs_addExpr.1 h
  have hext : s.code.Extends ⟨(s.arena.addExpr ⟨kind, span⟩).2, s.names⟩ :=
    ⟨.push _ _, .refl _, .refl _, .refl _, .refl _, .refl _⟩
  have hnode : (s.arena.addExpr ⟨kind, span⟩).2.expr? ⟨s.arena.exprs.size⟩
      = some ⟨kind, span⟩ := by simp [Arena.addExpr, Arena.expr?]
  exact ⟨⟨Later.ofStore hs hext, rfl⟩, ⟨hnode, he _ hext _ _ hnode⟩, rfl⟩

theorem addStmt {kind : StmtKind} {span : Span} {id : StmtId} {b : Stmt Unit}
    (h : Runs (addStmt kind span) s id t) (hs : s.Ready) (hb : s.code.BuildsStmt kind b) :
    Moves s [] t ∧ t.code.HasStmt id b := by
  obtain ⟨rfl, rfl⟩ := runs_addStmt.1 h
  have hext : s.code.Extends ⟨(s.arena.addStmt ⟨kind, span⟩).2, s.names⟩ :=
    ⟨.refl _, .refl _, .push _ _, .refl _, .refl _, .refl _⟩
  have hnode : (s.arena.addStmt ⟨kind, span⟩).2.stmt? ⟨s.arena.stmts.size⟩
      = some ⟨kind, span⟩ := by simp [Arena.addStmt, Arena.stmt?]
  exact ⟨⟨Later.ofStore hs hext, rfl⟩, hb _ hext _ _ hnode⟩

theorem addExprs {ids : List ExprId} {slice : Slice ExprId} (h : Runs (addExprs ids) s slice t)
    (hs : s.Ready) : Moves s [] t ∧ t.code.arena.exprsIn? slice = some ids := by
  obtain ⟨rfl, rfl⟩ := runs_addExprs.1 h
  have hext : s.code.Extends ⟨(s.arena.addExprs ids).2, s.names⟩ :=
    ⟨.refl _, .appendList _ _, .refl _, .refl _, .refl _, .refl _⟩
  exact ⟨⟨Later.ofStore hs hext, rfl⟩, Slice.of?_appendList _ _⟩

theorem addStmts {ids : List StmtId} {slice : Slice StmtId} (h : Runs (addStmts ids) s slice t)
    (hs : s.Ready) : Moves s [] t ∧ t.code.arena.stmtsIn? slice = some ids := by
  obtain ⟨rfl, rfl⟩ := runs_addStmts.1 h
  have hext : s.code.Extends ⟨(s.arena.addStmts ids).2, s.names⟩ :=
    ⟨.refl _, .refl _, .refl _, .appendList _ _, .refl _, .refl _⟩
  exact ⟨⟨Later.ofStore hs hext, rfl⟩, Slice.of?_appendList _ _⟩

theorem addParams {names : List NameId} {slice : Slice NameId}
    (h : Runs (addParams names) s slice t) (hs : s.Ready) :
    Moves s [] t ∧ t.code.arena.paramsIn? slice = some names := by
  obtain ⟨rfl, rfl⟩ := runs_addParams.1 h
  have hext : s.code.Extends ⟨(s.arena.addParams names).2, s.names⟩ :=
    ⟨.refl _, .refl _, .refl _, .refl _, .appendList _ _, .refl _⟩
  exact ⟨⟨Later.ofStore hs hext, rfl⟩, Slice.of?_appendList _ _⟩

end Runs

end Scriptorium
