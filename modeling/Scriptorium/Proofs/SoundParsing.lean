import Scriptorium.Proofs.ParserGrowth
import Scriptorium.Proofs.SoundCode
import Scriptorium.Proofs.TokenOrder

/-!
# Parsing makes sound codes

Tokens are taken in the order in which they stand in the text, so what a parser reads
stands between what was read before it and what is read after it.  That is why a node that
goes from its first token to the last one taken has its children inside.

* `ParseState.Fit`, `ParseState.Before` — the states of a parser, and their order;
* `ParseState.Took` — a stretch of text was read between two states;
* `Keeps` — a parser keeps the code sound, also when it fails, and what it answers has a
  property;
* `Keeps.statementAt` — the parser of statements does;
* `sound_parseWith` — the code of a text is sound, errors or not, and holds the statements
  of the top level.
-/

namespace Scriptorium

/-! ## States and their order -/

namespace ParseState

/-- The tokens that are left are in order after the last one taken, and the code is
sound. -/
structure Fit (s : ParseState) : Prop where
  previous : s.previous.start ≤ s.previous.stop
  tokens : InOrder s.previous.stop (s.current :: s.rest)
  sound : s.code.Sound

/-- The state `t` is fit and may come after `s`. -/
structure Before (s t : ParseState) : Prop where
  fit : t.Fit
  start : s.previous.start ≤ t.previous.start
  stop : s.previous.stop ≤ t.previous.stop
  code : s.code.Extends t.code

/-- The span was read between the two states. -/
structure Took (s t : ParseState) (span : Span) : Prop where
  after : s.previous.stop ≤ span.start
  forward : span.start ≤ span.stop
  opened : span.start ≤ t.previous.start
  closed : span.stop ≤ t.previous.stop

/-- The expression was read between the two states and is stored. -/
structure GotExpr (s t : ParseState) (x : StoredExpr) : Prop where
  held : t.code.arena.expr? x.id = some x.node
  took : s.Took t x.span

/-- The statement was read between the two states and is stored. -/
def GotStmt (s t : ParseState) (id : StmtId) : Prop :=
  ∃ node, t.code.arena.stmt? id = some node ∧ s.Took t node.span

/-- The list of statements was read between the two states and is stored. -/
def GotStmts (s t : ParseState) (body : Slice StmtId) : Prop :=
  ∃ ids, t.code.arena.stmtsIn? body = some ids ∧ ∀ id ∈ ids, s.GotStmt t id

/-- The stretch of text from the start of `first` to the end of the last token taken. -/
def stretch (s : ParseState) (first : Span) : Span := ⟨first.start, s.previous.stop⟩

variable {q r s t u : ParseState} {first span : Span}

theorem Before.refl (hs : s.Fit) : s.Before s := ⟨hs, le_rfl, le_rfl, .refl _⟩

theorem Before.trans (h : s.Before t) (h' : t.Before u) : s.Before u :=
  ⟨h'.fit, h.start.trans h'.start, h.stop.trans h'.stop, h.code.trans h'.code⟩

/-! ### What was read between two states -/

theorem Took.earlier (hspan : s.Took t span) (h : r.Before s) : r.Took t span :=
  ⟨h.stop.trans hspan.after, hspan.forward, hspan.opened, hspan.closed⟩

theorem Took.later (hspan : s.Took t span) (h : t.Before u) : s.Took u span :=
  ⟨hspan.after, hspan.forward, hspan.opened.trans h.start, hspan.closed.trans h.stop⟩

theorem GotExpr.earlier {x : StoredExpr} (hx : s.GotExpr t x) (h : r.Before s) : r.GotExpr t x :=
  ⟨hx.held, hx.took.earlier h⟩

theorem GotExpr.later {x : StoredExpr} (hx : s.GotExpr t x) (h : t.Before u) : s.GotExpr u x :=
  ⟨h.code.expr?_eq hx.held, hx.took.later h⟩

theorem GotStmt.earlier {id : StmtId} (hid : s.GotStmt t id) (h : r.Before s) : r.GotStmt t id := by
  obtain ⟨node, hnode, htook⟩ := hid
  exact ⟨node, hnode, htook.earlier h⟩

theorem GotStmt.later {id : StmtId} (hid : s.GotStmt t id) (h : t.Before u) : s.GotStmt u id := by
  obtain ⟨node, hnode, htook⟩ := hid
  exact ⟨node, h.code.stmt?_eq hnode, htook.later h⟩

/-- What was read between the two states spans what was read between them. -/
theorem Took.merge {a b : Span} (ha : s.Took t a) (hb : s.Took t b) : s.Took t (a.merge b) :=
  ⟨le_min ha.after hb.after, (min_le_left _ _).trans (ha.forward.trans (le_max_left _ _)),
    (min_le_left _ _).trans ha.opened, max_le ha.closed hb.closed⟩

/-- What goes from a token that was taken to the last one taken. -/
theorem Took.merge_previous (hfirst : s.Took t first) :
    first.merge t.previous = t.stretch first := by
  rw [Span.merge, stretch, min_eq_left hfirst.opened, max_eq_right hfirst.closed]

theorem Took.stretch (hfirst : s.Took t first) : s.Took t (t.stretch first) :=
  ⟨hfirst.after, hfirst.forward.trans hfirst.closed, hfirst.opened, le_rfl⟩

theorem stretch_inside (h : t.Before u) (first : Span) :
    (t.stretch first).Inside (u.stretch first) :=
  ⟨le_rfl, h.stop⟩

/-- What is read after `first` lies inside the stretch from `first` on. -/
theorem Took.inside (hfirst : s.Took t first) (hspan : t.Took u span) :
    span.Inside (u.stretch first) :=
  ⟨hfirst.forward.trans (hfirst.closed.trans hspan.after), hspan.closed⟩

theorem GotExpr.inside {x : StoredExpr} (hx : t.GotExpr u x) (hfirst : s.Took t first) :
    u.code.ExprInside (u.stretch first) x.id :=
  ⟨x.node, hx.held, hfirst.inside hx.took⟩

theorem GotStmt.inside {id : StmtId} (hid : t.GotStmt u id) (hfirst : s.Took t first) :
    u.code.StmtInside (u.stretch first) id := by
  obtain ⟨node, hnode, htook⟩ := hid
  exact ⟨node, hnode, hfirst.inside htook⟩

theorem GotStmts.inside {body : Slice StmtId} (hbody : t.GotStmts u body)
    (hfirst : s.Took t first) : u.code.StmtsInside (u.stretch first) body := by
  obtain ⟨ids, hids, hgot⟩ := hbody
  exact ⟨ids, hids, fun id hid => (hgot id hid).inside hfirst⟩

/-- What lies inside the stretch stays there when the stretch grows. -/
theorem Before.exprInside (h : t.Before u) {id : ExprId}
    (hid : t.code.ExprInside (t.stretch first) id) : u.code.ExprInside (u.stretch first) id := by
  obtain ⟨node, hnode, hinside⟩ := hid
  exact ⟨node, h.code.expr?_eq hnode, hinside.trans (stretch_inside h first)⟩

theorem Before.stmtInside (h : t.Before u) {id : StmtId}
    (hid : t.code.StmtInside (t.stretch first) id) : u.code.StmtInside (u.stretch first) id := by
  obtain ⟨node, hnode, hinside⟩ := hid
  exact ⟨node, h.code.stmt?_eq hnode, hinside.trans (stretch_inside h first)⟩

/-! ### Steps from one state to the next -/

/-- The next token is read when it is taken. -/
theorem before_advance (hs : s.Fit) : s.Before s.advance ∧ s.Took s.advance s.current.span := by
  obtain ⟨hafter, hforward, hlast, hrest⟩ := hs.tokens
  have hprevious : s.advance.previous = s.current.span := by
    unfold advance
    split <;> rfl
  have hstart : s.previous.start ≤ s.current.span.start := hs.previous.trans hafter
  have htokens : InOrder s.current.span.stop (s.advance.current :: s.advance.rest) := by
    unfold advance
    split
    · next hnil =>
      -- at the end of the text the last token is taken again; it is empty
      have hempty := hlast hnil
      exact ⟨hempty.le, hforward, fun _ => hempty, by simp [hnil, InOrder]⟩
    · next t rest hcons =>
      rw [hcons] at hrest
      exact hrest
  refine ⟨⟨⟨?_, ?_, ?_⟩, ?_, ?_, ?_⟩, ⟨hafter, hforward, ?_, ?_⟩⟩
  · rwa [hprevious]
  · rwa [hprevious]
  · rw [code_advance]
    exact hs.sound
  · rwa [hprevious]
  · rw [hprevious]
    exact hafter.trans hforward
  · rw [code_advance]
    exact .refl _
  · rw [hprevious]
  · rw [hprevious]

theorem inOrder_dropNewlines {current : Token} {previous : Span} {rest : List Token}
    (hprevious : previous.start ≤ previous.stop) (h : InOrder previous.stop (current :: rest)) :
    let r := dropNewlines current previous rest
    (previous.start ≤ r.2.1.start ∧ previous.stop ≤ r.2.1.stop) ∧
      r.2.1.start ≤ r.2.1.stop ∧ InOrder r.2.1.stop (r.1 :: r.2.2) := by
  induction rest generalizing current previous with
  | nil => exact ⟨⟨le_rfl, le_rfl⟩, hprevious, h⟩
  | cons token rest ih =>
    unfold dropNewlines
    by_cases hn : current.isNewline = true
    · rw [if_pos hn]
      obtain ⟨hafter, hforward, -, hrest⟩ := h
      obtain ⟨⟨hstart, hstop⟩, hlast⟩ := ih hforward hrest
      exact ⟨⟨(hprevious.trans hafter).trans hstart, (hafter.trans hforward).trans hstop⟩, hlast⟩
    · rw [if_neg hn]
      exact ⟨⟨le_rfl, le_rfl⟩, hprevious, h⟩

theorem before_skipNewlines (hs : s.Fit) : s.Before s.skipNewlines := by
  obtain ⟨⟨hstart, hstop⟩, hprevious, htokens⟩ := inOrder_dropNewlines hs.previous hs.tokens
  exact ⟨⟨hprevious, htokens, hs.sound⟩, hstart, hstop, .refl _⟩

/-- Storing something takes no token. -/
theorem before_store {arena : Arena} {names : NameTable} (hs : s.Fit)
    (hext : s.code.Extends ⟨arena, names⟩) (hsound : Code.Sound ⟨arena, names⟩) :
    s.Before { s with arena, names } :=
  ⟨⟨hs.previous, hs.tokens, hsound⟩, le_rfl, le_rfl, hext⟩

end ParseState

/-- An operator between operands that were read inside the span. -/
theorem Connective.sound_node {c : Code} {span : Span} (op : Connective) {l r : ExprId}
    (hl : c.ExprInside span l) (hr : c.ExprInside span r) : (op.node l r).Sound c span := by
  cases op with
  | binary op => exact ⟨hl, hr⟩
  | logical op => exact ⟨hl, hr⟩

/-! ## What parsers keep -/

/-- From the state `s` the parser comes to a state after it, and its answer has the
property there.  Where it fails, the code is still sound. -/
def Keeps {α : Type} (s : ParseState) (p : Parser α) (Q : α → ParseState → Prop) : Prop :=
  match p s with
  | .ok a t => s.Before t ∧ Q a t
  | .error _ t => t.code.Sound

/-- The parser reads an expression. -/
def KeepsExpr (p : Parser StoredExpr) : Prop :=
  ∀ s : ParseState, s.Fit → Keeps s p fun x t => s.GotExpr t x

/-- The parser reads a statement. -/
def KeepsStmt (p : Parser StmtId) : Prop :=
  ∀ s : ParseState, s.Fit → Keeps s p fun id t => s.GotStmt t id

namespace Keeps

variable {α β : Type} {q r s t : ParseState} {Q : β → ParseState → Prop}

theorem bind {p : Parser α} {f : α → Parser β} {R : α → ParseState → Prop} (hp : Keeps s p R)
    (hf : ∀ a t, s.Before t → R a t → Keeps t (f a) Q) : Keeps s (p >>= f) Q := by
  unfold Keeps at hp ⊢
  simp only [Bind.bind, EStateM.bind]
  cases hps : p s with
  | ok a t =>
    rw [hps] at hp
    have hfa := hf a t hp.1 hp.2
    unfold Keeps at hfa
    dsimp only
    cases hft : f a t with
    | ok b u =>
      rw [hft] at hfa
      exact ⟨hp.1.trans hfa.1, hfa.2⟩
    | error e u =>
      rw [hft] at hfa
      exact hfa
  | error e t =>
    rw [hps] at hp
    exact hp

theorem imp {p : Parser β} {R : β → ParseState → Prop} (hp : Keeps s p R)
    (h : ∀ b t, s.Before t → R b t → Q b t) : Keeps s p Q := by
  unfold Keeps at hp ⊢
  cases hps : p s with
  | ok b t =>
    rw [hps] at hp
    exact ⟨hp.1, h b t hp.1 hp.2⟩
  | error e t =>
    rw [hps] at hp
    exact hp

theorem pure (hs : s.Fit) {b : β} (h : Q b s) : Keeps s (Pure.pure b) Q := ⟨.refl hs, h⟩

theorem map {p : Parser α} {f : α → β} {R : α → ParseState → Prop} (hp : Keeps s p R)
    (h : ∀ a t, s.Before t → R a t → Q (f a) t) : Keeps s (f <$> p) Q := by
  rw [map_eq_pure_bind]
  exact hp.bind fun a t ht hR => pure ht.fit (h a t ht hR)

/-! ### The basic parsers -/

theorem fail (hs : s.Fit) (fault : ParseFault) (token : Token) :
    Keeps s (Parser.fail fault token) Q :=
  hs.sound

theorem expectedExpression (hs : s.Fit) : Keeps s Parser.expectedExpression Q := hs.sound

theorem current_bind {f : Token → Parser β} (h : Keeps s (f s.current) Q) :
    Keeps s (Parser.current >>= f) Q :=
  h

theorem size_bind {f : Nat → Parser β} (h : Keeps s (f s.size) Q) :
    Keeps s (Parser.size >>= f) Q :=
  h

theorem check_bind {text : String} {f : Bool → Parser β}
    (h : Keeps s (f (s.current.is text)) Q) : Keeps s (Parser.check text >>= f) Q :=
  h

theorem spanFrom_bind {first : Span} (hfirst : q.Took s first) {f : Span → Parser β}
    (h : Keeps s (f (s.stretch first)) Q) : Keeps s (Parser.spanFrom first >>= f) Q := by
  rw [← hfirst.merge_previous] at h
  exact h

theorem advance_bind (hs : s.Fit) {f : Token → Parser β}
    (h : ∀ t, s.Before t → s.Took t s.current.span → Keeps t (f s.current) Q) :
    Keeps s (Parser.advance >>= f) Q := by
  obtain ⟨hbefore, htook⟩ := s.before_advance hs
  refine bind (R := fun token t => token = s.current ∧ t = s.advance) ⟨hbefore, rfl, rfl⟩ ?_
  rintro _ _ - ⟨rfl, rfl⟩
  exact h _ hbefore htook

theorem expect_bind (hs : s.Fit) {text : String} {f : Token → Parser β}
    (h : ∀ t, s.Before t → s.Took t s.current.span → Keeps t (f s.current) Q) :
    Keeps s (Parser.expect text >>= f) Q := by
  refine bind (R := fun token t => token = s.current ∧ s.Took t s.current.span)
    (current_bind ?_) ?_
  · split
    · obtain ⟨hbefore, htook⟩ := s.before_advance hs
      exact ⟨hbefore, rfl, htook⟩
    · exact fail hs _ _
  · rintro _ t ht ⟨rfl, htook⟩
    exact h t ht htook

theorem skipNewlines_bind (hs : s.Fit) {f : Unit → Parser β}
    (h : ∀ t, s.Before t → Keeps t (f ()) Q) : Keeps s (Parser.skipNewlines >>= f) Q :=
  bind (R := fun _ t => s.Before t) ⟨s.before_skipNewlines hs, s.before_skipNewlines hs⟩
    fun _ t ht _ => h t ht

/-! ### Names and nodes -/

theorem intern (hs : s.Fit) (text : String) :
    Keeps s (Parser.intern text) fun name t => t.code.Knows name := by
  have hext : s.code.Extends ⟨s.arena, (s.names.intern text).2⟩ :=
    ⟨.refl _, .refl _, .refl _, .refl _, .refl _, NameTable.grows_intern _ _⟩
  exact ⟨ParseState.before_store hs hext (hs.sound.of_extends hext rfl rfl),
    text, NameTable.text?_intern _ _⟩

theorem addExpr (hs : s.Fit) {kind : ExprKind} {span : Span} (hkind : kind.Sound s.code span)
    (hspan : q.Took s span) : Keeps s (Parser.addExpr kind span) fun x t => q.GotExpr t x := by
  have hext : s.code.Extends ⟨(s.arena.addExpr ⟨kind, span⟩).2, s.names⟩ :=
    ⟨.push _ _, .refl _, .refl _, .refl _, .refl _, .refl _⟩
  refine ⟨ParseState.before_store hs hext (hs.sound.addExpr hkind), ?_, ?_⟩
  · simp [ParseState.code, Arena.expr?]
  · exact ⟨hspan.after, hspan.forward, hspan.opened, hspan.closed⟩

/-- An expression that was read from a token that was taken. -/
theorem addExpr_inside (hs : s.Fit) {kind : ExprKind} {first : Span} (hfirst : q.Took s first)
    (hkind : kind.Sound s.code first) :
    Keeps s (Parser.addExpr kind first) fun x t => t.code.ExprInside (t.stretch first) x.id := by
  have hext : s.code.Extends ⟨(s.arena.addExpr ⟨kind, first⟩).2, s.names⟩ :=
    ⟨.push _ _, .refl _, .refl _, .refl _, .refl _, .refl _⟩
  refine ⟨ParseState.before_store hs hext (hs.sound.addExpr hkind), ⟨kind, first⟩, ?_,
    le_rfl, hfirst.closed⟩
  simp [ParseState.code, Arena.expr?]

theorem addStmt (hs : s.Fit) {kind : StmtKind} {span : Span} (hkind : kind.Sound s.code span)
    (hspan : q.Took s span) : Keeps s (Parser.addStmt kind span) fun id t => q.GotStmt t id := by
  have hext : s.code.Extends ⟨(s.arena.addStmt ⟨kind, span⟩).2, s.names⟩ :=
    ⟨.refl _, .refl _, .push _ _, .refl _, .refl _, .refl _⟩
  refine ⟨ParseState.before_store hs hext (hs.sound.addStmt hkind), ⟨kind, span⟩, ?_, ?_⟩
  · simp [ParseState.code, Arena.stmt?]
  · exact ⟨hspan.after, hspan.forward, hspan.opened, hspan.closed⟩

/-- A statement that goes from a token that was taken to the last one taken lies inside this
stretch. -/
theorem addStmtFrom_inside (hs : s.Fit) {kind : StmtKind} {first : Span}
    (hfirst : q.Took s first) (hkind : kind.Sound s.code (s.stretch first)) :
    Keeps s (Parser.addStmtFrom kind first) fun id t =>
      q.GotStmt t id ∧ t.code.StmtInside (t.stretch first) id := by
  refine spanFrom_bind hfirst ?_
  have hext : s.code.Extends ⟨(s.arena.addStmt ⟨kind, s.stretch first⟩).2, s.names⟩ :=
    ⟨.refl _, .refl _, .push _ _, .refl _, .refl _, .refl _⟩
  refine ⟨ParseState.before_store hs hext (hs.sound.addStmt hkind),
    ⟨⟨kind, s.stretch first⟩, ?_, hfirst.after, ?_, hfirst.opened, le_rfl⟩,
    ⟨⟨kind, s.stretch first⟩, ?_, .refl _⟩⟩
  · simp [ParseState.code, Arena.stmt?]
  · exact hfirst.stretch.forward
  · simp [ParseState.code, Arena.stmt?]

theorem addStmtFrom (hs : s.Fit) {kind : StmtKind} {first : Span} (hfirst : q.Took s first)
    (hkind : kind.Sound s.code (s.stretch first)) :
    Keeps s (Parser.addStmtFrom kind first) fun id t => q.GotStmt t id :=
  (addStmtFrom_inside hs hfirst hkind).imp fun _ _ _ h => h.1

theorem addExprs (hs : s.Fit) (ids : List ExprId) :
    Keeps s (Parser.addExprs ids) fun args t => t.code.arena.exprsIn? args = some ids := by
  have hext : s.code.Extends ⟨(s.arena.addExprs ids).2, s.names⟩ :=
    ⟨.refl _, .appendList _ _, .refl _, .refl _, .refl _, .refl _⟩
  exact ⟨ParseState.before_store hs hext (hs.sound.of_extends hext rfl rfl),
    Slice.of?_appendList _ _⟩

theorem addStmts (hs : s.Fit) (ids : List StmtId) :
    Keeps s (Parser.addStmts ids) fun body t => t.code.arena.stmtsIn? body = some ids := by
  have hext : s.code.Extends ⟨(s.arena.addStmts ids).2, s.names⟩ :=
    ⟨.refl _, .refl _, .refl _, .appendList _ _, .refl _, .refl _⟩
  exact ⟨ParseState.before_store hs hext (hs.sound.of_extends hext rfl rfl),
    Slice.of?_appendList _ _⟩

theorem addParams (hs : s.Fit) {ids : List NameId} (hids : ∀ id ∈ ids, s.code.Knows id) :
    Keeps s (Parser.addParams ids) fun params t => t.code.KnowsAll params := by
  have hext : s.code.Extends ⟨(s.arena.addParams ids).2, s.names⟩ :=
    ⟨.refl _, .refl _, .refl _, .refl _, .appendList _ _, .refl _⟩
  exact ⟨ParseState.before_store hs hext (hs.sound.of_extends hext rfl rfl), ids,
    Slice.of?_appendList _ _, fun id hid => hext.knows (hids id hid)⟩

/-! ### Names and lists -/

theorem identifier (hs : s.Fit) :
    Keeps s Parser.identifier fun name t => t.code.Knows name := by
  refine skipNewlines_bind hs fun t ht => current_bind ?_
  split
  · exact advance_bind ht.fit fun u hu _ => intern hu.fit _
  · exact fail ht.fit _ _

/-- What holds of each item between the states around it holds of all of them between the
states around the list. -/
theorem itemsFrom {tooMany : ParseFault} {item : Parser α}
    {R : ParseState → ParseState → α → Prop}
    (hearlier : ∀ {r s t a}, R s t a → r.Before s → R r t a)
    (hlater : ∀ {s t u a}, R s t a → t.Before u → R s u a)
    (hitem : ∀ s : ParseState, s.Fit → Keeps s item fun a t => R s t a) (fuel : Nat)
    (hq : q.Before s) {seen : List α} (hseen : ∀ a ∈ seen, R q s a) :
    Keeps s (Parser.itemsFrom tooMany item fuel seen) fun as t => ∀ a ∈ as, R q t a := by
  induction fuel generalizing s seen with
  | zero => exact pure hq.fit fun a ha => hseen a (List.mem_reverse.1 ha)
  | succ fuel ih =>
    refine skipNewlines_bind hq.fit fun t ht => ?_
    have hnext : Keeps t (do
        let x ← item
        Parser.skipNewlines
        if ← Parser.check "," then
          let _ ← Parser.advance
          Parser.itemsFrom tooMany item fuel (x :: seen)
        else return (x :: seen).reverse) fun as u => ∀ a ∈ as, R q u a := by
      refine (hitem t ht.fit).bind fun x u hu hx => skipNewlines_bind hu.fit fun v hv => ?_
      have hsv := ht.trans (hu.trans hv)
      have hall : ∀ a ∈ x :: seen, R q v a := by
        intro a ha
        rcases List.mem_cons.1 ha with rfl | ha
        · exact hlater (hearlier hx (hq.trans ht)) hv
        · exact hlater (hseen a ha) hsv
      refine check_bind ?_
      split
      · exact advance_bind hv.fit fun w hw _ =>
          ih (hq.trans (hsv.trans hw)) fun a ha => hlater (hall a ha) hw
      · exact pure hv.fit fun a ha => hall a (List.mem_reverse.1 ha)
    split
    · exact current_bind (fail ht.fit _ _)
    · exact hnext

theorem items {tooMany : ParseFault} {item : Parser α} {R : ParseState → ParseState → α → Prop}
    (hearlier : ∀ {r s t a}, R s t a → r.Before s → R r t a)
    (hlater : ∀ {s t u a}, R s t a → t.Before u → R s u a)
    (hitem : ∀ s : ParseState, s.Fit → Keeps s item fun a t => R s t a) (hs : s.Fit) :
    Keeps s (Parser.items tooMany item) fun as t => ∀ a ∈ as, R s t a := by
  refine skipNewlines_bind hs fun t ht => check_bind ?_
  split
  · exact (pure (Q := fun as u => as = [] ∧ u = t) ht.fit ⟨rfl, rfl⟩).bind
      fun as u hu h => expect_bind hu.fit fun v hv _ => pure hv.fit (by simp [h.1])
  · refine size_bind ((itemsFrom (R := R) hearlier hlater hitem _ ht (by simp)).bind
      fun as u hu has => ?_)
    exact expect_bind hu.fit fun v hv _ => pure hv.fit fun a ha => hlater (has a ha) hv

/-! ## Expressions -/

variable {expression : Parser StoredExpr}

theorem literal (hs : s.Fit) {value : Literal NameId}
    (hvalue : ∀ text, value = .str text → s.code.Knows text) :
    Keeps s (Parser.literal value) fun x t => s.GotExpr t x := by
  refine advance_bind hs fun t ht htook => addExpr ht.fit ?_ htook
  cases value with
  | int n => trivial
  | str text => exact ht.code.knows (hvalue text rfl)
  | bool b => trivial

theorem primary (h : KeepsExpr expression) : KeepsExpr (Parser.primary expression) := by
  intro s hs
  refine skipNewlines_bind hs fun t ht => current_bind ?_
  have hliteral : ∀ {value}, (∀ text, value = .str text → t.code.Knows text) →
      Keeps t (Parser.literal value) fun x u => s.GotExpr u x := fun hvalue =>
    (literal ht.fit hvalue).imp fun x u _ hx => hx.earlier ht
  split
  · exact hliteral (by simp)
  · refine (intern ht.fit _).bind fun name u hu hname => (literal hu.fit ?_).imp ?_
    · rintro _ ⟨⟩
      exact hname
    · exact fun x v _ hx => hx.earlier (ht.trans hu)
  · refine advance_bind ht.fit fun u hu htook => (intern hu.fit _).bind fun name v hv hname => ?_
    exact addExpr hv.fit hname ((htook.earlier ht).later hv)
  · split
    · exact hliteral (by simp)
    split
    · exact hliteral (by simp)
    · exact expectedExpression ht.fit
  · split
    · refine advance_bind ht.fit fun u hu htook => (h u hu.fit).bind fun x v hv hx => ?_
      refine skipNewlines_bind hv.fit fun w hw => expect_bind hw.fit fun y hy _ => ?_
      have hfirst := (htook.earlier ht).later (hv.trans (hw.trans hy))
      refine spanFrom_bind hfirst (addExpr hy.fit ?_ hfirst.stretch)
      exact (hx.later (hw.trans hy)).inside htook
    · exact expectedExpression ht.fit
  · exact expectedExpression ht.fit

theorem callsFrom (h : KeepsExpr expression) (fuel : Nat) {callee : StoredExpr}
    (hq : q.Before s) (hcallee : q.GotExpr s callee) :
    Keeps s (Parser.callsFrom expression fuel callee) fun x t => q.GotExpr t x := by
  induction fuel generalizing s callee with
  | zero => exact pure hq.fit hcallee
  | succ fuel ih =>
    refine check_bind ?_
    split
    · refine advance_bind hq.fit fun t ht _ => ?_
      refine (items (R := fun s t x => s.GotExpr t x) .earlier .later h ht.fit).bind
        fun args u hu hargs => (addExprs hu.fit _).bind fun slice v hv hslice => ?_
      have hsv := ht.trans (hu.trans hv)
      have hfirst := hcallee.took.later hsv
      have hkind : (ExprKind.call callee.id slice).Sound v.code (v.stretch callee.span) := by
        refine ⟨⟨callee.node, (hcallee.later hsv).held, le_rfl, hfirst.closed⟩,
          _, hslice, fun id hid => ?_⟩
        obtain ⟨x, hx, rfl⟩ := List.mem_map.1 hid
        exact (((hargs x hx).earlier ht).later hv).inside hcallee.took
      exact spanFrom_bind hfirst ((addExpr hv.fit hkind hfirst.stretch).bind
        fun called w hw hcalled => ih (hq.trans (hsv.trans hw)) hcalled)
    · exact pure hq.fit hcallee

theorem calls (h : KeepsExpr expression) : KeepsExpr (Parser.calls expression) := fun s hs =>
  (primary h s hs).bind fun _ _ ht hcallee => size_bind (callsFrom h _ ht hcallee)

theorem assignment (h : KeepsExpr expression) {target : StoredExpr} (hq : q.Before s)
    (htarget : q.GotExpr s target) :
    Keeps s (Parser.assignment expression target) fun x t => q.GotExpr t x := by
  refine check_bind ?_
  split
  · refine advance_bind hq.fit fun t ht _ => (h t ht.fit).bind fun value u hu hvalue => ?_
    have hvalue' := hvalue.earlier (hq.trans ht)
    have htarget' := htarget.later (ht.trans hu)
    split
    · next name hname =>
      refine addExpr hu.fit ⟨?_, Span.inside_merge_left _ _, value.node, hvalue.held,
        Span.inside_merge_right _ _⟩ (htarget'.took.merge hvalue'.took)
      have hsound := hu.fit.sound.exprs _ _ htarget'.held
      rw [hname] at hsound
      exact hsound
    · exact fail hu.fit _ _
  · exact pure hq.fit htarget

/-- The four functions that call each other read expressions. -/
theorem expressionAt_and (depth : Nat) :
    KeepsExpr (Parser.expressionAt depth) ∧ (∀ level, KeepsExpr (Parser.operationAt depth level)) ∧
      (∀ {q s : ParseState} (level : Nat) {left : StoredExpr}, q.Before s → q.GotExpr s left →
        Keeps s (Parser.operationsAt depth level left) fun x t => q.GotExpr t x) ∧
      KeepsExpr (Parser.signedAt depth) := by
  induction depth with
  | zero =>
    exact ⟨fun s hs => expectedExpression hs, fun _ s hs => expectedExpression hs,
      fun _ _ hq hleft => pure hq.fit hleft, fun s hs => expectedExpression hs⟩
  | succ depth ih =>
    obtain ⟨hexpr, hoperation, hrest, hsigned⟩ := ih
    refine ⟨fun s hs => (hoperation 0 s hs).bind fun _ _ ht => assignment hexpr ht,
      fun level s hs => (hsigned s hs).bind fun _ _ ht => hrest level ht, ?_, ?_⟩
    · intro q s level left hq hleft
      refine skipNewlines_bind hq.fit fun t ht => current_bind ?_
      split
      · exact pure ht.fit (hleft.later ht)
      · next op _ =>
        split
        · refine advance_bind ht.fit fun u hu _ => (hoperation _ u hu.fit).bind
            fun right v hv hright => ?_
          have htv := ht.trans (hu.trans hv)
          have hleft' := hleft.later htv
          have hright' := hright.earlier (hq.trans (ht.trans hu))
          have hkind : (op.node left.id right.id).Sound v.code (left.span.merge right.span) :=
            op.sound_node ⟨_, hleft'.held, Span.inside_merge_left _ _⟩
              ⟨_, hright.held, Span.inside_merge_right _ _⟩
          exact (addExpr hv.fit hkind (hleft'.took.merge hright'.took)).bind
            fun both w hw hboth => hrest level (hq.trans (htv.trans hw)) hboth
        · exact pure ht.fit (hleft.later ht)
    · intro s hs
      refine skipNewlines_bind hs fun t ht => current_bind ?_
      split
      · exact (calls hexpr t ht.fit).imp fun x u _ hx => hx.earlier ht
      · refine advance_bind ht.fit fun u hu htook => (hsigned u hu.fit).bind
          fun operand v hv hoperand => addExpr hv.fit ?_ ?_
        · exact ⟨operand.node, hoperand.held, Span.inside_merge_right _ _⟩
        · exact ((htook.earlier ht).later hv).merge (hoperand.took.earlier (ht.trans hu))

theorem ofExpression : KeepsExpr Parser.expression := fun s hs =>
  size_bind ((expressionAt_and _).1 s hs)

theorem pure_bind {a : α} {f : α → Parser β} (h : Keeps s (f a) Q) :
    Keeps s (Pure.pure a >>= f) Q :=
  h

/-- An expression that may be left out. -/
theorem someExpression (hs : s.Fit) :
    Keeps s (some <$> Parser.expression) fun x t => ∀ y ∈ x, s.GotExpr t y := by
  refine (ofExpression s hs).map fun x t _ hx y hy => ?_
  cases hy
  exact hx

/-- Statements that may be left out. -/
theorem someStatement {statement : Parser StmtId} (h : KeepsStmt statement) (hs : s.Fit) :
    Keeps s (some <$> statement) fun x t => ∀ y ∈ x, s.GotStmt t y := by
  refine (h s hs).map fun x t _ hx y hy => ?_
  cases hy
  exact hx

/-! ## Statements -/

/-- The end of a simple statement. -/
theorem statementEnd (hs : s.Fit) {kind : StmtKind} {first : Span} (hfirst : q.Took s first)
    (hkind : ∀ {t : ParseState}, s.Before t → kind.Sound t.code (t.stretch first)) :
    Keeps s (do
      Parser.skipNewlines
      let _ ← Parser.expect ";"
      Parser.addStmtFrom kind first) fun id t => q.GotStmt t id := by
  refine skipNewlines_bind hs fun t ht => expect_bind ht.fit fun u hu _ => ?_
  have hsu := ht.trans hu
  exact addStmtFrom hu.fit (hfirst.later hsu) (hkind hsu)

theorem expressionStatement : KeepsStmt Parser.expressionStatement := by
  intro s hs
  refine (ofExpression s hs).bind fun x t ht hx => statementEnd ht.fit hx.took fun hu => ?_
  have hx' := hx.later hu
  exact ⟨x.node, hx'.held, le_rfl, hx'.took.closed⟩

theorem variableDeclaration : KeepsStmt Parser.variableDeclaration := by
  intro s hs
  refine advance_bind hs fun t ht hkeyword => (identifier ht.fit).bind fun name u hu hname => ?_
  have hrest : ∀ {init : Option StoredExpr} {v}, u.Before v → (∀ x ∈ init, t.GotExpr v x) →
      Keeps v (do
        Parser.skipNewlines
        let _ ← Parser.expect ";"
        Parser.addStmtFrom (.declare name (init.map StoredExpr.id)) s.current.span)
        fun id w => s.GotStmt w id := by
    intro init v hv hinit
    refine statementEnd hv.fit (hkeyword.later (hu.trans hv)) fun hw => ⟨?_, fun id hid => ?_⟩
    · exact (hv.trans hw).code.knows hname
    · obtain ⟨x, hx, rfl⟩ := Option.mem_map.1 hid
      exact ((hinit x hx).later hw).inside hkeyword
  refine check_bind ?_
  split
  · refine advance_bind hu.fit fun v hv _ => (someExpression hv.fit).bind fun init w hw hinit => ?_
    exact hrest (hv.trans hw) fun x hx => (hinit x hx).earlier (hu.trans hv)
  · exact pure_bind (hrest (.refl hu.fit) (by simp))

theorem returnStatement (inFunction : Bool) : KeepsStmt (Parser.returnStatement inFunction) := by
  intro s hs
  refine current_bind ?_
  have hrest : Keeps s (do
      let _ ← Parser.advance
      Parser.skipNewlines
      let value ← if ← Parser.check ";" then Pure.pure none else some <$> Parser.expression
      Parser.skipNewlines
      let _ ← Parser.expect ";"
      Parser.addStmtFrom (.ret (value.map StoredExpr.id)) s.current.span)
      fun id t => s.GotStmt t id := by
    refine advance_bind hs fun t ht hkeyword => skipNewlines_bind ht.fit fun u hu => ?_
    have hvalue : ∀ {value : Option StoredExpr} {v}, u.Before v → (∀ x ∈ value, t.GotExpr v x) →
        Keeps v (do
          Parser.skipNewlines
          let _ ← Parser.expect ";"
          Parser.addStmtFrom (.ret (value.map StoredExpr.id)) s.current.span)
          fun id w => s.GotStmt w id := by
      intro value v hv hvalue
      refine statementEnd hv.fit (hkeyword.later (hu.trans hv)) fun hw id hid => ?_
      obtain ⟨x, hx, rfl⟩ := Option.mem_map.1 hid
      exact ((hvalue x hx).later hw).inside hkeyword
    refine check_bind ?_
    split
    · exact pure_bind (hvalue (.refl hu.fit) (by simp))
    · refine (someExpression hu.fit).bind fun value v hv hgot => ?_
      exact hvalue hv fun x hx => (hgot x hx).earlier hu
  split
  · exact fail hs _ _
  · exact hrest

variable {statement : Parser StmtId}

theorem declaration (h : KeepsStmt statement) : KeepsStmt (Parser.declaration statement) := by
  intro s hs
  refine skipNewlines_bind hs fun t ht => check_bind ?_
  split
  · exact (variableDeclaration t ht.fit).imp fun _ _ _ hid => hid.earlier ht
  · exact (h t ht.fit).imp fun _ _ _ hid => hid.earlier ht

theorem declarationsFrom (h : KeepsStmt statement) (opening : Token) (fuel : Nat)
    (hq : q.Before s) {seen : List StmtId} (hseen : ∀ id ∈ seen, q.GotStmt s id) :
    Keeps s (Parser.declarationsFrom opening statement fuel seen) fun ids t =>
      ∀ id ∈ ids, q.GotStmt t id := by
  induction fuel generalizing s seen with
  | zero => exact fail hq.fit _ _
  | succ fuel ih =>
    refine skipNewlines_bind hq.fit fun t ht => current_bind ?_
    split
    · exact advance_bind ht.fit fun u hu _ => pure hu.fit fun id hid =>
        (hseen id (List.mem_reverse.1 hid)).later (ht.trans hu)
    split
    · exact fail ht.fit _ _
    · refine (declaration h t ht.fit).bind fun stmt u hu hstmt =>
        ih (hq.trans (ht.trans hu)) fun id hid => ?_
      rcases List.mem_cons.1 hid with rfl | hid
      · exact hstmt.earlier (hq.trans ht)
      · exact (hseen id hid).later (ht.trans hu)

theorem blockBody (h : KeepsStmt statement) (hs : s.Fit) (opening : Token) :
    Keeps s (Parser.blockBody opening statement) fun body t => s.GotStmts t body := by
  refine size_bind ((declarationsFrom h _ _ (.refl hs) (by simp)).bind fun ids t ht hids => ?_)
  exact (addStmts ht.fit ids).imp fun body u hu hbody =>
    ⟨ids, hbody, fun id hid => (hids id hid).later hu⟩

theorem blockStatement (h : KeepsStmt statement) : KeepsStmt (Parser.blockStatement statement) := by
  intro s hs
  refine advance_bind hs fun t ht hopening => (blockBody h ht.fit _).bind fun body u hu hbody => ?_
  exact addStmtFrom hu.fit (hopening.later hu) (hbody.inside hopening)

theorem condition : KeepsExpr Parser.condition := by
  intro s hs
  refine skipNewlines_bind hs fun t ht => expect_bind ht.fit fun u hu _ => ?_
  refine (ofExpression u hu.fit).bind fun cond v hv hcond => ?_
  refine skipNewlines_bind hv.fit fun w hw => expect_bind hw.fit fun y hy _ => ?_
  exact pure hy.fit ((hcond.earlier (ht.trans hu)).later (hw.trans hy))

theorem branchStatement (h : KeepsStmt statement) :
    KeepsStmt (Parser.branchStatement statement) := by
  intro s hs
  refine advance_bind hs fun t ht hkeyword => (condition t ht.fit).bind fun cond u hu hcond => ?_
  refine (h u hu.fit).bind fun thenBranch v hv hthen => skipNewlines_bind hv.fit fun w hw => ?_
  have hrest : ∀ {elseBranch : Option StmtId} {y}, w.Before y →
      (∀ other ∈ elseBranch, t.GotStmt y other) →
      Keeps y (Parser.addStmtFrom (.branch cond.id thenBranch elseBranch) s.current.span)
        fun id z => s.GotStmt z id := by
    intro elseBranch y hy helse
    have hvy := hw.trans hy
    refine addStmtFrom hy.fit (hkeyword.later (hu.trans (hv.trans hvy))) ⟨?_, ?_, ?_⟩
    · exact (hcond.later (hv.trans hvy)).inside hkeyword
    · exact ((hthen.earlier hu).later hvy).inside hkeyword
    · exact fun other hother => (helse other hother).inside hkeyword
  refine check_bind ?_
  split
  · refine advance_bind hw.fit fun y hy _ => (someStatement h hy.fit).bind
      fun other z hz hother => ?_
    exact hrest (hy.trans hz) fun id hid =>
      (hother id hid).earlier (hu.trans (hv.trans (hw.trans hy)))
  · exact pure_bind (hrest (.refl hw.fit) (by simp))

theorem loopStatement (h : KeepsStmt statement) : KeepsStmt (Parser.loopStatement statement) := by
  intro s hs
  refine advance_bind hs fun t ht hkeyword => (condition t ht.fit).bind fun cond u hu hcond => ?_
  refine (h u hu.fit).bind fun body v hv hbody => ?_
  exact addStmtFrom hv.fit (hkeyword.later (hu.trans hv))
    ⟨(hcond.later hv).inside hkeyword, (hbody.earlier hu).inside hkeyword⟩

theorem forFirst (hs : s.Fit) :
    Keeps s Parser.forFirst fun first t => ∀ id ∈ first, s.GotStmt t id := by
  refine check_bind ?_
  split
  · exact advance_bind hs fun t ht _ => pure ht.fit (by simp)
  refine check_bind ?_
  split
  · exact someStatement variableDeclaration hs
  · exact someStatement expressionStatement hs

theorem forClause (mark : String) (hs : s.Fit) :
    Keeps s (Parser.forClause mark) fun clause t => ∀ x ∈ clause, s.GotExpr t x := by
  refine skipNewlines_bind hs fun t ht => check_bind ?_
  have hrest : ∀ {clause : Option StoredExpr} {u}, t.Before u → (∀ x ∈ clause, s.GotExpr u x) →
      Keeps u (do
        Parser.skipNewlines
        let _ ← Parser.expect mark
        return clause) fun clause v => ∀ x ∈ clause, s.GotExpr v x := by
    intro clause u hu hclause
    refine skipNewlines_bind hu.fit fun v hv => expect_bind hv.fit fun w hw _ => ?_
    exact pure hw.fit fun x hx => (hclause x hx).later (hv.trans hw)
  split
  · exact pure_bind (hrest (.refl ht.fit) (by simp))
  · exact (someExpression ht.fit).bind fun clause u hu hclause =>
      hrest hu fun x hx => (hclause x hx).earlier ht

/-- A list of two statements that lie inside a span. -/
theorem stmtsInside_pair {c : Code} {span : Span} {body : Slice StmtId} {a b : StmtId}
    (hbody : c.arena.stmtsIn? body = some [a, b]) (ha : c.StmtInside span a)
    (hb : c.StmtInside span b) : c.StmtsInside span body := by
  refine ⟨[a, b], hbody, fun id hid => ?_⟩
  rcases List.mem_pair.1 hid with rfl | rfl
  · exact ha
  · exact hb

/-- The loop that a `for` stands for, in a block with the first clause. -/
theorem forWhole (hs : s.Fit) {keyword : Span} (hkeyword : q.Took s keyword)
    {first : Option StmtId} {cond : ExprId} {body : StmtId}
    (hfirst : ∀ id ∈ first, s.code.StmtInside (s.stretch keyword) id)
    (hcond : s.code.ExprInside (s.stretch keyword) cond)
    (hbody : s.code.StmtInside (s.stretch keyword) body) :
    Keeps s (do
      let loop ← Parser.addStmtFrom (.loop cond body) keyword
      match first with
      | none => return loop
      | some first =>
          let both ← Parser.addStmts [first, loop]
          Parser.addStmtFrom (.block both) keyword) fun id t => q.GotStmt t id := by
  have hkind : (StmtKind.loop cond body).Sound s.code (s.stretch keyword) := ⟨hcond, hbody⟩
  refine (addStmtFrom_inside hs hkeyword hkind).bind fun loop t ht hloop => ?_
  cases first with
  | none => exact pure ht.fit hloop.1
  | some first =>
    refine (addStmts ht.fit [first, loop]).bind fun both u hu hboth => ?_
    have hsu := ht.trans hu
    exact addStmtFrom hu.fit (hkeyword.later hsu) (stmtsInside_pair hboth
      (hsu.stmtInside (hfirst first rfl)) (hu.stmtInside hloop.2))

/-- The condition of a `for`, which is true if it is left out. -/
theorem forTest_bind (hs : s.Fit) {keyword : Span} (hkeyword : q.Took s keyword)
    {cond : Option StoredExpr}
    (hcond : ∀ x ∈ cond, s.code.ExprInside (s.stretch keyword) x.id) {f : StoredExpr → Parser β}
    (h : ∀ x t, s.Before t → t.code.ExprInside (t.stretch keyword) x.id → Keeps t (f x) Q) :
    Keeps s (do
      let cond ←
        match cond with
        | none => Parser.addExpr (.literal (.bool true)) keyword
        | some cond => Pure.pure cond
      f cond) Q := by
  cases cond with
  | none =>
    have hkind : (ExprKind.literal (.bool true)).Sound s.code keyword := trivial
    exact (addExpr_inside hs hkeyword hkind).bind h
  | some cond => exact pure_bind (h cond s (.refl hs) (hcond cond rfl))

/-- The body of a `for`, in a block with the last clause, which follows it. -/
theorem forBody_bind (hs : s.Fit) {keyword : Span} (hkeyword : q.Took r keyword)
    (hr : r.Before s) {body : StmtId} (hbody : s.code.StmtInside (s.stretch keyword) body)
    {last : Option StoredExpr} (hlast : ∀ x ∈ last, r.GotExpr s x) {f : StmtId → Parser β}
    (h : ∀ id t, s.Before t → t.code.StmtInside (t.stretch keyword) id → Keeps t (f id) Q) :
    Keeps s (do
      let body ←
        match last with
        | none => Pure.pure body
        | some last => do
            let step ← Parser.addStmt (.expression last.id) last.span
            let both ← Parser.addStmts [body, step]
            Parser.addStmtFrom (.block both) keyword
      f body) Q := by
  cases last with
  | none => exact pure_bind (h body s (.refl hs) hbody)
  | some last =>
    have hlast := hlast last rfl
    have hkind : (StmtKind.expression last.id).Sound s.code last.span :=
      ⟨last.node, hlast.held, .refl _⟩
    refine (addStmt hs hkind hlast.took).bind fun step t ht hstep => ?_
    refine (addStmts ht.fit [body, step]).bind fun both u hu hboth => ?_
    have hsu := ht.trans hu
    have hkind : (StmtKind.block both).Sound u.code (u.stretch keyword) :=
      stmtsInside_pair hboth (hsu.stmtInside hbody) ((hstep.later hu).inside hkeyword)
    exact (addStmtFrom_inside hu.fit (hkeyword.later (hr.trans hsu)) hkind).bind
      fun id v hv hid => h id v (hsu.trans hv) hid.2

theorem forStatement (h : KeepsStmt statement) : KeepsStmt (Parser.forStatement statement) := by
  intro s hs
  refine advance_bind hs fun t ht hkeyword => skipNewlines_bind ht.fit fun u hu =>
    expect_bind hu.fit fun v hv _ => skipNewlines_bind hv.fit fun w hw => ?_
  refine (forFirst hw.fit).bind fun first a ha hfirst => ?_
  refine (forClause ";" ha.fit).bind fun cond b hb hcond => ?_
  refine (forClause ")" hb.fit).bind fun last c hc hlast => ?_
  refine (h c hc.fit).bind fun body d hd hbody => ?_
  -- what was read lies inside the stretch from the keyword to the last token taken
  have htw := hu.trans (hv.trans hw)
  have hta := htw.trans ha
  have htb := hta.trans hb
  have htd := htb.trans (hc.trans hd)
  have hfirst' : ∀ id ∈ first, d.code.StmtInside (d.stretch s.current.span) id := fun id hid =>
    (((hfirst id hid).earlier htw).later (hb.trans (hc.trans hd))).inside hkeyword
  have hcond' : ∀ x ∈ cond, d.code.ExprInside (d.stretch s.current.span) x.id := fun x hx =>
    (((hcond x hx).earlier hta).later (hc.trans hd)).inside hkeyword
  have hlast' : ∀ x ∈ last, t.GotExpr d x := fun x hx => ((hlast x hx).earlier htb).later hd
  have hbody' : d.code.StmtInside (d.stretch s.current.span) body :=
    (hbody.earlier (htb.trans hc)).inside hkeyword
  refine forBody_bind hd.fit hkeyword htd hbody' hlast' fun body e he hbody => ?_
  refine forTest_bind he.fit (hkeyword.later (htd.trans he))
    (fun x hx => he.exprInside (hcond' x hx)) fun x f hf hx => ?_
  have hdf := he.trans hf
  exact forWhole hf.fit (hkeyword.later (htd.trans hdf))
    (fun id hid => hdf.stmtInside (hfirst' id hid)) hx (hf.stmtInside hbody)

theorem functionDeclaration (h : KeepsStmt statement) :
    KeepsStmt (Parser.functionDeclaration statement) := by
  intro s hs
  refine advance_bind hs fun t ht hkeyword => (identifier ht.fit).bind fun name u hu hname => ?_
  refine skipNewlines_bind hu.fit fun v hv => expect_bind hv.fit fun w hw _ => ?_
  refine (items (R := fun _ t name => t.code.Knows name) (fun h _ => h)
    (fun h ht => ht.code.knows h) (fun _ => identifier) hw.fit).bind fun ids a ha hids => ?_
  refine (addParams ha.fit hids).bind fun params b hb hparams => ?_
  refine skipNewlines_bind hb.fit fun c hc => expect_bind hc.fit fun d hd hopening => ?_
  refine (blockBody h hd.fit _).bind fun body e he hbody => ?_
  have hbe := hc.trans (hd.trans he)
  have hte := hu.trans (hv.trans (hw.trans (ha.trans (hb.trans hbe))))
  refine addStmtFrom he.fit (hkeyword.later hte) ⟨?_, hbe.code.knowsAll hparams, ?_⟩
  · exact (hv.trans (hw.trans (ha.trans (hb.trans hbe)))).code.knows hname
  · obtain ⟨ids, hids, hgot⟩ := hbody
    have htd := hu.trans (hv.trans (hw.trans (ha.trans (hb.trans (hc.trans hd)))))
    exact ⟨ids, hids, fun id hid => ((hgot id hid).earlier htd).inside hkeyword⟩

theorem statementAt (depth : Nat) (inFunction : Bool) :
    KeepsStmt (Parser.statementAt depth inFunction) := by
  induction depth generalizing inFunction with
  | zero => exact fun s hs => expectedExpression hs
  | succ depth ih =>
    intro s hs
    refine skipNewlines_bind hs fun t ht => current_bind ?_
    have hkept : ∀ {p : Parser StmtId}, KeepsStmt p → Keeps t p fun id u => s.GotStmt u id :=
      fun hp => (hp t ht.fit).imp fun _ _ _ hid => hid.earlier ht
    split
    · exact hkept (branchStatement (ih inFunction))
    split
    · exact hkept (loopStatement (ih inFunction))
    split
    · exact hkept (forStatement (ih inFunction))
    split
    · exact hkept (functionDeclaration (ih true))
    split
    · exact hkept (returnStatement inFunction)
    split
    · exact hkept (blockStatement (ih inFunction))
    · exact hkept expressionStatement

theorem topStatement : KeepsStmt Parser.topStatement := fun s hs =>
  size_bind (statementAt _ _ s hs)

end Keeps

/-! ## Programs -/

/-- The code is sound and holds the statements of the top level. -/
structure Parsed.Sound (p : Parsed) : Prop where
  code : p.code.Sound
  module : ∀ id ∈ p.module, ∃ node, p.code.arena.stmt? id = some node

theorem ParseState.sound_finish {s : ParseState} {seen : List StmtId}
    (hseen : ∀ id ∈ seen, ∃ node, s.code.arena.stmt? id = some node) (hs : s.code.Sound)
    (failure : Option ParseError) : (s.finish seen failure).Sound :=
  ⟨hs, fun id hid => hseen id (List.mem_reverse.1 hid)⟩

/-- What is read of the tokens that are left, error or not, is sound. -/
theorem ParseState.sound_parseFrom {fuel : Nat} {s : ParseState} (hs : s.Fit)
    {seen : List StmtId} (hseen : ∀ id ∈ seen, ∃ node, s.code.arena.stmt? id = some node) :
    (s.parseFrom fuel seen).Sound := by
  induction fuel generalizing s seen with
  | zero => exact sound_finish hseen hs.sound none
  | succ fuel ih =>
    rw [parseFrom]
    have hskip := s.before_skipNewlines hs
    have hstmt := Keeps.declaration Keeps.topStatement s.skipNewlines hskip.fit
    have hadds := (OnlyAdds.topStatement).declaration s.skipNewlines
    split
    · exact sound_finish hseen hskip.fit.sound none
    · unfold Keeps at hstmt
      unfold stateAfter at hadds
      unfold EStateM.run
      cases hrun : Parser.declaration Parser.topStatement s.skipNewlines with
      | ok stmt t =>
        rw [hrun] at hstmt
        refine ih hstmt.1.fit fun id hid => ?_
        rcases List.mem_cons.1 hid with rfl | hid
        · exact hstmt.2.imp fun _ h => h.1
        · exact (hseen id hid).imp fun _ h => hstmt.1.code.stmt?_eq h
      | error e t =>
        rw [hrun] at hstmt hadds
        exact sound_finish (fun id hid => (hseen id hid).imp fun _ h => hadds.stmt?_eq h) hstmt _

/-- What is read of a text, error or not, is sound. -/
theorem sound_parseWith (tables : Tables) (source : String) : (parseWith tables source).Sound := by
  have htokens := inOrder_tokenize tables source
  unfold parseWith parseTokens
  refine ParseState.sound_parseFrom ?_ (by simp)
  cases htokenize : tokenize tables source with
  | nil => exact ⟨le_rfl, ⟨le_rfl, le_rfl, fun _ => rfl, trivial⟩, Code.sound_empty⟩
  | cons t ts =>
    rw [htokenize] at htokens
    exact ⟨le_rfl, htokens, Code.sound_empty⟩

theorem sound_parse (source : String) : (parse source).Sound := sound_parseWith .quill source

end Scriptorium
