import Scriptorium.Proofs.TakenTokens

/-!
# Expressions and the tokens under their spans

The parser of expressions takes valid tokens only, whether it succeeds or fails, and each
expression that it stores is spelled by the tokens under its span.  That they spell it is
known of the runs that succeed; what is shown on the way is where the span starts and ends.

* `Fails`, `Takes` — what is known of a parser when it fails and when it succeeds;
* `ReadsExpressions` — the same of a parser of expressions, with the span of its answer;
* `readsExpressions_expression` — the parser of expressions is one.
-/

namespace Scriptorium

open Scriptorium.Parser ParseState

variable {tokens : List Token}

/-- The error is at an earliest token, and the expressions that were stored are spelled by the
tokens under their spans. -/
def Fails (tokens : List Token) (e : ParseError) (s : ParseState) : Prop :=
  e.Earliest tokens ∧ s.code.Tells tokens

/-- On at most `n` tokens, the parser goes on to a state of the same text. -/
def Takes (tokens : List Token) (n : Nat) {α : Type} (p : Parser α) : Prop :=
  ∀ s : ParseState, s.Reading tokens → s.tokens.length ≤ n →
    Meets (Fails tokens) s p fun _ t => t.Reading tokens ∧ t.tokens.length ≤ s.tokens.length

/-- On at most `n` tokens, the parser reads an expression. -/
def ReadsExpressions (tokens : List Token) (n : Nat) (p : Parser StoredExpr) : Prop :=
  ∀ s : ParseState, s.Reading tokens → s.tokens.length ≤ n →
    Meets (Fails tokens) s p fun x t => t.Reading tokens ∧ ∃ e, ReadsExpr s t x e

/-- A success is a run. -/
theorem Meets.runs {α : Type} {E : ParseError → ParseState → Prop} {s : ParseState}
    {p : Parser α} {Q : α → ParseState → Prop} (h : Meets E s p Q) :
    Meets E s p fun a t => Runs p s a t ∧ Q a t := by
  unfold Meets at h ⊢
  cases hrun : p s with
  | ok a t =>
    rw [hrun] at h
    exact ⟨hrun, h⟩
  | error e t =>
    rw [hrun] at h
    exact h

/-- What is known of a success is known of a run. -/
theorem Meets.of_runs {α : Type} {E : ParseError → ParseState → Prop} {s t : ParseState}
    {p : Parser α} {a : α} {Q : α → ParseState → Prop} (h : Meets E s p Q) (hrun : Runs p s a t) :
    Q a t := by
  unfold Meets at h
  rwa [show p s = .ok a t from hrun] at h

/-! ## Steps -/

namespace ParseState

variable {s t : ParseState}

theorem Reading.fails (h : s.Reading tokens) {fault : ParseFault} (hfault : ∀ r, fault ≠ .lex r) :
    Fails tokens (.atToken fault s.current) s :=
  ⟨⟨_, fault, h.reached, hfault, rfl⟩, h.told⟩

theorem Reading.advance (h : s.Reading tokens) (hend : s.current.isEnd = false)
    (hvalid : s.current.isInvalid = false) : s.advance.Reading tokens :=
  ⟨h.toTaken.advance hend hvalid, by rw [code_advance]; exact h.told⟩

/-- A token is taken that is neither a line break nor the end of the text. -/
theorem Reading.advance_of_solid (h : s.Reading tokens) (hvalid : s.current.isInvalid = false)
    (hsolid : s.current.word.isNewline = false ∧ s.current.word.isEnd = false) :
    s.advance.Reading tokens ∧ s.tokens = s.current :: s.advance.tokens ∧
      s.current.isNewline = false := by
  rw [Token.isNewline_word, Token.isEnd_word] at hsolid
  exact ⟨h.advance hsolid.2 hvalid, tokens_advance h.ready hsolid.2, hsolid.1⟩

theorem Reading.advance_of_is (h : s.Reading tokens) {text : String}
    (his : s.current.is text = true) :
    s.advance.Reading tokens ∧ s.tokens = s.current :: s.advance.tokens ∧
      s.current.isNewline = false :=
  h.advance_of_solid (Token.isInvalid_of_is his) (Word.solid_of_is ((Token.is_word _ _).trans his))

theorem Reading.skipNewlines (h : s.Reading tokens) :
    s.skipNewlines.Reading tokens ∧ s.skipNewlines.tokens.length ≤ s.tokens.length ∧
      ∃ nls, (∀ t ∈ nls, t.isNewline = true) ∧ s.tokens = nls ++ s.skipNewlines.tokens := by
  obtain ⟨htaken, nls, hnls, htokens⟩ := h.toTaken.skipNewlines
  refine ⟨⟨htaken, h.told⟩, ?_, nls, hnls, htokens⟩
  rw [htokens, List.length_append]
  exact Nat.le_add_left _ _

/-- Names and lists are stored. -/
theorem Reading.store (h : s.Reading tokens) {arena : Arena} {names : NameTable}
    (hext : s.code.Extends ⟨arena, names⟩) (hexprs : arena.exprs = s.arena.exprs) :
    Reading tokens { s with arena, names } :=
  ⟨h.toTaken.store arena names, h.told.of_extends hext hexprs⟩

theorem Reading.intern (h : s.Reading tokens) (text : String) :
    Reading tokens { s with names := (s.names.intern text).2 } :=
  h.store ⟨.refl _, .refl _, .refl _, .refl _, .refl _, NameTable.grows_intern _ _⟩ rfl

/-- An expression is stored, which the tokens have to spell. -/
theorem Reading.addExpr (h : s.Reading tokens) {node : ExprNode}
    (hnew : Code.TellsExpr tokens ⟨(s.arena.addExpr node).2, s.names⟩ (s.arena.addExpr node).1
      node.span ∨ node.Implicit tokens) :
    Reading tokens { s with arena := (s.arena.addExpr node).2 } :=
  ⟨h.toTaken.store _ _, h.told.addExpr hnew⟩

/-- All is well if the tokens spell the expression that was stored last. -/
def Almost (tokens : List Token) (t : ParseState) (x : StoredExpr) : Prop :=
  t.Taken tokens ∧ (t.code.TellsExpr tokens x.id x.span → t.Reading tokens)

/-- An expression that a run answers is spelled by the tokens under its span. -/
theorem Almost.reading {x : StoredExpr} {e : Expr Unit} (h : t.Almost tokens x)
    (hs : s.Taken tokens) (hread : ReadsExpr s t x e) : t.Reading tokens :=
  h.2 (hread.tells hs h.1)

end ParseState

namespace ParseState

/-- The state `t` comes after a closing parenthesis, which is found in the state `s` or later. -/
def Closes (tokens : List Token) (s t : ParseState) : Prop :=
  ∃ u : ParseState, u.Reading tokens ∧ u.tokens.length ≤ s.tokens.length ∧
    u.current.is ")" = true ∧ t = u.advance

theorem Closes.reading {s t : ParseState} (h : s.Closes tokens t) :
    t.Reading tokens ∧ t.tokens.length ≤ s.tokens.length := by
  obtain ⟨u, hu, hle, his, rfl⟩ := h
  obtain ⟨ht, htokens, -⟩ := hu.advance_of_is his
  rw [htokens, List.length_cons] at hle
  exact ⟨ht, Nat.le_of_succ_le hle⟩

end ParseState

namespace Meets

variable {s u : ParseState} {kind : ExprKind} {span : Span}

theorem addExpr_almost (h : u.Reading tokens) (hspan : ∀ t, t.tokens = u.tokens → s.Spans t span) :
    Meets (Fails tokens) u (Parser.addExpr kind span) fun x t =>
      t.Almost tokens x ∧ s.Spans t x.span :=
  Meets.addExpr ⟨⟨h.toTaken.store _ _, fun hnew => h.addExpr (.inl hnew)⟩, hspan _ rfl⟩

/-- The literal that the next token is. -/
theorem literal {value : Literal NameId} (h : s.Reading tokens) (hend : s.current.isEnd = false)
    (hvalid : s.current.isInvalid = false) (hnew : s.current.isNewline = false) :
    Meets (Fails tokens) s (Parser.literal value) fun x t =>
      t.Almost tokens x ∧ s.Spans t x.span := by
  refine Meets.advance_bind (addExpr_almost (h.advance hend hvalid) fun t ht => ?_)
  exact .single (by rw [ht, tokens_advance h.ready hend]) hnew

end Meets

/-! ## Lists -/

namespace Takes

variable {α β : Type} {n : Nat}

theorem itemsFrom {item : Parser α} {tooMany : ParseFault} (hfault : ∀ r, tooMany ≠ .lex r)
    (h : Takes tokens n item) (fuel : Nat) (seen : List α) :
    Takes tokens n (Parser.itemsFrom tooMany item fuel seen) := by
  induction fuel generalizing seen with
  | zero => exact fun s hs _ => Meets.pure ⟨hs, le_rfl⟩
  | succ fuel ih =>
    intro s hs hn
    obtain ⟨hskip, hle, -⟩ := hs.skipNewlines
    have hnext : Meets (Fails tokens) s.skipNewlines (do
        let x ← item
        Parser.skipNewlines
        if ← Parser.check "," then
          let _ ← Parser.advance
          Parser.itemsFrom tooMany item fuel (x :: seen)
        else return (x :: seen).reverse) fun _ t =>
          t.Reading tokens ∧ t.tokens.length ≤ s.tokens.length := by
      refine (h _ hskip (hle.trans hn)).bind fun x t ht => Meets.skipNewlines_bind ?_
      obtain ⟨ht, hle'⟩ := ht
      obtain ⟨hu, hle'', -⟩ := ht.skipNewlines
      have hle := (hle''.trans hle').trans hle
      refine Meets.check_bind ?_
      split
      · next hcomma =>
        obtain ⟨hv, htokens, -⟩ := hu.advance_of_is hcomma
        rw [htokens, List.length_cons] at hle
        refine Meets.advance_bind ((ih _ _ hv (by omega)).imp ?_)
        exact fun _ w hw => ⟨hw.1, by omega⟩
      · exact Meets.pure ⟨hu, hle⟩
    refine Meets.skipNewlines_bind ?_
    split
    · exact Meets.current_bind ((Meets.fail (Q := fun _ _ => False) (hskip.fails hfault)).bind
        fun _ _ h => h.elim)
    · exact hnext

/-- The items up to the closing parenthesis, which is taken last. -/
theorem items {item : Parser α} {tooMany : ParseFault} (hfault : ∀ r, tooMany ≠ .lex r)
    (h : Takes tokens n item) {s : ParseState} (hs : s.Reading tokens)
    (hn : s.tokens.length ≤ n) :
    Meets (Fails tokens) s (Parser.items tooMany item) fun _ t => s.Closes tokens t := by
  obtain ⟨hskip, hle, -⟩ := hs.skipNewlines
  have hclose : ∀ (found : List α) (u : ParseState), u.Reading tokens →
      u.tokens.length ≤ s.tokens.length →
      Meets (Fails tokens) u (do
        let _ ← Parser.expect ")"
        return found) fun _ t => s.Closes tokens t := fun found u hu hle =>
    Meets.expect_bind_of (hu.fails (by simp)) fun his => Meets.pure ⟨u, hu, hle, his, rfl⟩
  refine Meets.skipNewlines_bind (Meets.check_bind ?_)
  split
  · exact Meets.pure_bind (hclose [] _ hskip hle)
  · refine Meets.size_bind ((h.itemsFrom hfault _ [] _ hskip (hle.trans hn)).bind ?_)
    exact fun found u hu => hclose found u hu.1 (hu.2.trans hle)

end Takes

/-! ## Primary expressions and calls -/

section Expressions

variable {n : Nat} {expression : Parser StoredExpr}

theorem ReadsExpressions.takes (h : ReadsExpressions tokens n expression) :
    Takes tokens n expression := fun s hs hn =>
  (h s hs hn).imp fun _ _ ⟨ht, _, hread⟩ => ⟨ht, hread.spans.length_lt.le⟩

/-- The span of a group goes from the opening parenthesis to the closing one. -/
theorem meets_group (h : ReadsExpressions tokens n expression) {s : ParseState}
    (hs : s.Reading tokens) (hn : s.tokens.length ≤ n + 1) (hopen : s.current.is "(" = true) :
    Meets (Fails tokens) s (do
      let _ ← Parser.advance
      let inner ← expression
      Parser.skipNewlines
      let _ ← Parser.expect ")"
      Parser.addExpr (.group inner.id) (← Parser.spanFrom s.current.span)) fun x t =>
        t.Almost tokens x ∧ s.Spans t x.span := by
  obtain ⟨ht, htokens, hnew⟩ := hs.advance_of_is hopen
  rw [htokens, List.length_cons] at hn
  refine Meets.advance_bind ((h _ ht (by omega)).bind fun inner u ⟨hu, e, hread⟩ => ?_)
  obtain ⟨hv, hle, -⟩ := hu.skipNewlines
  refine Meets.skipNewlines_bind (Meets.expect_bind_of (hv.fails (by simp)) fun hclose => ?_)
  obtain ⟨hw, htokens', hnew'⟩ := hv.advance_of_is hclose
  obtain ⟨mid, hmid⟩ := ht.toTaken.exists_between hv.toTaken
    (hle.trans hread.spans.length_lt.le)
  refine Meets.spanFrom_bind (Meets.addExpr_almost hw fun t ht => ?_)
  rw [previous_advance]
  exact (Spans.single htokens hnew).merge _ hmid (.single (by rw [ht, htokens']) hnew')
    hs.ordered_tokens

/-- An expression that arguments can follow was read between the two states. -/
structure ReadsCallee (s t : ParseState) (x : StoredExpr) (e : Expr Unit) : Prop where
  spans : s.Spans t x.span
  spelled : ∃ ws, Moves s ws t ∧ Spells (.expr e) ws
  keeps : t.code.Keeps x e
  rank : callRank ≤ e.rank

theorem ReadsCallee.readsExpr {s t : ParseState} {x : StoredExpr} {e : Expr Unit}
    (h : ReadsCallee s t x e) : ReadsExpr s t x e := by
  obtain ⟨ws, hmove, hspells⟩ := h.spelled
  exact ⟨h.spans, ⟨ws, hmove, ws, [], (List.append_nil ws).symm, blank_nil, hspells⟩, h.keeps⟩

theorem meets_primary (h : ReadsExpressions tokens n expression)
    (hsound : SoundExpression n expression) {s : ParseState} (hs : s.Reading tokens)
    (hn : s.tokens.length ≤ n + 1) :
    Meets (Fails tokens) s (primary expression) fun x t =>
      t.Reading tokens ∧ ∃ e, ReadsCallee s t x e := by
  obtain ⟨hskip, hle, nls, hnls, htokens⟩ := hs.skipNewlines
  have hspans : Meets (Fails tokens) s (primary expression) fun x t =>
      t.Almost tokens x ∧ s.Spans t x.span := by
    refine Meets.skipNewlines_bind (Meets.current_bind ?_)
    have hlead : ∀ {x : StoredExpr} {t : ParseState},
        t.Almost tokens x ∧ s.skipNewlines.Spans t x.span →
          t.Almost tokens x ∧ s.Spans t x.span := fun h => ⟨h.1, h.2.lead hnls htokens⟩
    have hnone : Meets (Fails tokens) s.skipNewlines Parser.expectedExpression
        fun x t => t.Almost tokens x ∧ s.Spans t x.span :=
      Meets.expectedExpression_of (hskip.fails (by simp))
    generalize hu : s.skipNewlines = u at *
    cases hkind : u.current.kind with
    | int value =>
      exact (Meets.literal hskip (by simp [Token.isEnd, hkind]) (by simp [Token.isInvalid, hkind])
        (by simp [Token.isNewline, hkind])).imp fun _ _ => hlead
    | string =>
      refine Meets.intern_bind ?_
      exact (Meets.literal (hskip.intern _) (by simp [Token.isEnd, hkind])
        (by simp [Token.isInvalid, hkind]) (by simp [Token.isNewline, hkind])).imp fun _ _ => hlead
    | symbol =>
      have hend : u.current.isEnd = false := by simp [Token.isEnd, hkind]
      have htake := hskip.advance hend (by simp [Token.isInvalid, hkind])
      refine Meets.advance_bind (Meets.intern_bind ?_)
      refine (Meets.addExpr_almost (s := u) (htake.intern _) fun t ht => ?_).imp fun _ _ => hlead
      exact .single (by rw [ht]; exact tokens_advance hskip.ready hend)
        (by simp [Token.isNewline, hkind])
    | keyword =>
      have hliteral : ∀ value, Meets (Fails tokens) u (literal value) fun x t =>
          t.Almost tokens x ∧ s.Spans t x.span := fun value =>
        (Meets.literal hskip (by simp [Token.isEnd, hkind]) (by simp [Token.isInvalid, hkind])
          (by simp [Token.isNewline, hkind])).imp fun _ _ => hlead
      dsimp only
      split
      · exact hliteral _
      split
      · exact hliteral _
      · exact hnone
    | punct =>
      dsimp only
      split
      · next hopen =>
        exact (meets_group h hskip (hle.trans hn) (by simp [Token.is, hkind, hopen])).imp
          fun _ _ => hlead
      · exact hnone
    | _ => exact hnone
  refine hspans.runs.imp ?_
  rintro x t ⟨hrun, halmost, hspan⟩
  obtain ⟨e, ws, hmove, hspells, hkeeps, hrank⟩ :=
    soundPrimary hsound hs.ready (by rwa [← length_tokens]) hrun
  have hread : ReadsCallee s t x e :=
    ⟨hspan, ⟨ws, hmove, hspells⟩, hkeeps, by rw [hrank]; decide⟩
  exact ⟨halmost.reading hs.toTaken hread.readsExpr, e, hread⟩

/-- The span of a call goes from the callee to the closing parenthesis. -/
theorem meets_callsFrom (h : ReadsExpressions tokens n expression)
    (hsound : SoundExpression n expression) {r : ParseState} (hr : r.Reading tokens) (fuel : Nat)
    {s : ParseState} {callee : StoredExpr} {e : Expr Unit} (hs : s.Reading tokens)
    (hn : s.tokens.length ≤ n + 1) (hcallee : ReadsCallee r s callee e) :
    Meets (Fails tokens) s (callsFrom expression fuel callee) fun x t =>
      t.Reading tokens ∧ ∃ e, ReadsCallee r t x e := by
  induction fuel generalizing s callee e with
  | zero => exact Meets.pure ⟨hs, e, hcallee⟩
  | succ fuel ih =>
    refine Meets.check_bind ?_
    split
    · next hopen =>
      obtain ⟨ht, htokens, -⟩ := hs.advance_of_is hopen
      have hlen := hn
      rw [htokens, List.length_cons] at hlen
      refine Meets.advance_bind ((h.takes.items (by simp) ht (by omega)).runs.bind ?_)
      rintro args u ⟨hitems, hcloses⟩
      obtain ⟨hu, hle⟩ := hcloses.reading
      obtain ⟨c, hc, hcle, hclose, hcu⟩ := hcloses
      obtain ⟨-, hctokens, hcnew⟩ := hc.advance_of_is hclose
      refine Meets.addExprs_bind (Meets.spanFrom_bind (Meets.addExpr_bind ?_))
      have hv : Reading tokens { u with arena := (u.arena.addExprs (args.map StoredExpr.id)).2 } :=
        hu.store ⟨.refl _, .appendList _ _, .refl _, .refl _, .refl _, .refl _⟩ rfl
      generalize hslice : u.arena.addExprs (args.map StoredExpr.id) = added at hv ⊢
      generalize hcalled : added.2.addExpr ⟨.call callee.id added.1,
        callee.span.merge u.previous⟩ = stored
      -- one round of the loop is a run of its own
      have hround : Runs (callsFrom expression 1 callee) s
          ⟨stored.1, .call callee.id added.1, callee.span.merge u.previous⟩
          { u with arena := stored.2 } := by
        rw [runs_callsFrom, if_pos hopen]
        refine ⟨args, u, added.1, { u with arena := added.2 }, _, _, hitems, ?_, ?_,
          runs_pure.2 ⟨rfl, rfl⟩⟩
        · rw [runs_addExprs, hslice]
          exact ⟨rfl, rfl⟩
        · rw [runs_addExpr, ← hcalled]
          exact ⟨rfl, rfl⟩
      obtain ⟨e', vs, hmove, hextend, hkeeps, hrank⟩ :=
        soundCallsFrom hsound 1 hs.ready (by rwa [← length_tokens]) hcallee.keeps hcallee.rank
          hround
      obtain ⟨ws, hmove₀, hspells⟩ := hcallee.spelled
      obtain ⟨mid, hmid⟩ := hs.toTaken.exists_between hc.toTaken
        (hcle.trans (by rw [htokens]; exact Nat.le_succ _))
      have hspans : r.Spans { u with arena := stored.2 } (callee.span.merge u.previous) := by
        rw [hcu, previous_advance]
        exact hcallee.spans.merge _ hmid (.single hctokens hcnew) hr.ordered_tokens
      have hread : ReadsCallee r { u with arena := stored.2 }
          ⟨stored.1, .call callee.id added.1, callee.span.merge u.previous⟩ e' :=
        ⟨hspans, ⟨ws ++ vs, hmove₀.trans hmove, hextend ws hspells⟩, hkeeps, hrank⟩
      have hw : Reading tokens { u with arena := stored.2 } := by
        have htells := hread.readsExpr.tells hr.toTaken (hu.toTaken.store stored.2 u.names)
        rw [← hcalled] at htells ⊢
        exact hv.addExpr (.inl htells)
      refine ih hw ?_ hread
      show u.tokens.length ≤ n + 1
      omega
    · exact Meets.pure ⟨hs, e, hcallee⟩

theorem meets_calls (h : ReadsExpressions tokens n expression)
    (hsound : SoundExpression n expression) {s : ParseState} (hs : s.Reading tokens)
    (hn : s.tokens.length ≤ n + 1) :
    Meets (Fails tokens) s (calls expression) fun x t =>
      t.Reading tokens ∧ ∃ e, ReadsCallee s t x e := by
  refine (meets_primary h hsound hs hn).bind fun callee t ⟨ht, e, hread⟩ => Meets.size_bind ?_
  exact meets_callsFrom h hsound hs t.size ht (hread.spans.length_lt.le.trans hn) hread

end Expressions

/-! ## Operators -/

/-- An expression is stored after the tokens that it was read from. -/
theorem meets_addExpr_read {r s : ParseState} {kind : ExprKind} {span : Span} {e : Expr Unit}
    {ws : List Word} (hr : r.Taken tokens) (hs : s.Reading tokens) (hmove : Moves r ws s)
    (hspells : SpellsLoosely e ws) (hbuild : s.code.BuildsExpr kind e) (he : e.Shaped)
    (hspan : r.Spans s span) :
    Meets (Fails tokens) s (Parser.addExpr kind span) fun x t =>
      t.Reading tokens ∧ ReadsExpr r t x e ∧ t.tokens = s.tokens := by
  refine Meets.addExpr ?_
  obtain ⟨hmove', hkeeps⟩ := keeps_addExpr hmove (runs_addExpr.2 ⟨rfl, rfl⟩) hbuild he
  have hread : ReadsExpr r { s with arena := (s.arena.addExpr ⟨kind, span⟩).2 }
      ⟨(s.arena.addExpr ⟨kind, span⟩).1, ⟨kind, span⟩⟩ e :=
    ⟨hspan, ⟨ws, hmove', hspells⟩, hkeeps⟩
  exact ⟨hs.addExpr (.inl (hread.tells hr (hs.toTaken.store _ _))), hread, rfl⟩

/-- On at most `n` tokens, operands with signs are read. -/
def ReadsSigned (tokens : List Token) (depth n : Nat) : Prop :=
  ∀ s : ParseState, s.Reading tokens → s.tokens.length ≤ n →
    Meets (Fails tokens) s (signedAt depth) fun x t =>
      t.Reading tokens ∧ ∃ e, ReadsExpr s t x e ∧ unaryRank ≤ e.rank

/-- On at most `n` tokens, operations at a level or tighter are read, and no operator of the
level comes next. -/
def ReadsOperation (tokens : List Token) (depth n : Nat) : Prop :=
  ∀ level, level < unaryRank → ∀ s : ParseState, s.Reading tokens → s.tokens.length ≤ n →
    Meets (Fails tokens) s (operationAt depth level) fun x t =>
      t.Reading tokens ∧ ∃ e, ReadsExpr s t x e ∧ level < e.rank ∧ Stops level t.words

/-- On at most `n` tokens, the operators are read after an operand that was read before. -/
def ReadsOperations (tokens : List Token) (depth n : Nat) : Prop :=
  ∀ level r s left e, r.Taken tokens → s.Reading tokens → s.tokens.length ≤ n →
    ReadsExpr r s left e → level < e.rank → Stops e.rank s.words →
    Meets (Fails tokens) s (operationsAt depth level left) fun x t =>
      t.Reading tokens ∧ ∃ e', ReadsExpr r t x e' ∧ level < e'.rank ∧ Stops level t.words

theorem readsSigned_succ {depth n : Nat} (hexpr : ReadsExpressions tokens n (expressionAt depth))
    (hsound : SoundExpression n (expressionAt depth)) (hsigned : ReadsSigned tokens depth n) :
    ReadsSigned tokens (depth + 1) (n + 1) := by
  intro s hs hn
  obtain ⟨hskip, hle, nls, hnls, htokens⟩ := hs.skipNewlines
  obtain ⟨nls', hnls', hmove⟩ := moves_skipNewlines hs.ready
  refine Meets.skipNewlines_bind (Meets.current_bind ?_)
  split
  · refine (meets_calls hexpr hsound hskip (hle.trans hn)).imp fun x t ⟨ht, e, hread⟩ => ?_
    obtain ⟨ws, hmove', hspells⟩ := hread.spelled
    refine ⟨ht, e, ⟨hread.spans.lead hnls htokens, ⟨nls' ++ ws, hmove.trans hmove', ?_⟩,
      hread.keeps⟩, le_trans (by decide) hread.rank⟩
    exact ⟨nls' ++ ws, [], by simp, blank_nil, hspells.leads hnls'⟩
  · next op hop =>
    have hsign : s.skipNewlines.current.word.sign? = some op := (Token.sign?_word _).trans hop
    obtain ⟨ht, htokens', hnew⟩ := hskip.advance_of_solid (Token.isInvalid_of_sign hop)
      (Word.solid_of_sign? hsign)
    have htake := moves_word hskip.ready rfl (Word.solid_of_sign? hsign).2
    rw [htokens', List.length_cons] at hle
    refine Meets.advance_bind ((hsigned _ ht (by omega)).bind ?_)
    rintro operand u ⟨hu, e, hread, hrank⟩
    obtain ⟨_, hmove', vs, nls'', rfl, hnls'', hspells⟩ := hread.spelled
    have hall := (hmove.trans htake).trans hmove'
    rw [← List.append_assoc, List.append_assoc nls'] at hall
    have hunary : SpellsLoosely (.unary op e ())
        (nls' ++ ([s.skipNewlines.current.word] ++ vs) ++ nls'') :=
      ⟨_, nls'', rfl, hnls'', (Spells.unary hsign hspells).leads hnls'⟩
    have hspan : s.Spans u (s.skipNewlines.current.span.merge operand.span) :=
      ((Spans.single htokens' hnew).merge [] rfl hread.spans hskip.ordered_tokens).lead
        hnls htokens
    exact (meets_addExpr_read hs.toTaken hu hall hunary (.unary hread.keeps.tree)
      ⟨hrank, hread.keeps.shaped⟩ hspan).imp fun x t ⟨ht, hread', _⟩ => ⟨ht, _, hread', le_rfl⟩

theorem readsOperation_succ {depth n : Nat} (hsigned : ReadsSigned tokens depth (n + 1))
    (hrest : ReadsOperations tokens depth n) : ReadsOperation tokens (depth + 1) (n + 1) := by
  intro level hlevel s hs hn
  refine (hsigned s hs hn).bind fun left t ⟨ht, e, hread, hrank⟩ => ?_
  have hlt := hread.spans.length_lt
  exact hrest level s t left e hs.toTaken ht (by omega) hread (lt_of_lt_of_le hlevel hrank)
    (stops_of_unaryRank_le hrank _)

theorem readsOperations_succ {depth n : Nat} (hoperation : ReadsOperation tokens depth n)
    (hrest : ReadsOperations tokens depth n) : ReadsOperations tokens (depth + 1) (n + 1) := by
  intro level r s left e hr hs hn hread hrank hstops
  obtain ⟨hskip, hle, nls, hnls, htokens⟩ := hs.skipNewlines
  obtain ⟨nls', hnls', hmove⟩ := moves_skipNewlines hs.ready
  obtain ⟨_, hmove₀, ls, nls₀, rfl, hnls₀, hleft⟩ := hread.spelled
  -- the line breaks are skipped also if no operator comes
  have hstay : (∀ op, s.skipNewlines.current.word.connective? = some op → op.level < level) →
      s.skipNewlines.Reading tokens ∧ ∃ e', ReadsExpr r s.skipNewlines left e' ∧
        level < e'.rank ∧ Stops level s.skipNewlines.words := by
    intro hnext
    have hstops' := (stops_skipNewlines hs.ready).2 hnext
    rw [hmove.words, stops_append hnls'] at hstops'
    refine ⟨hskip, e, ⟨hread.spans.trail hnls htokens, ⟨_, hmove₀.trans hmove, ?_⟩,
      hread.keeps.mono hmove.code⟩, hrank, hstops'⟩
    exact ⟨ls, nls₀ ++ nls', by simp, blank_append.2 ⟨hnls₀, hnls'⟩, hleft⟩
  refine Meets.skipNewlines_bind (Meets.current_bind ?_)
  split
  · next hnone =>
    refine Meets.pure (hstay fun op hop => ?_)
    rw [Token.connective?_word, hnone] at hop
    cases hop
  · next op hop =>
    split
    · next hlevel =>
      have hword : s.skipNewlines.current.word.connective? = some op :=
        (Token.connective?_word _).trans hop
      obtain ⟨ht, htokens', -⟩ := hskip.advance_of_solid (Token.isInvalid_of_connective hop)
        (Word.solid_of_connective? hword)
      have htake := moves_word hskip.ready rfl (Word.solid_of_connective? hword).2
      have hbelow : op.rank ≤ e.rank := (stops_skipNewlines hs.ready).1 hstops op hword
      have hlt := hle
      rw [htokens', List.length_cons] at hlt
      refine Meets.advance_bind ((hoperation _ op.rank_lt_unary _ ht (by omega)).bind ?_)
      rintro right u ⟨hu, f, hright, hrankf, hstopsf⟩
      obtain ⟨_, hmove₁, rs, nls₁, rfl, hnls₁, hspells⟩ := hright.spelled
      have hmove₂ := (hmove.trans htake).trans hmove₁
      have hkeeps := hread.keeps.mono hmove₂.code
      have hboth : SpellsLoosely (op.tree e f)
          (ls ++ nls₀ ++ (nls' ++ [s.skipNewlines.current.word] ++ (rs ++ nls₁))) :=
        ⟨_, nls₁, by simp, hnls₁,
          .operation hleft (blank_append.2 ⟨hnls₀, hnls'⟩) hword hspells⟩
      have hspan : r.Spans u (left.span.merge right.span) :=
        hread.spans.merge (nls ++ [s.skipNewlines.current])
          (by rw [htokens, htokens', List.append_assoc, List.singleton_append]) hright.spans
          hr.ordered_tokens
      refine (meets_addExpr_read hr hu (hmove₀.trans hmove₂) hboth
        (.connective hkeeps.tree hright.keeps.tree)
        ((op.shaped_tree e f).2 ⟨hbelow, hrankf, hkeeps.shaped, hright.keeps.shaped⟩) hspan).bind ?_
      rintro both v ⟨hv, hreadv, hvtokens⟩
      have hlen := hright.spans.length_lt
      refine hrest level r v both _ hr hv (by rw [hvtokens]; omega) hreadv ?_ ?_
      · rw [op.rank_tree]
        exact Nat.lt_succ_of_le hlevel
      · rw [op.rank_tree, ← map_tokens, hvtokens]
        exact hstopsf
    · next hlevel =>
      refine Meets.pure (hstay fun op' hop' => ?_)
      rw [Token.connective?_word, hop] at hop'
      cases hop'
      exact Nat.lt_of_not_le hlevel

/-- The sign of an assignment is blamed after the value was read. -/
theorem readsExpressions_succ {depth n : Nat} (hoperation : ReadsOperation tokens depth (n + 1))
    (hexpr : ReadsExpressions tokens n (expressionAt depth)) :
    ReadsExpressions tokens (n + 1) (expressionAt (depth + 1)) := by
  intro s hs hn
  refine (hoperation 0 (by decide) s hs hn).bind fun target u ⟨hu, e, hread, _⟩ => ?_
  have hlt := hread.spans.length_lt
  refine Meets.check_bind ?_
  split
  · next hsign =>
    obtain ⟨ht, htokens, -⟩ := hu.advance_of_is hsign
    obtain ⟨hsign, htake⟩ := moves_of_is hu.ready hsign
    rw [htokens, List.length_cons] at hlt
    refine Meets.advance_bind ((hexpr _ ht (by omega)).bind fun value v ⟨hv, f, hvalue⟩ => ?_)
    split
    · next name hname =>
      obtain ⟨_, hmove, vs, nls, rfl, hnls, hspells⟩ := hread.spelled
      obtain ⟨_, hmove', vs', nls', rfl, hnls', hspells'⟩ := hvalue.spelled
      obtain ⟨text, htext, rfl⟩ :=
        (hread.keeps.mono (htake.trans hmove').code).toHolds.reference hname
      have hassign : SpellsLoosely (.assign text () f ())
          (vs ++ nls ++ [u.current.word] ++ (vs' ++ nls')) :=
        ⟨_, nls', by simp, hnls', .assign hspells hnls hsign hspells'⟩
      have hspan := hread.spans.merge [u.current] (by rw [htokens, List.singleton_append])
        hvalue.spans hs.ordered_tokens
      exact (meets_addExpr_read hs.toTaken hv ((hmove.trans htake).trans hmove') hassign
        (.assign htext hvalue.keeps.tree) hvalue.keeps.shaped hspan).imp
        fun x t ⟨ht, hread', _⟩ => ⟨ht, _, hread'⟩
    · exact Meets.fail ⟨(hu.fails (by simp)).1, hv.told⟩
  · exact Meets.pure ⟨hu, e, hread⟩

/-- What all four functions do within a depth, which has to be large enough as in `SoundAt`. -/
structure ReadsAt (tokens : List Token) (depth : Nat) : Prop where
  expression : ∀ n, 3 * n ≤ depth → ReadsExpressions tokens n (expressionAt depth)
  operation : ∀ n, 3 * n ≤ depth + 1 → ReadsOperation tokens depth n
  operations : ∀ n, 3 * n + 1 ≤ depth → ReadsOperations tokens depth n
  signed : ∀ n, 3 * n ≤ depth + 2 → ReadsSigned tokens depth n

theorem readsAt_of_pos {depth : Nat}
    (hexpr : ∀ n, 3 * (n + 1) ≤ depth → ReadsExpressions tokens (n + 1) (expressionAt depth))
    (hoperation : ∀ n, 3 * (n + 1) ≤ depth + 1 → ReadsOperation tokens depth (n + 1))
    (hrest : ∀ n, 3 * (n + 1) + 1 ≤ depth → ReadsOperations tokens depth (n + 1))
    (hsigned : ∀ n, 3 * (n + 1) ≤ depth + 2 → ReadsSigned tokens depth (n + 1)) :
    ReadsAt tokens depth where
  expression n hn := by
    cases n with
    | zero => exact fun s _ h => absurd h (Nat.not_succ_le_zero _)
    | succ n => exact hexpr n hn
  operation n hn := by
    cases n with
    | zero => exact fun _ _ s _ h => absurd h (Nat.not_succ_le_zero _)
    | succ n => exact hoperation n hn
  operations n hn := by
    cases n with
    | zero => exact fun _ _ s _ _ _ _ h => absurd h (Nat.not_succ_le_zero _)
    | succ n => exact hrest n hn
  signed n hn := by
    cases n with
    | zero => exact fun s _ h => absurd h (Nat.not_succ_le_zero _)
    | succ n => exact hsigned n hn

theorem readsAt (tokens : List Token) (depth : Nat) : ReadsAt tokens depth := by
  induction depth with
  | zero => apply readsAt_of_pos <;> intro n hn <;> omega
  | succ depth ih =>
    apply readsAt_of_pos <;> intro n hn
    · exact readsExpressions_succ (ih.operation _ (by omega)) (ih.expression _ (by omega))
    · exact readsOperation_succ (ih.signed _ (by omega)) (ih.operations _ (by omega))
    · exact readsOperations_succ (ih.operation _ (by omega)) (ih.operations _ (by omega))
    · exact readsSigned_succ (ih.expression _ (by omega))
        ((soundAt depth).expression _ (by omega)) (ih.signed _ (by omega))

/-- The parser of expressions reads expressions, each from the tokens under its span. -/
theorem readsExpressions_expression (n : Nat) :
    ReadsExpressions tokens n Parser.expression := by
  intro s hs _
  have hbound := hs.ready.bounded
  rw [← length_tokens] at hbound
  exact Meets.size_bind ((readsAt tokens _).expression s.tokens.length (by omega) s hs le_rfl)

end Scriptorium
