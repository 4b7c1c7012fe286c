import Scriptorium.Proofs.ListSoundness

/-!
# Expressions that a parser reads

The parser of expressions takes words that spell a shaped expression, and stores its
tree.  The four functions that call each other are given a bound on how deep they do;
it is large enough when it is three times the number of words, less one for each
function between that one and `expressionAt`.

* `soundItem_expression` — the statement about the parser of expressions.
-/

namespace Scriptorium

open Scriptorium.Parser

/-! ## What the parsers answer -/

/-- A shaped expression is stored under its number. -/
structure Code.Keeps (c : Code) (x : StoredExpr) (e : Expr Unit) : Prop extends c.Holds x e where
  shaped : e.Shaped

theorem Code.Keeps.mono {c d : Code} (h : c.Extends d) {x : StoredExpr} {e : Expr Unit}
    (hx : c.Keeps x e) : d.Keeps x e :=
  ⟨hx.toHolds.mono h, hx.shaped⟩

theorem Code.Keeps.shapedAll {c : Code} {xs : List StoredExpr} {es : List (Expr Unit)}
    (h : List.Forall₂ c.Keeps xs es) : Expr.ShapedAll es := by
  induction h with
  | nil => trivial
  | cons hx _ ih => exact ⟨hx.shaped, ih⟩

/-- An expression whose node is a variable is one. -/
theorem Code.Holds.reference {c : Code} {x : StoredExpr} {e : Expr Unit} {name : NameId}
    (h : c.Holds x e) (hx : x.node.kind = .reference name) :
    ∃ text, c.names.text? name = some text ∧ e = .reference text () := by
  obtain ⟨t, ht, rfl⟩ := h.tree
  simp only [Code.exprTree?, h.node, hx, Option.bind_eq_bind, Option.bind_some,
    Option.bind_eq_some_iff, Option.pure_def, Option.some.injEq] at ht
  obtain ⟨text, htext, rfl⟩ := ht
  exact ⟨text, htext, rfl⟩

/-- The words of an expression are some. -/
theorem Spells.ne_nil {e : Expr Unit} {ws : List Word} (h : Spells (.expr e) ws) : ws ≠ [] := by
  generalize hp : Phrase.expr e = p at h
  induction h with
  | operation | assign | call => simp
  | noArgs | oneArg | moreArgs => cases hp
  | _ => simp

/-! ## Primary expressions and calls -/

variable {s t : ParseState} {n : Nat} {expression : Parser StoredExpr}

/-- A parser of expressions for at most `n` words. -/
abbrev SoundExpression (n : Nat) (expression : Parser StoredExpr) : Prop :=
  SoundItem Code.Keeps (fun e => Spells (.expr e)) n expression

/-- The state after words are taken and an expression is stored. -/
theorem keeps_addExpr {ws : List Word} {u : ParseState} {kind : ExprKind} {span : Span}
    {x : StoredExpr} {e : Expr Unit} (hmove : Moves s ws u) (hrun : Runs (addExpr kind span) u x t)
    (hbuild : u.code.BuildsExpr kind e) (he : e.Shaped) : Moves s ws t ∧ t.code.Keeps x e := by
  obtain ⟨hstore, hholds, -⟩ := hrun.addExpr hmove.ready hbuild
  exact ⟨by simpa using hmove.trans hstore, hholds, he⟩

/-- The state after words and a literal are taken. -/
theorem keeps_literal {ws : List Word} {u : ParseState} {w : Word} {value : Literal NameId}
    {x : StoredExpr} {e : Expr Unit} (hmove : Moves s ws u) (hword : u.current.word = w)
    (hw : w.isEnd = false) (hrun : Runs (literal value) u x t)
    (hbuild : u.code.BuildsExpr (.literal value) e) (he : e.Shaped) :
    Moves s (ws ++ [w]) t ∧ t.code.Keeps x e := by
  subst hword
  rw [Token.isEnd_word] at hw
  have htake := ParseState.moves_advance hmove.ready hw
  rw [runs_literal] at hrun
  exact keeps_addExpr (hmove.trans htake) hrun (by rwa [ParseState.code_advance]) he

theorem soundPrimary (h : SoundExpression n expression) {x : StoredExpr} (hs : s.Ready)
    (hn : s.words.length ≤ n + 1) (hrun : Runs (primary expression) s x t) :
    ∃ e ws, Moves s ws t ∧ Spells (.expr e) ws ∧ t.code.Keeps x e ∧ e.rank = primaryRank := by
  obtain ⟨nls, hnls, hskip⟩ := ParseState.moves_skipNewlines hs
  obtain ⟨n, hword, hrun⟩ | ⟨text, name, u, hword, hintern, hrun⟩ | ⟨b, hword, hrun⟩ |
    ⟨text, name, u, hword, hintern, hrun⟩ | ⟨inner, u, span, hword, hinner, hclose, -, hrun⟩ :=
    runs_primary.1 hrun
  · obtain ⟨hmove, hkeeps⟩ := keeps_literal hskip hword rfl hrun (.int _ n) trivial
    exact ⟨_, _, hmove, (Spells.int n).leads hnls, hkeeps, rfl⟩
  · obtain ⟨hmove, htext⟩ := hintern.intern hskip.ready
    obtain ⟨hmove, hkeeps⟩ := keeps_literal (hskip.trans hmove) (hmove.word.trans hword) rfl hrun
      (.str htext) trivial
    rw [List.append_nil] at hmove
    exact ⟨_, _, hmove, (Spells.str text).leads hnls, hkeeps, rfl⟩
  · obtain ⟨hmove, hkeeps⟩ := keeps_literal hskip hword rfl hrun (.bool _ b) trivial
    exact ⟨_, _, hmove, (Spells.bool b).leads hnls, hkeeps, rfl⟩
  · have htake := hskip.trans (ParseState.moves_word hskip.ready hword rfl)
    obtain ⟨hmove, htext⟩ := hintern.intern htake.ready
    obtain ⟨hmove, hkeeps⟩ := keeps_addExpr (htake.trans hmove) hrun (.reference htext) trivial
    rw [List.append_nil] at hmove
    exact ⟨_, _, hmove, (Spells.reference text).leads hnls, hkeeps, rfl⟩
  · have htake := hskip.trans (ParseState.moves_word hskip.ready hword rfl)
    have hlen := htake.length
    rw [List.length_append, List.length_singleton] at hlen
    obtain ⟨e, ws, nls₁, hmove, hnls₁, hspells, hkeeps⟩ := h _ _ _ htake.ready (by omega) hinner
    obtain ⟨nls₂, hnls₂, hskip'⟩ := ParseState.moves_skipNewlines hmove.ready
    obtain ⟨hclose, hlast⟩ := ParseState.moves_of_is hskip'.ready hclose
    obtain ⟨hmove, hgroup⟩ := keeps_addExpr (((htake.trans hmove).trans hskip').trans hlast) hrun
      (.group (hkeeps.mono (hskip'.trans hlast).code).tree) hkeeps.shaped
    exact ⟨_, _, by simpa using hmove,
      (Spells.group hspells (blank_append.2 ⟨hnls₁, hnls₂⟩) hclose).leads hnls, hgroup, rfl⟩

/-- The argument lists that follow a callee extend its spelling. -/
theorem soundCallsFrom (h : SoundExpression n expression) :
    ∀ (fuel : Nat) {s t : ParseState} {callee x : StoredExpr} {e : Expr Unit}, s.Ready →
      s.words.length ≤ n + 1 → s.code.Keeps callee e → callRank ≤ e.rank →
      Runs (callsFrom expression fuel callee) s x t →
      ∃ e' vs, Moves s vs t ∧ (∀ ws, Spells (.expr e) ws → Spells (.expr e') (ws ++ vs)) ∧
        t.code.Keeps x e' ∧ callRank ≤ e'.rank := by
  intro fuel
  induction fuel with
  | zero =>
    intro s t callee x e hs _ hkeeps hrank hrun
    obtain ⟨rfl, rfl⟩ := runs_pure.1 hrun
    exact ⟨e, [], .refl hs, by simp, hkeeps, hrank⟩
  | succ fuel ih =>
    intro s t callee x e hs hn hkeeps hrank hrun
    rw [runs_callsFrom] at hrun
    split at hrun
    · next hopen =>
      obtain ⟨args, u, slice, v, called, w, hitems, hslice, hcall, hrest⟩ := hrun
      obtain ⟨hopen, htake⟩ := ParseState.moves_of_is hs hopen
      have hlen := htake.length
      rw [List.length_singleton] at hlen
      obtain ⟨es, vs, nls, closing, hargs, hsep, hcount, hnls, hclose, hmove⟩ :=
        h.items (fun _ _ _ _ hcd => Code.Keeps.mono hcd) (fun _ _ _ => Spells.leads) htake.ready
          (by omega) hitems
      obtain ⟨hstore, hslice⟩ := hslice.addExprs hmove.ready
      have hall := (htake.trans hmove).trans hstore
      have hargs' : List.Forall₂ v.code.HasExpr (args.map StoredExpr.id) es :=
        List.forall₂_map_left_iff.2 (hargs.imp fun _ _ hk => (hk.mono hstore.code).tree)
      obtain ⟨hmove', hcalled⟩ := keeps_addExpr hall hcall
        (.call (hkeeps.mono hall.code).tree hslice hargs')
        ⟨hrank, hcount, hkeeps.shaped, Code.Keeps.shapedAll hargs⟩
      have hlen' := hmove'.length
      obtain ⟨e', vs', hmoves, hspells, hkeeps', hrank'⟩ :=
        ih hmove'.ready (by omega) hcalled le_rfl hrest
      refine ⟨e', _, hmove'.trans hmoves, ?_, hkeeps', hrank'⟩
      intro ws hws
      have := hspells _ (Spells.call hws hopen (Spells.ofSeparated hsep) hnls hclose)
      simpa using this
    · obtain ⟨rfl, rfl⟩ := hrun
      exact ⟨e, [], .refl hs, by simp, hkeeps, hrank⟩

theorem soundCalls (h : SoundExpression n expression) {x : StoredExpr} (hs : s.Ready)
    (hn : s.words.length ≤ n + 1) (hrun : Runs (calls expression) s x t) :
    ∃ e ws, Moves s ws t ∧ Spells (.expr e) ws ∧ t.code.Keeps x e ∧ callRank ≤ e.rank := by
  obtain ⟨callee, u, hprimary, hrest⟩ := runs_calls.1 hrun
  obtain ⟨e, ws, hmove, hspells, hkeeps, hrank⟩ := soundPrimary h hs hn hprimary
  have hlen := hmove.length
  obtain ⟨e', vs, hmoves, hextend, hkeeps', hrank'⟩ :=
    soundCallsFrom h u.size hmove.ready (by omega) hkeeps (by rw [hrank]; decide) hrest
  exact ⟨e', ws ++ vs, hmove.trans hmoves, hextend _ hspells, hkeeps', hrank'⟩

/-! ## Operators -/

/-- The words spell the expression, and line breaks may follow. -/
def SpellsLoosely (e : Expr Unit) (ws : List Word) : Prop :=
  ∃ vs nls, ws = vs ++ nls ∧ Blank nls ∧ Spells (.expr e) vs

/-- What the parser of operands with signs does on at most `n` words. -/
def SoundSigned (depth n : Nat) : Prop :=
  ∀ s x t, s.Ready → s.words.length ≤ n → Runs (signedAt depth) s x t →
    ∃ e ws, Moves s ws t ∧ Spells (.expr e) ws ∧ t.code.Keeps x e ∧ unaryRank ≤ e.rank

/-- What the parser of operations does on at most `n` words: its answer is above the
step that was asked for, and no operator that it should have taken comes next. -/
def SoundOperation (depth n : Nat) : Prop :=
  ∀ level s x t, level < unaryRank → s.Ready → s.words.length ≤ n →
    Runs (operationAt depth level) s x t →
    ∃ e ws, Moves s ws t ∧ SpellsLoosely e ws ∧ t.code.Keeps x e ∧ level < e.rank ∧
      Stops level t.words

/-- What the parser of the operators after an operand does on at most `n` words: the
spelling of the operand is extended. -/
def SoundOperations (depth n : Nat) : Prop :=
  ∀ level s left e x t, s.Ready → s.words.length ≤ n → s.code.Keeps left e → level < e.rank →
    Stops e.rank s.words → Runs (operationsAt depth level left) s x t →
    ∃ e' vs, Moves s vs t ∧ (∀ ws, SpellsLoosely e ws → SpellsLoosely e' (ws ++ vs)) ∧
      t.code.Keeps x e' ∧ level < e'.rank ∧ Stops level t.words

theorem soundSigned_succ {depth : Nat} (hexpr : SoundExpression n (expressionAt depth))
    (hsigned : SoundSigned depth n) : SoundSigned (depth + 1) (n + 1) := by
  intro s x t hs hn hrun
  obtain ⟨nls, hnls, hskip⟩ := ParseState.moves_skipNewlines hs
  have hlen := hskip.length
  obtain ⟨-, hcalls⟩ | ⟨op, hsign, operand, u, hoperand, hrun⟩ := runs_signedAt.1 hrun
  · obtain ⟨e, ws, hmove, hspells, hkeeps, hrank⟩ :=
      soundCalls hexpr hskip.ready (by omega) hcalls
    exact ⟨e, nls ++ ws, hskip.trans hmove, hspells.leads hnls, hkeeps,
      le_trans (by decide) hrank⟩
  · have htake := ParseState.moves_word hskip.ready rfl (Word.solid_of_sign? hsign).2
    have hlen' := htake.length
    rw [List.length_singleton] at hlen'
    obtain ⟨e, ws, hmove, hspells, hkeeps, hrank⟩ := hsigned _ _ _ htake.ready (by omega) hoperand
    obtain ⟨hmove, hunary⟩ := keeps_addExpr ((hskip.trans htake).trans hmove) hrun
      (.unary hkeeps.tree) ⟨hrank, hkeeps.shaped⟩
    exact ⟨_, _, hmove, by simpa using (Spells.unary hsign hspells).leads hnls, hunary, le_rfl⟩

theorem soundOperation_succ {depth : Nat} (hsigned : SoundSigned depth (n + 1))
    (hrest : SoundOperations depth n) : SoundOperation (depth + 1) (n + 1) := by
  intro level s x t hlevel hs hn hrun
  obtain ⟨left, u, hleft, hrun⟩ := runs_operationAt.1 hrun
  obtain ⟨e, ws, hmove, hspells, hkeeps, hrank⟩ := hsigned _ _ _ hs hn hleft
  have hlen := hmove.length
  have hws := List.length_pos_iff.2 hspells.ne_nil
  obtain ⟨e', vs, hmoves, hextend, hkeeps', hrank', hstops⟩ :=
    hrest level u left e x t hmove.ready (by omega) hkeeps (lt_of_lt_of_le hlevel hrank)
      (stops_of_unaryRank_le hrank _) hrun
  have hloose : SpellsLoosely e ws := ⟨ws, [], by simp, blank_nil, hspells⟩
  exact ⟨e', ws ++ vs, hmove.trans hmoves, hextend _ hloose, hkeeps', hrank', hstops⟩

theorem soundOperations_succ {depth : Nat} (hoperation : SoundOperation depth n)
    (hrest : SoundOperations depth n) : SoundOperations (depth + 1) (n + 1) := by
  intro level s left e x t hs hn hkeeps hrank hstops hrun
  obtain ⟨nls, hnls, hskip⟩ := ParseState.moves_skipNewlines hs
  have hlen := hskip.length
  obtain ⟨rfl, rfl, hnext⟩ | ⟨op, hop, hlevel, right, u, both, v, hright, hboth, hrun⟩ :=
    runs_operationsAt.1 hrun
  · have hnext' := (stops_skipNewlines hs).2 hnext
    rw [hskip.words, stops_append hnls] at hnext'
    refine ⟨e, nls, hskip, ?_, hkeeps.mono hskip.code, hrank, hnext'⟩
    rintro _ ⟨vs, nls', rfl, hnls', hspells⟩
    exact ⟨vs, nls' ++ nls, by simp, blank_append.2 ⟨hnls', hnls⟩, hspells⟩
  · have htake := ParseState.moves_word hskip.ready rfl (Word.solid_of_connective? hop).2
    have hlen' := htake.length
    rw [List.length_singleton] at hlen'
    have hbelow : op.rank ≤ e.rank := (stops_skipNewlines hs).1 hstops op hop
    obtain ⟨r, ws, hmove, ⟨rs, nls', rfl, hnls', hspells⟩, hkeepsr, hrankr, hstopsr⟩ :=
      hoperation _ _ _ _ op.rank_lt_unary htake.ready (by omega) hright
    have hall := (hskip.trans htake).trans hmove
    have hleft := hkeeps.mono hall.code
    obtain ⟨hmove', hkeeps'⟩ := keeps_addExpr hall hboth (.connective hleft.tree hkeepsr.tree)
      ((op.shaped_tree e r).2 ⟨hbelow, hrankr, hleft.shaped, hkeepsr.shaped⟩)
    have hlen'' := hmove'.length
    simp only [List.length_append, List.length_singleton] at hlen''
    have hstops' : Stops (op.tree e r).rank v.words := by
      rw [op.rank_tree, hmove'.words_eq hall.words]
      exact hstopsr
    obtain ⟨e', vs, hmoves, hextend, hkeeps'', hrank', hfinal⟩ :=
      hrest level v both _ x t hmove'.ready (by omega) hkeeps'
        (by rw [op.rank_tree]; exact Nat.lt_succ_of_le hlevel) hstops' hrun
    refine ⟨e', _, hmove'.trans hmoves, ?_, hkeeps'', hrank', hfinal⟩
    rintro _ ⟨ls, nls'', rfl, hnls'', hleft⟩
    have hboth := Spells.operation hleft (blank_append.2 ⟨hnls'', hnls⟩) hop hspells
    have := hextend _ ⟨_, nls', rfl, hnls', hboth⟩
    simpa using this

theorem soundExpression_succ {depth : Nat} (hoperation : SoundOperation depth (n + 1))
    (hexpr : SoundExpression n (expressionAt depth)) :
    SoundExpression (n + 1) (expressionAt (depth + 1)) := by
  intro s x t hs hn hrun
  obtain ⟨target, u, htarget, hrun⟩ := runs_expressionAt.1 hrun
  obtain ⟨e, _, hmove, ⟨ws, nls, rfl, hnls, hspells⟩, hkeeps, -, -⟩ :=
    hoperation 0 s target u (by decide) hs hn htarget
  rw [runs_assignment] at hrun
  split at hrun
  · next hsign =>
    obtain ⟨value, v, name, hvalue, hkind, hrun⟩ := hrun
    obtain ⟨hsign, htake⟩ := ParseState.moves_of_is hmove.ready hsign
    have hall := hmove.trans htake
    have hlen := hall.length
    simp only [List.length_append, List.length_singleton] at hlen
    obtain ⟨r, vs, nls', hmoves, hnls', hvspells, hvalue⟩ :=
      hexpr _ _ _ hall.ready (by omega) hvalue
    obtain ⟨text, htext, rfl⟩ := (hkeeps.mono (htake.trans hmoves).code).reference hkind
    obtain ⟨hmove', hassign⟩ := keeps_addExpr (hall.trans hmoves) hrun (.assign htext hvalue.tree)
      hvalue.shaped
    exact ⟨_, _, nls', by simpa using hmove', hnls', .assign hspells hnls hsign hvspells, hassign⟩
  · obtain ⟨rfl, rfl⟩ := hrun
    exact ⟨e, ws, nls, hmove, hnls, hspells, hkeeps⟩

/-- What all four functions do within a depth.  A function that calls another before it
takes a word needs more depth for as many words. -/
structure SoundAt (depth : Nat) : Prop where
  expression : ∀ n, 3 * n ≤ depth → SoundExpression n (expressionAt depth)
  operation : ∀ n, 3 * n ≤ depth + 1 → SoundOperation depth n
  operations : ∀ n, 3 * n + 1 ≤ depth → SoundOperations depth n
  signed : ∀ n, 3 * n ≤ depth + 2 → SoundSigned depth n

/-- No state has no words, so nothing is claimed for that number. -/
theorem soundAt_of_pos {depth : Nat}
    (hexpr : ∀ n, 3 * (n + 1) ≤ depth → SoundExpression (n + 1) (expressionAt depth))
    (hoperation : ∀ n, 3 * (n + 1) ≤ depth + 1 → SoundOperation depth (n + 1))
    (hrest : ∀ n, 3 * (n + 1) + 1 ≤ depth → SoundOperations depth (n + 1))
    (hsigned : ∀ n, 3 * (n + 1) ≤ depth + 2 → SoundSigned depth (n + 1)) : SoundAt depth where
  expression n hn := by
    cases n with
    | zero => exact fun s _ _ hs h _ => absurd hs.pos (by omega)
    | succ n => exact hexpr n hn
  operation n hn := by
    cases n with
    | zero => exact fun _ s _ _ _ hs h _ => absurd hs.pos (by omega)
    | succ n => exact hoperation n hn
  operations n hn := by
    cases n with
    | zero => exact fun _ s _ _ _ _ hs h _ _ _ _ => absurd hs.pos (by omega)
    | succ n => exact hrest n hn
  signed n hn := by
    cases n with
    | zero => exact fun s _ _ hs h _ => absurd hs.pos (by omega)
    | succ n => exact hsigned n hn

theorem soundAt (depth : Nat) : SoundAt depth := by
  induction depth with
  | zero => apply soundAt_of_pos <;> intro n hn <;> omega
  | succ depth ih =>
    apply soundAt_of_pos <;> intro n hn
    · exact soundExpression_succ (ih.operation _ (by omega)) (ih.expression _ (by omega))
    · exact soundOperation_succ (ih.signed _ (by omega)) (ih.operations _ (by omega))
    · exact soundOperations_succ (ih.operation _ (by omega)) (ih.operations _ (by omega))
    · exact soundSigned_succ (ih.expression _ (by omega)) (ih.signed _ (by omega))

/-- The parser of expressions reads expressions. -/
theorem soundItem_expression (n : Nat) : SoundExpression n Parser.expression := by
  intro s x t hs hn hrun
  rw [runs_expression] at hrun
  have hbound := hs.bounded
  exact (soundAt _).expression s.words.length (by omega) s x t hs le_rfl hrun

end Scriptorium
