import Scriptorium.Proofs.ExpressionSoundness

/-!
# Statements that a parser reads

The parser of statements takes words that spell a shaped statement, and stores its
tree.  Line breaks may be taken after it, since it looks for an `else` behind them.

* `Trails` — the line breaks that are taken after a statement;
* `StmtRead` — a statement was read between two states;
* `sound_statementAt` — the statement about the parser of statements.
-/

namespace Scriptorium

open Scriptorium.Parser

/-! ## What the parsers answer -/

/-- After a statement that ends in a conditional without `else`, all line breaks are taken and
no `else` comes next; after any other statement nothing is taken. -/
structure Trails (opn : Bool) (nls next : List Word) : Prop where
  closed : opn = false → nls = []
  all : opn = true → skipBlank next = next
  noElse : opn = true → ¬ Faces "else" next

theorem Trails.none {next : List Word} : Trails false [] next := ⟨fun _ => rfl, nofun, nofun⟩

/-- A shaped statement was read between the states `s` and `t` and stored under a
number, and the line breaks were taken that come after it. -/
structure StmtRead (inFunction : Bool) (s : ParseState) (id : StmtId) (t : ParseState)
    (b : Stmt Unit) : Prop where
  spelled : ∃ o ws nls, Moves s (ws ++ nls) t ∧ Blank nls ∧ SpellsStmt (.stmt o b) ws ∧
    Trails o nls t.words
  stored : t.code.HasStmt id b
  shaped : b.Shaped inFunction

/-- A statement that ends in a conditional without `else` is spelled as one. -/
theorem opn_of_endsOpen {p : StmtPhrase} {ws : List Word} (h : SpellsStmt p ws) :
    ∀ o b, p = .stmt o b → b.endsOpen = true → o = true := by
  induction h with
  | lead _ _ ih => exact ih
  | branch => rintro o b ⟨⟩ _; rfl
  | branchElse _ _ _ _ _ _ _ _ _ ih => rintro o b ⟨⟩ h; exact ih _ _ rfl h
  | loop _ _ _ _ ih => rintro o b ⟨⟩ h; exact ih _ _ rfl h
  | @forLoop _ first cond last body _ _ _ _ _ _ _ _ _ _ _ _ _ _ _ _ ih =>
    rintro o b ⟨⟩ h
    cases first with
    | some first => exact absurd h (by simp [lowerFor, Stmt.endsOpen])
    | none =>
      cases last with
      | some last => exact absurd h (by simp [lowerFor, lowerLoop, lowerBody, Stmt.endsOpen])
      | none => exact ih _ _ rfl h
  | expression | declare | initialise | block | function | ret =>
    rintro o b ⟨⟩ h
    exact absurd h (by simp [Stmt.endsOpen])
  | nil | cons | noFirst | first => rintro o b ⟨⟩

variable {s t u : ParseState} {n : Nat} {inFunction : Bool} {id : StmtId}

/-- The state after words are taken and a statement is stored. -/
theorem hasStmt_addStmtFrom {ws : List Word} {kind : StmtKind} {first : Span} {b : Stmt Unit}
    (hmove : Moves s ws u) (hrun : Runs (addStmtFrom kind first) u id t)
    (hbuild : u.code.BuildsStmt kind b) : Moves s ws t ∧ t.code.HasStmt id b := by
  rw [runs_addStmtFrom] at hrun
  obtain ⟨hstore, hhas⟩ := hrun.addStmt hmove.ready hbuild
  exact ⟨by simpa using hmove.trans hstore, hhas⟩

/-- A statement whose last word is taken was read, once it is stored. -/
theorem stmtRead_addStmtFrom {o : Bool} {ws nls : List Word} {kind : StmtKind} {first : Span}
    {b : Stmt Unit} (hmove : Moves s (ws ++ nls) u) (hrun : Runs (addStmtFrom kind first) u id t)
    (hbuild : u.code.BuildsStmt kind b) (hnls : Blank nls) (hspells : SpellsStmt (.stmt o b) ws)
    (htrails : Trails o nls u.words) (hshaped : b.Shaped inFunction) :
    StmtRead inFunction s id t b := by
  obtain ⟨hmove', hhas⟩ := hasStmt_addStmtFrom hmove hrun hbuild
  have hwords := hmove'.words_eq hmove.words
  exact ⟨⟨o, ws, nls, hmove', hnls, hspells, by rwa [hwords]⟩, hhas, hshaped⟩

theorem StmtRead.lead {nls : List Word} {b : Stmt Unit} (hmove : Moves s nls u) (hnls : Blank nls)
    (h : StmtRead inFunction u id t b) : StmtRead inFunction s id t b := by
  obtain ⟨⟨o, ws, nls', hmoves, hnls', hspells, htrails⟩, hstored, hshaped⟩ := h
  exact ⟨⟨o, nls ++ ws, nls', by simpa using hmove.trans hmoves, hnls', hspells.leads hnls,
    htrails⟩, hstored, hshaped⟩

theorem SpellsStmt.ne_nil {o : Bool} {b : Stmt Unit} {ws : List Word}
    (h : SpellsStmt (.stmt o b) ws) : ws ≠ [] := by
  cases h <;> simp

/-- Less is left after a statement. -/
theorem StmtRead.length_lt {b : Stmt Unit} (h : StmtRead inFunction s id t b) :
    t.words.length < s.words.length := by
  obtain ⟨o, ws, nls, hmove, -, hspells, -⟩ := h.spelled
  have hlen := hmove.length
  have hpos := List.length_pos_iff.2 hspells.ne_nil
  rw [List.length_append] at hlen
  omega

/-! ## Simple statements -/

/-- The mark that ends a statement or a clause, after line breaks. -/
theorem moves_mark (hs : s.Ready) {mark : String} (h : s.skipNewlines.current.is mark = true) :
    ∃ nls w, Blank nls ∧ w.is mark = true ∧ Moves s (nls ++ [w]) s.skipNewlines.advance := by
  obtain ⟨nls, hnls, hskip⟩ := ParseState.moves_skipNewlines hs
  obtain ⟨hmark, htake⟩ := ParseState.moves_of_is hskip.ready h
  exact ⟨nls, _, hnls, hmark, hskip.trans htake⟩

/-- A statement that may be the first clause of a loop was read between the states. -/
structure SimpleRead (inFunction : Bool) (s : ParseState) (id : StmtId) (t : ParseState)
    (b : Stmt Unit) : Prop where
  spelled : ∃ ws, Moves s ws t ∧ SpellsStmt (.stmt false b) ws
  stored : t.code.HasStmt id b
  shaped : b.Shaped inFunction
  simple : b.isSimple = true

theorem SimpleRead.stmtRead {b : Stmt Unit} (h : SimpleRead inFunction s id t b) :
    StmtRead inFunction s id t b := by
  obtain ⟨ws, hmove, hspells⟩ := h.spelled
  exact ⟨⟨false, ws, [], by simpa using hmove, blank_nil, hspells, .none⟩, h.stored, h.shaped⟩

theorem sound_expressionStatement (hs : s.Ready) (hrun : Runs expressionStatement s id t) :
    ∃ b, SimpleRead inFunction s id t b ∧ b.isVariable = false := by
  obtain ⟨x, u, hexpr, hsemi, hrun⟩ := runs_expressionStatement.1 hrun
  obtain ⟨e, ws, nls, hmove, hnls, hspells, hkeeps⟩ :=
    soundItem_expression _ _ _ _ hs le_rfl hexpr
  obtain ⟨nls', w, hnls', hw, hmark⟩ := moves_mark hmove.ready hsemi
  obtain ⟨hmove', hstored⟩ := hasStmt_addStmtFrom (hmove.trans hmark) hrun
    (.expression (hkeeps.mono hmark.code).tree)
  refine ⟨_, ⟨⟨_, hmove', ?_⟩, hstored, hkeeps.shaped, rfl⟩, rfl⟩
  simpa using SpellsStmt.expression hspells (blank_append.2 ⟨hnls, hnls'⟩) hw

theorem sound_variableDeclaration (hs : s.Ready) (hvar : s.current.is "var" = true)
    (hrun : Runs variableDeclaration s id t) : ∃ b, SimpleRead inFunction s id t b := by
  obtain ⟨name, u, hident, init, v, hinit, hsemi, hrun⟩ := runs_variableDeclaration.1 hrun
  obtain ⟨hkw, htake⟩ := ParseState.moves_of_is hs hvar
  obtain ⟨text, ns, hmove, hname, htext⟩ := sound_identifier htake.ready hident
  have hall := htake.trans hmove
  split at hinit
  · next hsign =>
    obtain ⟨x, hvalue, rfl⟩ := hinit
    obtain ⟨hsign, hpass⟩ := ParseState.moves_of_is hall.ready hsign
    obtain ⟨e, ws, nls, hmoves, hnls, hspells, hkeeps⟩ :=
      soundItem_expression _ _ _ _ hpass.ready le_rfl hvalue
    obtain ⟨nls', w, hnls', hw, hmark⟩ := moves_mark hmoves.ready hsemi
    have hto := ((hall.trans hpass).trans hmoves).trans hmark
    have htext' := ((hpass.trans hmoves).trans hmark).code.text?_eq htext
    obtain ⟨hmove', hstored⟩ := hasStmt_addStmtFrom hto hrun
      (.declare htext' (.some (hkeeps.mono hmark.code).tree))
    refine ⟨_, ⟨_, hmove', ?_⟩, hstored, by rintro _ ⟨⟩; exact hkeeps.shaped, rfl⟩
    simpa using SpellsStmt.initialise hkw hname hsign hspells (blank_append.2 ⟨hnls, hnls'⟩) hw
  · obtain ⟨rfl, rfl⟩ := hinit
    obtain ⟨nls', w, hnls', hw, hmark⟩ := moves_mark hall.ready hsemi
    obtain ⟨hmove', hstored⟩ := hasStmt_addStmtFrom (hall.trans hmark) hrun
      (.declare (hmark.code.text?_eq htext) .none)
    refine ⟨_, ⟨_, hmove', ?_⟩, hstored, by simp [Stmt.Shaped], rfl⟩
    simpa using SpellsStmt.declare hkw hname hnls' hw

/-! ## Conditions and clauses -/

theorem sound_condition {x : StoredExpr} (hs : s.Ready) (hrun : Runs condition s x t) :
    ∃ e ws, Moves s ws t ∧ SpellsCondition e ws ∧ t.code.Keeps x e := by
  obtain ⟨hopen, u, hexpr, hclose, rfl⟩ := runs_condition.1 hrun
  obtain ⟨nls₁, w₁, hnls₁, hw₁, hfirst⟩ := moves_mark hs hopen
  obtain ⟨e, ws, nls, hmove, hnls, hspells, hkeeps⟩ :=
    soundItem_expression _ _ _ _ hfirst.ready le_rfl hexpr
  obtain ⟨nls₂, w₂, hnls₂, hw₂, hlast⟩ := moves_mark hmove.ready hclose
  refine ⟨e, _, (hfirst.trans hmove).trans hlast, ?_, hkeeps.mono hlast.code⟩
  simpa using SpellsCondition.mk hnls₁ hw₁ hspells (blank_append.2 ⟨hnls, hnls₂⟩) hw₂

theorem sound_forClause {mark : String} {clause : Option StoredExpr} (hs : s.Ready)
    (hrun : Runs (forClause mark) s clause t) :
    ∃ e ws, Moves s ws t ∧ SpellsClause mark e ws ∧ Option.Rel t.code.Keeps clause e := by
  obtain ⟨u, hclause, hmark, rfl⟩ := runs_forClause.1 hrun
  obtain ⟨nls, hnls, hskip⟩ := ParseState.moves_skipNewlines hs
  split at hclause
  · obtain ⟨rfl, rfl⟩ := hclause
    obtain ⟨nls', w, hnls', hw, hlast⟩ := moves_mark hskip.ready hmark
    refine ⟨none, _, hskip.trans hlast, ?_, .none⟩
    simpa using SpellsClause.none (blank_append.2 ⟨hnls, hnls'⟩) hw
  · obtain ⟨x, hexpr, rfl⟩ := hclause
    obtain ⟨e, ws, nls₁, hmove, hnls₁, hspells, hkeeps⟩ :=
      soundItem_expression _ _ _ _ hskip.ready le_rfl hexpr
    obtain ⟨nls', w, hnls', hw, hlast⟩ := moves_mark hmove.ready hmark
    refine ⟨some e, _, (hskip.trans hmove).trans hlast, ?_, .some (hkeeps.mono hlast.code)⟩
    simpa using SpellsClause.some (hspells.leads hnls) (blank_append.2 ⟨hnls₁, hnls'⟩) hw

/-- The trees of a clause, and that they are shaped. -/
theorem rel_keeps {c : Code} {clause : Option StoredExpr} {e : Option (Expr Unit)}
    (h : Option.Rel c.Keeps clause e) :
    Option.Rel c.HasExpr (clause.map StoredExpr.id) e ∧ ∀ t ∈ e, t.Shaped := by
  cases h with
  | none => exact ⟨.none, by simp⟩
  | some h => exact ⟨.some h.tree, by rintro _ ⟨⟩; exact h.shaped⟩

theorem sound_returnStatement (hs : s.Ready) (hret : s.current.is "return" = true)
    (hrun : Runs (returnStatement inFunction) s id t) :
    ∃ b, StmtRead inFunction s id t b ∧ b.isVariable = false := by
  obtain ⟨hin, value, u, hclause, hrun⟩ := runs_returnStatement.1 hrun
  obtain ⟨hkw, htake⟩ := ParseState.moves_of_is hs hret
  obtain ⟨e, ws, hmove, hspells, hkeeps⟩ := sound_forClause htake.ready hclause
  obtain ⟨htrees, hshaped⟩ := rel_keeps hkeeps
  have hto : Moves s (([s.current.word] ++ ws) ++ []) u := by simpa using htake.trans hmove
  exact ⟨_, stmtRead_addStmtFrom hto hrun (.ret htrees) blank_nil (.ret hkw hspells) .none
    ⟨hin, hshaped⟩, rfl⟩

/-! ## Blocks -/

/-- A parser of statements for at most `n` words. -/
def SoundStatement (inFunction : Bool) (n : Nat) (statement : Parser StmtId) : Prop :=
  ∀ s id t, s.Ready → s.words.length ≤ n → Runs statement s id t →
    ∃ b, StmtRead inFunction s id t b ∧ b.isVariable = false

theorem sound_declaration {statement : Parser StmtId} (h : SoundStatement inFunction n statement)
    (hs : s.Ready) (hn : s.words.length ≤ n) (hrun : Runs (declaration statement) s id t) :
    ∃ b, StmtRead inFunction s id t b := by
  rw [runs_declaration] at hrun
  obtain ⟨nls, hnls, hskip⟩ := ParseState.moves_skipNewlines hs
  have hlen := hskip.length
  split at hrun
  · next hvar =>
    obtain ⟨b, hread⟩ := sound_variableDeclaration hskip.ready hvar hrun
    exact ⟨b, hread.stmtRead.lead hskip hnls⟩
  · obtain ⟨b, hread, -⟩ := h _ _ _ hskip.ready (by omega) hrun
    exact ⟨b, hread.lead hskip hnls⟩

/-- The words spell the body of a block, and line breaks may follow. -/
def SpellsBody (bs : List (Stmt Unit)) (ws : List Word) : Prop :=
  ∃ vs nls, ws = vs ++ nls ∧ Blank nls ∧ SpellsStmt (.body bs) vs

theorem spellsBody_blank {nls : List Word} (h : Blank nls) : SpellsBody [] nls :=
  ⟨[], nls, rfl, h, .nil⟩

theorem SpellsBody.lead {bs : List (Stmt Unit)} {nls ws : List Word} (hnls : Blank nls)
    (h : SpellsBody bs ws) : SpellsBody bs (nls ++ ws) := by
  obtain ⟨vs, nls', rfl, hnls', hbody⟩ := h
  cases hbody with
  | nil => exact spellsBody_blank (blank_append.2 ⟨hnls, hnls'⟩)
  | cons hfirst hrest =>
    exact ⟨_, nls', by simp, hnls', .cons (hfirst.leads hnls) hrest⟩

theorem SpellsBody.cons {o : Bool} {b : Stmt Unit} {bs : List (Stmt Unit)} {ws vs : List Word}
    (hb : SpellsStmt (.stmt o b) ws) (h : SpellsBody bs vs) : SpellsBody (b :: bs) (ws ++ vs) := by
  obtain ⟨vs, nls, rfl, hnls, hbody⟩ := h
  exact ⟨ws ++ vs, nls, by simp, hnls, .cons hb hbody⟩

theorem sound_declarationsFrom {statement : Parser StmtId} {opening : Token}
    (h : SoundStatement inFunction n statement) :
    ∀ (fuel : Nat) {s t : ParseState} {seen ids : List StmtId}, s.Ready → s.words.length ≤ n →
      Runs (declarationsFrom opening statement fuel seen) s ids t →
      ∃ as bs ws closing, ids = seen.reverse ++ as ∧ List.Forall₂ t.code.HasStmt as bs ∧
        Moves s (ws ++ [closing]) t ∧ SpellsBody bs ws ∧ closing.is "\x7d" = true ∧
        Stmt.ShapedAll inFunction bs := by
  intro fuel
  induction fuel with
  | zero => exact fun _ _ hrun => absurd hrun runs_fail
  | succ fuel ih =>
    intro s t seen ids hs hn hrun
    rw [runs_declarationsFrom] at hrun
    split at hrun
    · next hclose =>
      obtain ⟨rfl, rfl⟩ := hrun
      obtain ⟨nls, w, hnls, hw, hmove⟩ := moves_mark hs hclose
      exact ⟨[], [], nls, w, by simp, .nil, hmove, spellsBody_blank hnls, hw, trivial⟩
    · obtain ⟨-, id, u, hdecl, hrest⟩ := hrun
      obtain ⟨nls, hnls, hskip⟩ := ParseState.moves_skipNewlines hs
      have hlen := hskip.length
      obtain ⟨b, hread⟩ := sound_declaration h hskip.ready (by omega) hdecl
      obtain ⟨⟨o, ws, nls', hmove, hnls', hspells, -⟩, hstored, hshaped⟩ := hread.lead hskip hnls
      have hlen' := hmove.length
      obtain ⟨as, bs, vs, closing, rfl, hstoreds, hmoves, hbody, hclosing, hshapeds⟩ :=
        ih hmove.ready (by omega) hrest
      exact ⟨id :: as, b :: bs, ws ++ (nls' ++ vs), closing, by simp,
        .cons (hstored.mono hmoves.code) hstoreds, by simpa using hmove.trans hmoves,
        .cons hspells (hbody.lead hnls'), hclosing, hshaped, hshapeds⟩

/-- A body and its closing brace, and the list that holds its statements. -/
theorem sound_blockBody {statement : Parser StmtId} {opening : Token} {slice : Slice StmtId}
    (h : SoundStatement inFunction n statement) (hs : s.Ready) (hn : s.words.length ≤ n)
    (hrun : Runs (blockBody opening statement) s slice t) :
    ∃ ids bs ws nls closing, t.code.arena.stmtsIn? slice = some ids ∧
      List.Forall₂ t.code.HasStmt ids bs ∧ Moves s (ws ++ nls ++ [closing]) t ∧
      SpellsStmt (.body bs) ws ∧ Blank nls ∧ closing.is "\x7d" = true ∧
      Stmt.ShapedAll inFunction bs := by
  obtain ⟨ids, u, hdecls, hslice⟩ := runs_blockBody.1 hrun
  obtain ⟨as, bs, ws, closing, hids, hstored, hmove, ⟨vs, nls, rfl, hnls, hbody⟩, hclosing,
    hshaped⟩ := sound_declarationsFrom h _ hs hn hdecls
  obtain ⟨hstore, hlist⟩ := hslice.addStmts hmove.ready
  rw [hids] at hlist
  exact ⟨as, bs, vs, nls, closing, hlist,
    hstored.imp fun _ _ hb => hb.mono hstore.code, by simpa using hmove.trans hstore, hbody, hnls,
    hclosing, hshaped⟩

theorem sound_blockStatement {statement : Parser StmtId}
    (h : SoundStatement inFunction n statement) (hs : s.Ready) (hn : s.words.length ≤ n + 1)
    (hopen : s.current.is "\x7b" = true) (hrun : Runs (blockStatement statement) s id t) :
    ∃ b, StmtRead inFunction s id t b ∧ b.isVariable = false := by
  obtain ⟨slice, u, hbody, hrun⟩ := runs_blockStatement.1 hrun
  obtain ⟨hopen, htake⟩ := ParseState.moves_of_is hs hopen
  have hlen := htake.length
  rw [List.length_singleton] at hlen
  obtain ⟨ids, bs, ws, nls, closing, hlist, hstored, hmove, hspells, hnls, hclosing, hshaped⟩ :=
    sound_blockBody h htake.ready (by omega) hbody
  have hto : Moves s ((s.current.word :: (ws ++ nls ++ [closing])) ++ []) u := by
    simpa using htake.trans hmove
  exact ⟨_, stmtRead_addStmtFrom hto hrun (.block hlist hstored) blank_nil
    (.block hopen hspells hnls hclosing) .none hshaped, rfl⟩

/-! ## Compound statements -/

theorem sound_loopStatement {statement : Parser StmtId}
    (h : SoundStatement inFunction n statement) (hs : s.Ready) (hn : s.words.length ≤ n + 1)
    (hkw : s.current.is "while" = true) (hrun : Runs (loopStatement statement) s id t) :
    ∃ b, StmtRead inFunction s id t b ∧ b.isVariable = false := by
  obtain ⟨cond, u, hcond, body, v, hbody, hrun⟩ := runs_loopStatement.1 hrun
  obtain ⟨hkw, htake⟩ := ParseState.moves_of_is hs hkw
  obtain ⟨c, cs, hmove, hcspells, hkeeps⟩ := sound_condition htake.ready hcond
  have hlen := (htake.trans hmove).length
  rw [List.length_append, List.length_singleton] at hlen
  obtain ⟨b, ⟨⟨o, ws, nls, hmoves, hnls, hspells, htrails⟩, hstored, hshaped⟩, hvar⟩ :=
    h _ _ _ hmove.ready (by omega) hbody
  have hto : Moves s ((s.current.word :: (cs ++ ws)) ++ nls) v := by
    simpa using (htake.trans hmove).trans hmoves
  exact ⟨_, stmtRead_addStmtFrom hto hrun (.loop (hkeeps.mono hmoves.code).tree hstored) hnls
    (.loop hkw hcspells hspells hvar) htrails ⟨hkeeps.shaped, hvar, hshaped⟩, rfl⟩

theorem sound_branchStatement {statement : Parser StmtId}
    (h : SoundStatement inFunction n statement) (hs : s.Ready) (hn : s.words.length ≤ n + 1)
    (hkw : s.current.is "if" = true) (hrun : Runs (branchStatement statement) s id t) :
    ∃ b, StmtRead inFunction s id t b ∧ b.isVariable = false := by
  obtain ⟨cond, u, hcond, thenId, v, hthen, elseId, w, helse, hrun⟩ := runs_branchStatement.1 hrun
  obtain ⟨hkw, htake⟩ := ParseState.moves_of_is hs hkw
  obtain ⟨c, cs, hmove, hcspells, hkeeps⟩ := sound_condition htake.ready hcond
  have hlen := (htake.trans hmove).length
  rw [List.length_append, List.length_singleton] at hlen
  obtain ⟨b, ⟨⟨o, ws, nls, hmoves, hnls, hspells, htrails⟩, hstored, hshaped⟩, hvar⟩ :=
    h _ _ _ hmove.ready (by omega) hthen
  have hall := (htake.trans hmove).trans hmoves
  split at helse
  · next hels =>
    obtain ⟨other, hother, rfl⟩ := helse
    cases o with
    | true => exact absurd ((faces_words hmoves.ready).2 hels) (htrails.noElse rfl)
    | false =>
      obtain ⟨nls₁, els, hnls₁, hels, hmark⟩ := moves_mark hmoves.ready hels
      have hmarked := hall.trans hmark
      have hlen' := hmarked.length
      simp only [List.length_append, List.length_singleton] at hlen'
      obtain ⟨e, ⟨⟨o, vs, nls₂, hmoves', hnls₂, hespells, htrails'⟩, hstored', hshaped'⟩, hvar'⟩ :=
        h _ _ _ hmark.ready (by omega) hother
      have hto : Moves s
          ((s.current.word :: (cs ++ ws ++ (nls ++ nls₁) ++ els :: vs)) ++ nls₂) w := by
        simpa using hmarked.trans hmoves'
      have hends : b.endsOpen = false := by
        by_contra hb
        exact absurd (opn_of_endsOpen hspells _ _ rfl (by simpa using hb)) (by simp)
      exact ⟨_, stmtRead_addStmtFrom hto hrun
        (.branchSome (hkeeps.mono ((hmoves.trans hmark).trans hmoves').code).tree
          (hstored.mono (hmark.trans hmoves').code) hstored') hnls₂
        (.branchElse hkw hcspells hspells hvar (blank_append.2 ⟨hnls, hnls₁⟩) hels hespells hvar')
        htrails' ⟨hkeeps.shaped, hvar, hshaped, hends, hvar', hshaped'⟩, rfl⟩
  · next hels =>
    obtain ⟨rfl, rfl⟩ := helse
    obtain ⟨nls', hnls', hskip⟩ := ParseState.moves_skipNewlines hmoves.ready
    have hto : Moves s ((s.current.word :: (cs ++ ws)) ++ (nls ++ nls')) v.skipNewlines := by
      simpa using hall.trans hskip
    have hnext : ¬ Faces "else" v.skipNewlines.words := by
      rwa [← faces_append hnls', ← hskip.words, faces_words hmoves.ready]
    have hdone : skipBlank v.skipNewlines.words = v.skipNewlines.words := by
      rw [ParseState.words_skipNewlines hmoves.ready.closed, skipBlank_skipBlank]
    exact ⟨_, stmtRead_addStmtFrom hto hrun
      (.branchNone (hkeeps.mono (hmoves.trans hskip).code).tree (hstored.mono hskip.code))
      (blank_append.2 ⟨hnls, hnls'⟩) (.branch hkw hcspells hspells hvar)
      ⟨nofun, fun _ => hdone, fun _ => hnext⟩
      ⟨hkeeps.shaped, hvar, hshaped⟩, rfl⟩

theorem sound_functionDeclaration {statement : Parser StmtId} (h : SoundStatement true n statement)
    (hs : s.Ready) (hn : s.words.length ≤ n + 1) (hkw : s.current.is "fun" = true)
    (hrun : Runs (functionDeclaration statement) s id t) :
    ∃ b, StmtRead inFunction s id t b ∧ b.isVariable = false := by
  obtain ⟨name, u, hident, hopen, params, v, hitems, slice, w, hslice, hbrace, body, u', hbody,
    hrun⟩ := runs_functionDeclaration.1 hrun
  obtain ⟨hkw, htake⟩ := ParseState.moves_of_is hs hkw
  obtain ⟨text, ns, hmove, hname, htext⟩ := sound_identifier htake.ready hident
  obtain ⟨nls₁, opening, hnls₁, hopening, hmark₁⟩ := moves_mark hmove.ready hopen
  obtain ⟨texts, ps, nls₂, closing, hparams, hsep, hcount, hnls₂, hclosing, hmoves⟩ :=
    (soundItem_identifier _).items (fun _ _ _ _ hcd h => hcd.text?_eq h)
      (fun _ _ _ hnls h => h.lead hnls) hmark₁.ready le_rfl hitems
  obtain ⟨hstore, hlist⟩ := hslice.addParams hmoves.ready
  obtain ⟨nls₃, lbrace, hnls₃, hlbrace, hmark₂⟩ := moves_mark hstore.ready hbrace
  have hhead := ((htake.trans hmove).trans hmark₁).trans ((hmoves.trans hstore).trans hmark₂)
  have hlen := hhead.length
  simp only [List.length_append, List.length_singleton] at hlen
  obtain ⟨ids, bs, ws, nls₄, rbrace, hids, hstored, hmoves', hspells, hnls₄, hrbrace, hshaped⟩ :=
    sound_blockBody h hmark₂.ready (by omega) hbody
  have htail := (hstore.trans hmark₂).trans hmoves'
  have hto : Moves s ((s.current.word :: (ns ++ nls₁ ++ opening :: (ps ++ nls₂ ++ closing ::
      (nls₃ ++ lbrace :: (ws ++ nls₄ ++ [rbrace]))))) ++ []) u' := by
    simpa using hhead.trans hmoves'
  have hbuild := Code.BuildsStmt.function
    (((hmark₁.trans hmoves).trans htail).code.text?_eq htext)
    ((hmark₂.trans hmoves').code.params.of?_eq hlist)
    (hparams.imp fun _ _ hp => htail.code.text?_eq hp) hids hstored
  exact ⟨_, stmtRead_addStmtFrom hto hrun hbuild blank_nil
    (.function hkw hname hnls₁ hopening hsep hnls₂ hclosing hnls₃ hlbrace hspells hnls₄ hrbrace)
    .none ⟨hcount, hshaped⟩, rfl⟩

/-! ## Loops with clauses -/

theorem sound_forFirst (inFunction : Bool) {first : Option StmtId} (hs : s.Ready)
    (hrun : Runs forFirst s first t) :
    ∃ f ws, Moves s ws t ∧ SpellsStmt (.first f) ws ∧ Option.Rel t.code.HasStmt first f ∧
      ∀ b ∈ f, b.Shaped inFunction := by
  rw [runs_forFirst] at hrun
  split at hrun
  · next hsemi =>
    obtain ⟨rfl, rfl⟩ := hrun
    obtain ⟨hsemi, htake⟩ := ParseState.moves_of_is hs hsemi
    exact ⟨none, _, htake, SpellsStmt.noFirst blank_nil hsemi, .none, by simp⟩
  · obtain ⟨id, b, rfl, ⟨ws, hmove, hspells⟩, hstored, hshaped, hsimple⟩ :
        ∃ id b, first = some id ∧ SimpleRead inFunction s id t b := by
      split at hrun
      · next hvar =>
        obtain ⟨id, hdecl, rfl⟩ := hrun
        obtain ⟨b, hread⟩ := sound_variableDeclaration hs hvar hdecl
        exact ⟨id, b, rfl, hread⟩
      · obtain ⟨id, hexpr, rfl⟩ := hrun
        obtain ⟨b, hread, -⟩ := sound_expressionStatement hs hexpr
        exact ⟨id, b, rfl, hread⟩
    exact ⟨some b, ws, hmove, .first hspells hsimple, .some hstored, by rintro _ ⟨⟩; exact hshaped⟩

theorem shaped_lowerFor {first : Option (Stmt Unit)} {cond last : Option (Expr Unit)}
    {body : Stmt Unit} (hfirst : ∀ b ∈ first, b.Shaped inFunction)
    (hcond : ∀ e ∈ cond, e.Shaped) (hlast : ∀ e ∈ last, e.Shaped)
    (hvar : body.isVariable = false) (hbody : body.Shaped inFunction) :
    (lowerFor first cond last body).Shaped inFunction ∧
      (lowerFor first cond last body).isVariable = false := by
  have hc : (cond.getD (.literal (.bool true) ())).Shaped := by
    cases cond with
    | none => trivial
    | some c => exact hcond c rfl
  have hb : (lowerBody body last).isVariable = false ∧ (lowerBody body last).Shaped inFunction := by
    cases last with
    | none => exact ⟨hvar, hbody⟩
    | some l => exact ⟨rfl, hbody, hlast l rfl, trivial⟩
  cases first with
  | none => exact ⟨⟨hc, hb⟩, rfl⟩
  | some f => exact ⟨⟨hfirst f rfl, ⟨hc, hb⟩, trivial⟩, rfl⟩

theorem storesBody_hasStmt {span : Span} {body inner : StmtId} {last : Option StoredExpr}
    {b : Stmt Unit} {l : Option (Expr Unit)} (hs : s.Ready) (hb : s.code.HasStmt body b)
    (hl : Option.Rel s.code.Holds last l) (h : StoresBody span body last s inner t) :
    Moves s [] t ∧ t.code.HasStmt inner (lowerBody b l) := by
  cases hl with
  | none =>
    obtain ⟨rfl, rfl⟩ := h
    exact ⟨.refl hs, hb⟩
  | some hl =>
    obtain ⟨step, u, both, v, hstep, hboth, hrun⟩ := h
    obtain ⟨hmove, hstored⟩ := hstep.addStmt hs (.expression hl.tree)
    obtain ⟨hmove', hlist⟩ := hboth.addStmts hmove.ready
    have hbodies : List.Forall₂ v.code.HasStmt [body, step] [b, .expression _ ()] :=
      .cons (hb.mono (hmove.trans hmove').code) (.cons (hstored.mono hmove'.code) .nil)
    exact hasStmt_addStmtFrom (hmove.trans hmove') hrun (.block hlist hbodies)

theorem storesTest_hasExpr {span : Span} {test : StoredExpr} {cond : Option StoredExpr}
    {c : Option (Expr Unit)} (hs : s.Ready) (hc : Option.Rel s.code.Holds cond c)
    (h : StoresTest span cond s test t) :
    Moves s [] t ∧ t.code.HasExpr test.id (c.getD (.literal (.bool true) ())) := by
  cases hc with
  | none =>
    obtain ⟨hmove, hholds, -⟩ := Runs.addExpr h hs (.bool _ true)
    exact ⟨hmove, hholds.tree⟩
  | some hc =>
    obtain ⟨rfl, rfl⟩ := h
    exact ⟨.refl hs, hc.tree⟩

theorem storesWhole_hasStmt {span : Span} {loop : StmtId} {first : Option StmtId}
    {b : Stmt Unit} {f : Option (Stmt Unit)} (hs : s.Ready) (hb : s.code.HasStmt loop b)
    (hf : Option.Rel s.code.HasStmt first f) (h : StoresWhole span loop first s id t) :
    Moves s [] t ∧ t.code.HasStmt id (f.elim b fun f => .block [f, b] ()) := by
  cases hf with
  | none =>
    obtain ⟨rfl, rfl⟩ := h
    exact ⟨.refl hs, hb⟩
  | some hf =>
    obtain ⟨both, u, hboth, hrun⟩ := h
    obtain ⟨hmove, hlist⟩ := hboth.addStmts hs
    exact hasStmt_addStmtFrom hmove hrun
      (.block hlist (.cons (hf.mono hmove.code) (.cons (hb.mono hmove.code) .nil)))

/-- The statement that a loop with clauses stands for is stored after its parts. -/
theorem hasStmt_lowerFor {first : Option StmtId} {cond last : Option StoredExpr}
    {body inner loop : StmtId} {test : StoredExpr} {f : Option (Stmt Unit)}
    {c l : Option (Expr Unit)} {b : Stmt Unit} {span : Span} {u₅ u₆ u₇ : ParseState}
    (hs : s.Ready) (hf : Option.Rel s.code.HasStmt first f) (hc : Option.Rel s.code.Holds cond c)
    (hl : Option.Rel s.code.Holds last l) (hb : s.code.HasStmt body b)
    (hinner : StoresBody span body last s inner u₅) (htest : StoresTest span cond u₅ test u₆)
    (hloop : Runs (addStmtFrom (.loop test.id inner) span) u₆ loop u₇)
    (hwhole : StoresWhole span loop first u₇ id t) :
    Moves s [] t ∧ t.code.HasStmt id (lowerFor f c l b) := by
  obtain ⟨hmove₅, hinner⟩ := storesBody_hasStmt hs hb hl hinner
  obtain ⟨hmove₆, htest⟩ :=
    storesTest_hasExpr hmove₅.ready (rel_imp hc fun _ _ hk => hk.mono hmove₅.code) htest
  obtain ⟨hmove₇, hloop⟩ := hasStmt_addStmtFrom (hmove₅.trans hmove₆) hloop
    (.loop htest (hinner.mono hmove₆.code))
  obtain ⟨hmove, hwhole⟩ :=
    storesWhole_hasStmt hmove₇.ready hloop (rel_imp hf fun _ _ hk => hk.mono hmove₇.code) hwhole
  refine ⟨hmove₇.trans hmove, ?_⟩
  cases f <;> exact hwhole

theorem sound_forStatement {statement : Parser StmtId}
    (h : SoundStatement inFunction n statement) (hs : s.Ready) (hn : s.words.length ≤ n + 1)
    (hkw : s.current.is "for" = true) (hrun : Runs (forStatement statement) s id t) :
    ∃ b, StmtRead inFunction s id t b ∧ b.isVariable = false := by
  obtain ⟨hopen, first, u₁, hfirst, cond, u₂, hcond, last, u₃, hlast, body, u₄, hbody, inner, u₅,
    hinner, test, u₆, htest, loop, u₇, hloop, hwhole⟩ := runs_forStatement.1 hrun
  obtain ⟨hkw, htake⟩ := ParseState.moves_of_is hs hkw
  obtain ⟨nls, opening, hnls, hopening, hmark⟩ := moves_mark htake.ready hopen
  obtain ⟨nls', hnls', hskip⟩ := ParseState.moves_skipNewlines hmark.ready
  obtain ⟨f, fs, hmovef, hfspells, hf, hfshaped⟩ := sound_forFirst inFunction hskip.ready hfirst
  obtain ⟨c, cs, hmovec, hcspells, hc⟩ := sound_forClause hmovef.ready hcond
  obtain ⟨l, ls, hmovel, hlspells, hl⟩ := sound_forClause hmovec.ready hlast
  have hhead := ((htake.trans hmark).trans hskip).trans ((hmovef.trans hmovec).trans hmovel)
  have hlen := hhead.length
  simp only [List.length_append, List.length_singleton] at hlen
  obtain ⟨b, ⟨⟨o, ws, nls'', hmoveb, hnls'', hspells, htrails⟩, hstored, hshaped⟩, hvar⟩ :=
    h _ _ _ hmovel.ready (by omega) hbody
  obtain ⟨hmove, hwhole⟩ := hasStmt_lowerFor hmoveb.ready
    (rel_imp hf fun _ _ hk => hk.mono ((hmovec.trans hmovel).trans hmoveb).code)
    (rel_imp hc fun _ _ hk => hk.toHolds.mono (hmovel.trans hmoveb).code)
    (rel_imp hl fun _ _ hk => hk.toHolds.mono hmoveb.code) hstored hinner htest hloop hwhole
  obtain ⟨hshaped', hvar'⟩ :=
    shaped_lowerFor hfshaped (rel_keeps hc).2 (rel_keeps hl).2 hvar hshaped
  have hspells' := SpellsStmt.forLoop hkw hnls hopening (hfspells.firstLeads hnls') hcspells
    hlspells hspells hvar
  have hto := (hhead.trans hmoveb).trans hmove
  refine ⟨_, ⟨⟨o, _, nls'', by simpa using hto, hnls'', hspells', ?_⟩, hwhole, hshaped'⟩, hvar'⟩
  rwa [hmove.words_eq rfl]

/-! ## Statements -/

/-- The parser of statements reads statements, if its bound is at least the number of
words. -/
theorem sound_statementAt (depth : Nat) :
    ∀ inFunction, SoundStatement inFunction depth (statementAt depth inFunction) := by
  induction depth with
  | zero => exact fun _ s id t hs hn _ => absurd hs.pos (by omega)
  | succ depth ih =>
    intro inFunction s id t hs hn hrun
    obtain ⟨nls, hnls, hskip⟩ := ParseState.moves_skipNewlines hs
    have hlen := hskip.length
    have hn' : s.skipNewlines.words.length ≤ depth + 1 := by omega
    suffices ∃ b, StmtRead inFunction s.skipNewlines id t b ∧ b.isVariable = false by
      obtain ⟨b, hread, hvar⟩ := this
      exact ⟨b, hread.lead hskip hnls, hvar⟩
    rw [runs_statementAt] at hrun
    split at hrun
    · next hkw => exact sound_branchStatement (ih inFunction) hskip.ready hn' hkw hrun
    split at hrun
    · next hkw => exact sound_loopStatement (ih inFunction) hskip.ready hn' hkw hrun
    split at hrun
    · next hkw => exact sound_forStatement (ih inFunction) hskip.ready hn' hkw hrun
    split at hrun
    · next hkw => exact sound_functionDeclaration (ih true) hskip.ready hn' hkw hrun
    split at hrun
    · next hkw => exact sound_returnStatement hskip.ready hkw hrun
    split at hrun
    · next hopen => exact sound_blockStatement (ih inFunction) hskip.ready hn' hopen hrun
    · obtain ⟨b, hread, hvar⟩ := sound_expressionStatement hskip.ready hrun
      exact ⟨b, hread.stmtRead, hvar⟩

end Scriptorium
