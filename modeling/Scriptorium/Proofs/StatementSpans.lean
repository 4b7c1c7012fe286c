import Scriptorium.Proofs.LexicalErrors
import Scriptorium.Proofs.ToldStatements

/-!
# The spans of the statements of a text

Each parser of a statement stores it with a span that goes over the tokens that it was read
from, and so do the parsers of its parts before.

* `StoresTold`, `TellsStatement` — what is known of a parser of statements;
* `ParseState.AfterFor` — what is stored for a `for` when its parts were read;
* `tells_statementAt` — the parser of statements;
* `parseWith_told` — the statements that are reached from the top level of a text.
-/

namespace Scriptorium

open Scriptorium.Parser ParseState

variable {tokens : List Token}

/-! ## Simple statements -/

/-- The parser comes to a later state and to a statement that is told, if at most `n` tokens
are left. -/
def StoresTold (tokens : List Token) (n : Nat) (p : Parser StmtId) : Prop :=
  ∀ s id t, s.Reading tokens → s.tokens.length ≤ n → Runs p s id t →
    s.Follows tokens t ∧ t.code.ToldStmt tokens id

section Statements

variable {s t : ParseState} {id : StmtId} {n : Nat} {inFunction : Bool}
  {statement : Parser StmtId}

theorem told_expressionStatement (hs : s.Reading tokens) (hsolid : s.current.isNewline = false)
    (hrun : Runs expressionStatement s id t) :
    s.Follows tokens t ∧ t.code.ToldStmt tokens id := by
  have hfollows := Follows.of_runs .expressionStatement .expressionStatement hs hrun
  obtain ⟨b, hread, -⟩ : ∃ b, SimpleRead false s id t b ∧ b.isVariable = false :=
    sound_expressionStatement hs.ready hrun
  obtain ⟨x, u, hexpr, hsemi, hrun⟩ := runs_expressionStatement.1 hrun
  obtain ⟨hu, e, hspans, -, -⟩ := (readsExpressions_expression _ s hs le_rfl).of_runs hexpr
  obtain ⟨hv, -, nls, -, htokens⟩ := hu.skipNewlines
  have hsemicolon : u.skipNewlines.current ∈ u.tokens := by
    rw [htokens]
    exact List.mem_append_right _ List.mem_cons_self
  have hbefore := hspans.stop_le hs.ordered_tokens _ hsemicolon
  have hforward := hv.ordered_tokens.forward _ List.mem_cons_self
  have hstop : x.span.stop ≤ t.previous.stop := by
    obtain ⟨rfl, rfl⟩ := runs_addStmt.1 (runs_addStmtFrom.1 hrun)
    show _ ≤ u.skipNewlines.advance.previous.stop
    rw [previous_advance]
    omega
  refine ⟨hfollows, told_of_fields (runs_addStmtFrom.1 hrun) rfl (by simp [StmtKind.fields]) ?_⟩
  exact .inl (hread.stmtRead.tells_addStmtFrom hs.toTaken hfollows.reading.toTaken hrun hsolid
    (hspans.start_eq hsolid) hstop)

theorem told_variableDeclaration (hs : s.Reading tokens) (hvar : s.current.is "var" = true)
    (hrun : Runs variableDeclaration s id t) :
    s.Follows tokens t ∧ t.code.ToldStmt tokens id := by
  have hfollows := Follows.of_runs_from .variableDeclaration .variableDeclaration hs hvar hrun
  obtain ⟨b, hread⟩ : ∃ b, SimpleRead false s id t b :=
    sound_variableDeclaration hs.ready hvar hrun
  obtain ⟨name, u, -, init, v, -, -, hrun⟩ := runs_variableDeclaration.1 hrun
  refine ⟨hfollows, told_of_fields (runs_addStmtFrom.1 hrun) rfl (by simp [StmtKind.fields]) ?_⟩
  exact .inl (hread.stmtRead.tells_keyword hs hfollows.reading.toTaken hvar hrun)

theorem told_returnStatement (hs : s.Reading tokens) (hret : s.current.is "return" = true)
    (hrun : Runs (returnStatement inFunction) s id t) :
    s.Follows tokens t ∧ t.code.ToldStmt tokens id := by
  have hfollows := Follows.of_runs_from (.returnStatement _) (.returnStatement _) hs hret hrun
  obtain ⟨b, hread, -⟩ := sound_returnStatement hs.ready hret hrun
  obtain ⟨-, value, u, -, hrun⟩ := runs_returnStatement.1 hrun
  refine ⟨hfollows, told_of_fields (runs_addStmtFrom.1 hrun) rfl (by simp [StmtKind.fields]) ?_⟩
  exact .inl (hread.tells_keyword hs hfollows.reading.toTaken hret hrun)

/-! ## Blocks and compound statements -/

/-- On at most `n` tokens, the parser reads and stores statements. -/
structure TellsStatement (tokens : List Token) (inFunction : Bool) (n : Nat)
    (statement : Parser StmtId) : Prop where
  sound : SoundStatement inFunction n statement
  told : StoresTold tokens n statement

theorem told_declaration (h : TellsStatement tokens inFunction n statement)
    (hs : s.Reading tokens) (hn : s.tokens.length ≤ n)
    (hrun : Runs (declaration statement) s id t) :
    s.Follows tokens t ∧ t.code.ToldStmt tokens id := by
  have hskip := Follows.skipNewlines hs
  rw [runs_declaration] at hrun
  split at hrun
  · next hvar =>
    obtain ⟨hfollows, htold⟩ := told_variableDeclaration hskip.reading hvar hrun
    exact ⟨hskip.trans hfollows, htold⟩
  · obtain ⟨hfollows, htold⟩ := h.told _ _ _ hskip.reading (hskip.shorter.trans hn) hrun
    exact ⟨hskip.trans hfollows, htold⟩

theorem told_declarationsFrom (h : TellsStatement tokens inFunction n statement) {opening : Token} :
    ∀ (fuel : Nat) {s t : ParseState} {seen ids : List StmtId}, s.Reading tokens →
      s.tokens.length ≤ n → (∀ x ∈ seen, s.code.ToldStmt tokens x) →
      Runs (declarationsFrom opening statement fuel seen) s ids t →
      s.Follows tokens t ∧ ∀ x ∈ ids, t.code.ToldStmt tokens x := by
  intro fuel
  induction fuel with
  | zero => exact fun _ _ _ hrun => absurd hrun runs_fail
  | succ fuel ih =>
    intro s t seen ids hs hn hseen hrun
    rw [runs_declarationsFrom] at hrun
    split at hrun
    · next hclose =>
      obtain ⟨rfl, rfl⟩ := hrun
      have hmark := Follows.mark hs hclose
      exact ⟨hmark, fun x hx => (hseen x (List.mem_reverse.1 hx)).mono hmark.code⟩
    · obtain ⟨-, id, u, hdecl, hrest⟩ := hrun
      have hskip := Follows.skipNewlines hs
      obtain ⟨hfollows, htold⟩ := told_declaration h hskip.reading (hskip.shorter.trans hn) hdecl
      have hu := hskip.trans hfollows
      obtain ⟨ht, hids⟩ := ih hu.reading (hu.shorter.trans hn)
        (List.forall_mem_cons.2 ⟨htold, fun x hx => (hseen x hx).mono hu.code⟩) hrest
      exact ⟨hu.trans ht, hids⟩

/-- The list that holds the statements of a body, all of which are told. -/
theorem told_blockBody (h : TellsStatement tokens inFunction n statement) {opening : Token}
    {list : Slice StmtId} (hs : s.Reading tokens) (hn : s.tokens.length ≤ n)
    (hrun : Runs (blockBody opening statement) s list t) :
    ∃ ids, t.code.arena.stmtsIn? list = some ids ∧ ∀ x ∈ ids, t.code.ToldStmt tokens x := by
  obtain ⟨ids, u, hdecls, hlist⟩ := runs_blockBody.1 hrun
  obtain ⟨hu, hids⟩ := told_declarationsFrom h _ hs hn (by simp) hdecls
  obtain ⟨hmove, hstored⟩ := hlist.addStmts hu.reading.ready
  exact ⟨ids, hstored, fun x hx => (hids x hx).mono hmove.code⟩

theorem told_blockStatement (h : TellsStatement tokens inFunction n statement)
    (hs : s.Reading tokens) (hn : s.tokens.length ≤ n + 1)
    (hopen : s.current.is "\x7b" = true) (ht : t.Taken tokens)
    (hrun : Runs (blockStatement statement) s id t) : t.code.ToldStmt tokens id := by
  obtain ⟨b, hread, -⟩ :=
    sound_blockStatement h.sound hs.ready (by rwa [← length_tokens]) hopen hrun
  obtain ⟨list, u, hbody, hrun⟩ := runs_blockStatement.1 hrun
  obtain ⟨htake, hlt⟩ := Follows.advance_of_is hs hopen
  obtain ⟨ids, hlist, hids⟩ := told_blockBody h htake.reading (by omega) hbody
  exact told_of_list (runs_addStmtFrom.1 hrun) rfl rfl hlist hids
    (.inl (hread.tells_keyword hs ht hopen hrun))

theorem told_loopStatement (h : TellsStatement tokens inFunction n statement)
    (hs : s.Reading tokens) (hn : s.tokens.length ≤ n + 1)
    (hkw : s.current.is "while" = true) (ht : t.Taken tokens)
    (hrun : Runs (loopStatement statement) s id t) : t.code.ToldStmt tokens id := by
  obtain ⟨b, hread, -⟩ := sound_loopStatement h.sound hs.ready (by rwa [← length_tokens]) hkw hrun
  obtain ⟨cond, u, hcond, body, v, hbody, hrun⟩ := runs_loopStatement.1 hrun
  obtain ⟨htake, hlt⟩ := Follows.advance_of_is hs hkw
  have hu := Follows.of_runs .condition .condition htake.reading hcond
  have hshorter := hu.shorter
  obtain ⟨-, htold⟩ := h.told _ _ _ hu.reading (by omega) hbody
  exact told_of_fields (runs_addStmtFrom.1 hrun) rfl (by simpa [StmtKind.fields] using htold)
    (.inl (hread.tells_keyword hs ht hkw hrun))

theorem told_branchStatement (h : TellsStatement tokens inFunction n statement)
    (hs : s.Reading tokens) (hn : s.tokens.length ≤ n + 1)
    (hkw : s.current.is "if" = true) (ht : t.Taken tokens)
    (hrun : Runs (branchStatement statement) s id t) : t.code.ToldStmt tokens id := by
  obtain ⟨b, hread, -⟩ :=
    sound_branchStatement h.sound hs.ready (by rwa [← length_tokens]) hkw hrun
  obtain ⟨cond, u, hcond, thenId, v, hthen, elseId, w, helse, hrun⟩ :=
    runs_branchStatement.1 hrun
  obtain ⟨htake, hlt⟩ := Follows.advance_of_is hs hkw
  have hu := Follows.of_runs .condition .condition htake.reading hcond
  have hshorter := hu.shorter
  obtain ⟨hv, htold⟩ := h.told _ _ _ hu.reading (by omega) hthen
  have hshorter' := hv.shorter
  -- both branches are told when the conditional is stored
  have hfields : ∀ x ∈ (StmtKind.branch cond.id thenId elseId).fields,
      w.code.ToldStmt tokens x := by
    split at helse
    · next hels =>
      obtain ⟨other, hother, rfl⟩ := helse
      have hmark := Follows.mark hv.reading hels
      have hshorter'' := hmark.shorter
      obtain ⟨hw, htold'⟩ := h.told _ _ _ hmark.reading (by omega) hother
      simpa [StmtKind.fields] using ⟨htold.mono (hmark.trans hw).code, htold'⟩
    · obtain ⟨rfl, rfl⟩ := helse
      simpa [StmtKind.fields] using htold.mono (Follows.skipNewlines hv.reading).code
  exact told_of_fields (runs_addStmtFrom.1 hrun) rfl hfields
    (.inl (hread.tells_keyword hs ht hkw hrun))

theorem told_functionDeclaration (h : TellsStatement tokens true n statement)
    (hs : s.Reading tokens) (hn : s.tokens.length ≤ n + 1)
    (hkw : s.current.is "fun" = true) (ht : t.Taken tokens)
    (hrun : Runs (functionDeclaration statement) s id t) : t.code.ToldStmt tokens id := by
  obtain ⟨b, hread, -⟩ : ∃ b, StmtRead false s id t b ∧ b.isVariable = false :=
    sound_functionDeclaration h.sound hs.ready (by rwa [← length_tokens]) hkw hrun
  obtain ⟨name, u, hident, hopen, params, v, hitems, list, w, hlist, hbrace, body, u', hbody,
    hrun⟩ := runs_functionDeclaration.1 hrun
  obtain ⟨htake, hlt⟩ := Follows.advance_of_is hs hkw
  have hu := Follows.of_runs .identifier .identifier htake.reading hident
  have hmark := Follows.mark hu.reading hopen
  obtain ⟨hv, hle⟩ := ((Takes.items (by simp) Takes.identifier hmark.reading le_rfl).of_runs
    hitems).reading
  have hw := Follows.of_runs (.addParams _) (.addParams _) hv hlist
  have hbraced := Follows.mark hw.reading hbrace
  have hshorter := (hw.trans hbraced).shorter.trans (hle.trans (hu.trans hmark).shorter)
  obtain ⟨ids, hbodies, hids⟩ := told_blockBody h hbraced.reading (by omega) hbody
  exact told_of_list (runs_addStmtFrom.1 hrun) rfl rfl hbodies hids
    (.inl (hread.tells_keyword hs ht hkw hrun))

/-! ## Loops with clauses -/

theorem told_forFirst {first : Option StmtId} (hs : s.Reading tokens)
    (hsolid : s.current.isNewline = false) (hrun : Runs forFirst s first t) :
    ∀ x ∈ first, t.code.ToldStmt tokens x := by
  rw [runs_forFirst] at hrun
  split at hrun
  · obtain ⟨rfl, rfl⟩ := hrun
    exact nofun
  split at hrun
  · next hvar =>
    obtain ⟨id, hdecl, rfl⟩ := hrun
    rintro _ ⟨⟩
    exact (told_variableDeclaration hs hvar hdecl).2
  · obtain ⟨id, hexpr, rfl⟩ := hrun
    rintro _ ⟨⟩
    exact (told_expressionStatement hs hsolid hexpr).2

/-- The clauses and the body of a `for` were read, which starts before the last of the tokens
that were taken. -/
structure ParseState.AfterFor (tokens : List Token) (keyword : Token) (s : ParseState) : Prop
    extends s.Reading tokens where
  isFor : keyword.is "for" = true
  reached : ReachedToken tokens keyword
  before : keyword.span.start ≤ s.previous.start

namespace ParseState.AfterFor

variable {keyword : Token}

/-- What is stored then changes nothing about it. -/
theorem of_follows (h : s.AfterFor tokens keyword) (ht : s.Follows tokens t)
    (hprevious : t.previous = s.previous) : t.AfterFor tokens keyword :=
  ⟨ht.reading, h.isFor, h.reached, hprevious ▸ h.before⟩

/-- What is stored with the span of a `for` was made from it. -/
theorem lowered (h : s.AfterFor tokens keyword) (c : Code) (kind : StmtKind) :
    StmtNode.Lowered tokens c ⟨kind, keyword.span.merge s.previous⟩ := by
  obtain ⟨taken, rest, htokens, -⟩ := h.reached
  exact .inl ⟨keyword, by simp [htokens], h.isFor, Nat.min_eq_left h.before⟩

theorem addStmtFrom (h : s.AfterFor tokens keyword) {kind : StmtKind} {first : Span}
    (hrun : Runs (addStmtFrom kind first) s id t) :
    t.AfterFor tokens keyword ∧ s.code.Extends t.code := by
  have ht := Follows.of_runs (.addStmtFrom _ _) (.addStmtFrom _ _) h.toReading hrun
  obtain ⟨rfl, rfl⟩ := runs_addStmt.1 (runs_addStmtFrom.1 hrun)
  exact ⟨h.of_follows ht rfl, ht.code⟩

theorem addStmts (h : s.AfterFor tokens keyword) {ids : List StmtId} {list : Slice StmtId}
    (hrun : Runs (addStmts ids) s list t) :
    t.AfterFor tokens keyword ∧ s.code.Extends t.code ∧ t.code.arena.stmtsIn? list = some ids := by
  have ht := Follows.of_runs (.addStmts _) (.addStmts _) h.toReading hrun
  obtain ⟨-, hlist⟩ := Runs.addStmts hrun h.ready
  obtain ⟨rfl, rfl⟩ := runs_addStmts.1 hrun
  exact ⟨h.of_follows ht rfl, ht.code, hlist⟩

/-- Two statements are put in a block. -/
theorem told_both (h : s.AfterFor tokens keyword) {a b : StmtId} {list : Slice StmtId}
    {u : ParseState} (ha : s.code.ToldStmt tokens a) (hb : s.code.ToldStmt tokens b)
    (hboth : Runs (Parser.addStmts [a, b]) s list u)
    (hrun : Runs (Parser.addStmtFrom (.block list) keyword.span) u id t) :
    t.AfterFor tokens keyword ∧ s.code.Extends t.code ∧ t.code.ToldStmt tokens id := by
  obtain ⟨hu, hext, hlist⟩ := h.addStmts hboth
  obtain ⟨ht, hext'⟩ := hu.addStmtFrom hrun
  refine ⟨ht, hext.trans hext', told_of_list (runs_addStmtFrom.1 hrun) rfl rfl hlist ?_
    (.inr (hu.lowered _ _))⟩
  simpa using ⟨ha.mono hext, hb.mono hext⟩

theorem told_storesBody (h : s.AfterFor tokens keyword) {body inner : StmtId}
    {last : Option StoredExpr} (hbody : s.code.ToldStmt tokens body)
    (hlast : ∀ x ∈ last, s.code.arena.expr? x.id = some x.node)
    (hstores : StoresBody keyword.span body last s inner t) :
    t.AfterFor tokens keyword ∧ s.code.Extends t.code ∧ t.code.ToldStmt tokens inner := by
  cases last with
  | none =>
    obtain ⟨rfl, rfl⟩ := hstores
    exact ⟨h, .refl _, hbody⟩
  | some last =>
    obtain ⟨step, u, both, v, hstep, hboth, hrun⟩ := hstores
    have hu := Follows.of_runs (.addStmt _ _) (.addStmt _ _) h.toReading hstep
    have hprevious : u.previous = s.previous := by
      obtain ⟨-, rfl⟩ := runs_addStmt.1 hstep
      rfl
    have hnode := hu.code.exprs.getElem?_eq (hlast last rfl)
    have htold : u.code.ToldStmt tokens step :=
      told_of_fields hstep rfl (by simp [StmtKind.fields])
        (.inr (.inr ⟨last.id, last.node, rfl, hnode, rfl⟩))
    obtain ⟨ht, hext, hinner⟩ :=
      (h.of_follows hu hprevious).told_both (hbody.mono hu.code) htold hboth hrun
    exact ⟨ht, hu.code.trans hext, hinner⟩

theorem storesTest (h : s.AfterFor tokens keyword) {cond : Option StoredExpr} {test : StoredExpr}
    (hstores : StoresTest keyword.span cond s test t) :
    t.AfterFor tokens keyword ∧ s.code.Extends t.code := by
  cases cond with
  | none =>
    have ht := Follows.of_runs (.addTrue h.isFor h.reached) (.addExpr _ _) h.toReading hstores
    obtain ⟨-, rfl⟩ := runs_addExpr.1 hstores
    exact ⟨h.of_follows ht rfl, ht.code⟩
  | some cond =>
    obtain ⟨rfl, rfl⟩ := hstores
    exact ⟨h, .refl _⟩

theorem told_storesWhole (h : s.AfterFor tokens keyword) {loop : StmtId} {first : Option StmtId}
    (hloop : s.code.ToldStmt tokens loop) (hfirst : ∀ x ∈ first, s.code.ToldStmt tokens x)
    (hstores : StoresWhole keyword.span loop first s id t) : t.code.ToldStmt tokens id := by
  cases first with
  | none =>
    obtain ⟨rfl, rfl⟩ := hstores
    exact hloop
  | some first =>
    obtain ⟨both, u, hboth, hrun⟩ := hstores
    exact (h.told_both (hfirst first rfl) hloop hboth hrun).2.2

end ParseState.AfterFor

theorem told_forStatement (h : TellsStatement tokens inFunction n statement)
    (hs : s.Reading tokens) (hn : s.tokens.length ≤ n + 1)
    (hkw : s.current.is "for" = true) (hrun : Runs (forStatement statement) s id t) :
    t.code.ToldStmt tokens id := by
  obtain ⟨hopen, first, u₁, hfirst, cond, u₂, hcond, last, u₃, hlast, body, u₄, hbody, inner, u₅,
    hinner, test, u₆, htest, loop, u₇, hloop, hwhole⟩ := runs_forStatement.1 hrun
  obtain ⟨htake, hlt⟩ := Follows.advance_of_is hs hkw
  have hmark := htake.trans (Follows.mark htake.reading hopen)
  have hskip := hmark.trans (Follows.skipNewlines hmark.reading)
  have h₁ := Follows.of_runs .forFirst .forFirst hskip.reading hfirst
  have h₂ := Follows.of_runs (.forClause _) (.forClause _) h₁.reading hcond
  have h₃ := Follows.of_runs (.forClause _) (.forClause _) h₂.reading hlast
  have hnode : ∀ x ∈ last, u₃.code.arena.expr? x.id = some x.node := by
    obtain ⟨e, _, -, -, hkeeps⟩ := sound_forClause h₂.reading.ready hlast
    rintro x ⟨⟩
    cases hkeeps with
    | some hkeeps => exact hkeeps.toHolds.node
  have hto₃ := hskip.trans (h₁.trans (h₂.trans h₃))
  have hshorter := (h₁.trans (h₂.trans h₃)).shorter.trans
    ((Follows.mark htake.reading hopen).trans (Follows.skipNewlines hmark.reading)).shorter
  obtain ⟨h₄, hbody⟩ := h.told _ _ _ h₃.reading (by omega) hbody
  have hshorter₄ := h₄.shorter
  -- from here on nothing is read, and what is stored was made from the `for`
  have hfor : u₄.AfterFor tokens s.current :=
    ⟨h₄.reading, hkw, hs.reached,
      (hs.toTaken.current_le_previous h₄.reading.toTaken (by omega)).1⟩
  obtain ⟨hfor₅, hext₅, hinner⟩ := hfor.told_storesBody hbody
    (fun x hx => h₄.code.exprs.getElem?_eq (hnode x hx)) hinner
  obtain ⟨hfor₆, hext₆⟩ := hfor₅.storesTest htest
  obtain ⟨hfor₇, hext₇⟩ := hfor₆.addStmtFrom hloop
  have hloop := told_of_fields (runs_addStmtFrom.1 hloop) rfl
    (by simpa [StmtKind.fields] using hinner.mono hext₆) (.inr (hfor₆.lowered _ _))
  have hto₇ := (h₂.trans (h₃.trans h₄)).code.trans (hext₅.trans (hext₆.trans hext₇))
  refine hfor₇.told_storesWhole hloop (fun x hx => ?_) hwhole
  exact (told_forFirst hskip.reading (isNewline_skipNewlines hmark.reading.ready) hfirst x hx).mono
    hto₇

/-! ## Statements -/

/-- The parser of statements stores statements that are told, if its bound is at least the
number of tokens. -/
theorem tells_statementAt (depth : Nat) :
    ∀ inFunction, TellsStatement tokens inFunction depth (statementAt depth inFunction) := by
  induction depth with
  | zero =>
    exact fun inFunction => ⟨sound_statementAt 0 inFunction,
      fun s _ _ _ hn _ => absurd hn (Nat.not_succ_le_zero _)⟩
  | succ depth ih =>
    refine fun inFunction => ⟨sound_statementAt _ inFunction, fun s id t hs hn hrun => ?_⟩
    have ht := Follows.of_runs (.statementAt _ _) (.statementAt _ _) hs hrun
    refine ⟨ht, ?_⟩
    have hskip := Follows.skipNewlines hs
    have hn' := hskip.shorter.trans hn
    have htaken := ht.reading.toTaken
    rw [runs_statementAt] at hrun
    split at hrun
    · next hkw => exact told_branchStatement (ih inFunction) hskip.reading hn' hkw htaken hrun
    split at hrun
    · next hkw => exact told_loopStatement (ih inFunction) hskip.reading hn' hkw htaken hrun
    split at hrun
    · next hkw => exact told_forStatement (ih inFunction) hskip.reading hn' hkw hrun
    split at hrun
    · next hkw => exact told_functionDeclaration (ih true) hskip.reading hn' hkw htaken hrun
    split at hrun
    · next hkw => exact (told_returnStatement hskip.reading hkw hrun).2
    split at hrun
    · next hopen => exact told_blockStatement (ih inFunction) hskip.reading hn' hopen htaken hrun
    · exact (told_expressionStatement hskip.reading (isNewline_skipNewlines hs.ready) hrun).2

theorem tells_topStatement (n : Nat) : TellsStatement tokens false n topStatement := by
  refine ⟨sound_topStatement n, fun s id t hs _ hrun => ?_⟩
  have hbound := hs.ready.bounded
  rw [← length_tokens] at hbound
  exact (tells_statementAt _ false).told _ _ _ hs hbound (runs_topStatement.1 hrun)

end Statements

/-! ## Texts -/

/-- The statements of the top level are told, also those before a syntax error. -/
theorem ParseState.told_parseFrom (fuel : Nat) {s : ParseState} {seen : List StmtId}
    (hs : s.Reading tokens) (hseen : ∀ x ∈ seen, s.code.ToldStmt tokens x) :
    ∀ x ∈ (s.parseFrom fuel seen).module, (s.parseFrom fuel seen).code.ToldStmt tokens x := by
  have hfinish : ∀ {s t : ParseState} {seen : List StmtId} (failure : Option ParseError),
      (∀ x ∈ seen, s.code.ToldStmt tokens x) → s.code.Extends t.code →
      ∀ x ∈ (t.finish seen failure).module, (t.finish seen failure).code.ToldStmt tokens x :=
    fun failure hseen hext x hx => (hseen x (List.mem_reverse.1 hx)).mono hext
  induction fuel generalizing s seen with
  | zero => exact hfinish none hseen (.refl _)
  | succ fuel ih =>
    have hskip := Follows.skipNewlines hs
    rw [parseFrom]
    split
    · exact hfinish none hseen hskip.code
    split
    · next id t hrun =>
      obtain ⟨ht, htold⟩ := told_declaration (tells_topStatement _) hskip.reading le_rfl hrun
      exact ih ht.reading (List.forall_mem_cons.2
        ⟨htold, fun x hx => (hseen x hx).mono (hskip.trans ht).code⟩)
    · next e t hrun =>
      exact hfinish _ hseen (hskip.code.trans (OnlyAdds.topStatement.declaration.of_error hrun))

/-- What is reached from the top level of a text is spelled by the tokens under its span or was
made from a `for`. -/
theorem parseWith_told (tables : Tables) (source : String) {id : StmtId}
    (h : (parseWith tables source).code.arena.ReachesStmt (parseWith tables source).module id) :
    (parseWith tables source).code.ToldStmt (tokenize tables source) id := by
  obtain ⟨-, hreading⟩ := reading_start (closed_tokenize tables source)
    (inOrder_tokenize tables source).ordered
  exact .of_reaches (told_parseFrom _ hreading (by simp)) h

end Scriptorium
