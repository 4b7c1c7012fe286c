import Scriptorium.Proofs.ExactPrograms
import Scriptorium.Proofs.Forest
import Scriptorium.Proofs.ParserGrowth

/-!
# Statements and the tokens under their spans

The span of a statement starts with its first token and ends with the token that was taken
last when its node is stored.  That is the closing mark of the statement, unless the statement
ends in a conditional without `else`: the line breaks behind such a conditional are taken in
search of the `else`, and the span ends with the last one of these.

A `for` is stored as other statements, which are spelled by no tokens of their own.

* `StmtBounds` — where a span starts and ends among the tokens;
* `Code.TellsStmt` — a stored statement is spelled by the tokens under its span;
* `StmtNode.Lowered` — the node was made from a `for`;
* `Code.ToldStmt` — a statement and all statements in it are told or lowered;
* `StmtRead.tells` — a statement that was read is told;
* `ParseState.Follows` — a later state of the same text.
-/

namespace Scriptorium

open Scriptorium.Parser ParseState

variable {tokens : List Token}

/-! ## The last word of a statement -/

theorem SpellsClause.last_word {mark : String} {e : Option (Expr Unit)} {ws : List Word}
    (h : SpellsClause mark e ws) : ∃ w ∈ ws.getLast?, w.is mark = true := by
  cases h with
  | none _ hw => exact ⟨_, List.getLast?_concat, hw⟩
  | some _ _ hw => exact ⟨_, List.getLast?_concat, hw⟩

/-- The last word of a statement is a semicolon or a closing brace. -/
theorem SpellsStmt.last_word {p : StmtPhrase} {ws : List Word} (h : SpellsStmt p ws) :
    ∀ o b, p = .stmt o b → ∃ w ∈ ws.getLast?, w.is ";" = true ∨ w.is "\x7d" = true := by
  have hback : ∀ {vs : List Word} (us : List Word) {w : Word}, w ∈ vs.getLast? →
      w ∈ (us ++ vs).getLast? := by
    intro vs us w hw
    rw [List.getLast?_append, Option.mem_def.1 hw]
    rfl
  induction h with
  | lead _ _ ih =>
    intro o b hp
    obtain ⟨w, hlast, hw⟩ := ih o b hp
    exact ⟨w, hback [_] hlast, hw⟩
  | expression _ _ hsemi => exact fun _ _ _ => ⟨_, List.getLast?_concat, .inl hsemi⟩
  | @declare _ _ _ kw _ _ _ _ hsemi =>
    exact fun _ _ _ => ⟨_, hback [kw] List.getLast?_concat, .inl hsemi⟩
  | @initialise _ _ ns ws _ kw eq _ _ _ _ _ _ hsemi =>
    refine fun _ _ _ => ⟨_, hback [kw] (hback ns (hback [eq] List.getLast?_concat)), .inl hsemi⟩
  | @block _ _ _ opening _ _ _ _ hclose =>
    exact fun _ _ _ => ⟨_, hback [opening] List.getLast?_concat, .inr hclose⟩
  | @branch _ _ _ cs _ kw _ _ _ _ ih =>
    intro _ _ _
    obtain ⟨w, hlast, hw⟩ := ih _ _ rfl
    exact ⟨w, hback [kw] (hback cs hlast), hw⟩
  | @branchElse _ _ _ _ cs ws nls _ kw els _ _ _ _ _ _ _ _ _ ih =>
    intro _ _ _
    obtain ⟨w, hlast, hw⟩ := ih _ _ rfl
    exact ⟨w, hback [kw] (hback (cs ++ ws ++ nls) (hback [els] hlast)), hw⟩
  | @loop _ _ _ cs _ kw _ _ _ _ ih =>
    intro _ _ _
    obtain ⟨w, hlast, hw⟩ := ih _ _ rfl
    exact ⟨w, hback [kw] (hback cs hlast), hw⟩
  | @forLoop _ _ _ _ _ nls fs cs ls _ kw opening _ _ _ _ _ _ _ _ _ ih =>
    intro _ _ _
    obtain ⟨w, hlast, hw⟩ := ih _ _ rfl
    exact ⟨w, hback [kw] (hback nls (hback [opening] (hback (fs ++ cs ++ ls) hlast))), hw⟩
  | @function _ _ _ ns nls₁ ps nls₂ nls₃ _ _ kw opening closing lbrace _ _ _ _ _ _ _ _ _ _ _ _
      hclose =>
    intro _ _ _
    refine ⟨_, hback [kw] (hback (ns ++ nls₁) (hback [opening] (hback (ps ++ nls₂)
      (hback [closing] (hback nls₃ (hback [lbrace] List.getLast?_concat)))))), .inr hclose⟩
  | @ret _ _ kw _ hclause =>
    intro _ _ _
    obtain ⟨w, hlast, hw⟩ := hclause.last_word
    exact ⟨w, hback [kw] hlast, .inl hw⟩
  | nil | cons | noFirst | first => rintro o b ⟨⟩

/-! ## Statements under their spans -/

/-- The span goes from the start of the first token of a statement to the end of the last
token of the statement and of the line breaks that were taken after it. -/
structure StmtBounds (opn : Bool) (core trail after : List Token) (span : Span) : Prop where
  first : ∃ t, core.head? = some t ∧ t.isNewline = false ∧ span.start = t.span.start
  mark : ∃ t, core.getLast? = some t ∧ (t.is ";" = true ∨ t.is "\x7d" = true)
  last : ∃ t, (core ++ trail).getLast? = some t ∧ span.stop = t.span.stop
  blank : ∀ t ∈ trail, t.isNewline = true
  trails : Trails opn (trail.map Token.word) (after.map Token.word)

/-- Some of the tokens, all of them valid, spell the statement under the number, and the span
goes over these and over the line breaks that were taken after them. -/
def Code.TellsStmt (tokens : List Token) (c : Code) (id : StmtId) (span : Span) : Prop :=
  ∃ before core trail after opn inFunction b, tokens = before ++ (core ++ (trail ++ after)) ∧
    (∀ t ∈ core ++ trail, t.isInvalid = false ∧ t.isEnd = false) ∧
    StmtBounds opn core trail after span ∧
    SpellsStmt (.stmt opn b) (core.map Token.word) ∧ b.Shaped inFunction ∧ c.HasStmt id b

/-- The node was made from a `for`: it starts with that word, or it is the last clause, which
has the span of its expression, without a semicolon. -/
def StmtNode.Lowered (tokens : List Token) (c : Code) (node : StmtNode) : Prop :=
  (∃ t ∈ tokens, t.is "for" = true ∧ node.span.start = t.span.start) ∨
    ∃ x e, node.kind = .expression x ∧ c.arena.expr? x = some e ∧ node.span = e.span

/-- The statement under the number is spelled by the tokens under its span or was made from a
`for`, and so are all statements in it. -/
inductive Code.ToldStmt (tokens : List Token) (c : Code) : StmtId → Prop
  /-- A node and its children. -/
  | node {id : StmtId} {node : StmtNode} (hnode : c.arena.stmt? id = some node)
      (htold : c.TellsStmt tokens id node.span ∨ node.Lowered tokens c)
      (hlists : ∀ list ∈ node.kind.lists, list.stop ≤ c.arena.stmtLists.size)
      (hchildren : ∀ x ∈ StmtNode.descent.children c.arena.stmtLists node, c.ToldStmt tokens x) :
      c.ToldStmt tokens id

theorem StmtNode.Lowered.mono {c d : Code} {node : StmtNode} (h : node.Lowered tokens c)
    (hd : c.Extends d) : node.Lowered tokens d := by
  refine h.imp_right ?_
  rintro ⟨x, e, hkind, hexpr, hspan⟩
  exact ⟨x, e, hkind, hd.exprs.getElem?_eq hexpr, hspan⟩

namespace Code

variable {c d : Code} {id : StmtId}

theorem TellsStmt.mono {span : Span} (h : c.TellsStmt tokens id span) (hd : c.Extends d) :
    d.TellsStmt tokens id span := by
  obtain ⟨before, core, trail, after, opn, inFunction, b, htokens, hvalid, hbounds, hspells,
    hshaped, hstored⟩ := h
  exact ⟨before, core, trail, after, opn, inFunction, b, htokens, hvalid, hbounds, hspells,
    hshaped, hstored.mono hd⟩

theorem ToldStmt.mono (h : c.ToldStmt tokens id) (hd : c.Extends d) : d.ToldStmt tokens id := by
  induction h with
  | @node id node hnode htold hlists _ ih =>
    have hentries : ∀ list ∈ node.kind.lists,
        list.entries d.arena.stmtLists = list.entries c.arena.stmtLists := fun list hlist =>
      Slice.entries_grows (hlists list hlist) hd.stmtLists
    have hsame : StmtNode.descent.children d.arena.stmtLists node =
        StmtNode.descent.children c.arena.stmtLists node :=
      congrArg (node.kind.fields ++ ·) (List.flatMap_congr hentries)
    refine .node (hd.stmts.getElem?_eq hnode) (htold.imp (·.mono hd) (·.mono hd)) ?_ ?_
    · exact fun list hlist => (hlists list hlist).trans hd.stmtLists.size_le
    · rw [hsame]
      exact ih

/-- What is reached from statements that are told is told. -/
theorem ToldStmt.of_reaches {module : List StmtId} (h : ∀ x ∈ module, c.ToldStmt tokens x)
    (hreach : c.arena.ReachesStmt module id) : c.ToldStmt tokens id := by
  induction hreach with
  | root hroot => exact h _ hroot
  | @child x parent node _ hnode hx ih =>
    obtain ⟨hnode', -, -, hchildren⟩ := ih
    cases hnode.symm.trans hnode'
    exact hchildren x hx

end Code

/-! ## Spans between two states -/

namespace ParseState

variable {s t : ParseState}

/-- The span of the last token before a later state. -/
theorem Taken.exists_last (hs : s.Taken tokens) (ht : t.Taken tokens)
    (hlt : t.tokens.length < s.tokens.length) :
    ∃ rest last, s.tokens = s.current :: rest ++ t.tokens ∧ last ∈ (s.current :: rest).getLast? ∧
      t.previous = last.span := by
  obtain ⟨mid, hmid⟩ := hs.exists_between ht hlt.le
  cases mid with
  | nil => exact absurd (congrArg List.length hmid) (by simp; omega)
  | cons first rest =>
    obtain rfl : s.current = first := (List.cons.inj hmid).1
    obtain ⟨taken, htokens, -⟩ := hs.split
    obtain ⟨taken', htokens', -, hprevious⟩ := ht.split
    have hsame : taken' = taken ++ s.current :: rest := by
      rw [htokens, hmid, ← List.append_assoc] at htokens'
      exact (List.append_cancel_right htokens').symm
    obtain ⟨last, hlast⟩ : ∃ last, last ∈ (s.current :: rest).getLast? :=
      ⟨_, List.getLast?_eq_some_getLast (List.cons_ne_nil _ _)⟩
    refine ⟨rest, last, hmid, hlast, hprevious last ?_⟩
    rw [hsame, List.getLast?_append, Option.mem_def.1 hlast]
    rfl

/-- The next token is not behind the last one before a later state. -/
theorem Taken.current_le_previous (hs : s.Taken tokens) (ht : t.Taken tokens)
    (hlt : t.tokens.length < s.tokens.length) :
    s.current.span.start ≤ t.previous.start ∧ s.current.span.stop ≤ t.previous.stop := by
  obtain ⟨rest, last, htokens, hlast, hprevious⟩ := hs.exists_last ht hlt
  have hordered : Ordered (s.current :: rest) :=
    hs.ordered_tokens.of_infix ⟨[], t.tokens, htokens.symm⟩
  have hfirst := hordered.forward _ List.mem_cons_self
  have hforward := hordered.forward _ (List.mem_of_mem_getLast? hlast)
  rw [hprevious]
  rcases List.mem_cons.1 (List.mem_of_mem_getLast? hlast) with rfl | hmem
  · exact ⟨le_rfl, le_rfl⟩
  · have hapart := List.rel_of_pairwise_cons hordered.apart hmem
    omega

theorem isNewline_skipNewlines (hs : s.Ready) : s.skipNewlines.current.isNewline = false := by
  have hfirst := List.head?_dropWhile_not Word.isNewline s.words
  rw [show s.words.dropWhile Word.isNewline = s.skipNewlines.words from
    (words_skipNewlines hs.closed).symm] at hfirst
  rw [← Token.isNewline_word]
  exact hfirst

/-- An expression starts with the next token, if this is no line break. -/
theorem Spans.start_eq {span : Span} (h : s.Spans t span) (hsolid : s.current.isNewline = false) :
    span.start = s.current.span.start := by
  obtain ⟨lead, core, trail, htokens, hlead, -, ⟨⟨first, hfirst, -, hstart⟩, -⟩⟩ := h
  cases lead with
  | nil =>
    obtain ⟨core, rfl⟩ := List.head?_eq_some_iff.1 hfirst
    obtain rfl : s.current = first := (List.cons.inj htokens).1
    exact hstart
  | cons nl lead =>
    obtain rfl : s.current = nl := (List.cons.inj htokens).1
    rw [hlead _ List.mem_cons_self] at hsolid
    cases hsolid

/-- An expression ends before the tokens that are left. -/
theorem Spans.stop_le {span : Span} (h : s.Spans t span) (hs : Ordered s.tokens) :
    ∀ u ∈ t.tokens, span.stop ≤ u.span.start := by
  obtain ⟨lead, core, trail, htokens, -, -, ⟨-, ⟨last, hlast, -, hstop⟩⟩⟩ := h
  rw [htokens] at hs
  intro u hu
  rw [hstop]
  exact (List.pairwise_append.1 (List.pairwise_append.1 hs.apart).2.1).2.2 _
    (List.mem_of_mem_getLast? hlast) _ (List.mem_append_right _ hu)

/-- A span that starts with the next token is extended up to the last one before a later
state. -/
theorem Taken.merge_previous (hs : s.Taken tokens) (ht : t.Taken tokens)
    (hlt : t.tokens.length < s.tokens.length) {first : Span}
    (hstart : first.start = s.current.span.start) (hstop : first.stop ≤ t.previous.stop) :
    (first.merge t.previous).start = s.current.span.start ∧
      (first.merge t.previous).stop = t.previous.stop := by
  have hle := (hs.current_le_previous ht hlt).1
  exact ⟨by show min _ _ = _; omega, by show max _ _ = _; omega⟩

end ParseState

/-- A statement that was read is spelled by the tokens under its span. -/
theorem StmtRead.tells {inFunction : Bool} {s t : ParseState} {id : StmtId} {b : Stmt Unit}
    {span : Span} (h : StmtRead inFunction s id t b) (hs : s.Taken tokens) (ht : t.Taken tokens)
    (hsolid : s.current.isNewline = false) (hstart : span.start = s.current.span.start)
    (hstop : span.stop = t.previous.stop) : t.code.TellsStmt tokens id span := by
  have hlt := h.length_lt
  rw [← length_tokens, ← length_tokens] at hlt
  obtain ⟨rest, last, htokens, hlast, hprevious⟩ := hs.exists_last ht hlt
  obtain ⟨opn, ws, nls, hmove, hnls, hspells, htrails⟩ := h.spelled
  have hwords : (s.current :: rest).map Token.word = ws ++ nls := by
    have hsame := hmove.words
    rw [← map_tokens, ← map_tokens, htokens, List.map_append] at hsame
    exact List.append_cancel_right hsame
  obtain ⟨core, trail, hsplit, rfl, rfl⟩ := List.map_eq_append_iff.1 hwords
  obtain ⟨taken, hall, -⟩ := hs.split
  have hhead : core.head? = some s.current := by
    cases core with
    | nil => exact absurd rfl hspells.ne_nil
    | cons first core => rw [(List.cons.inj hsplit).1, List.head?_cons]
  obtain ⟨w, hw, hmark⟩ := hspells.last_word _ _ rfl
  rw [List.getLast?_map, Option.mem_def, Option.map_eq_some_iff] at hw
  obtain ⟨mark, hmem, rfl⟩ := hw
  rw [Token.is_word, Token.is_word] at hmark
  refine ⟨taken, core, trail, t.tokens, opn, inFunction, b, ?_, ?_, ?_, hspells, h.shaped, h.stored⟩
  · rw [hall, htokens, hsplit, List.append_assoc]
  · rw [← hsplit]
    intro u hu
    have hclosed := hs.ready.closed
    rw [← map_tokens, htokens, List.map_append] at hclosed
    refine ⟨hs.between ht _ htokens u hu, ?_⟩
    rw [← Token.isEnd_word]
    exact hclosed.isEnd_of_append (by simp [ParseState.tokens]) _ (List.mem_map_of_mem hu)
  · refine ⟨⟨s.current, hhead, hsolid, hstart⟩, ⟨mark, hmem, hmark⟩,
      ⟨last, by rw [← hsplit]; exact hlast, by rw [hstop, hprevious]⟩, ?_, htrails⟩
    intro u hu
    rw [← Token.isNewline_word]
    exact hnls _ (List.mem_map_of_mem hu)

/-! ## States that follow -/

/-- The state `t` comes after the state `s` in the same text. -/
structure ParseState.Follows (tokens : List Token) (s t : ParseState) : Prop where
  reading : t.Reading tokens
  shorter : t.tokens.length ≤ s.tokens.length
  code : s.code.Extends t.code

namespace ParseState.Follows

variable {s t u : ParseState}

theorem trans (h₁ : s.Follows tokens t) (h₂ : t.Follows tokens u) : s.Follows tokens u :=
  ⟨h₂.reading, h₂.shorter.trans h₁.shorter, h₁.code.trans h₂.code⟩

theorem of_runs {α : Type} {p : Parser α} {a : α} (htakes : Takes tokens s.tokens.length p)
    (hadds : OnlyAdds p) (hs : s.Reading tokens) (hrun : Runs p s a t) : s.Follows tokens t := by
  obtain ⟨ht, hle⟩ := (htakes s hs le_rfl).of_runs hrun
  exact ⟨ht, hle, hadds.of_runs hrun⟩

theorem skipNewlines (hs : s.Reading tokens) : s.Follows tokens s.skipNewlines := by
  obtain ⟨ht, hle, -⟩ := hs.skipNewlines
  exact ⟨ht, hle, .refl _⟩

/-- A word that is asked for and there is taken. -/
theorem advance_of_is (hs : s.Reading tokens) {text : String} (his : s.current.is text = true) :
    s.Follows tokens s.advance ∧ s.advance.tokens.length < s.tokens.length := by
  obtain ⟨ht, htokens, -⟩ := hs.advance_of_is his
  have hlt : s.advance.tokens.length < s.tokens.length := by
    rw [htokens, List.length_cons]
    exact Nat.lt_succ_self _
  exact ⟨⟨ht, hlt.le, by rw [code_advance]; exact .refl _⟩, hlt⟩

theorem of_runs_from {α : Type} {p : Parser α} {a : α} {text : String}
    (htakes : TakesFrom tokens s.tokens.length text p) (hadds : OnlyAdds p) (hs : s.Reading tokens)
    (his : s.current.is text = true) (hrun : Runs p s a t) : s.Follows tokens t := by
  obtain ⟨ht, hle⟩ := (htakes s hs le_rfl his).of_runs hrun
  exact ⟨ht, hle, hadds.of_runs hrun⟩

/-- The mark that is asked for after line breaks is taken. -/
theorem mark (hs : s.Reading tokens) {text : String}
    (his : s.skipNewlines.current.is text = true) : s.Follows tokens s.skipNewlines.advance :=
  (skipNewlines hs).trans (advance_of_is (skipNewlines hs).reading his).1

end ParseState.Follows

/-! ## Statements that are stored -/

section Stored

variable {s t u : ParseState} {id : StmtId} {kind : StmtKind} {span : Span}

/-- A statement that names its parts itself is told, if they are. -/
theorem told_of_fields (hrun : Runs (addStmt kind span) s id t) (hlists : kind.lists = [])
    (hfields : ∀ x ∈ kind.fields, s.code.ToldStmt tokens x)
    (htold : t.code.TellsStmt tokens id span ∨ StmtNode.Lowered tokens t.code ⟨kind, span⟩) :
    t.code.ToldStmt tokens id := by
  have hext := (OnlyAdds.addStmt kind span).of_runs hrun
  obtain ⟨rfl, rfl⟩ := runs_addStmt.1 hrun
  have hnode : (s.arena.addStmt ⟨kind, span⟩).2.stmt? ⟨s.arena.stmts.size⟩ = some ⟨kind, span⟩ := by
    simp [Arena.addStmt, Arena.stmt?]
  refine .node hnode htold ?_ ?_
  · simp [hlists]
  · intro x hx
    have hchildren : x ∈ StmtNode.descent.children s.arena.stmtLists ⟨kind, span⟩ := hx
    simp only [Descent.children, StmtNode.descent, hlists, List.flatMap_nil,
      List.append_nil] at hchildren
    exact (hfields x hchildren).mono hext

/-- A statement that names a list of its parts is told, if they are. -/
theorem told_of_list {list : Slice StmtId} {ids : List StmtId}
    (hrun : Runs (addStmt kind span) s id t) (hfields : kind.fields = [])
    (hlists : kind.lists = [list]) (hlist : s.code.arena.stmtsIn? list = some ids)
    (hids : ∀ x ∈ ids, s.code.ToldStmt tokens x)
    (htold : t.code.TellsStmt tokens id span ∨ StmtNode.Lowered tokens t.code ⟨kind, span⟩) :
    t.code.ToldStmt tokens id := by
  have hext := (OnlyAdds.addStmt kind span).of_runs hrun
  obtain ⟨rfl, rfl⟩ := runs_addStmt.1 hrun
  have hentries : list.entries s.arena.stmtLists = ids := by
    unfold Slice.entries
    rw [show list.of? s.arena.stmtLists = some ids from hlist, Option.getD_some]
  have hnode : (s.arena.addStmt ⟨kind, span⟩).2.stmt? ⟨s.arena.stmts.size⟩ = some ⟨kind, span⟩ := by
    simp [Arena.addStmt, Arena.stmt?]
  refine .node hnode htold ?_ ?_
  · rw [show (StmtNode.mk kind span).kind.lists = [list] from hlists, List.forall_mem_singleton]
    by_contra hout
    have hnone : list.of? s.arena.stmtLists = none := if_neg hout
    exact absurd (hnone.symm.trans hlist) (by simp)
  · intro x hx
    have hchildren : x ∈ StmtNode.descent.children s.arena.stmtLists ⟨kind, span⟩ := hx
    simp only [Descent.children, StmtNode.descent, hlists, hfields, List.nil_append,
      List.flatMap_cons, List.flatMap_nil, List.append_nil, hentries] at hchildren
    exact (hids x hchildren).mono hext

/-- A statement that is stored when it was read is spelled by the tokens under its span. -/
theorem StmtRead.tells_addStmtFrom {inFunction : Bool} {b : Stmt Unit} {first : Span}
    (h : StmtRead inFunction s id t b) (hs : s.Taken tokens) (ht : t.Taken tokens)
    (hrun : Runs (addStmtFrom kind first) u id t) (hsolid : s.current.isNewline = false)
    (hstart : first.start = s.current.span.start) (hstop : first.stop ≤ t.previous.stop) :
    t.code.TellsStmt tokens id (first.merge u.previous) := by
  have hprevious : u.previous = t.previous := by
    obtain ⟨rfl, rfl⟩ := runs_addStmt.1 (runs_addStmtFrom.1 hrun)
    rfl
  have hlt := h.length_lt
  rw [← length_tokens, ← length_tokens] at hlt
  rw [hprevious]
  obtain ⟨hfirst, hlast⟩ := hs.merge_previous ht hlt hstart hstop
  exact h.tells hs ht hsolid hfirst hlast

/-- The same of a statement that starts with a certain word. -/
theorem StmtRead.tells_keyword {inFunction : Bool} {b : Stmt Unit} {text : String}
    (h : StmtRead inFunction s id t b) (hs : s.Reading tokens) (ht : t.Taken tokens)
    (his : s.current.is text = true) (hrun : Runs (addStmtFrom kind s.current.span) u id t) :
    t.code.TellsStmt tokens id (s.current.span.merge u.previous) := by
  have hlt := h.length_lt
  rw [← length_tokens, ← length_tokens] at hlt
  exact h.tells_addStmtFrom hs.toTaken ht hrun (hs.advance_of_is his).2.2 rfl
    (hs.toTaken.current_le_previous ht hlt).2

end Stored

end Scriptorium
