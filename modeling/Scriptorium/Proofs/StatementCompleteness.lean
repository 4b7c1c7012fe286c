import Scriptorium.Proofs.ExpressionCompleteness
import Scriptorium.Proofs.StatementSoundness

/-!
# Statements that a parser has to read

A shaped statement that is spelled is read, unless it ends in a conditional without
`else` and an `else` comes after it.

* `CompletesStmt` — what the parsers do with a statement;
* `SpellsStmt.completes` — they do so with every shaped statement that is spelled.
-/

namespace Scriptorium

open Scriptorium.Parser

/-! ## How statements begin -/

/-- A statement can begin with the word; `isVariable` tells whether it declares a
variable. -/
structure Word.Begins (isVariable : Bool) (w : Word) : Prop where
  solid : w.isNewline = false ∧ w.isEnd = false
  brace : w.is "\x7d" = false
  semi : w.is ";" = false
  els : w.is "else" = false
  var : w.is "var" = isVariable

theorem Word.Starts.begins {w : Word} (h : w.Starts) : w.Begins false := by
  have hmark : ∀ text, text ∉ ["(", "-", "!", "true", "false"] → w.is text = false :=
    fun text htext => Bool.eq_false_iff.2 fun hw => htext (h.mark text hw)
  exact ⟨h.solid, hmark _ (by decide), hmark _ (by decide), hmark _ (by decide),
    hmark _ (by decide)⟩

theorem Word.begins_of_is {w : Word} {text : String} (h : w.is text = true)
    (hbrace : text ≠ "\x7d") (hsemi : text ≠ ";") (hels : text ≠ "else") :
    w.Begins (text == "var") where
  solid := solid_of_is h
  brace := not_is_of_is h hbrace
  semi := not_is_of_is h hsemi
  els := not_is_of_is h hels
  var := by
    by_cases hvar : text = "var"
    · rw [hvar] at h ⊢
      simpa using h
    · rw [not_is_of_is h hvar]
      simpa using hvar

theorem isVariable_lowerFor (first : Option (Stmt Unit)) (cond last : Option (Expr Unit))
    (body : Stmt Unit) : (lowerFor first cond last body).isVariable = false := by
  cases first <;> rfl

/-- The first word of a statement. -/
theorem SpellsStmt.begins {p : StmtPhrase} {ws : List Word} (h : SpellsStmt p ws) :
    ∀ o b, p = .stmt o b → ∃ w vs, skipBlank ws = w :: vs ∧ w.Begins b.isVariable := by
  induction h with
  | lead hnl _ ih =>
    rintro o b ⟨⟩
    obtain ⟨w, vs, hw, hbegins⟩ := ih _ _ rfl
    exact ⟨w, vs, by rw [← hw, ← List.singleton_append, skipBlank_append (by simpa using hnl)],
      hbegins⟩
  | expression he _ _ =>
    rintro o b ⟨⟩
    obtain ⟨w, vs, hw, hstart, -⟩ := he.first _ rfl
    exact ⟨w, _, by rw [List.append_assoc]; exact skipBlank_append_of_cons hw _, hstart.begins⟩
  | forLoop hkw =>
    rintro o b ⟨⟩
    rw [isVariable_lowerFor]
    exact ⟨_, _, skipBlank_cons (Word.solid_of_is hkw).1,
      Word.begins_of_is hkw (by decide) (by decide) (by decide)⟩
  | declare hkw | initialise hkw | block hkw | branch hkw | branchElse hkw | loop hkw
  | function hkw | ret hkw =>
    rintro o b ⟨⟩
    exact ⟨_, _, skipBlank_cons (Word.solid_of_is hkw).1,
      Word.begins_of_is hkw (by decide) (by decide) (by decide)⟩
  | nil | cons | noFirst | first => rintro o b ⟨⟩

/-! ## Parts of statements -/

variable {s t : ParseState} {rest : List Word}

theorem complete_condition {e : Expr Unit} {ws : List Word} (h : SpellsCondition e ws)
    (hshaped : e.Shaped) (hs : s.Ready) (hsees : s.Sees (ws ++ rest)) :
    ∃ x t, Runs condition s x t ∧ Later s t ∧ t.words = rest ∧ t.code.Holds x e := by
  obtain ⟨hnls₁, hopening, hspells, hnls₂, hclosing⟩ := h
  rename_i nls₁ es nls₂ opening closing
  have hsees' : s.Sees (nls₁ ++ opening :: (es ++ (nls₂ ++ closing :: rest))) := by
    simpa using hsees
  obtain ⟨hopen, htake, hwords⟩ := hsees'.mark hs hnls₁ hopening
  obtain ⟨x, u, hrun, hlater, hu, hholds⟩ := complete_expression hspells hshaped htake.ready
    (.ofWords hwords) (.inr (.inl ((faces_append hnls₂).2 (faces_cons hclosing))))
  obtain ⟨hclose, htake', hwords'⟩ := hu.mark hlater.ready hnls₂ hclosing
  exact ⟨x, _, runs_condition.2 ⟨hopen, u, hrun, hclose, rfl⟩, (htake.trans hlater).trans htake',
    hwords', hholds.mono htake'.code⟩

theorem complete_forClause {mark : String} (hmark : mark = ";" ∨ mark = ")")
    {e : Option (Expr Unit)} {ws : List Word} (h : SpellsClause mark e ws)
    (hshaped : ∀ t ∈ e, t.Shaped) (hs : s.Ready) (hsees : s.Sees (ws ++ rest)) :
    ∃ clause t, Runs (forClause mark) s clause t ∧ Later s t ∧ t.words = rest ∧
      Option.Rel t.code.Holds clause e := by
  have hskip := ParseState.later_skipNewlines hs
  cases h with
  | @none nls w hnls hw =>
    have hsees' : s.Sees (nls ++ w :: rest) := by simpa using hsees
    obtain ⟨hfirst, -, -⟩ := hsees'.mark hs hnls hw
    obtain ⟨hlast, htake, hwords⟩ := (hsees'.skipNewlines hs).mark hskip.ready hnls hw
    refine ⟨none, _, runs_forClause.2 ⟨s.skipNewlines, ?_, hlast, rfl⟩, hskip.trans htake, hwords,
      .none⟩
    rw [if_pos hfirst]
    exact ⟨rfl, rfl⟩
  | @some e ws nls w hspells hnls hw =>
    have hsees' : s.Sees (ws ++ (nls ++ w :: rest)) := by simpa using hsees
    have hfirst : ¬ s.skipNewlines.current.is mark = true := by
      rw [← faces_words hs, hsees'.faces]
      rcases hmark with rfl | rfl <;> exact hspells.not_faces (by decide) _
    have hfaces : Faces mark (nls ++ w :: rest) := (faces_append hnls).2 (faces_cons hw)
    obtain ⟨x, u, hrun, hlater, hu, hholds⟩ := complete_expression hspells (hshaped e rfl)
      hskip.ready (hsees'.skipNewlines hs) (by
        rcases hmark with rfl | rfl
        · exact .inl hfaces
        · exact .inr (.inl hfaces))
    obtain ⟨hlast, htake, hwords⟩ := hu.mark hlater.ready hnls hw
    refine ⟨some x, _, runs_forClause.2 ⟨u, ?_, hlast, rfl⟩, (hskip.trans hlater).trans htake,
      hwords, .some (hholds.mono htake.code)⟩
    rw [if_neg hfirst]
    exact ⟨x, hrun, rfl⟩

theorem complete_expressionStatement {e : Expr Unit} {ws nls : List Word} {semi : Word}
    (hspells : Spells (.expr e) ws) (hshaped : e.Shaped) (hnls : Blank nls)
    (hsemi : semi.is ";" = true) (hs : s.Ready) (hsees : s.Sees (ws ++ nls ++ semi :: rest)) :
    ∃ id t, Runs expressionStatement s id t ∧ Later s t ∧ t.words = rest ∧
      t.code.HasStmt id (.expression e ()) := by
  rw [List.append_assoc] at hsees
  obtain ⟨x, u, hrun, hlater, hu, hholds⟩ := complete_expression hspells hshaped hs hsees
    (.inl ((faces_append hnls).2 (faces_cons hsemi)))
  obtain ⟨hmark, htake, hwords⟩ := hu.mark hlater.ready hnls hsemi
  obtain ⟨id, t, hstore, hlater', ht, hhas⟩ := exists_addStmtFrom htake.ready x.span
    (.expression (hholds.mono htake.code).tree)
  exact ⟨id, t, runs_expressionStatement.2 ⟨x, u, hrun, hmark, hstore⟩,
    (hlater.trans htake).trans hlater', ht.trans hwords, hhas⟩

theorem complete_declare {name : String} {ns nls : List Word} {kw semi : Word}
    (hkw : kw.is "var" = true) (hname : SpellsName name ns) (hnls : Blank nls)
    (hsemi : semi.is ";" = true) (hs : s.Ready)
    (hwords : s.words = kw :: (ns ++ nls ++ semi :: rest)) :
    ∃ id t, Runs variableDeclaration s id t ∧ Later s t ∧ t.words = rest ∧
      t.code.HasStmt id (.declare name none ()) := by
  obtain ⟨htake, hns⟩ := ParseState.take_word hs hwords (Word.solid_of_is hkw).2
  rw [List.append_assoc] at hns
  obtain ⟨n, u, hrun, hlater, hu, htext⟩ := complete_identifier hname htake.ready (.ofWords hns)
  obtain ⟨hmark, htake', hrest⟩ :=
    (ParseState.Sees.ofWords hu).mark hlater.ready hnls hsemi
  have hsign : ¬ u.current.is "=" = true := by
    intro hsign
    have hfirst : Faces "=" u.words := faces_cons (by rwa [Token.is_word])
    rw [hu] at hfirst
    have := hfirst.eq ((faces_append hnls).2 (faces_cons hsemi))
    exact absurd this (by decide)
  obtain ⟨id, t, hstore, hlater', ht, hhas⟩ := exists_addStmtFrom htake'.ready s.current.span
    (.declare (htake'.code.text?_eq htext) .none)
  refine ⟨id, t, runs_variableDeclaration.2 ⟨n, u, hrun, none, u, ?_, hmark, hstore⟩,
    ((htake.trans hlater).trans htake').trans hlater', ht.trans hrest, hhas⟩
  rw [if_neg hsign]
  exact ⟨rfl, rfl⟩

theorem complete_initialise {name : String} {e : Expr Unit} {ns ws nls : List Word}
    {kw sign semi : Word} (hkw : kw.is "var" = true) (hname : SpellsName name ns)
    (hsign : sign.is "=" = true) (hspells : Spells (.expr e) ws) (hshaped : e.Shaped)
    (hnls : Blank nls) (hsemi : semi.is ";" = true) (hs : s.Ready)
    (hwords : s.words = kw :: (ns ++ sign :: (ws ++ nls ++ semi :: rest))) :
    ∃ id t, Runs variableDeclaration s id t ∧ Later s t ∧ t.words = rest ∧
      t.code.HasStmt id (.declare name (some e) ()) := by
  obtain ⟨htake, hns⟩ := ParseState.take_word hs hwords (Word.solid_of_is hkw).2
  obtain ⟨n, u, hrun, hlater, hu, htext⟩ := complete_identifier hname htake.ready (.ofWords hns)
  obtain ⟨htake', hrest⟩ := ParseState.take_word hlater.ready hu (Word.solid_of_is hsign).2
  have hmark : u.current.is "=" = true := by
    rw [← Token.is_word, (List.cons.inj hu).1, hsign]
  rw [List.append_assoc] at hrest
  obtain ⟨x, v, hvalue, hlaterv, hv, hholds⟩ := complete_expression hspells hshaped htake'.ready
    (.ofWords hrest) (.inl ((faces_append hnls).2 (faces_cons hsemi)))
  obtain ⟨hlast, htakev, hend⟩ := hv.mark hlaterv.ready hnls hsemi
  obtain ⟨id, t, hstore, hlater', ht, hhas⟩ := exists_addStmtFrom htakev.ready s.current.span
    (.declare (((htake'.trans hlaterv).trans htakev).code.text?_eq htext)
      (.some (hholds.mono htakev.code).tree))
  refine ⟨id, t, runs_variableDeclaration.2 ⟨n, u, hrun, some x, v, ?_, hlast, hstore⟩,
    ((((htake.trans hlater).trans htake').trans hlaterv).trans htakev).trans hlater',
    ht.trans hend, hhas⟩
  rw [if_pos hmark]
  exact ⟨x, hvalue, rfl⟩

/-! ## What the parsers do -/

/-- On at most `n` words, the parser reads the statement, unless an `else` comes after it
that would belong to it. -/
def ReadsStmt (statement : Parser StmtId) (n : Nat) (o : Bool) (b : Stmt Unit)
    (ws : List Word) : Prop :=
  ∀ s rest, s.Ready → s.words.length ≤ n → s.Sees (ws ++ rest) →
    (o = true → ¬ Faces "else" rest) →
    ∃ id t, Runs statement s id t ∧ Later s t ∧ t.Sees rest ∧ t.code.HasStmt id b

/-- What the parsers do with a statement: with one that may be the first clause of a loop,
and with one that is no declaration of a variable. -/
structure CompletesStmt (inFunction o : Bool) (b : Stmt Unit) (ws : List Word) : Prop where
  simple : b.isSimple = true → ∀ s rest, s.Ready → s.Sees (ws ++ rest) →
    ∃ id t, Runs (if b.isVariable then variableDeclaration else expressionStatement)
        s.skipNewlines id t ∧
      Later s t ∧ t.words = rest ∧ t.code.HasStmt id b
  statement : b.isVariable = false →
    ∀ depth, ReadsStmt (statementAt depth inFunction) depth o b ws

/-- The body of a block is read up to and including the closing brace. -/
def CompletesBody (inFunction : Bool) (bs : List (Stmt Unit)) (ws : List Word) : Prop :=
  ∀ depth opening fuel seen s nls closing rest, s.Ready → s.words.length ≤ depth →
    s.words.length ≤ fuel → Blank nls → closing.is "\x7d" = true →
    s.Sees (ws ++ nls ++ closing :: rest) →
    ∃ ids t, Runs (declarationsFrom opening (statementAt depth inFunction) fuel seen) s
        (seen.reverse ++ ids) t ∧
      Later s t ∧ t.words = rest ∧ List.Forall₂ t.code.HasStmt ids bs

/-- The first clause of a loop is read. -/
def CompletesFirst (f : Option (Stmt Unit)) (ws : List Word) : Prop :=
  ∀ s rest, s.Ready → s.Sees (ws ++ rest) →
    ∃ first t, Runs forFirst s.skipNewlines first t ∧ Later s t ∧ t.words = rest ∧
      Option.Rel t.code.HasStmt first f

variable {inFunction o : Bool} {b : Stmt Unit} {ws : List Word}

theorem ParseState.Sees.current (hs : s.Ready) {w : Word} {vs : List Word}
    (hsees : s.Sees (ws ++ rest)) (hw : skipBlank ws = w :: vs) :
    s.skipNewlines.current.word = w := by
  have hwords := words_skipNewlines hs.closed
  rw [show skipBlank s.words = _ from hsees, skipBlank_append_of_cons hw] at hwords
  exact (List.cons.inj hwords).1

/-- A statement that is read is read as a declaration. -/
theorem CompletesStmt.declaration {statement : Parser StmtId} {n : Nat}
    (h : CompletesStmt inFunction o b ws) (hspells : SpellsStmt (.stmt o b) ws)
    (hstatement : b.isVariable = false → ReadsStmt statement n o b ws) :
    ReadsStmt (Parser.declaration statement) n o b ws := by
  intro s rest hs hn hsees hopen
  obtain ⟨w, vs, hw, hbegins⟩ := hspells.begins _ _ rfl
  have hword := ParseState.Sees.current hs hsees hw
  have hskip := ParseState.later_skipNewlines hs
  have hvar : s.skipNewlines.current.is "var" = b.isVariable := by
    rw [← Token.is_word, hword, hbegins.var]
  cases hb : b.isVariable with
  | true =>
    have hsimple : b.isSimple = true := by
      cases b <;> simp [Stmt.isVariable, Stmt.isSimple] at hb ⊢
    obtain ⟨id, t, hrun, hlater, hwords, hhas⟩ := h.simple hsimple s rest hs hsees
    rw [hb, if_pos rfl] at hrun
    refine ⟨id, t, runs_declaration.2 ?_, hlater, .ofWords hwords, hhas⟩
    rw [if_pos (by rw [hvar, hb])]
    exact hrun
  | false =>
    obtain ⟨id, t, hrun, hlater, hrest, hhas⟩ := hstatement hb s.skipNewlines rest hskip.ready
      (hskip.shorter.trans hn) (hsees.skipNewlines hs) hopen
    refine ⟨id, t, runs_declaration.2 ?_, hskip.trans hlater, hrest, hhas⟩
    rw [if_neg (by rw [hvar, hb]; simp)]
    exact hrun

/-! ## Each form of statement -/

/-- A token is at most one punctuation or keyword. -/
theorem is_eq_of_is {t : Token} {a b : String} (h : t.is a = true) : t.is b = decide (a = b) := by
  rw [← Token.is_word] at h ⊢
  by_cases hab : a = b
  · rw [← hab, h]
    simp
  · rw [Word.not_is_of_is h hab]
    simp [hab]

/-- A statement that begins with a keyword or a brace is read by a parser of its own. -/
theorem CompletesStmt.ofKeyword {kw : Word} {text : String} (parser : Nat → Parser StmtId)
    (hsimple : b.isSimple = false) (hkw : kw.is text = true)
    (hdispatch : ∀ depth s id t, s.skipNewlines.current.is text = true →
      Runs (parser depth) s.skipNewlines id t → Runs (statementAt (depth + 1) inFunction) s id t)
    (h : ∀ depth s rest, s.Ready → s.words.length ≤ depth + 1 → s.words = kw :: (ws ++ rest) →
      (o = true → ¬ Faces "else" rest) →
      ∃ id t, Runs (parser depth) s id t ∧ Later s t ∧ t.Sees rest ∧ t.code.HasStmt id b) :
    CompletesStmt inFunction o b (kw :: ws) where
  simple hb := absurd (hsimple ▸ hb) (by simp)
  statement _ depth s rest hs hn hsees hopen := by
    have hpos := hs.pos
    obtain ⟨depth, rfl⟩ : ∃ k, depth = k + 1 := ⟨depth - 1, by omega⟩
    obtain ⟨hword, hwords⟩ := ParseState.Sees.word hs (Word.solid_of_is hkw).1 hsees
    have hskip := ParseState.later_skipNewlines hs
    obtain ⟨id, t, hrun, hlater, hrest, hhas⟩ :=
      h depth _ rest hskip.ready (hskip.shorter.trans hn) hwords hopen
    refine ⟨id, t, hdispatch _ _ _ _ ?_ hrun, hskip.trans hlater, hrest, hhas⟩
    rw [← Token.is_word, hword, hkw]

theorem completes_loop {c : Expr Unit} {cs : List Word} {kw : Word} (hkw : kw.is "while" = true)
    (hc : SpellsCondition c cs) (hcshaped : c.Shaped)
    (hb : ∀ depth, ReadsStmt (statementAt depth inFunction) depth o b ws) :
    CompletesStmt inFunction o (.loop c b ()) (kw :: (cs ++ ws)) := by
  refine .ofKeyword (fun depth => loopStatement (statementAt depth inFunction)) rfl hkw
    (fun depth s id t h hrun => by simpa [runs_statementAt, is_eq_of_is h] using hrun) ?_
  intro depth s rest hs hn hwords hopen
  obtain ⟨htake, hcs⟩ := ParseState.take_word hs hwords (Word.solid_of_is hkw).2
  have hlength := ParseState.length_advance hwords hcs
  rw [List.append_assoc] at hcs
  obtain ⟨x, u, hcond, hlater, hu, hholds⟩ :=
    complete_condition hc hcshaped htake.ready (.ofWords hcs)
  have hshorter := hlater.shorter
  obtain ⟨id, v, hbody, hlaterv, hv, hhas⟩ :=
    hb depth u rest hlater.ready (by omega) (.ofWords hu) hopen
  obtain ⟨id', t, hstore, hlatert, ht, hloop⟩ := exists_addStmtFrom hlaterv.ready s.current.span
    (.loop (hholds.mono hlaterv.code).tree hhas)
  exact ⟨id', t, runs_loopStatement.2 ⟨x, u, hcond, id, v, hbody, hstore⟩,
    ((htake.trans hlater).trans hlaterv).trans hlatert, (congrArg skipBlank ht).trans hv, hloop⟩

theorem completes_branch {o' : Bool} {c : Expr Unit} {cs : List Word} {kw : Word}
    (hkw : kw.is "if" = true) (hc : SpellsCondition c cs) (hcshaped : c.Shaped)
    (hb : ∀ depth, ReadsStmt (statementAt depth inFunction) depth o' b ws) :
    CompletesStmt inFunction true (.branch c b none ()) (kw :: (cs ++ ws)) := by
  refine .ofKeyword (fun depth => branchStatement (statementAt depth inFunction)) rfl hkw
    (fun depth s id t h hrun => by simpa [runs_statementAt, is_eq_of_is h] using hrun) ?_
  intro depth s rest hs hn hwords hopen
  obtain ⟨htake, hcs⟩ := ParseState.take_word hs hwords (Word.solid_of_is hkw).2
  have hlength := ParseState.length_advance hwords hcs
  rw [List.append_assoc] at hcs
  obtain ⟨x, u, hcond, hlater, hu, hholds⟩ :=
    complete_condition hc hcshaped htake.ready (.ofWords hcs)
  have hshorter := hlater.shorter
  obtain ⟨id, v, hbody, hlaterv, hv, hhas⟩ :=
    hb depth u rest hlater.ready (by omega) (.ofWords hu) (fun _ => hopen rfl)
  have hskip := ParseState.later_skipNewlines hlaterv.ready
  have hels : ¬ v.skipNewlines.current.is "else" = true := by
    rw [← faces_words hlaterv.ready, hv.faces]
    exact hopen rfl
  obtain ⟨id', t, hstore, hlatert, ht, hloop⟩ := exists_addStmtFrom hskip.ready s.current.span
    (.branchNone (hholds.mono (hlaterv.trans hskip).code).tree (hhas.mono hskip.code))
  refine ⟨id', t, runs_branchStatement.2 ⟨x, u, hcond, id, v, hbody, none, _, ?_, hstore⟩,
    (((htake.trans hlater).trans hlaterv).trans hskip).trans hlatert,
    (congrArg skipBlank ht).trans (hv.skipNewlines hlaterv.ready), hloop⟩
  rw [if_neg hels]
  exact ⟨rfl, rfl⟩

theorem completes_branchElse {c : Expr Unit} {e : Stmt Unit} {cs nls vs : List Word}
    {kw els : Word} (hkw : kw.is "if" = true) (hc : SpellsCondition c cs) (hcshaped : c.Shaped)
    (hb : ∀ depth, ReadsStmt (statementAt depth inFunction) depth false b ws) (hnls : Blank nls)
    (hels : els.is "else" = true)
    (he : ∀ depth, ReadsStmt (statementAt depth inFunction) depth o e vs) :
    CompletesStmt inFunction o (.branch c b (some e) ())
      (kw :: (cs ++ ws ++ nls ++ els :: vs)) := by
  refine .ofKeyword (fun depth => branchStatement (statementAt depth inFunction)) rfl hkw
    (fun depth s id t h hrun => by simpa [runs_statementAt, is_eq_of_is h] using hrun) ?_
  intro depth s rest hs hn hwords hopen
  obtain ⟨htake, hcs⟩ := ParseState.take_word hs hwords (Word.solid_of_is hkw).2
  have hlength := ParseState.length_advance hwords hcs
  have hcs' : s.advance.words = cs ++ (ws ++ (nls ++ els :: (vs ++ rest))) := by simpa using hcs
  obtain ⟨x, u, hcond, hlater, hu, hholds⟩ :=
    complete_condition hc hcshaped htake.ready (.ofWords hcs')
  have hshorter := hlater.shorter
  obtain ⟨id, v, hthen, hlaterv, hv, hhas⟩ :=
    hb depth u _ hlater.ready (by omega) (.ofWords hu) (by simp)
  obtain ⟨hmark, htake', hvs⟩ := hv.mark hlaterv.ready hnls hels
  have hshorter' := (hlaterv.trans htake').shorter
  obtain ⟨id', w, helse, hlaterw, hw, hhas'⟩ :=
    he depth _ rest htake'.ready (by omega) (.ofWords hvs) hopen
  have hall := (hlaterv.trans htake').trans hlaterw
  obtain ⟨id'', t, hstore, hlatert, ht, hbranch⟩ := exists_addStmtFrom hlaterw.ready s.current.span
    (.branchSome (hholds.mono hall.code).tree (hhas.mono (htake'.trans hlaterw).code) hhas')
  refine ⟨id'', t, runs_branchStatement.2 ⟨x, u, hcond, id, v, hthen, some id', w, ?_, hstore⟩,
    ((htake.trans hlater).trans hall).trans hlatert, (congrArg skipBlank ht).trans hw, hbranch⟩
  rw [if_pos hmark]
  exact ⟨id', helse, rfl⟩

theorem completes_ret {value : Option (Expr Unit)} {kw : Word} (hkw : kw.is "return" = true)
    (hv : SpellsClause ";" value ws) (hshaped : ∀ e ∈ value, e.Shaped) :
    CompletesStmt true false (.ret value ()) (kw :: ws) := by
  refine .ofKeyword (fun _ => returnStatement true) rfl hkw
    (fun depth s id t h hrun => by simpa [runs_statementAt, is_eq_of_is h] using hrun) ?_
  intro depth s rest hs hn hwords _
  obtain ⟨htake, hws⟩ := ParseState.take_word hs hwords (Word.solid_of_is hkw).2
  obtain ⟨clause, u, hclause, hlater, hu, hrel⟩ :=
    complete_forClause (.inl rfl) hv hshaped htake.ready (.ofWords hws)
  have htrees : Option.Rel u.code.HasExpr (clause.map StoredExpr.id) value := by
    cases hrel with
    | none => exact .none
    | some h => exact .some h.tree
  obtain ⟨id, t, hstore, hlatert, ht, hret⟩ :=
    exists_addStmtFrom hlater.ready s.current.span (.ret htrees)
  exact ⟨id, t, runs_returnStatement.2 ⟨rfl, clause, u, hclause, hstore⟩,
    (htake.trans hlater).trans hlatert, .ofWords (ht.trans hu), hret⟩

/-- A body and its closing brace are read, and its statements are stored as a list. -/
theorem complete_blockBody (depth : Nat) (opening : Token) {bs : List (Stmt Unit)}
    {nls : List Word} {rbrace : Word} (h : CompletesBody inFunction bs ws) (hnls : Blank nls)
    (hrbrace : rbrace.is "\x7d" = true) (hs : s.Ready) (hn : s.words.length ≤ depth)
    (hsees : s.Sees (ws ++ nls ++ rbrace :: rest)) :
    ∃ slice ids t, Runs (blockBody opening (statementAt depth inFunction)) s slice t ∧ Later s t ∧
      t.words = rest ∧ t.code.arena.stmtsIn? slice = some ids ∧
      List.Forall₂ t.code.HasStmt ids bs := by
  obtain ⟨ids, u, hrun, hlater, hu, hstored⟩ :=
    h depth opening s.size [] s nls rbrace rest hs hn hs.bounded hnls hrbrace hsees
  obtain ⟨slice, t, hstore, hlatert, ht, hlist⟩ := exists_addStmts hlater.ready ids
  exact ⟨slice, ids, t, runs_blockBody.2 ⟨ids, u, hrun, hstore⟩, hlater.trans hlatert, ht.trans hu,
    hlist, hstored.imp fun _ _ hb => hb.mono hlatert.code⟩

theorem completes_block {bs : List (Stmt Unit)} {nls : List Word} {opening closing : Word}
    (hopening : opening.is "\x7b" = true) (h : CompletesBody inFunction bs ws) (hnls : Blank nls)
    (hclosing : closing.is "\x7d" = true) :
    CompletesStmt inFunction false (.block bs ()) (opening :: (ws ++ nls ++ [closing])) := by
  refine .ofKeyword (fun depth => blockStatement (statementAt depth inFunction)) rfl hopening
    (fun depth s id t h hrun => by simpa [runs_statementAt, is_eq_of_is h] using hrun) ?_
  intro depth s rest hs hn hwords _
  obtain ⟨htake, hws⟩ := ParseState.take_word hs hwords (Word.solid_of_is hopening).2
  have hlength := ParseState.length_advance hwords hws
  obtain ⟨slice, ids, u, hbody, hlater, hu, hlist, hstored⟩ := complete_blockBody depth s.current h
    hnls hclosing htake.ready (by omega) (.ofWords (by simpa using hws))
  obtain ⟨id, t, hstore, hlatert, ht, hblock⟩ :=
    exists_addStmtFrom hlater.ready s.current.span (.block hlist hstored)
  exact ⟨id, t, runs_blockStatement.2 ⟨slice, u, hbody, hstore⟩,
    (htake.trans hlater).trans hlatert, .ofWords (ht.trans hu), hblock⟩

theorem completes_function {name : String} {params : List String} {bs : List (Stmt Unit)}
    {ns nls₁ ps nls₂ nls₃ nls₄ : List Word} {kw opening closing lbrace rbrace : Word}
    (hkw : kw.is "fun" = true) (hname : SpellsName name ns) (hnls₁ : Blank nls₁)
    (hopening : opening.is "(" = true) (hparams : Separated SpellsName params ps)
    (hcount : params.length ≤ maxItems) (hnls₂ : Blank nls₂) (hclosing : closing.is ")" = true)
    (hnls₃ : Blank nls₃) (hlbrace : lbrace.is "\x7b" = true) (h : CompletesBody true bs ws)
    (hnls₄ : Blank nls₄) (hrbrace : rbrace.is "\x7d" = true) :
    CompletesStmt inFunction false (.function name params bs ())
      (kw :: (ns ++ nls₁ ++ opening :: (ps ++ nls₂ ++ closing :: (nls₃ ++ lbrace ::
        (ws ++ nls₄ ++ [rbrace]))))) := by
  refine .ofKeyword (fun depth => functionDeclaration (statementAt depth true)) rfl hkw
    (fun depth s id t h hrun => by simpa [runs_statementAt, is_eq_of_is h] using hrun) ?_
  intro depth s rest hs hn hwords _
  obtain ⟨htake, hrest⟩ := ParseState.take_word hs hwords (Word.solid_of_is hkw).2
  have hlength := ParseState.length_advance hwords hrest
  have hrest' : s.advance.words = ns ++ (nls₁ ++ opening :: (ps ++ nls₂ ++ closing ::
      (nls₃ ++ lbrace :: (ws ++ nls₄ ++ rbrace :: rest)))) := by simpa using hrest
  obtain ⟨n, u, hident, hlater, hu, htext⟩ :=
    complete_identifier hname htake.ready (.ofWords hrest')
  obtain ⟨hmark, htake₁, hu₁⟩ := (ParseState.Sees.ofWords hu).mark hlater.ready hnls₁ hopening
  have hitems : Separated (CompleteItem (fun c id text => c.names.text? id = some text)
      u.skipNewlines.advance.words.length identifier) params ps :=
    hparams.imp fun _ _ hp => completeItem_identifier hp _
  have hmono : ∀ (c d : Code) (id : NameId) (text : String), c.Extends d →
      c.names.text? id = some text → d.names.text? id = some text :=
    fun _ _ _ _ hcd hid => hcd.text?_eq hid
  obtain ⟨names, v, hnames, hlaterv, hv, hrel⟩ := complete_items .tooManyParameters hmono hitems
    hcount hnls₂ hclosing htake₁.ready le_rfl (.ofWords hu₁)
  obtain ⟨slice, w, hslice, hlaterw, hw, hlist⟩ := exists_addParams hlaterv.ready names
  obtain ⟨hbrace, htake₂, hw₂⟩ :=
    (ParseState.Sees.ofWords (hw.trans hv)).mark hlaterw.ready hnls₃ hlbrace
  have hhead := ((hlater.trans htake₁).trans (hlaterv.trans hlaterw)).trans htake₂
  have hshorter := hhead.shorter
  obtain ⟨body, ids, z, hbody, hlaterz, hz, hids, hstored⟩ := complete_blockBody depth
    w.skipNewlines.current h hnls₄ hrbrace htake₂.ready (by omega) (.ofWords hw₂)
  have htail := (hlaterw.trans htake₂).trans hlaterz
  obtain ⟨id, t, hstore, hlatert, ht, hfun⟩ := exists_addStmtFrom hlaterz.ready s.current.span
    (.function (((htake₁.trans hlaterv).trans htail).code.text?_eq htext)
      ((htake₂.trans hlaterz).code.params.of?_eq hlist)
      (hrel.imp fun _ _ hp => htail.code.text?_eq hp) hids hstored)
  exact ⟨id, t, runs_functionDeclaration.2 ⟨n, u, hident, hmark, names, v, hnames, slice, w, hslice,
      hbrace, body, z, hbody, hstore⟩,
    ((htake.trans hhead).trans hlaterz).trans hlatert, .ofWords (ht.trans hz), hfun⟩

/-! ## Loops with clauses -/

theorem exists_storesBody (hs : s.Ready) (span : Span) {body : StmtId}
    {last : Option StoredExpr} {l : Option (Expr Unit)} (hbody : s.code.HasStmt body b)
    (hlast : Option.Rel s.code.Holds last l) : ∃ inner t, StoresBody span body last s inner t := by
  cases hlast with
  | none => exact ⟨body, s, rfl, rfl⟩
  | @some x e hx =>
    have hstep : Runs (addStmt (.expression x.id) x.span) s _ _ := runs_addStmt.2 ⟨rfl, rfl⟩
    obtain ⟨hmove, hstored⟩ := hstep.addStmt hs (.expression hx.tree)
    obtain ⟨both, v, hboth, hlater, -, hlist⟩ := exists_addStmts hmove.ready [body, _]
    obtain ⟨inner, t, hrun, -⟩ := exists_addStmtFrom hlater.ready span (.block hlist
      (.cons (hbody.mono (hmove.toLater.trans hlater).code)
        (.cons (hstored.mono hlater.code) .nil)))
    exact ⟨inner, t, _, _, both, v, hstep, hboth, hrun⟩

theorem exists_storesTest (hs : s.Ready) (span : Span) (cond : Option StoredExpr) :
    ∃ test t, StoresTest span cond s test t := by
  cases cond with
  | none =>
    obtain ⟨x, t, hrun, -⟩ := exists_addExpr hs span (.bool s.code true)
    exact ⟨x, t, hrun⟩
  | some cond => exact ⟨cond, s, rfl, rfl⟩

theorem exists_storesWhole (hs : s.Ready) (span : Span) {loop : StmtId} {first : Option StmtId}
    {f : Option (Stmt Unit)} (hloop : s.code.HasStmt loop b)
    (hf : Option.Rel s.code.HasStmt first f) : ∃ id t, StoresWhole span loop first s id t := by
  cases hf with
  | none => exact ⟨loop, s, rfl, rfl⟩
  | @some id f hf =>
    obtain ⟨both, v, hboth, hlater, -, hlist⟩ := exists_addStmts hs [id, loop]
    obtain ⟨id, t, hrun, -⟩ := exists_addStmtFrom hlater.ready span (.block hlist
      (.cons (hf.mono hlater.code) (.cons (hloop.mono hlater.code) .nil)))
    exact ⟨id, t, both, v, hboth, hrun⟩

/-- The parts of a loop with clauses are shaped when the statement that it stands for is. -/
theorem of_shaped_lowerFor {first : Option (Stmt Unit)} {cond last : Option (Expr Unit)}
    {body : Stmt Unit} (h : (lowerFor first cond last body).Shaped inFunction) :
    (∀ f ∈ first, f.Shaped inFunction) ∧ (∀ e ∈ cond, e.Shaped) ∧ (∀ e ∈ last, e.Shaped) ∧
      body.Shaped inFunction := by
  have hloop : (lowerLoop cond last body).Shaped inFunction ∧
      ∀ f ∈ first, f.Shaped inFunction := by
    cases first with
    | none => exact ⟨h, by simp⟩
    | some f =>
      obtain ⟨hf, hloop, -⟩ := h
      exact ⟨hloop, by rintro _ ⟨⟩; exact hf⟩
  obtain ⟨⟨hcond, -, hbody⟩, hfirst⟩ := hloop
  refine ⟨hfirst, ?_, ?_⟩
  · cases cond with
    | none => simp
    | some c => rintro _ ⟨⟩; exact hcond
  · cases last with
    | none => exact ⟨by simp, hbody⟩
    | some l =>
      obtain ⟨hb, hl, -⟩ := hbody
      exact ⟨by rintro _ ⟨⟩; exact hl, hb⟩

theorem completes_forLoop {first : Option (Stmt Unit)} {cond last : Option (Expr Unit)}
    {nls fs cs ls : List Word} {kw opening : Word} (hkw : kw.is "for" = true) (hnls : Blank nls)
    (hopening : opening.is "(" = true) (hfirst : CompletesFirst first fs)
    (hc : SpellsClause ";" cond cs) (hcshaped : ∀ e ∈ cond, e.Shaped)
    (hl : SpellsClause ")" last ls) (hlshaped : ∀ e ∈ last, e.Shaped)
    (hb : ∀ depth, ReadsStmt (statementAt depth inFunction) depth o b ws) :
    CompletesStmt inFunction o (lowerFor first cond last b)
      (kw :: (nls ++ opening :: (fs ++ cs ++ ls ++ ws))) := by
  refine .ofKeyword (fun depth => forStatement (statementAt depth inFunction))
    (by cases first <;> rfl) hkw
    (fun depth s id t h hrun => by simpa [runs_statementAt, is_eq_of_is h] using hrun) ?_
  intro depth s rest hs hn hwords hopen
  obtain ⟨htake, hrest⟩ := ParseState.take_word hs hwords (Word.solid_of_is hkw).2
  have hlength := ParseState.length_advance hwords hrest
  have hrest' : s.advance.words = nls ++ opening :: (fs ++ (cs ++ (ls ++ (ws ++ rest)))) := by
    simpa using hrest
  obtain ⟨hmark, htake₁, hw₁⟩ :=
    (ParseState.Sees.ofWords hrest').mark htake.ready hnls hopening
  obtain ⟨f, u₁, hrunf, hlater₁, hu₁, hf⟩ := hfirst _ _ htake₁.ready (.ofWords hw₁)
  obtain ⟨c, u₂, hrunc, hlater₂, hu₂, hcond⟩ :=
    complete_forClause (.inl rfl) hc hcshaped hlater₁.ready (.ofWords hu₁)
  obtain ⟨l, u₃, hrunl, hlater₃, hu₃, hlast⟩ :=
    complete_forClause (.inr rfl) hl hlshaped hlater₂.ready (.ofWords hu₂)
  have hhead := (htake₁.trans hlater₁).trans (hlater₂.trans hlater₃)
  have hshorter := hhead.shorter
  obtain ⟨body, u₄, hbody, hlater₄, hu₄, hstored⟩ :=
    hb depth u₃ rest hlater₃.ready (by omega) (.ofWords hu₃) hopen
  have hf' := rel_imp hf fun _ _ hk => hk.mono ((hlater₂.trans hlater₃).trans hlater₄).code
  have hc' := rel_imp hcond fun _ _ hk => hk.mono (hlater₃.trans hlater₄).code
  have hl' := rel_imp hlast fun _ _ hk => hk.mono hlater₄.code
  obtain ⟨inner, u₅, hinner⟩ := exists_storesBody hlater₄.ready s.current.span hstored hl'
  obtain ⟨hmove₅, hinner'⟩ := storesBody_hasStmt hlater₄.ready hstored hl' hinner
  obtain ⟨test, u₆, htest⟩ := exists_storesTest hmove₅.ready s.current.span c
  obtain ⟨hmove₆, htest'⟩ :=
    storesTest_hasExpr hmove₅.ready (rel_imp hc' fun _ _ hk => hk.mono hmove₅.code) htest
  obtain ⟨loop, u₇, hloop, hlater₇, -, hloop'⟩ := exists_addStmtFrom hmove₆.ready s.current.span
    (.loop htest' (hinner'.mono hmove₆.code))
  have hstores := (hmove₅.toLater.trans hmove₆.toLater).trans hlater₇
  obtain ⟨id, t, hwhole⟩ := exists_storesWhole hlater₇.ready s.current.span hloop'
    (rel_imp hf' fun _ _ hk => hk.mono hstores.code)
  obtain ⟨hmove, hhas⟩ :=
    hasStmt_lowerFor hlater₄.ready hf' hc' hl' hstored hinner htest hloop hwhole
  refine ⟨id, t, runs_forStatement.2 ⟨hmark, f, u₁, hrunf, c, u₂, hrunc, l, u₃, hrunl, body, u₄,
    hbody, inner, u₅, hinner, test, u₆, htest, loop, u₇, hloop, hwhole⟩,
    ((htake.trans hhead).trans hlater₄).trans hmove.toLater, ?_, hhas⟩
  exact (congrArg skipBlank (hmove.words_eq rfl)).trans hu₄

/-! ## Simple statements, bodies and first clauses -/

theorem completes_expressionStmt {e : Expr Unit} {nls : List Word} {semi : Word}
    (hspells : Spells (.expr e) ws) (hshaped : e.Shaped) (hnls : Blank nls)
    (hsemi : semi.is ";" = true) :
    CompletesStmt inFunction false (.expression e ()) (ws ++ nls ++ [semi]) := by
  have hrun : ∀ s rest, s.Ready → s.Sees (ws ++ nls ++ [semi] ++ rest) →
      ∃ id t, Runs expressionStatement s.skipNewlines id t ∧ Later s t ∧ t.words = rest ∧
        t.code.HasStmt id (.expression e ()) := by
    intro s rest hs hsees
    have hskip := ParseState.later_skipNewlines hs
    have hsees' : s.Sees (ws ++ nls ++ semi :: rest) := by simpa using hsees
    obtain ⟨id, t, hrun, hlater, ht, hhas⟩ := complete_expressionStatement hspells hshaped hnls
      hsemi hskip.ready (hsees'.skipNewlines hs)
    exact ⟨id, t, hrun, hskip.trans hlater, ht, hhas⟩
  refine ⟨fun _ => hrun, fun _ depth s rest hs hn hsees _ => ?_⟩
  have hpos := hs.pos
  obtain ⟨depth, rfl⟩ : ∃ k, depth = k + 1 := ⟨depth - 1, by omega⟩
  obtain ⟨id, t, hrun, hlater, ht, hhas⟩ := hrun s rest hs hsees
  obtain ⟨w, vs, hw, hstart, -⟩ := hspells.first _ rfl
  have hword := ParseState.Sees.current hs (by simpa using hsees) hw
  have hnot : ∀ text, text ∉ ["(", "-", "!", "true", "false"] →
      s.skipNewlines.current.is text = false := by
    intro text htext
    rw [← Token.is_word, hword]
    exact Bool.eq_false_iff.2 fun h => htext (hstart.mark text h)
  refine ⟨id, t, runs_statementAt.2 ?_, hlater, .ofWords ht, hhas⟩
  simpa [hnot] using hrun

theorem completes_variable {name : String} {init : Option (Expr Unit)} {kw : Word}
    (hkw : kw.is "var" = true)
    (h : ∀ s rest, s.Ready → s.words = kw :: (ws ++ rest) →
      ∃ id t, Runs variableDeclaration s id t ∧ Later s t ∧ t.words = rest ∧
        t.code.HasStmt id (.declare name init ())) :
    CompletesStmt inFunction false (.declare name init ()) (kw :: ws) where
  simple _ s rest hs hsees := by
    have hskip := ParseState.later_skipNewlines hs
    obtain ⟨-, hwords⟩ := ParseState.Sees.word hs (Word.solid_of_is hkw).1 hsees
    obtain ⟨id, t, hrun, hlater, ht, hhas⟩ := h _ rest hskip.ready hwords
    exact ⟨id, t, hrun, hskip.trans hlater, ht, hhas⟩
  statement hb := absurd hb (by simp [Stmt.isVariable])

theorem CompletesStmt.lead {nl : Word} (hnl : nl.isNewline = true)
    (h : CompletesStmt inFunction o b ws) : CompletesStmt inFunction o b (nl :: ws) := by
  have hblank : Blank [nl] := by simpa using hnl
  have hsees : ∀ {s : ParseState} {rest}, s.Sees (nl :: ws ++ rest) → s.Sees (ws ++ rest) :=
    fun hsees => ParseState.Sees.lead hblank hsees
  exact ⟨fun hb s rest hs h' => h.simple hb s rest hs (hsees h'),
    fun hb depth s rest hs hn h' => h.statement hb depth s rest hs hn (hsees h')⟩

theorem completesBody_nil : CompletesBody inFunction [] [] := by
  intro depth opening fuel seen s nls closing rest hs _ hfuel hnls hclosing hsees
  have hpos := hs.pos
  obtain ⟨fuel, rfl⟩ : ∃ k, fuel = k + 1 := ⟨fuel - 1, by omega⟩
  obtain ⟨hmark, htake, hwords⟩ := ParseState.Sees.mark hs hnls hclosing hsees
  refine ⟨[], _, runs_declarationsFrom.2 ?_, htake, hwords, .nil⟩
  rw [if_pos hmark]
  exact ⟨by simp, rfl⟩

/-- No `else` comes before the end of a body. -/
theorem SpellsStmt.body_not_faces {bs : List (Stmt Unit)} (h : SpellsStmt (.body bs) ws)
    {rest : List Word} (hrest : ¬ Faces "else" rest) : ¬ Faces "else" (ws ++ rest) := by
  cases h with
  | nil => exact hrest
  | cons hfirst _ =>
    obtain ⟨w, vs, hw, hbegins⟩ := hfirst.begins _ _ rfl
    rintro ⟨v, us, hv, hels⟩
    rw [List.append_assoc, skipBlank_append_of_cons hw] at hv
    cases hv
    rw [hbegins.els] at hels
    exact absurd hels (by simp)

theorem completesBody_cons {bs : List (Stmt Unit)} {vs : List Word}
    (hspells : SpellsStmt (.stmt o b) ws) (hb : CompletesStmt inFunction o b ws)
    (hbody : SpellsStmt (.body bs) vs) (hbs : CompletesBody inFunction bs vs) :
    CompletesBody inFunction (b :: bs) (ws ++ vs) := by
  intro depth opening fuel seen s nls closing rest hs hn hfuel hnls hclosing hsees
  have hpos := hs.pos
  obtain ⟨fuel, rfl⟩ : ∃ k, fuel = k + 1 := ⟨fuel - 1, by omega⟩
  have hsees' : s.Sees (ws ++ (vs ++ (nls ++ closing :: rest))) := by simpa using hsees
  obtain ⟨w, us, hw, hbegins⟩ := hspells.begins _ _ rfl
  have hword := ParseState.Sees.current hs hsees' hw
  have hskip := ParseState.later_skipNewlines hs
  have hshorter := hskip.shorter
  have hclose : ¬ s.skipNewlines.current.is "\x7d" = true := by
    rw [← Token.is_word, hword, hbegins.brace]
    simp
  have hend : s.skipNewlines.current.isEnd = false := by
    rw [← Token.isEnd_word, hword, hbegins.solid.2]
  have hels : ¬ Faces "else" (vs ++ (nls ++ closing :: rest)) := by
    refine hbody.body_not_faces fun h => ?_
    have := h.eq ((faces_append hnls).2 (faces_cons hclosing))
    exact absurd this (by decide)
  obtain ⟨id, u, hrun, hlater, hu, hhas⟩ :=
    hb.declaration hspells (fun hvar => hb.statement hvar depth) s.skipNewlines _ hskip.ready
      (by omega) (hsees'.skipNewlines hs) (fun _ => hels)
  obtain ⟨b', hread⟩ := sound_declaration (sound_statementAt depth inFunction) hskip.ready
    (by omega) hrun
  have hlt := hread.length_lt
  obtain ⟨ids, t, hrest, hlatert, hwords, hids⟩ := hbs depth opening fuel (id :: seen) u nls closing
    rest hlater.ready (by omega) (by omega) hnls hclosing
    (by rw [List.append_assoc]; exact hu)
  refine ⟨id :: ids, t, runs_declarationsFrom.2 ?_, (hskip.trans hlater).trans hlatert, hwords,
    .cons (hhas.mono hlatert.code) hids⟩
  rw [if_neg hclose]
  exact ⟨hend, id, u, hrun, by simpa using hrest⟩

theorem completesFirst_none {nls : List Word} {semi : Word} (hnls : Blank nls)
    (hsemi : semi.is ";" = true) : CompletesFirst none (nls ++ [semi]) := by
  intro s rest hs hsees
  rw [List.append_assoc] at hsees
  obtain ⟨hmark, htake, hwords⟩ := ParseState.Sees.mark hs hnls hsemi hsees
  refine ⟨none, _, runs_forFirst.2 ?_, htake, hwords, .none⟩
  rw [if_pos hmark]
  exact ⟨rfl, rfl⟩

theorem completesFirst_some (hspells : SpellsStmt (.stmt false b) ws)
    (h : CompletesStmt inFunction false b ws) (hsimple : b.isSimple = true) :
    CompletesFirst (some b) ws := by
  intro s rest hs hsees
  obtain ⟨w, us, hw, hbegins⟩ := hspells.begins _ _ rfl
  have hword := ParseState.Sees.current hs hsees hw
  have hsemi : ¬ s.skipNewlines.current.is ";" = true := by
    rw [← Token.is_word, hword, hbegins.semi]
    simp
  have hvar : s.skipNewlines.current.is "var" = b.isVariable := by
    rw [← Token.is_word, hword, hbegins.var]
  obtain ⟨id, t, hrun, hlater, hwords, hhas⟩ := h.simple hsimple s rest hs hsees
  refine ⟨some id, t, runs_forFirst.2 ?_, hlater, hwords, .some hhas⟩
  rw [if_neg hsemi, hvar]
  cases hb : b.isVariable with
  | true =>
    rw [hb] at hrun
    exact ⟨id, hrun, rfl⟩
  | false =>
    rw [hb] at hrun
    exact ⟨id, hrun, rfl⟩

/-! ## Every statement -/

/-- What is known of a phrase that is spelled. -/
def StmtPhrase.Completes : StmtPhrase → List Word → Prop
  | .stmt o b, ws => ∀ inFunction, b.Shaped inFunction → CompletesStmt inFunction o b ws
  | .body bs, ws => ∀ inFunction, Stmt.ShapedAll inFunction bs → CompletesBody inFunction bs ws
  | .first f, ws => ∀ inFunction, (∀ b ∈ f, b.Shaped inFunction) → CompletesFirst f ws

/-- Every shaped statement that is spelled is read. -/
theorem SpellsStmt.completes {p : StmtPhrase} {ws : List Word} (h : SpellsStmt p ws) :
    p.Completes ws := by
  induction h with
  | lead hnl _ ih => exact fun inFunction hshaped => (ih inFunction hshaped).lead hnl
  | expression he hnls hsemi =>
    exact fun inFunction hshaped => completes_expressionStmt he hshaped hnls hsemi
  | declare hkw hname hnls hsemi =>
    exact fun inFunction _ => completes_variable hkw fun s rest hs hwords =>
      complete_declare hkw hname hnls hsemi hs (by simpa using hwords)
  | initialise hkw hname hsign he hnls hsemi =>
    exact fun inFunction hshaped => completes_variable hkw fun s rest hs hwords =>
      complete_initialise hkw hname hsign he (hshaped _ rfl) hnls hsemi hs (by simpa using hwords)
  | block hopening _ hnls hclosing ih =>
    exact fun inFunction hshaped => completes_block hopening (ih inFunction hshaped) hnls hclosing
  | branch hkw hc _ hvar ih =>
    intro inFunction hshaped
    exact completes_branch hkw hc hshaped.1 ((ih inFunction hshaped.2.2).statement hvar)
  | branchElse hkw hc _ hvar hnls hels _ hvar' iht ihe =>
    intro inFunction hshaped
    obtain ⟨hcond, -, hthen, -, -, helse⟩ := hshaped
    exact completes_branchElse hkw hc hcond ((iht inFunction hthen).statement hvar) hnls hels
      ((ihe inFunction helse).statement hvar')
  | loop hkw hc _ hvar ih =>
    intro inFunction hshaped
    exact completes_loop hkw hc hshaped.1 ((ih inFunction hshaped.2.2).statement hvar)
  | forLoop hkw hnls hopening _ hc hl _ hvar ihf ihb =>
    intro inFunction hshaped
    obtain ⟨hfirst, hcond, hlast, hbody⟩ := of_shaped_lowerFor hshaped
    exact completes_forLoop hkw hnls hopening (ihf inFunction hfirst) hc hcond hl hlast
      ((ihb inFunction hbody).statement hvar)
  | function hkw hname hnls₁ hopening hps hnls₂ hclosing hnls₃ hlb _ hnls₄ hrb ih =>
    exact fun inFunction hshaped => completes_function hkw hname hnls₁ hopening hps hshaped.1 hnls₂
      hclosing hnls₃ hlb (ih true hshaped.2) hnls₄ hrb
  | ret hkw hv =>
    intro inFunction hshaped
    obtain ⟨rfl, hvalue⟩ := hshaped
    exact completes_ret hkw hv hvalue
  | nil => exact fun inFunction _ => completesBody_nil
  | cons hb hbs ih ihs =>
    exact fun inFunction hshaped => completesBody_cons hb (ih inFunction hshaped.1) hbs
      (ihs inFunction hshaped.2)
  | noFirst hnls hsemi => exact fun _ _ => completesFirst_none hnls hsemi
  | first hb hsimple ih =>
    exact fun inFunction hshaped => completesFirst_some hb (ih inFunction (hshaped _ rfl)) hsimple

end Scriptorium
