import Scriptorium.Proofs.Grammar
import Scriptorium.Proofs.ParserCases

/-!
# Lists that a parser has to read

What is spelled is read.  A parser starts at words that are given up to the line breaks
in front of them, and it leaves the words that come after, again up to line breaks.

* `ParseState.Sees` — the words that are left, up to the line breaks in front of them;
* `Ends` — the next word ends an expression;
* `CompleteItem` — the parser of items reads an item that is spelled;
* `complete_items` — what follows for lists.
-/

namespace Scriptorium

open Scriptorium.Parser

/-! ## The words that come next -/

/-- Up to line breaks in front, the words `ws` are left. -/
def ParseState.Sees (s : ParseState) (ws : List Word) : Prop := skipBlank s.words = skipBlank ws

/-- The next word ends an expression. -/
def Ends (ws : List Word) : Prop := Faces ";" ws ∨ Faces ")" ws ∨ Faces "," ws

/-- What comes after a word that is no line break is shorter than the whole. -/
theorem length_lt_skipBlank {ws vs : List Word} {w : Word} (h : w.isNewline = false) :
    vs.length < (skipBlank (ws ++ w :: vs)).length := by
  induction ws with
  | nil => simp [skipBlank_cons h]
  | cons v ws ih =>
    by_cases hv : v.isNewline = true
    · rw [List.cons_append, ← List.singleton_append, skipBlank_append (by simpa using hv)]
      exact ih
    · rw [List.cons_append, skipBlank_cons (by simpa using hv)]
      simp only [List.length_cons, List.length_append]
      omega

namespace ParseState

variable {s t : ParseState} {ws : List Word} {w : Word}

theorem Sees.faces (h : s.Sees ws) {text : String} : Faces text s.words ↔ Faces text ws := by
  unfold Faces
  rw [show skipBlank s.words = skipBlank ws from h]

theorem Sees.stops (h : s.Sees ws) {level : Nat} : Stops level s.words ↔ Stops level ws := by
  unfold Stops
  rw [show skipBlank s.words = skipBlank ws from h]

theorem Sees.skipNewlines (hs : s.Ready) (h : s.Sees ws) : s.skipNewlines.Sees ws := by
  unfold Sees at h ⊢
  rw [words_skipNewlines hs.closed, skipBlank_skipBlank, h]

theorem Sees.lead {nls : List Word} (hnls : Blank nls) (h : s.Sees (nls ++ ws)) : s.Sees ws := by
  unfold Sees at h ⊢
  rwa [skipBlank_append hnls] at h

theorem Sees.ofWords (h : s.words = ws) : s.Sees ws := congrArg skipBlank h

/-- The words left are more than those after a word that is no line break. -/
theorem Sees.length_lt {vs : List Word} (hw : w.isNewline = false) (h : s.Sees (ws ++ w :: vs)) :
    vs.length < s.words.length := by
  have hle : (skipBlank s.words).length ≤ s.words.length := List.length_dropWhile_le ..
  rw [show skipBlank s.words = _ from h] at hle
  exact lt_of_lt_of_le (length_lt_skipBlank hw) hle

theorem later_skipNewlines (hs : s.Ready) : Later s s.skipNewlines := by
  obtain ⟨nls, -, hmove⟩ := moves_skipNewlines hs
  exact hmove.toLater

/-- A word that is no line break comes next once line breaks are skipped. -/
theorem Sees.word (hs : s.Ready) (hw : w.isNewline = false) (h : s.Sees (w :: ws)) :
    s.skipNewlines.current.word = w ∧ s.skipNewlines.words = w :: ws := by
  have hwords := words_skipNewlines hs.closed
  rw [show skipBlank s.words = _ from h, skipBlank_cons hw] at hwords
  exact ⟨(List.cons.inj hwords).1, hwords⟩

/-- A word that comes next can be taken. -/
theorem take_word (hs : s.Ready) (h : s.words = w :: ws) (hw : w.isEnd = false) :
    Later s s.advance ∧ s.advance.words = ws := by
  have hmove := moves_word hs (List.cons.inj h).1 hw
  exact ⟨hmove.toLater, hmove.words_eq h⟩

theorem length_advance (h : s.words = w :: ws) (hrest : s.advance.words = ws) :
    s.words.length = s.advance.words.length + 1 := by
  rw [h, hrest, List.length_cons]

/-- A mark that comes next can be taken. -/
theorem Sees.mark (hs : s.Ready) {nls : List Word} {text : String} (hnls : Blank nls)
    (hw : w.is text = true) (h : s.Sees (nls ++ w :: ws)) :
    s.skipNewlines.current.is text = true ∧ Later s s.skipNewlines.advance ∧
      s.skipNewlines.advance.words = ws := by
  obtain ⟨hnl, hend⟩ := Word.solid_of_is hw
  obtain ⟨hword, hwords⟩ := (h.lead hnls).word hs hnl
  have hskip := later_skipNewlines hs
  obtain ⟨htake, hrest⟩ := take_word hskip.ready hwords hend
  refine ⟨?_, hskip.trans htake, hrest⟩
  rw [← Token.is_word, hword, hw]

end ParseState

/-! ## Storing -/

section Storing

variable {s : ParseState}

theorem exists_intern (hs : s.Ready) (text : String) :
    ∃ name t, Runs (intern text) s name t ∧ Later s t ∧ t.words = s.words ∧
      t.current = s.current ∧ t.code.names.text? name = some text := by
  have hrun : Runs (intern text) s _ _ := runs_intern.2 ⟨rfl, rfl⟩
  obtain ⟨hmove, htext⟩ := hrun.intern hs
  exact ⟨_, _, hrun, hmove.toLater, hmove.words_eq rfl, rfl, htext⟩

theorem exists_addExpr (hs : s.Ready) {kind : ExprKind} {e : Expr Unit} (span : Span)
    (he : s.code.BuildsExpr kind e) :
    ∃ x t, Runs (addExpr kind span) s x t ∧ Later s t ∧ t.words = s.words ∧ t.code.Holds x e ∧
      x.node.kind = kind := by
  have hrun : Runs (addExpr kind span) s _ _ := runs_addExpr.2 ⟨rfl, rfl⟩
  obtain ⟨hmove, hholds, hkind⟩ := hrun.addExpr hs he
  exact ⟨_, _, hrun, hmove.toLater, hmove.words_eq rfl, hholds, hkind⟩

theorem exists_addStmtFrom (hs : s.Ready) {kind : StmtKind} {b : Stmt Unit} (first : Span)
    (hb : s.code.BuildsStmt kind b) :
    ∃ id t, Runs (addStmtFrom kind first) s id t ∧ Later s t ∧ t.words = s.words ∧
      t.code.HasStmt id b := by
  have hrun : Runs (addStmt kind (first.merge s.previous)) s _ _ := runs_addStmt.2 ⟨rfl, rfl⟩
  obtain ⟨hmove, hhas⟩ := hrun.addStmt hs hb
  exact ⟨_, _, runs_addStmtFrom.2 hrun, hmove.toLater, hmove.words_eq rfl, hhas⟩

theorem exists_addExprs (hs : s.Ready) (ids : List ExprId) :
    ∃ slice t, Runs (addExprs ids) s slice t ∧ Later s t ∧ t.words = s.words ∧
      t.code.arena.exprsIn? slice = some ids := by
  have hrun : Runs (addExprs ids) s _ _ := runs_addExprs.2 ⟨rfl, rfl⟩
  obtain ⟨hmove, hlist⟩ := hrun.addExprs hs
  exact ⟨_, _, hrun, hmove.toLater, hmove.words_eq rfl, hlist⟩

theorem exists_addStmts (hs : s.Ready) (ids : List StmtId) :
    ∃ slice t, Runs (addStmts ids) s slice t ∧ Later s t ∧ t.words = s.words ∧
      t.code.arena.stmtsIn? slice = some ids := by
  have hrun : Runs (addStmts ids) s _ _ := runs_addStmts.2 ⟨rfl, rfl⟩
  obtain ⟨hmove, hlist⟩ := hrun.addStmts hs
  exact ⟨_, _, hrun, hmove.toLater, hmove.words_eq rfl, hlist⟩

theorem exists_addParams (hs : s.Ready) (names : List NameId) :
    ∃ slice t, Runs (addParams names) s slice t ∧ Later s t ∧ t.words = s.words ∧
      t.code.arena.paramsIn? slice = some names := by
  have hrun : Runs (addParams names) s _ _ := runs_addParams.2 ⟨rfl, rfl⟩
  obtain ⟨hmove, hlist⟩ := hrun.addParams hs
  exact ⟨_, _, hrun, hmove.toLater, hmove.words_eq rfl, hlist⟩

end Storing

/-! ## Lists -/

variable {α β : Type} {Q : Code → α → β → Prop} {n : Nat} {item : Parser α}

/-- On at most `n` words, the parser reads the thing `b` from the words `ws`, which do not
start with the parenthesis that closes a list. -/
structure CompleteItem (Q : Code → α → β → Prop) (n : Nat) (item : Parser α) (b : β)
    (ws : List Word) : Prop where
  runs : ∀ s rest, s.Ready → s.words.length ≤ n → s.Sees (ws ++ rest) → Ends rest →
    ∃ a t, Runs item s a t ∧ Later s t ∧ t.Sees rest ∧ Q t.code a b
  first : ∀ rest, ¬ Faces ")" (ws ++ rest)

/-- A list with items does not start with the parenthesis that closes it. -/
theorem Separated.first {bs : List β} {ws : List Word}
    (h : Separated (CompleteItem Q n item) bs ws) (hbs : bs ≠ []) (rest : List Word) :
    ¬ Faces ")" (ws ++ rest) := by
  cases h with
  | none => exact absurd rfl hbs
  | one hb => exact hb.first rest
  | more hb _ _ _ =>
    rw [List.append_assoc, List.append_assoc]
    exact hb.first _

theorem complete_itemsFrom (tooMany : ParseFault)
    (hQ : ∀ c d a b, c.Extends d → Q c a b → Q d a b) {bs : List β} {ws : List Word}
    (h : Separated (CompleteItem Q n item) bs ws) (hbs : bs ≠ []) :
    ∀ (fuel : Nat) (seen : List α) (s : ParseState) (rest : List Word), s.Ready →
      s.words.length ≤ n → s.words.length ≤ fuel → seen.length + bs.length ≤ maxItems →
      s.Sees (ws ++ rest) → Faces ")" rest →
      ∃ as t, Runs (itemsFrom tooMany item fuel seen) s (seen.reverse ++ as) t ∧ Later s t ∧
        t.words = skipBlank rest ∧ List.Forall₂ (Q t.code) as bs := by
  induction h with
  | none => exact absurd rfl hbs
  | one hb =>
    intro fuel seen s rest hs hn hfuel hcount hsees hclose
    obtain ⟨fuel, rfl⟩ : ∃ k, fuel = k + 1 := ⟨fuel - 1, by have := hs.pos; omega⟩
    have hskip := ParseState.later_skipNewlines hs
    obtain ⟨a, u, hitem, hlater, hrest, hab⟩ := hb.runs _ rest hskip.ready
      (hskip.shorter.trans hn) (hsees.skipNewlines hs) (.inr (.inl hclose))
    have hskip' := ParseState.later_skipNewlines hlater.ready
    have hcomma : ¬ u.skipNewlines.current.is "," = true := by
      intro hcomma
      have := ((faces_words hlater.ready).2 hcomma).eq (hrest.faces.2 hclose)
      exact absurd this (by decide)
    refine ⟨[a], u.skipNewlines, runs_itemsFrom.2 ⟨hcount, a, u, hitem, ?_⟩,
      (hskip.trans hlater).trans hskip',
      (ParseState.words_skipNewlines hlater.ready.closed).trans hrest,
      .cons (hQ _ _ _ _ hskip'.code hab) .nil⟩
    rw [if_neg hcomma]
    exact ⟨rfl, rfl⟩
  | @more _ _ _ ws nls vs comma hb hnls hcomma _ ih =>
    intro fuel seen s rest hs hn hfuel hcount hsees hclose
    obtain ⟨fuel, rfl⟩ : ∃ k, fuel = k + 1 := ⟨fuel - 1, by have := hs.pos; omega⟩
    have hskip := ParseState.later_skipNewlines hs
    have hsees' : s.Sees (ws ++ (nls ++ comma :: (vs ++ rest))) := by simpa using hsees
    have hlt : (vs ++ rest).length < s.words.length := by
      rw [← List.append_assoc] at hsees'
      exact hsees'.length_lt (Word.solid_of_is hcomma).1
    obtain ⟨a, u, hitem, hlater, hrest, hab⟩ := hb.runs _ _ hskip.ready
      (hskip.shorter.trans hn) (hsees'.skipNewlines hs)
      (.inr (.inr ((faces_append hnls).2 (faces_cons hcomma))))
    obtain ⟨hcomma', htake, hwords⟩ := hrest.mark hlater.ready hnls hcomma
    obtain ⟨as, t, hrun, hmore, hafter, has⟩ := ih (by simp) fuel (a :: seen) _ rest htake.ready
      (by rw [hwords]; omega) (by rw [hwords]; omega)
      (by simp only [List.length_cons] at hcount ⊢; omega) (.ofWords hwords) hclose
    refine ⟨a :: as, t, runs_itemsFrom.2 ⟨?_, a, u, hitem, ?_⟩,
      ((hskip.trans hlater).trans htake).trans hmore, hafter,
      .cons (hQ _ _ _ _ (htake.trans hmore).code hab) has⟩
    · simp only [List.length_cons] at hcount
      omega
    · rw [if_pos hcomma']
      simpa using hrun

/-- A list that is spelled is read, up to and including the closing parenthesis. -/
theorem complete_items (tooMany : ParseFault)
    (hQ : ∀ c d a b, c.Extends d → Q c a b → Q d a b) {bs : List β} {ws nls rest : List Word}
    {closing : Word} (h : Separated (CompleteItem Q n item) bs ws) (hcount : bs.length ≤ maxItems)
    (hnls : Blank nls) (hclosing : closing.is ")" = true) {s : ParseState} (hs : s.Ready)
    (hn : s.words.length ≤ n) (hsees : s.Sees (ws ++ nls ++ closing :: rest)) :
    ∃ as t, Runs (items tooMany item) s as t ∧ Later s t ∧ t.words = rest ∧
      List.Forall₂ (Q t.code) as bs := by
  by_cases hbs : bs = []
  · subst hbs
    cases h with
    | none =>
      obtain ⟨hmark, htake, hwords⟩ := ParseState.Sees.mark hs hnls hclosing hsees
      refine ⟨[], _, runs_items.2 ?_, htake, hwords, .nil⟩
      rw [if_pos hmark]
      exact ⟨rfl, rfl⟩
  · rw [List.append_assoc] at hsees
    have hskip := ParseState.later_skipNewlines hs
    have hfirst : ¬ s.skipNewlines.current.is ")" = true := by
      rw [← faces_words hs, hsees.faces]
      exact h.first hbs _
    obtain ⟨as, t, hrun, hlater, hwords, has⟩ := complete_itemsFrom tooMany hQ h hbs
      s.skipNewlines.size [] s.skipNewlines (nls ++ closing :: rest) hskip.ready
      (hskip.shorter.trans hn) hskip.ready.bounded (by simpa using hcount)
      (hsees.skipNewlines hs) ((faces_append hnls).2 (faces_cons hclosing))
    obtain ⟨hnl, hend⟩ := Word.solid_of_is hclosing
    rw [skipBlank_append hnls, skipBlank_cons hnl] at hwords
    obtain ⟨htake, hrest⟩ := ParseState.take_word hlater.ready hwords hend
    have hmark : t.current.is ")" = true := by
      rw [← Token.is_word, (List.cons.inj hwords).1, hclosing]
    refine ⟨as, t.advance, runs_items.2 ?_, (hskip.trans hlater).trans htake, hrest,
      has.imp fun a b => hQ _ _ a b htake.code⟩
    rw [if_neg hfirst]
    exact ⟨t, hrun, hmark, rfl⟩

/-! ## Names -/

/-- A name that is spelled is read. -/
theorem complete_identifier {name : String} {ws rest : List Word} (h : SpellsName name ws)
    {s : ParseState} (hs : s.Ready) (hsees : s.Sees (ws ++ rest)) :
    ∃ id t, Runs identifier s id t ∧ Later s t ∧ t.words = rest ∧
      t.code.names.text? id = some name := by
  obtain ⟨hnls⟩ := h
  rw [List.append_assoc] at hsees
  obtain ⟨hword, hwords⟩ := (hsees.lead hnls).word hs rfl
  have hskip := ParseState.later_skipNewlines hs
  obtain ⟨htake, hrest⟩ := ParseState.take_word hskip.ready hwords rfl
  obtain ⟨id, t, hrun, hlater, ht, -, htext⟩ := exists_intern htake.ready name
  exact ⟨id, t, runs_identifier.2 ⟨name, hword, hrun⟩, (hskip.trans htake).trans hlater,
    ht.trans hrest, htext⟩

theorem completeItem_identifier {name : String} {ws : List Word} (h : SpellsName name ws)
    (n : Nat) :
    CompleteItem (fun c id text => c.names.text? id = some text) n identifier name ws where
  runs s rest hs _ hsees _ := by
    obtain ⟨id, t, hrun, hlater, hwords, htext⟩ := complete_identifier h hs hsees
    exact ⟨id, t, hrun, hlater, .ofWords hwords, htext⟩
  first rest := by
    obtain ⟨hnls⟩ := h
    rw [List.append_assoc, faces_append hnls]
    rintro ⟨w, vs, hw, hclose⟩
    rw [List.singleton_append, skipBlank_cons rfl] at hw
    cases hw
    exact absurd hclose (by simp [Word.is_iff, Word.symbol])

end Scriptorium
