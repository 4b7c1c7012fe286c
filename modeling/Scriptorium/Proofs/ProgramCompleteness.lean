import Scriptorium.Proofs.ProgramSoundness
import Scriptorium.Proofs.StatementCompleteness

/-!
# Programs that a parser has to read

A shaped program that is spelled is read, statement after statement, and its trees are
stored.

* `ReadsStatements` — some statements of the top level are read;
* `exists_readsStatements` — those of a program are, whatever comes after it;
* `parseTokens_complete` — a program with nothing after it is read to its end.
-/

namespace Scriptorium

open Scriptorium.Parser

/-- The end of the text comes after line breaks. -/
def EndsText (ws : List Word) : Prop := ∃ w, skipBlank ws = [w] ∧ w.isEnd = true

theorem EndsText.not_faces {ws : List Word} (h : EndsText ws) (text : String) :
    ¬ Faces text ws := by
  obtain ⟨w, hw, hend⟩ := h
  rintro ⟨v, vs, hv, htext⟩
  rw [hw] at hv
  cases hv
  rw [(Word.solid_of_is htext).2] at hend
  exact absurd hend (by simp)

variable {o : Bool} {b : Stmt Unit} {ws : List Word}

theorem readsStmt_topStatement (h : CompletesStmt false o b ws) (hvar : b.isVariable = false)
    (n : Nat) : ReadsStmt topStatement n o b ws := by
  intro s rest hs _ hsees hopen
  obtain ⟨id, t, hrun, ht⟩ := h.statement hvar s.size s rest hs hs.bounded hsees hopen
  exact ⟨id, t, runs_topStatement.2 hrun, ht⟩

/-- A shaped statement that is spelled is read. -/
theorem exists_runs_topStatement (hspells : SpellsStmt (.stmt o b) ws) (hshaped : b.Shaped false)
    {s : ParseState} {rest : List Word} (hs : s.Ready) (hsees : s.Sees (ws ++ rest))
    (hopen : o = true → ¬ Faces "else" rest) :
    ∃ id t, Runs (declaration topStatement) s id t ∧ Later s t ∧ t.Sees rest ∧
      t.code.HasStmt id b := by
  have hcompletes := hspells.completes false hshaped
  exact hcompletes.declaration hspells (fun hvar => readsStmt_topStatement hcompletes hvar _)
    s rest hs le_rfl hsees hopen

namespace ParseState

variable {s t : ParseState}

theorem parseFrom_of_isEnd (h : s.skipNewlines.current.isEnd = true) (fuel : Nat)
    (seen : List StmtId) : s.parseFrom (fuel + 1) seen = s.skipNewlines.finish seen none := by
  simp [parseFrom, h]

theorem parseFrom_of_runs {id : StmtId} (h : s.skipNewlines.current.isEnd = false)
    (hrun : Runs (declaration topStatement) s.skipNewlines id t) (fuel : Nat)
    (seen : List StmtId) : s.parseFrom (fuel + 1) seen = t.parseFrom fuel (id :: seen) := by
  have hrun : (declaration topStatement).run s.skipNewlines = .ok id t := hrun
  simp [parseFrom, h, hrun]

theorem parseFrom_of_error {e : ParseError} (h : s.skipNewlines.current.isEnd = false)
    (herror : declaration topStatement s.skipNewlines = .error e t) (fuel : Nat)
    (seen : List StmtId) : s.parseFrom (fuel + 1) seen = t.finish seen (some e) := by
  have herror : (declaration topStatement).run s.skipNewlines = .error e t := herror
  simp [parseFrom, h, herror]

end ParseState

/-- From the state `s`, statements of the top level are read one after the other, and the
state `t` comes after them. -/
inductive ReadsStatements : ParseState → List StmtId → ParseState → Prop where
  /-- None is read. -/
  | start {s : ParseState} : ReadsStatements s [] s
  /-- One is read, and then others. -/
  | step {s t u : ParseState} {id : StmtId} {ids : List StmtId} :
      s.skipNewlines.current.isEnd = false →
      Runs (declaration topStatement) s.skipNewlines id t → ReadsStatements t ids u →
      ReadsStatements s (id :: ids) u

/-- Reading goes on behind statements that were read. -/
theorem ReadsStatements.parseFrom {s t : ParseState} {ids : List StmtId}
    (h : ReadsStatements s ids t) {fuel : Nat} (hs : s.Ready) (hfuel : s.words.length ≤ fuel)
    (seen : List StmtId) :
    ∃ fuel', t.Ready ∧ t.words.length ≤ fuel' ∧
      s.parseFrom fuel seen = t.parseFrom fuel' (ids.reverse ++ seen) := by
  induction h generalizing fuel seen with
  | start => exact ⟨fuel, hs, hfuel, rfl⟩
  | @step s t u id ids hcurrent hrun _ ih =>
    have hskip := ParseState.later_skipNewlines hs
    have hshorter := hskip.shorter
    obtain ⟨b, hread⟩ := sound_declaration (sound_topStatement _) hskip.ready le_rfl hrun
    obtain ⟨o, ws, nls, hmove, -⟩ := hread.spelled
    have hlt := hread.length_lt
    obtain ⟨fuel, rfl⟩ : ∃ k, fuel = k + 1 := ⟨fuel - 1, by omega⟩
    have hfuel : t.words.length ≤ fuel := by omega
    obtain ⟨fuel', hu, hfuel', hparse⟩ := ih hmove.ready hfuel (id :: seen)
    refine ⟨fuel', hu, hfuel', ?_⟩
    rw [ParseState.parseFrom_of_runs hcurrent hrun, hparse, List.reverse_cons, List.append_assoc]
    rfl

/-- The statements of a shaped program that is spelled are read, unless an `else` follows. -/
theorem exists_readsStatements {p : StmtPhrase} (h : SpellsStmt p ws) :
    ∀ bs, p = .body bs → Stmt.ShapedAll false bs → ∀ (s : ParseState) (rest : List Word),
      s.Ready → s.Sees (ws ++ rest) → ¬ Faces "else" rest →
      ∃ ids t, ReadsStatements s ids t ∧ Later s t ∧ t.Sees rest ∧
        List.Forall₂ t.code.HasStmt ids bs := by
  induction h with
  | nil =>
    rintro bs ⟨⟩ _ s rest hs hsees _
    exact ⟨[], s, .start, .refl hs, hsees, .nil⟩
  | @cons o b bs ws vs hb hbs _ ih =>
    rintro _ ⟨⟩ ⟨hshaped, hshapeds⟩ s rest hs hsees helse
    rw [List.append_assoc] at hsees
    obtain ⟨w, us, hw, hbegins⟩ := hb.begins _ _ rfl
    have hword := ParseState.Sees.current hs hsees hw
    have hcurrent : s.skipNewlines.current.isEnd = false := by
      rw [← Token.isEnd_word, hword, hbegins.solid.2]
    have hskip := ParseState.later_skipNewlines hs
    obtain ⟨id, t, hrun, hlater, ht, hhas⟩ := exists_runs_topStatement hb hshaped hskip.ready
      (hsees.skipNewlines hs) (fun _ => hbs.body_not_faces helse)
    obtain ⟨ids, u, hreads, hlater', hu, hstored⟩ := ih bs rfl hshapeds t rest hlater.ready ht helse
    exact ⟨id :: ids, u, .step hcurrent hrun hreads, (hskip.trans hlater).trans hlater', hu,
      .cons (hhas.mono hlater'.code) hstored⟩
  | _ => rintro bs ⟨⟩

theorem parseFrom_complete {bs : List (Stmt Unit)} (h : SpellsStmt (.body bs) ws)
    (hshaped : Stmt.ShapedAll false bs) {fuel : Nat} (seen : List StmtId) {s : ParseState}
    {rest : List Word} (hs : s.Ready) (hfuel : s.words.length ≤ fuel) (hsees : s.Sees (ws ++ rest))
    (hend : EndsText rest) :
    ∃ ids, (s.parseFrom fuel seen).failure = none ∧
      (s.parseFrom fuel seen).module = seen.reverse ++ ids ∧
      List.Forall₂ (s.parseFrom fuel seen).code.HasStmt ids bs := by
  obtain ⟨ids, t, hreads, -, hsees, hstored⟩ :=
    exists_readsStatements h bs rfl hshaped s rest hs hsees (hend.not_faces _)
  obtain ⟨fuel, ht, hfuel, hparse⟩ := hreads.parseFrom hs hfuel seen
  have hpos := ht.pos
  obtain ⟨fuel, rfl⟩ : ∃ k, fuel = k + 1 := ⟨fuel - 1, by omega⟩
  obtain ⟨w, hw, hwend⟩ := hend
  have hwords := ParseState.words_skipNewlines ht.closed
  rw [show skipBlank t.words = skipBlank rest from hsees, hw] at hwords
  have hcurrent : t.skipNewlines.current.isEnd = true := by
    rw [← Token.isEnd_word, (List.cons.inj hwords).1, hwend]
  rw [hparse, ParseState.parseFrom_of_isEnd hcurrent]
  exact ⟨ids, rfl, by simp [ParseState.finish], hstored⟩

/-- A shaped program that is spelled by tokens is read from them. -/
theorem parseTokens_complete {tokens : List Token} {bs : List (Stmt Unit)} {rest : List Word}
    (hwords : tokens.map Token.word = ws ++ rest) (hclosed : Closed (tokens.map Token.word))
    (hspells : SpellsStmt (.body bs) ws) (hshaped : Stmt.ShapedAll false bs)
    (hend : EndsText rest) :
    (parseTokens tokens).failure = none ∧
      List.Forall₂ (parseTokens tokens).code.HasStmt (parseTokens tokens).module bs := by
  have hne : tokens ≠ [] := by
    rintro rfl
    exact hclosed
  have hstart := words_start hne
  obtain ⟨ids, hnone, hids, hstored⟩ := parseFrom_complete hspells hshaped []
    (ready_start hclosed) (by rw [hstart, List.length_map]) (.ofWords (hstart.trans hwords)) hend
  refine ⟨hnone, ?_⟩
  rw [show (parseTokens tokens).module = ids from hids]
  exact hstored

end Scriptorium
