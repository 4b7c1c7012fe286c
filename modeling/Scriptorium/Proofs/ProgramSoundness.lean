import Scriptorium.Proofs.ParserGrowth
import Scriptorium.Proofs.StatementSoundness

/-!
# Programs that a parser reads

`parseTokens` keeps the statements that were completed before the first syntax error.
All of them have trees, the trees are shaped, and the words that were taken spell them.
If there is no error, all words are taken up to the end of the text.

* `parseTokens_sound` — the statement about lists of tokens;
* `Parsed.stmtsOf_eq` — the trees of a program are the trees of its statements, none of
  which is missing.
-/

namespace Scriptorium

open Scriptorium.Parser

theorem sound_topStatement (n : Nat) : SoundStatement false n topStatement := by
  intro s id t hs hn hrun
  rw [runs_topStatement] at hrun
  exact sound_statementAt _ _ _ _ _ hs hs.bounded hrun

/-- What is known of a program that was read from words. -/
structure ReadsProgram (p : Parsed) (ids : List StmtId) (bs : List (Stmt Unit))
    (ws : List Word) : Prop where
  stored : List.Forall₂ p.code.HasStmt ids bs
  shaped : Stmt.ShapedAll false bs
  spelled : ∃ taken rest, ws = taken ++ rest ∧ SpellsBody bs taken ∧
    (p.failure = none → ∃ w, rest = [w] ∧ w.isEnd = true)

theorem parseFrom_sound (fuel : Nat) :
    ∀ (s : ParseState) (seen : List StmtId), s.Ready → s.words.length ≤ fuel →
      ∃ ids bs, (s.parseFrom fuel seen).module = seen.reverse ++ ids ∧
        s.code.Extends (s.parseFrom fuel seen).code ∧
        ReadsProgram (s.parseFrom fuel seen) ids bs s.words := by
  induction fuel with
  | zero => exact fun s _ hs hn => absurd hs.pos (by omega)
  | succ fuel ih =>
    intro s seen hs hn
    obtain ⟨nls, hnls, hskip⟩ := ParseState.moves_skipNewlines hs
    have hlen := hskip.length
    unfold ParseState.parseFrom
    dsimp only
    split
    · next hend =>
      exact ⟨[], [], by simp [ParseState.finish], hskip.code, .nil, trivial, nls, _, hskip.words,
        spellsBody_blank hnls,
        fun _ => ⟨_, hskip.ready.words_of_isEnd hend, by simpa using hend⟩⟩
    · split
      · next id t hrun =>
        obtain ⟨b, hread⟩ := sound_declaration (sound_topStatement fuel.succ) hskip.ready
          (by omega) hrun
        have hread' := hread.lead hskip hnls
        have hlt := hread'.length_lt
        obtain ⟨⟨o, ws, nls', hmove, hnls', hspells, -⟩, hstored, hshaped⟩ := hread'
        obtain ⟨ids, bs, hids, hcode, hstoreds, hshapeds, taken, rest, hwords, hbody, hend⟩ :=
          ih t (id :: seen) hmove.ready (by omega)
        refine ⟨id :: ids, b :: bs, by simp [hids], hmove.code.trans hcode,
          .cons (hstored.mono hcode) hstoreds, ⟨hshaped, hshapeds⟩, ws ++ (nls' ++ taken), rest,
          ?_, .cons hspells (hbody.lead hnls'), hend⟩
        rw [hmove.words, hwords]
        simp
      · next e t hrun =>
        have hadds := OnlyAdds.topStatement.declaration.of_error hrun
        exact ⟨[], [], by simp [ParseState.finish], hskip.code.trans hadds, .nil, trivial, [], _,
          rfl, spellsBody_blank blank_nil, by simp [ParseState.finish]⟩

/-! ## Texts -/

theorem words_start {tokens : List Token} (h : tokens ≠ []) :
    (ParseState.start tokens).words = tokens.map Token.word := by
  cases tokens with
  | nil => exact absurd rfl h
  | cons t ts => rfl

theorem ready_start {tokens : List Token} (h : Closed (tokens.map Token.word)) :
    (ParseState.start tokens).Ready := by
  cases tokens with
  | nil => exact h.elim
  | cons t ts =>
    refine ⟨h, ?_⟩
    rw [words_start (by simp), List.length_map]
    exact le_rfl

/-- What is read of tokens that end with the end of a text. -/
theorem parseTokens_sound {tokens : List Token} (h : Closed (tokens.map Token.word)) :
    ∃ bs, ReadsProgram (parseTokens tokens) (parseTokens tokens).module bs
      (tokens.map Token.word) := by
  have hne : tokens ≠ [] := by
    rintro rfl
    exact h
  have hs := ready_start h
  have hwords := words_start hne
  obtain ⟨ids, bs, hids, -, hreads⟩ := parseFrom_sound tokens.length _ [] hs
    (by rw [hwords, List.length_map])
  rw [hwords] at hreads
  refine ⟨bs, ?_⟩
  rw [show (parseTokens tokens).module = ids from hids]
  exact hreads

/-- Statements that have trees have them as the trees of a program. -/
theorem stmtsOf_eq {c : Code} {ids : List StmtId} {bs : List (Stmt Unit)}
    (h : List.Forall₂ c.HasStmt ids bs) :
    ids.mapM c.stmtOf? = some (c.stmtsOf ids) ∧ (c.stmtsOf ids).map Stmt.erase = bs := by
  induction h with
  | nil => exact ⟨rfl, rfl⟩
  | cons hb _ ih =>
    obtain ⟨t, ht, rfl⟩ := hb.stmtOf?
    obtain ⟨hids, hbs⟩ := ih
    refine ⟨by simp [ht, hids, Code.stmtsOf], ?_⟩
    rw [← hbs]
    simp [Code.stmtsOf, ht]

end Scriptorium
