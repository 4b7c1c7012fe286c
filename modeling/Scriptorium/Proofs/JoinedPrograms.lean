import Scriptorium.Proofs.LineBreaks
import Scriptorium.Proofs.ShiftedParsing

/-!
# Programs on lines of their own

A program and a text on the lines after it are read as the program and then as the text
alone: the statements of the program are kept whatever comes after it, and an error of the
text is found at its place.  Only an `else` at the start of the text may belong to the
program.

* `proper_tokenize` — a program has no invalid tokens;
* `ReadsStatements.left` — reading statements leaves a part of the tokens;
* `ParseState.Shifted.parseFrom` — further on in a text, the same statements are read;
* `row_of_failure` — the row of an error has a number, even further on;
* `parse_join` — what is read of a program and a text.
-/

namespace Scriptorium

open Scriptorium.Parser

variable {bytes rows : Nat}

/-- A program has no invalid tokens. -/
theorem proper_tokenize {source : String} (h : (parse source).failure = none) :
    ∀ t ∈ tokenize .quill source, ∀ fault, t.kind ≠ .invalid fault := by
  obtain ⟨trees, links, -, -, hlinks, hwords, -⟩ := exists_links h
  intro t ht fault hkind
  have hword : t.word = ⟨.invalid fault, t.lexeme⟩ := by rw [Token.word, hkind]; rfl
  have hmem : t.word ∈ words (tokenize .quill source) :=
    List.mem_map.2 ⟨t, by simp [ht, Token.isNewline, hkind], rfl⟩
  rw [hwords, List.mem_append] at hmem
  rcases hmem with hmem | hmem
  · obtain ⟨l, hl, hl'⟩ := List.mem_map.1 hmem
    exact (hlinks.proper l hl).2.2 fault (by rw [hl', hword])
  · rw [hword] at hmem
    simp [Word.endOfInput] at hmem

/-- Reading statements leaves a part of the tokens. -/
theorem ReadsStatements.left {tokens : List Token} {n : Nat} {s t : ParseState}
    {ids : List StmtId} (h : ReadsStatements s ids t) (hs : s.Left tokens n) :
    t.Left tokens n := by
  induction h with
  | start => exact hs
  | step _ hrun _ ih =>
    have hstmt := (Blames.topStatement (n := n)).declaration n le_rfl _ hs.skipNewlines.1
    unfold Meets at hstmt
    rw [hrun] at hstmt
    exact ih hstmt

/-- At the same tokens further on in a text, the same statement is read. -/
theorem ParseState.Shifted.hasStmt {s s' t t' : ParseState} {id id' : StmtId}
    (h : s.Shifted bytes rows s') (hrun : Runs (declaration topStatement) s id t)
    (hrun' : Runs (declaration topStatement) s' id' t') :
    ∃ b, t.code.HasStmt id b ∧ t'.code.HasStmt id' b := by
  obtain ⟨b, ⟨o, ws, nls, hmove, hnls, hspells, htrails⟩, hhas, hshaped⟩ :=
    sound_declaration (sound_topStatement _) h.ready le_rfl hrun
  have hsees : s'.Sees (ws ++ (nls ++ t.words)) := by
    refine .ofWords ?_
    rw [h.words, hmove.words, List.append_assoc]
  have hopen' : o = true → ¬ Faces "else" (nls ++ t.words) := by
    rw [faces_append hnls]
    exact htrails.noElse
  obtain ⟨i, u, hrun'', -, -, hhas'⟩ :=
    exists_runs_topStatement hspells hshaped h.ready_right hsees hopen'
  unfold Runs at hrun' hrun''
  rw [hrun'] at hrun''
  cases hrun''
  exact ⟨b, hhas, hhas'⟩

/-- At the same tokens further on in a text, the same statements are read, up to the same
error if there is one. -/
theorem ParseState.Shifted.parseFrom {s s' : ParseState}
    (h : s.skipNewlines.Shifted bytes rows s'.skipNewlines) (hs : s.Ready) (hs' : s'.Ready)
    {fuel fuel' : Nat} (hfuel : s.words.length ≤ fuel) (hfuel' : s'.words.length ≤ fuel')
    (seen seen' : List StmtId) :
    (s'.parseFrom fuel' seen').failure =
        (s.parseFrom fuel seen).failure.map (ParseError.shift bytes rows) ∧
      ∃ ids ids' bs, (s.parseFrom fuel seen).module = seen.reverse ++ ids ∧
        (s'.parseFrom fuel' seen').module = seen'.reverse ++ ids' ∧
        List.Forall₂ (s.parseFrom fuel seen).code.HasStmt ids bs ∧
        List.Forall₂ (s'.parseFrom fuel' seen').code.HasStmt ids' bs := by
  induction fuel generalizing s s' fuel' seen seen' with
  | zero =>
    have := hs.pos
    omega
  | succ fuel ih =>
    have hpos := hs'.pos
    obtain ⟨fuel', rfl⟩ : ∃ k, fuel' = k + 1 := ⟨fuel' - 1, by omega⟩
    have hend' : s'.skipNewlines.current.isEnd = s.skipNewlines.current.isEnd := by
      rw [h.current, Token.isEnd_shift]
    by_cases hend : s.skipNewlines.current.isEnd = true
    · rw [parseFrom_of_isEnd hend, parseFrom_of_isEnd (hend'.trans hend)]
      exact ⟨rfl, [], [], [], by simp [finish], by simp [finish], .nil, .nil⟩
    rw [Bool.not_eq_true] at hend
    have hagree := Tracks.topStatement.declaration _ le_rfl _ _ h le_rfl
    unfold Agree at hagree
    split at hagree
    · next id t id' t' hrun hrun' =>
      obtain ⟨-, ht, -⟩ := hagree
      obtain ⟨b, hhas, hhas'⟩ := h.hasStmt hrun hrun'
      have hlt : t.words.length < s.skipNewlines.words.length := by
        obtain ⟨c, hread⟩ := sound_declaration (sound_topStatement _) h.ready le_rfl hrun
        exact hread.length_lt
      have hle := words_skipNewlines_le hs
      have hle' := words_skipNewlines_le hs'
      rw [h.words] at hle'
      have hlength := congrArg List.length ht.words
      have hfuel : t.words.length ≤ fuel := by omega
      have hfuel' : t'.words.length ≤ fuel' := by omega
      obtain ⟨hfailure, ids, ids', bs, hids, hids', hbs, hbs'⟩ := ih ht.skipNewlines ht.ready
        ht.ready_right hfuel hfuel' (id :: seen) (id' :: seen')
      obtain ⟨-, -, -, hcode, -⟩ := parseFrom_sound fuel t (id :: seen) ht.ready hfuel
      obtain ⟨-, -, -, hcode', -⟩ := parseFrom_sound fuel' t' (id' :: seen') ht.ready_right hfuel'
      rw [parseFrom_of_runs hend hrun, parseFrom_of_runs (hend'.trans hend) hrun']
      refine ⟨hfailure, id :: ids, id' :: ids', b :: bs, ?_, ?_, .cons (hhas.mono hcode) hbs,
        .cons (hhas'.mono hcode') hbs'⟩
      · rw [hids, List.reverse_cons, List.append_assoc, List.singleton_append]
      · rw [hids', List.reverse_cons, List.append_assoc, List.singleton_append]
    · next e t e' t' hrun hrun' =>
      rw [parseFrom_of_error hend hrun, parseFrom_of_error (hend'.trans hend) hrun', hagree]
      exact ⟨rfl, [], [], [], by simp [finish], by simp [finish], .nil, .nil⟩
    · exact hagree.elim

/-! ## Texts -/

theorem words_start_tokenize (tables : Tables) (source : String) :
    (ParseState.start (tokenize tables source)).words =
      (tokenize tables source).map Token.word := by
  refine words_start fun hnil => ?_
  have hclosed := closed_tokenize tables source
  rw [hnil] at hclosed
  exact hclosed

/-- The first token that is no line break is the one that comes next. -/
theorem faces_map_word {tokens : List Token} {text : String} :
    Faces text (tokens.map Token.word) ↔
      ∃ t ∈ tokens.find? fun t => !t.isNewline, t.is text = true := by
  induction tokens with
  | nil => simp [Faces, skipBlank]
  | cons t tokens ih =>
    by_cases hn : t.isNewline = true
    · have hblank : Blank [t.word] := by simpa using hn
      rw [List.map_cons, ← List.singleton_append, faces_append hblank, ih,
        List.find?_cons_of_neg (by simp [hn])]
    · rw [Bool.not_eq_true] at hn
      have hskip : skipBlank (t.word :: tokens.map Token.word) = t.word :: tokens.map Token.word :=
        skipBlank_cons (by simpa using hn)
      rw [List.map_cons, List.find?_cons_of_pos (by simp [hn])]
      simp [Faces, hskip]

/-- States that have the same words left of tokens with a common end are at the same tokens. -/
theorem ParseState.shifted_of_suffix {tokens : List Token} {s s' : ParseState} (hs : s.Ready)
    (hsize : s.size ≤ s'.size) (hwords : s'.words = s.words)
    (hsuffix : (s.current :: s.rest).map (Token.shift bytes rows) <:+ tokens)
    (hsuffix' : s'.current :: s'.rest <:+ tokens) : s.Shifted bytes rows s' := by
  have hlength := congrArg List.length hwords
  simp only [ParseState.words, List.length_cons, List.length_map] at hlength
  have heq : s'.current :: s'.rest = (s.current :: s.rest).map (Token.shift bytes rows) := by
    refine (List.suffix_of_suffix_length_le hsuffix' hsuffix ?_).eq_of_length ?_ <;>
    simp [hlength]
  rw [List.map_cons, List.cons.injEq] at heq
  exact ⟨heq.1, heq.2, hs, hsize⟩

/-- Behind a program, reading comes to the text on the lines after it. -/
theorem exists_readsStatements_join {source more : String} (h : (parse source).failure = none)
    (hsize : byteLength (source ++ "\n" ++ more).toList < 2 ^ 32)
    (helse : ¬ Faces "else" ((tokenize .quill more).map Token.word)) :
    ∃ ids t trees, (parse source).code.HasTrees (parse source).module trees ∧
      ReadsStatements (.start (tokenize .quill (source ++ "\n" ++ more))) ids t ∧
      List.Forall₂ t.code.HasStmt ids trees ∧
      (ParseState.start (tokenize .quill more)).skipNewlines.Shifted
        (byteLength source.toList + 1) (source.toList.count '\n' + 1) t.skipNewlines := by
  obtain ⟨before, last, nl, hsource, hnl, hjoined⟩ := tokenize_join (proper_tokenize h) hsize
  obtain ⟨trees, hstored, hshaped, taken, rest, hwords, ⟨vs, nls, rfl, hnls, hspells⟩, hend⟩ :=
    parseTokens_sound (closed_tokenize .quill source)
  obtain ⟨w, rfl, -⟩ := hend h
  have hclosed := closed_tokenize .quill (source ++ "\n" ++ more)
  have hleft := left_start .quill (source ++ "\n" ++ more)
  have hleft' := (left_start .quill more).skipNewlines.1
  have hready' := ready_start (closed_tokenize .quill more)
  rw [hsource, List.map_append] at hwords
  have hbefore : before.map Token.word = vs ++ nls := (List.append_inj' hwords rfl).1
  have hblank : Blank (nls ++ [nl.word]) := by simp [hnls, hnl]
  -- the line breaks behind the program belong to what comes after it
  have hrest : (ParseState.start (tokenize .quill (source ++ "\n" ++ more))).words =
      vs ++ ((nls ++ [nl.word]) ++ (tokenize .quill more).map Token.word) := by
    rw [words_start_tokenize, hjoined, List.map_append, hbefore]
    simp
  obtain ⟨ids, t, hreads, hlater, ht, hstored'⟩ := exists_readsStatements hspells trees rfl hshaped
    _ _ (ready_start hclosed) (.ofWords hrest) (by rwa [faces_append hblank])
  have htleft := (hreads.left hleft).skipNewlines.1
  refine ⟨ids, t, trees, hasTrees_of_forall₂ hstored, hreads, hstored', ?_⟩
  refine ParseState.shifted_of_suffix (ParseState.later_skipNewlines hready').ready ?_ ?_ ?_
    htleft.suffix
  · rw [hleft'.size, htleft.size, hjoined]
    simp only [List.length_append, List.length_cons, List.length_map]
    omega
  · rw [ParseState.words_skipNewlines hlater.ready.closed,
      ParseState.words_skipNewlines hready'.closed, words_start_tokenize]
    exact ht.trans (skipBlank_append hblank)
  · refine (hleft'.suffix.map _).trans ?_
    exact ⟨before ++ [nl], by rw [hjoined]; simp⟩

/-! ## Rows of errors -/

/-- A text of nothing but line breaks is a program without statements. -/
theorem failure_of_newlines {source : String} (h : ∀ c ∈ source.toList, c = '\n') :
    (parse source).failure = none := by
  obtain ⟨tokens, last, htokens, hcollects⟩ :=
    Scanner.exists_collects (Scanner.reads_start .quill source) le_rfl []
  replace htokens : tokenize .quill source = tokens ++ [last] := htokens
  have hkinds : ∀ t ∈ tokenize .quill source, t.kind ≠ .endOfInput → t.isNewline = true := by
    refine forall_tokenize_of_tables fun s before hs htables _ hkind => ?_
    cases htext : s.text with
    | nil =>
      obtain ⟨kind, gap, word, htakes⟩ := s.exists_takesOff
      have hword : word = [] := by
        have hempty := htakes.text
        rw [htext] at hempty
        simp_all
      rw [htakes.token] at hkind
      exact absurd hword (htakes.takes hkind)
    | cons c rest =>
      obtain rfl : c = '\n' := h c (by simp [hs.source, htext])
      have hgap : gap s.tables s.size s.text = ⟨0, false⟩ := by
        rw [htables, htext]
        exact gap_cons rfl (by decide) rest s.size
      have hclass : classify s.tables ('\n' :: rest) = (.newline, 1) := by simp [classify]
      have hstart : s.text = [] ++ '\n' :: rest := htext
      rw [Scanner.next_found hstart hgap hclass]
      rfl
  have hblank : Blank (tokens.map Token.word) := by
    refine blank_map fun t ht => hkinds t ?_ (hcollects.words t ht).1
    rw [htokens]
    exact List.mem_append_left _ ht
  have hlast : last.word.isEnd = true ∧ last.word.isNewline = false := by
    simp [Token.isEnd, Token.isNewline, hcollects.ends.1]
  have hwords : (tokenize .quill source).map Token.word =
      [] ++ (tokens.map Token.word ++ [last.word]) := by
    rw [htokens]
    simp
  exact (parseTokens_complete hwords (closed_tokenize .quill source) .nil trivial
    ⟨last.word, (skipBlank_append hblank).trans (skipBlank_cons hlast.2), hlast.1⟩).1

/-- No token is in a row beyond the line breaks of its text. -/
theorem row_le_of_mem_tokenize (tables : Tables) (source : String) :
    ∀ t ∈ tokenize tables source, (t.location.row : Nat) ≤ 1 + source.toList.count '\n' := by
  refine forall_tokenize fun s before hs => ?_
  obtain ⟨kind, gap, word, h⟩ := s.exists_takesOff
  have hplace : s.place.advance gap = Place.start.advance (before ++ gap) := by
    rw [hs.place, Place.advance_append]
  have hcount : (before ++ gap).count '\n' ≤ source.toList.count '\n' := by
    rw [hs.source, h.text]
    simp only [List.count_append]
    omega
  rw [h.token, Place.token, hplace, Place.location_start_advance]
  exact (Nat.mod_le _ _).trans (Nat.add_le_add_left hcount 1)

/-- The row of an error has a number, even further on in a text of less than 4 GiB: what is no
program does not consist of line breaks only. -/
theorem row_of_failure {source : String} {e : ParseError} {rows : Nat}
    (h : (parse source).failure = some e) (hrows : byteLength source.toList + rows < 2 ^ 32) :
    (e.location.row : Nat) + rows < 2 ^ 32 := by
  obtain ⟨t, ht, -, -, hlocation⟩ := failure_at h
  have hrow := row_le_of_mem_tokenize .quill source t ht
  have hcount : source.toList.count '\n' < source.toList.length := by
    refine List.count_le_length.lt_of_ne fun hall => ?_
    rw [List.count_eq_length] at hall
    rw [failure_of_newlines fun c hc => (hall c hc).symm] at h
    cases h
  have hbytes := length_le_byteLength source.toList
  rw [hlocation]
  omega

/-- A program and a text on the lines after it, together of less than 4 GiB, are read as the
program and then as the text alone, if the text does not start with an `else`.  There is an error
if there is one in the text, the same one further on, in a row that has a number; and the
statements are those of the program, all of them, and then those that are kept of the text. -/
theorem parse_join {source more : String} (h : (parse source).failure = none)
    (helse : ∀ t ∈ (tokenize .quill more).find? fun t => !t.isNewline, t.is "else" = false)
    (hsize : byteLength (source ++ "\n" ++ more).toList < 2 ^ 32) :
    (parse (source ++ "\n" ++ more)).failure = (parse more).failure.map
        (ParseError.shift (byteLength source.toList + 1) (source.toList.count '\n' + 1)) ∧
      (∀ e ∈ (parse more).failure,
        (e.location.row : Nat) + (source.toList.count '\n' + 1) < 2 ^ 32) ∧
      ∃ trees later, (parse source).code.HasTrees (parse source).module trees ∧
        (parse more).code.HasTrees (parse more).module later ∧
        (parse (source ++ "\n" ++ more)).code.HasTrees
          (parse (source ++ "\n" ++ more)).module (trees ++ later) := by
  have hfaces : ¬ Faces "else" ((tokenize .quill more).map Token.word) := by
    rw [faces_map_word]
    rintro ⟨t, ht, hword⟩
    rw [helse t ht] at hword
    cases hword
  obtain ⟨ids, t, trees, htrees, hreads, hstored, hshifted⟩ :=
    exists_readsStatements_join h hsize hfaces
  obtain ⟨fuel, ht, hfuel, hparse⟩ := hreads.parseFrom
    (ready_start (closed_tokenize .quill _)) (by rw [words_start_tokenize, List.length_map]) []
  obtain ⟨hfailure, ids₁, ids₂, later, hids₁, hids₂, hlater₁, hlater₂⟩ := hshifted.parseFrom
    (ready_start (closed_tokenize .quill more)) ht
    (by rw [words_start_tokenize, List.length_map]) hfuel [] (ids.reverse ++ [])
  obtain ⟨-, -, -, hcode, -⟩ := parseFrom_sound fuel t (ids.reverse ++ []) ht hfuel
  rw [← hparse] at hfailure hids₂ hlater₂ hcode
  refine ⟨hfailure, fun e he => row_of_failure he ?_, trees, later, htrees,
    hasTrees_of_forall₂ ?_, hasTrees_of_forall₂ ?_⟩
  · have hcount : source.toList.count '\n' ≤ source.toList.length := List.count_le_length
    have hbytes := length_le_byteLength source.toList
    simp only [String.toList_append, byteLength_append] at hsize
    have hbreak : byteLength "\n".toList = 1 := rfl
    omega
  · rw [show (parse more).module = ids₁ from hids₁]
    exact hlater₁
  · have hmodule : (parse (source ++ "\n" ++ more)).module = ids ++ ids₂ := by
      rw [show (parse (source ++ "\n" ++ more)).module = _ from hids₂]
      simp
    rw [hmodule]
    exact List.rel_append (hstored.imp fun _ _ hb => hb.mono hcode) hlater₂

theorem parse_join_comment :
    let source := "if (x) f();\n// done"
    let more := "g(); h(;"
    ((parse source).failure = none ∧
      (∀ t ∈ (tokenize .quill more).find? fun t => !t.isNewline, t.is "else" = false) ∧
      byteLength (source ++ "\n" ++ more).toList < 2 ^ 32) ∧
    (parse (source ++ "\n" ++ more)).failure =
        (parse more).failure.map (ParseError.shift 20 2) ∧
      ∃ trees later, (parse source).code.HasTrees (parse source).module trees ∧
        (parse more).code.HasTrees (parse more).module later ∧
        (parse (source ++ "\n" ++ more)).code.HasTrees
          (parse (source ++ "\n" ++ more)).module (trees ++ later) := by
  intro source more
  have haccepted : (parse source).failure = none := by decide +kernel
  have helse : ∀ t ∈ (tokenize .quill more).find? fun t => !t.isNewline,
      t.is "else" = false := by decide +kernel
  have hsize : byteLength (source ++ "\n" ++ more).toList < 2 ^ 32 := by decide
  obtain ⟨hfailure, -, htrees⟩ := parse_join haccepted helse hsize
  have hbytes : byteLength source.toList + 1 = 20 := by decide
  have hrows : source.toList.count '\n' + 1 = 2 := by decide
  rw [hbytes, hrows] at hfailure
  exact ⟨⟨haccepted, helse, hsize⟩, hfailure, htrees⟩

end Scriptorium
