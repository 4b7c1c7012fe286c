import Scriptorium.Proofs.ExpressionTexts
import Scriptorium.Proofs.StatementSpans

/-!
# The text under the span of a statement

The text under the span of a statement starts with the first character of its first token, and
ends with the semicolon or the brace that closes the statement.  But when the statement ends in
a conditional without `else`, the line breaks behind it are under the span as well.

* `exists_text_span` — how the text from one token to another starts and ends;
* `parse_stmt_span` — the statements that are reached from the top level of a text.
-/

namespace Scriptorium

/-! ## The ends of a text -/

/-- Where a word other than a line break is found, no line break stands. -/
theorem Scans.head?_ne_newline {size : Nat} {text : List Char} {w : Word} {ws : List Word}
    (h : Scans .quill size text (w :: ws)) (hsolid : Solid text) (hw : w.isNewline = false) :
    text.head? ≠ some '\n' := by
  intro hhead
  obtain ⟨rest, rfl⟩ := List.head?_eq_some_iff.1 hhead
  have hnone := gap_of_solid hsolid.blanks hsolid.line hsolid.block size
  generalize hall : w :: ws = all at h
  cases h with
  | ends hg hnil =>
    rw [hnone] at hg
    cases hg
    cases hnil
  | unclosed hg =>
    rw [hnone] at hg
    cases hg
  | word hg hfound hne hc hword =>
    rw [hnone] at hg
    cases hg
    cases hfound
    cases hc
    cases hall
    rw [hword] at hw
    cases hw

/-- Parts at the start of a text that take up the same bytes are the same. -/
theorem eq_of_byteLength_eq {text as bs : List Char} (has : as <+: text) (hbs : bs <+: text)
    (h : byteLength as = byteLength bs) : as = bs := by
  have hnil : ∀ {cs ds : List Char}, cs <+: ds → byteLength cs = byteLength ds → cs = ds := by
    rintro cs _ ⟨rest, rfl⟩ hsame
    have hrest : rest = [] := by
      by_contra hne
      have hpos := byteLength_pos hne
      rw [byteLength_append] at hsame
      omega
    rw [hrest, List.append_nil]
  rcases List.prefix_or_prefix_of_prefix has hbs with hpre | hpre
  · exact hnil hpre h
  · exact (hnil hpre h.symm).symm

theorem Token.lexeme_of_is {t : Token} {text : String} (h : t.is text = true) :
    t.lexeme = text := by
  rw [Token.is, Bool.and_eq_true] at h
  exact eq_of_beq h.2

/-- Every token of a text ends with its own text. -/
theorem exists_lexeme (source : String) :
    ∀ t ∈ tokenize .quill source, ∃ before, before ++ t.lexeme.toList <+: source.toList ∧
      t.span.stop = min (byteLength (before ++ t.lexeme.toList)) Span.maxOffset := by
  refine forall_tokenize fun s before hs => ?_
  obtain ⟨kind, gap, word, h⟩ := s.exists_takesOff
  have hlexeme : s.next.1.lexeme.toList = word := by rw [h.token, Place.token, String.toList_ofList]
  refine ⟨before ++ gap, ⟨s.next.2.text, ?_⟩, ?_⟩
  · rw [hlexeme, hs.source, h.text]
    simp only [List.append_assoc]
  · rw [hlexeme, h.stop hs, List.append_assoc]

/-- The text from one token to another starts with neither a blank, a comment nor a line break,
unless the first token is one, and ends with the text of the last token. -/
theorem exists_text_span {source : String} {before core after : List Token} {first last : Token}
    (hsize : byteLength source.toList < 2 ^ 32)
    (htokens : tokenize .quill source = before ++ (core ++ after))
    (hfirst : core.head? = some first) (hlast : core.getLast? = some last)
    (hnew : first.isNewline = false)
    (hvalid : ∀ t ∈ core, t.isInvalid = false ∧ t.isEnd = false) :
    ∃ text, slice? source.toList first.span.start last.span.stop = some text ∧ Solid text ∧
      text.head? ≠ some '\n' ∧ ∀ c ∈ last.lexeme.toList.getLast?, text.getLast? = some c := by
  have hne : core ≠ [] := by
    rintro rfl
    cases hfirst
  obtain ⟨s, t, read, gap, part, hreads, hpart⟩ := exists_part htokens hne hvalid
  have hsolid : Solid part := by
    have h := hpart.solid.congr hpart.nonempty (.inr endsWord_nil)
    rwa [List.append_nil] at h
  refine ⟨part, hpart.slice hreads hsize hfirst hlast, hsolid, ?_, fun c hc => ?_⟩
  · obtain ⟨rest, rfl⟩ := List.head?_eq_some_iff.1 hfirst
    have hscans := hpart.scans part.length [] [.endOfInput] endsWord_nil le_rfl
      (.ends (gap_of_solid rfl rfl rfl _) rfl)
    rw [List.append_nil] at hscans
    exact hscans.head?_ne_newline hsolid (by rwa [Token.isNewline_word])
  · have hmem : last ∈ tokenize .quill source := by
      rw [htokens]
      exact List.mem_append_right _ (List.mem_append_left _ (List.mem_of_mem_getLast? hlast))
    obtain ⟨lead, hprefix, hstop⟩ := exists_lexeme source last hmem
    have hpass : read ++ (gap ++ part) <+: source.toList := by
      refine ⟨t.text, ?_⟩
      rw [hreads.source, hpart.text]
      simp only [List.append_assoc]
    have hsame : read ++ (gap ++ part) = lead ++ last.lexeme.toList := by
      refine eq_of_byteLength_eq hpass hprefix ?_
      rw [← Span.min_byteLength hpass hsize, ← hpart.stop last hlast, hstop,
        Span.min_byteLength hprefix hsize]
    have hend := congrArg List.getLast? hsame
    rw [← List.append_assoc, List.getLast?_append_of_ne_nil _ hpart.nonempty,
      List.getLast?_append, Option.mem_def.1 hc] at hend
    exact hend

/-! ## Statements -/

/-- A statement that is reached from the top level of a text, and was not made from a `for`, is
spelled by the tokens under its span.  The span starts with the first of these and ends with
the last one, a semicolon or a closing brace; only behind a conditional without `else` it goes
on over all line breaks that follow.  So in a text of less than 4 GiB, the text under the span
starts with neither a blank, a comment nor a line break, and it ends with the closing mark, unless
such line breaks follow. -/
theorem parse_stmt_span {source : String} {id : StmtId} {node : StmtNode}
    (hreach : (parse source).code.arena.ReachesStmt (parse source).module id)
    (hnode : (parse source).code.arena.stmt? id = some node)
    (hfor : ¬ node.Lowered (tokenize .quill source) (parse source).code) :
    ∃ before core trail after opn inFunction b,
      tokenize .quill source = before ++ (core ++ (trail ++ after)) ∧
      StmtBounds opn core trail after node.span ∧
      SpellsStmt (.stmt opn b) (core.map Token.word) ∧ b.Shaped inFunction ∧
      (parse source).code.HasStmt id b ∧
      (byteLength source.toList < 2 ^ 32 →
        ∃ text, slice? source.toList node.span.start node.span.stop = some text ∧ Solid text ∧
          text.head? ≠ some '\n' ∧
          (trail = [] → text.getLast? = some ';' ∨ text.getLast? = some '\x7d')) := by
  obtain ⟨hnode', htold, -, -⟩ := parseWith_told .quill source hreach
  cases hnode.symm.trans hnode'
  obtain ⟨before, core, trail, after, opn, inFunction, b, htokens, hvalid, hbounds, hspells,
    hshaped, hstored⟩ := htold.resolve_right hfor
  obtain ⟨first, hfirst, hnew, hstart⟩ := hbounds.first
  obtain ⟨last, hlast, hstop⟩ := hbounds.last
  have hhead : (core ++ trail).head? = some first := by simp [List.head?_append, hfirst]
  have hsplit : tokenize .quill source = before ++ ((core ++ trail) ++ after) := by
    rw [htokens, List.append_assoc]
  refine ⟨before, core, trail, after, opn, inFunction, b, htokens, hbounds, hspells, hshaped,
    hstored, fun hsize => ?_⟩
  obtain ⟨text, hslice, hsolid, hline, hend⟩ :=
    exists_text_span hsize hsplit hhead hlast hnew hvalid
  rw [← hstart, ← hstop] at hslice
  refine ⟨text, hslice, hsolid, hline, ?_⟩
  rintro rfl
  obtain ⟨mark, hmark, hmarks⟩ := hbounds.mark
  rw [List.append_nil, hmark, Option.some.injEq] at hlast
  subst hlast
  rcases hmarks with his | his
  · exact .inl (hend ';' (by rw [Token.lexeme_of_is his]; rfl))
  · exact .inr (hend '\x7d' (by rw [Token.lexeme_of_is his]; rfl))

theorem parse_stmt_span_loop :
    let source := "while (a) \x7b b; \x7d // c\nd;"
    (parse source).code.arena.ReachesStmt (parse source).module ⟨2⟩ ∧
      (parse source).code.arena.stmt? ⟨2⟩ = some ⟨.loop ⟨0⟩ ⟨1⟩, ⟨0, 16⟩⟩ ∧
      ¬ StmtNode.Lowered (tokenize .quill source) (parse source).code ⟨.loop ⟨0⟩ ⟨1⟩, ⟨0, 16⟩⟩ ∧
      ∃ before core trail after opn inFunction b text,
        tokenize .quill source = before ++ (core ++ (trail ++ after)) ∧
        StmtBounds opn core trail after ⟨0, 16⟩ ∧
        SpellsStmt (.stmt opn b) (core.map Token.word) ∧ b.Shaped inFunction ∧
        (parse source).code.HasStmt ⟨2⟩ b ∧
        slice? source.toList 0 16 = some text ∧ Solid text ∧ text.head? ≠ some '\n' ∧
        (trail = [] → text.getLast? = some ';' ∨ text.getLast? = some '\x7d') := by
  intro source
  have hreach : (parse source).code.arena.ReachesStmt (parse source).module ⟨2⟩ :=
    .root (by decide +kernel)
  have hnode : (parse source).code.arena.stmt? ⟨2⟩ = some ⟨.loop ⟨0⟩ ⟨1⟩, ⟨0, 16⟩⟩ := by
    decide +kernel
  have hfor : ¬ StmtNode.Lowered (tokenize .quill source) (parse source).code
      ⟨.loop ⟨0⟩ ⟨1⟩, ⟨0, 16⟩⟩ := by
    have hnone : ¬ ∃ t ∈ tokenize .quill source, t.is "for" = true := by decide +kernel
    rintro (⟨t, ht, his, -⟩ | ⟨x, e, hkind, -⟩)
    · exact hnone ⟨t, ht, his⟩
    · cases hkind
  obtain ⟨before, core, trail, after, opn, inFunction, b, htokens, hbounds, hspells, hshaped,
    hstored, htext⟩ := parse_stmt_span hreach hnode hfor
  obtain ⟨text, hslice, hends⟩ := htext (by decide)
  exact ⟨hreach, hnode, hfor, before, core, trail, after, opn, inFunction, b, text, htokens,
    hbounds, hspells, hshaped, hstored, hslice, hends⟩

/-- The line breaks behind a conditional without `else` are under its span, which ends three
bytes after the semicolon here. -/
theorem parse_stmt_span_open :
    let source := "if (a) x;\n\n\ny;"
    (parse source).failure = none ∧
      (parse source).code.arena.ReachesStmt (parse source).module ⟨1⟩ ∧
      (parse source).code.arena.stmt? ⟨1⟩ = some ⟨.branch ⟨0⟩ ⟨0⟩ none, ⟨0, 12⟩⟩ ∧
      (∀ t ∈ tokenize .quill source, t.is "for" = false) ∧
      slice? source.toList 0 9 = some "if (a) x;".toList ∧
      slice? source.toList 0 12 = some "if (a) x;\n\n\n".toList := by
  intro source
  exact ⟨by decide +kernel, .root (by decide +kernel), by decide +kernel, by decide +kernel,
    by decide +kernel, by decide +kernel⟩

end Scriptorium
