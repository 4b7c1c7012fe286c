import Scriptorium.Proofs.LexicalErrors
import Scriptorium.Proofs.LocalScanning

/-!
# The text under the span of an expression

Every expression that was read from a text, accepted or not, can be cut out of it: the text
under the span of its node is spelled by the tokens that the expression was read from, so it
is read as the same expression when it stands alone.

* `exists_scans_span` — the words of the tokens under a span, found in the text under it;
* `parse_span` — the text under the span of an expression, with a semicolon, is a program
  that is this expression.
-/

namespace Scriptorium

/-! ## The words under a span -/

/-- No word of an expression is the end of a text. -/
theorem Spells.not_end {p : Phrase} {ws : List Word} (h : Spells p ws) :
    ∀ w ∈ ws, w.isEnd = false := by
  have hblank : ∀ {nls : List Word}, Blank nls → ∀ w ∈ nls, w.isEnd = false :=
    fun hnls w hw => Word.isEnd_of_isNewline (hnls w hw)
  induction h with
  | lead hnl _ ih => exact List.forall_mem_cons.2 ⟨Word.isEnd_of_isNewline hnl, ih⟩
  | int | str | bool | reference => exact List.forall_mem_singleton.2 rfl
  | group _ hnls hclose ih =>
    simp only [List.forall_mem_cons, List.forall_mem_append]
    exact ⟨rfl, ⟨ih, hblank hnls⟩, (Word.solid_of_is hclose).2, by simp⟩
  | unary hsign _ ih => exact List.forall_mem_cons.2 ⟨(Word.solid_of_sign? hsign).2, ih⟩
  | operation _ hnls hop _ ihl ihr =>
    simp only [List.forall_mem_cons, List.forall_mem_append]
    exact ⟨⟨ihl, hblank hnls⟩, (Word.solid_of_connective? hop).2, ihr⟩
  | assign _ hnls hsign _ ihn ihv =>
    simp only [List.forall_mem_cons, List.forall_mem_append]
    exact ⟨⟨ihn, hblank hnls⟩, (Word.solid_of_is hsign).2, ihv⟩
  | call _ hopen _ hnls hclose ihc ihargs =>
    simp only [List.forall_mem_cons, List.forall_mem_append]
    exact ⟨ihc, (Word.solid_of_is hopen).2, ⟨ihargs, hblank hnls⟩, (Word.solid_of_is hclose).2,
      by simp⟩
  | noArgs => simp
  | oneArg _ ih => exact ih
  | moreArgs _ hnls hcomma _ ih ihs =>
    simp only [List.forall_mem_cons, List.forall_mem_append]
    exact ⟨⟨ih, hblank hnls⟩, (Word.solid_of_is hcomma).2, ihs⟩

/-- Some tokens of a text, all of them valid, are those of a part of it. -/
theorem exists_part {source : String} {before core after : List Token}
    (htokens : tokenize .quill source = before ++ (core ++ after)) (hne : core ≠ [])
    (hvalid : ∀ t ∈ core, t.isInvalid = false ∧ t.isEnd = false) :
    ∃ s t read gap part, Scanner.Reads s source.toList read ∧
      Scanner.Emits.Part s t read gap part core := by
  obtain ⟨ts, t, hall, hcollects⟩ :=
    Scanner.exists_collects (Scanner.reads_start .quill source) le_rfl []
  replace hall : tokenize .quill source = ts ++ [t] := hall
  obtain ⟨s, n, hbefore, hrest⟩ :=
    Scanner.exists_emits (hcollects.steps.symm.trans (hall.symm.trans htokens))
  obtain ⟨s', -, hcore, -⟩ := Scanner.exists_emits hrest
  obtain ⟨⟨read, hreads⟩, htables, hsize⟩ :=
    hbefore.exists_reads (Scanner.reads_start .quill source)
  have hlength : s.text.length ≤ s.size := by
    have hsource := congrArg List.length hreads.source
    rw [List.length_append, String.length_toList] at hsource
    have hstart : s.size = source.length := hsize
    omega
  obtain ⟨gap, part, hpart⟩ := hcore.exists_part hne hreads htables hlength hvalid
  exact ⟨s, s', read, gap, part, hreads, hpart⟩

/-- The part of a text of less than 4 GiB stands between the start of its first token and the end
of its last one. -/
theorem Scanner.Emits.Part.slice {s t : Scanner} {source read gap part : List Char}
    {ts : List Token} {first last : Token} (h : Scanner.Emits.Part s t read gap part ts)
    (hs : s.Reads source read) (hsize : byteLength source < 2 ^ 32)
    (hfirst : ts.head? = some first) (hlast : ts.getLast? = some last) :
    slice? source first.span.start last.span.stop = some part := by
  have hsource : read ++ gap ++ (part ++ t.text) = source := by
    rw [hs.source, h.text, List.append_assoc]
  have hstart : read ++ gap <+: source := ⟨part ++ t.text, hsource⟩
  have hstop : read ++ gap ++ part <+: source := ⟨t.text, by rw [← hsource, List.append_assoc]⟩
  rw [h.start first hfirst, h.stop last hlast, ← List.append_assoc read,
    Span.min_byteLength hstart hsize, Span.min_byteLength hstop hsize, ← hsource]
  exact slice?_append (read ++ gap) part t.text

/-- Scanning the text under the span of some tokens gives their words again. -/
theorem exists_scans_span {source : String} {before core after : List Token} {span : Span}
    (hsize : byteLength source.toList < 2 ^ 32)
    (htokens : tokenize .quill source = before ++ (core ++ after)) (hbounds : Bounds core span)
    (hvalid : ∀ t ∈ core, t.isInvalid = false ∧ t.isEnd = false) :
    ∃ part, slice? source.toList span.start span.stop = some part ∧
      ∀ size after ws, EndsWord after → part.length ≤ size → Scans .quill size after ws →
        Scans .quill size (part ++ after) (core.map Token.word ++ ws) := by
  obtain ⟨⟨first, hfirst, -, hstart⟩, ⟨last, hlast, -, hstop⟩⟩ := hbounds
  have hne : core ≠ [] := by
    rintro rfl
    cases hfirst
  obtain ⟨s, t, read, gap, part, hreads, hpart⟩ := exists_part htokens hne hvalid
  refine ⟨part, ?_, hpart.scans⟩
  rw [hstart, hstop]
  exact hpart.slice hreads hsize hfirst hlast

/-- A semicolon ends a word. -/
theorem scans_semicolon (size : Nat) : Scans .quill size [';'] [.punct ";", .endOfInput] :=
  (show Reads (.punct ";") [';'] [] from Reads.punct (by decide) (by simp [EndsMark])).scans
    (.ends (gap_of_solid rfl rfl rfl size) rfl)

/-! ## Expressions alone -/

/-- The text under the span of an expression is read as this expression, if a semicolon
follows it.  This holds for every expression of a text of less than 4 GiB, whether the text is
accepted or not, but for the conditions that are left out in a `for`. -/
theorem parse_span {source : String} {id : ExprId} {node : ExprNode}
    (hsize : byteLength source.toList < 2 ^ 32)
    (h : (parse source).code.arena.expr? id = some node)
    (hnode : ¬ node.Implicit (tokenize .quill source)) :
    ∃ text tree stmt again origin,
      slice? source.toList node.span.start node.span.stop = some text ∧
        (parse source).code.exprOf? id = some tree ∧
        (parse (String.ofList text ++ ";")).failure = none ∧
        (parse (String.ofList text ++ ";")).module = [stmt] ∧
        (parse (String.ofList text ++ ";")).code.stmtOf? stmt = some (.expression again origin) ∧
        again.erase = tree.erase := by
  obtain ⟨before, core, after, e, htokens, hvalid, hbounds, hspells, hshaped, hstored⟩ :=
    ((parseWith_takes .quill source).told id node h).resolve_right hnode
  obtain ⟨tree, htree, rfl⟩ := hstored.exprOf?
  have hsolid : ∀ t ∈ core, t.isInvalid = false ∧ t.isEnd = false := by
    intro t ht
    refine ⟨hvalid t ht, ?_⟩
    rw [← Token.isEnd_word]
    exact hspells.not_end _ (List.mem_map_of_mem ht)
  obtain ⟨text, hslice, hscans⟩ := exists_scans_span hsize htokens hbounds hsolid
  have hends : EndsWord [';'] := endsWord_cons (by decide) (by decide) []
  have htext : (String.ofList text ++ ";").toList = text ++ [';'] := by simp
  have hwords : (tokenize .quill (String.ofList text ++ ";")).map Token.word =
      (core.map Token.word ++ [.punct ";"]) ++ [.endOfInput] := by
    refine map_tokenize ?_
    rw [htext, List.append_assoc]
    exact hscans _ [';'] _ hends (by simp) (scans_semicolon _)
  have hstmt : SpellsStmt (.body [.expression tree.erase ()])
      (core.map Token.word ++ [.punct ";"]) := by
    have hone : SpellsStmt (.stmt false (.expression tree.erase ())) _ :=
      .expression hspells blank_nil (Word.is_punct ";")
    rw [List.append_nil] at hone
    have hbody := SpellsStmt.cons hone .nil
    rwa [List.append_nil] at hbody
  obtain ⟨hnone, hall⟩ := parseTokens_complete hwords (closed_tokenize .quill _) hstmt
    ⟨hshaped, trivial⟩ ⟨.endOfInput, rfl, rfl⟩
  obtain ⟨stmt, rest, hread, hnil, hmodule⟩ := List.forall₂_cons_right_iff.1 hall
  cases hnil
  obtain ⟨t, ht, herase⟩ := hread.stmtOf?
  cases t with
  | expression again origin =>
    obtain ⟨hsame, -⟩ := Stmt.expression.inj herase
    exact ⟨text, tree, stmt, again, origin, hslice, htree, hnone, hmodule, ht, hsame⟩
  | _ => cases herase

theorem parse_span_call :
    let source := "f(1 +\n 2) @"
    byteLength source.toList < 2 ^ 32 ∧
      (parse source).code.arena.expr? ⟨4⟩ = some ⟨.call ⟨0⟩ ⟨0, 1⟩, ⟨0, 9⟩⟩ ∧
      ∃ text tree stmt again origin,
        slice? source.toList 0 9 = some text ∧
          (parse source).code.exprOf? ⟨4⟩ = some tree ∧
          (parse (String.ofList text ++ ";")).failure = none ∧
          (parse (String.ofList text ++ ";")).module = [stmt] ∧
          (parse (String.ofList text ++ ";")).code.stmtOf? stmt =
            some (.expression again origin) ∧
          again.erase = tree.erase := by
  intro source
  have hsize : byteLength source.toList < 2 ^ 32 := by decide
  have hnode : (parse source).code.arena.expr? ⟨4⟩ = some ⟨.call ⟨0⟩ ⟨0, 1⟩, ⟨0, 9⟩⟩ := by
    decide +kernel
  refine ⟨hsize, hnode, parse_span hsize hnode ?_⟩
  rintro ⟨hkind, -⟩
  cases hkind

end Scriptorium
