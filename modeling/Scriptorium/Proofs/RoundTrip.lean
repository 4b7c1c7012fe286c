import Scriptorium.Program.Command
import Scriptorium.Proofs.LayoutWords
import Scriptorium.Proofs.ProgramCompleteness

/-!
# Canonical texts are read back

What was printed is read as the tree that was printed, and what was read is a tree that
can be printed.  Together they say that the canonical form of a text says the same as the
text, and that the canonical form of a canonical form is itself.

* `parse_sound` — what is kept of a text has trees, which the grammar allows;
* `parse_format` — a tree that the grammar allows is read back from its canonical text;
* `format_canonical` — for every text, the canonical form of what was kept of it is read
  without errors, as the same trees, and is canonical;
* `parse_shaped` — the trees of a text without errors obey the grammar, and their
  canonical text has the tokens of the text unless it has loops with clauses.
-/

namespace Scriptorium

/-! ## Programs and their trees -/

/-- All of the statements have trees, and these are the trees up to their notes. -/
def Code.HasTrees (c : Code) (ids : List StmtId) (trees : List (Stmt Unit)) : Prop :=
  ∃ program, ids.mapM c.stmtOf? = some program ∧ program.map Stmt.erase = trees

/-- None of the statements is missing from those that have trees. -/
theorem stmtsOf_of_mapM {c : Code} {ids : List StmtId} {program : List (Stmt Origin)}
    (h : ids.mapM c.stmtOf? = some program) : c.stmtsOf ids = program := by
  induction ids generalizing program with
  | nil =>
    cases h
    rfl
  | cons id ids ih =>
    simp only [List.mapM_cons, Option.bind_eq_bind, Option.bind_eq_some_iff, Option.pure_def,
      Option.some.injEq] at h
    obtain ⟨t, ht, ts, hts, rfl⟩ := h
    rw [← ih hts, Code.stmtsOf, List.filterMap_cons_some ht]
    rfl

theorem Code.HasTrees.stmtsOf {c : Code} {ids : List StmtId} {trees : List (Stmt Unit)}
    (h : c.HasTrees ids trees) : (c.stmtsOf ids).map Stmt.erase = trees := by
  obtain ⟨program, hprogram, rfl⟩ := h
  rw [stmtsOf_of_mapM hprogram]

theorem hasTrees_of_forall₂ {c : Code} {ids : List StmtId} {trees : List (Stmt Unit)}
    (h : List.Forall₂ c.HasStmt ids trees) : c.HasTrees ids trees :=
  ⟨_, stmtsOf_eq h⟩

/-! ## Reading -/

theorem closed_tokenize (tables : Tables) (source : String) :
    Closed ((tokenize tables source).map Token.word) :=
  (tokenize_scans tables source).closed

theorem legible_tokenize (source : String) :
    AllLegible ((tokenize .quill source).map Token.word) :=
  (tokenize_scans .quill source).legible

/-- What is kept of a text, error or not, has trees that the grammar allows and that can
be printed. -/
theorem parse_sound (source : String) :
    ∃ trees, (parse source).code.HasTrees (parse source).module trees ∧
      Stmt.ShapedAll false trees ∧ Stmt.LegibleAll trees := by
  obtain ⟨trees, hstored, hshaped, taken, rest, hwords, ⟨vs, nls, rfl, -, hspells⟩, -⟩ :=
    parseTokens_sound (closed_tokenize .quill source)
  refine ⟨trees, hasTrees_of_forall₂ hstored, hshaped, hspells.legible (p := .body trees) ?_⟩
  have hlegible := legible_tokenize source
  rw [hwords, allLegible_append, allLegible_append] at hlegible
  exact hlegible.1.1

/-! ## Reading back -/

/-- Trees that the grammar allows are read back from their canonical text. -/
theorem parse_format_trees {trees : List (Stmt Unit)} (hshaped : Stmt.ShapedAll false trees)
    (hlegible : Stmt.LegibleAll trees) :
    (parse (format trees)).failure = none ∧
      (parse (format trees)).code.HasTrees (parse (format trees)).module trees := by
  obtain ⟨vs, nls, hwords, hspells, hnls, -⟩ := words_format hshaped hlegible
  have hend : EndsText (nls ++ [.endOfInput]) := ⟨.endOfInput, skipBlank_append hnls, rfl⟩
  obtain ⟨hnone, hstored⟩ :=
    parseTokens_complete hwords (closed_tokenize .quill _) hspells hshaped hend
  exact ⟨hnone, hasTrees_of_forall₂ hstored⟩

/-- A program, from whatever arena it comes, is read back from its canonical text if its
trees obey the grammar, its names are identifiers and its numbers are literals. -/
theorem parse_format {c : Code} {ids : List StmtId} {trees : List (Stmt Unit)}
    (htrees : c.HasTrees ids trees) (hshaped : Stmt.ShapedAll false trees)
    (hlegible : Stmt.LegibleAll trees) :
    (parse (format (c.stmtsOf ids))).failure = none ∧
      (parse (format (c.stmtsOf ids))).code.HasTrees
        (parse (format (c.stmtsOf ids))).module trees := by
  rw [← format_erase, htrees.stmtsOf]
  exact parse_format_trees hshaped hlegible

/-- The code of `f(-7);`, in which the function is stored after its argument. -/
def callCode : Code :=
  let (seven, arena) := Arena.empty.addExpr ⟨.literal (.int 7), .empty⟩
  let (argument, arena) := arena.addExpr ⟨.unary .neg seven, .empty⟩
  let (callee, arena) := arena.addExpr ⟨.reference ⟨1⟩, .empty⟩
  let (arguments, arena) := arena.addExprs [argument]
  let (call, arena) := arena.addExpr ⟨.call callee arguments, .empty⟩
  ⟨(arena.addStmt ⟨.expression call, .empty⟩).2, ⟨#["", "f"]⟩⟩

/-- The tree of `f(-7);`. -/
def callTree : Stmt Unit :=
  .expression (.call (.reference "f" ()) [.unary .neg (.literal (.int 7) ()) ()] ()) ()

theorem parse_format_call :
    (callCode.HasTrees [⟨0⟩] [callTree] ∧ Stmt.ShapedAll false [callTree] ∧
      Stmt.LegibleAll [callTree]) ∧
    (parse (format (callCode.stmtsOf [⟨0⟩]))).failure = none ∧
      (parse (format (callCode.stmtsOf [⟨0⟩]))).code.HasTrees
        (parse (format (callCode.stmtsOf [⟨0⟩]))).module [callTree] := by
  have htrees : callCode.HasTrees [⟨0⟩] [callTree] := by
    refine ⟨_, rfl, ?_⟩
    rfl
  have hshaped : Stmt.ShapedAll false [callTree] := by
    simp [callTree, Stmt.ShapedAll, Stmt.Shaped, Expr.Shaped, Expr.ShapedAll, Expr.rank,
      unaryRank, callRank, primaryRank, maxItems]
  have hlegible : Stmt.LegibleAll [callTree] := by
    have hname : IsIdentifier "f" := ⟨⟨'f', [], rfl, by decide, by simp⟩, by decide⟩
    have hvalue : 7 ≤ maxLiteral := by decide
    exact ⟨⟨hname, hvalue, trivial⟩, trivial⟩
  exact ⟨⟨htrees, hshaped, hlegible⟩, parse_format htrees hshaped hlegible⟩

/-- For every text, the canonical form of what is kept of it is read without errors, as
the same trees, and has itself as its canonical form: it passes the check, and so does
whatever the formatter prints. -/
theorem format_canonical (source : String) :
    let kept := parse source
    let again := parse (format kept.program)
    kept.code.HasTrees kept.module (kept.program.map Stmt.erase) ∧
      again.failure = none ∧
      again.code.HasTrees again.module (kept.program.map Stmt.erase) ∧
      format again.program = format kept.program ∧
      (∀ colors path, formatCommand true colors path (format kept.program) = ⟨true, "", ""⟩) ∧
      ∀ colors path colors' path', (formatCommand false colors path source).success = true →
        formatCommand true colors' path' (formatCommand false colors path source).stdout =
          ⟨true, "", ""⟩ := by
  obtain ⟨trees, htrees, hshaped, hlegible⟩ := parse_sound source
  obtain ⟨hnone, hagain⟩ := parse_format_trees hshaped hlegible
  have hkept : (parse source).program.map Stmt.erase = trees := htrees.stmtsOf
  have hformat : format (parse source).program = format trees := by rw [← format_erase, hkept]
  have hfix : format (parse (format trees)).program = format trees := by
    rw [← format_erase, Parsed.program, hagain.stmtsOf]
  have hcheck : ∀ colors path,
      formatCommand true colors path (format trees) = ⟨true, "", ""⟩ := by
    intro colors path
    simp [formatCommand, hnone, hfix]
  dsimp only
  rw [hkept, hformat]
  refine ⟨htrees, hnone, hagain, hfix, hcheck, fun colors path colors' path' hsuccess => ?_⟩
  have hstdout : (formatCommand false colors path source).stdout = format trees := by
    unfold formatCommand at hsuccess ⊢
    dsimp only at hsuccess ⊢
    split
    · next e he =>
      rw [he] at hsuccess
      simp at hsuccess
    · simpa using hformat
  rw [hstdout]
  exact hcheck colors' path'

/-! ## Nothing is dropped, added or moved -/

/-- The words of a text that spells trees without loops with clauses. -/
theorem solid_of_spells {trees : List (Stmt Unit)} {vs nls : List Word} {w : Word}
    (hspells : SpellsStmt (.body trees) vs) (hnls : Blank nls) (hend : w.isEnd = true)
    (hlegible : AllLegible (vs ++ (nls ++ [w]))) (hfor : ForFree vs) :
    solid (vs ++ (nls ++ [w])) = Stmt.bodyWords trees ++ [.endOfInput] := by
  simp only [allLegible_append, allLegible_cons] at hlegible
  obtain ⟨hvs, -, hw, -⟩ := hlegible
  have heq : w = .endOfInput := by
    rcases w with ⟨kind, text⟩
    cases Word.isEnd_iff.1 hend
    cases (show text = "" from hw)
    rfl
  rw [solid_append, solid_append, solid_blank hnls, hspells.solid_eq hvs hfor, heq]
  rfl

/-- The trees of a text without errors obey the grammar.  If the text has no loops with
clauses, the words of its canonical text are its words, line breaks apart. -/
theorem parse_shaped {source : String} (h : (parse source).failure = none) :
    (∃ trees, (parse source).code.HasTrees (parse source).module trees ∧
      Stmt.ShapedAll false trees) ∧
    ((∀ t ∈ tokenize .quill source, t.is "for" = false) →
      words (tokenize .quill (format (parse source).program)) =
        words (tokenize .quill source)) := by
  obtain ⟨trees, hstored, hshaped, taken, rest, hwords, ⟨vs, nls, rfl, hnls, hspells⟩, hend⟩ :=
    parseTokens_sound (closed_tokenize .quill source)
  have htrees := hasTrees_of_forall₂ hstored
  refine ⟨⟨trees, htrees, hshaped⟩, fun hfor => ?_⟩
  obtain ⟨w, rfl, hw⟩ := hend h
  have hlegible := legible_tokenize source
  rw [List.append_assoc] at hwords
  rw [hwords] at hlegible
  have hfree : ForFree (vs ++ (nls ++ [w])) := by
    rw [← hwords]
    intro v hv
    obtain ⟨t, ht, rfl⟩ := List.mem_map.1 hv
    rw [Token.is_word]
    exact hfor t ht
  have hsource : words (tokenize .quill source) = Stmt.bodyWords trees ++ [.endOfInput] := by
    rw [words_eq_solid, hwords]
    exact solid_of_spells hspells hnls hw hlegible (forFree_append.1 hfree).1
  obtain ⟨us, nls', hformat, hus, hnls', hfree'⟩ :=
    words_format hshaped (hspells.legible (allLegible_append.1 hlegible).1)
  have hlegible' := legible_tokenize (format trees)
  rw [hformat] at hlegible'
  rw [hsource, ← format_erase, show (parse source).program.map Stmt.erase = trees from
    htrees.stmtsOf, words_eq_solid, hformat]
  exact solid_of_spells hus hnls' rfl hlegible' hfree'

theorem parse_shaped_assignment :
    (parse "x = 1;").failure = none ∧
    (∃ trees, (parse "x = 1;").code.HasTrees (parse "x = 1;").module trees ∧
      Stmt.ShapedAll false trees) ∧
    ((∀ t ∈ tokenize .quill "x = 1;", t.is "for" = false) →
      words (tokenize .quill (format (parse "x = 1;").program)) =
        words (tokenize .quill "x = 1;")) :=
  ⟨rfl, parse_shaped rfl⟩

end Scriptorium
