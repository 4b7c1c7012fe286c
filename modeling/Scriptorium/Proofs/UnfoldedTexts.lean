import Scriptorium.Proofs.FormattedRuns
import Scriptorium.Proofs.UnfoldedLoops

/-!
# Texts with loops written out

A text in which loops with clauses are used, and a text in which any number of them are written
out in full, behave the same: what is printed, whether the run goes wrong and why, and what the
global variables hold.  Neither of them goes on for ever if the other one does not.

* `SpellsProgram` — a text spells the trees of a program;
* `spellsProgram_iff` — it does so if and only if it is read without errors as these trees;
* `runSource_unfolds` — the texts behave the same.
-/

namespace Scriptorium

/-- The words of the text spell the program, which the grammar allows.  After them there are at
most line breaks. -/
structure SpellsProgram (source : String) (trees : List (Stmt Unit)) : Prop where
  shaped : Stmt.ShapedAll false trees
  spells : ∃ ws rest, (tokenize .quill source).map Token.word = ws ++ rest ∧
    SpellsStmt (.body trees) ws ∧ EndsText rest

/-- A text spells a program if and only if it is read without errors as this program. -/
theorem spellsProgram_iff {source : String} {trees : List (Stmt Unit)} :
    SpellsProgram source trees ↔
      (parse source).failure = none ∧ (parse source).code.HasTrees (parse source).module trees := by
  constructor
  · rintro ⟨hshaped, ws, rest, hwords, hspells, hend⟩
    obtain ⟨hnone, hstored⟩ :=
      parseTokens_complete hwords (closed_tokenize .quill source) hspells hshaped hend
    exact ⟨hnone, hasTrees_of_forall₂ hstored⟩
  · rintro ⟨hnone, htrees⟩
    obtain ⟨bs, hstored, hshaped, taken, rest, hwords, ⟨vs, nls, rfl, hnls, hspells⟩, hend⟩ :=
      parseTokens_sound (closed_tokenize .quill source)
    obtain rfl : bs = trees := (hasTrees_of_forall₂ hstored).stmtsOf.symm.trans htrees.stmtsOf
    obtain ⟨w, rfl, hw⟩ := hend hnone
    have hsolid : w.isNewline = false := by
      rcases w with ⟨kind, text⟩
      cases Word.isEnd_iff.1 hw
      rfl
    refine ⟨hshaped, vs, nls ++ [w], hwords.trans (List.append_assoc ..), hspells, w, ?_, hw⟩
    rw [skipBlank_append hnls, skipBlank_cons hsolid]

theorem Machine.Matches.sameEffects {M : FrameMap} {B : Slice StmtId → Slice StmtId → Prop}
    {a a' : FrameId} {m m' : Machine} (h : Machine.Matches M B a a' m m') : m.SameEffects m' :=
  ⟨h.console, h.display_global⟩

theorem RunResult.SameBehaviour.exhausted_iff {r r' : RunResult} (h : r.SameBehaviour r') :
    r = .exhausted ↔ r' = .exhausted := by
  cases h <;> simp

/-- With two bounds, a user sees the same of two runs unless one of them is not within its
bound.  That can be the run with the loops written out only if its bound is less than five times
the other one, and the other run only if its bound is the smaller one. -/
theorem runCode_unfolds {c d : Code} {ids ids' : List StmtId} {trees trees' : List (Stmt Unit)}
    (hc : c.HasTrees ids trees) (hd : d.HasTrees ids' trees')
    (h : List.Forall₂ Stmt.Unfolds trees trees') (settings : Settings) (n n' : Nat) :
    let run := runCode { settings with fuel := n } c ids
    let run' := runCode { settings with fuel := n' } d ids'
    run.SameBehaviour run' ∨ run = .exhausted ∧ n < n' ∨ run' = .exhausted ∧ n' < 5 * n := by
  have hruns := interpret_unfolds FrameMap.start_pairs n n' hc.stmtAt hd.stmtAt h settings.machine
    settings.machine (Machine.matches_start _ _ _)
  simp only [runCode, Settings.machine] at hruns ⊢
  revert hruns
  generalize interpret c n ids _ = o
  generalize interpret d n' ids' _ = o'
  rintro (⟨-, -, hm⟩ | ⟨he, hm⟩ | - | hlt | hlt)
  · exact .inl (.finished hm.sameEffects)
  · exact .inl (.failed he hm.sameEffects)
  · exact .inl .exhausted
  · exact .inr (.inl ⟨rfl, hlt⟩)
  · exact .inr (.inr ⟨rfl, hlt⟩)

/-- A text, and a text in which loops with clauses are written out, behave the same whenever
both runs end, whatever their bounds and with the same limit on the calls; and if one of them
ends, so does the other. -/
theorem runSource_unfolds {source full : String} {trees trees' : List (Stmt Unit)}
    (hsource : SpellsProgram source trees) (hfull : SpellsProgram full trees')
    (h : List.Forall₂ Stmt.Unfolds trees trees') (settings : Settings) :
    (∀ n n', runSource { settings with fuel := n } source ≠ .exhausted →
      runSource { settings with fuel := n' } full ≠ .exhausted →
      (runSource { settings with fuel := n } source).SameBehaviour
        (runSource { settings with fuel := n' } full)) ∧
    ((∃ n, runSource { settings with fuel := n } source ≠ .exhausted) ↔
      ∃ n, runSource { settings with fuel := n } full ≠ .exhausted) := by
  obtain ⟨hnone, htrees⟩ := spellsProgram_iff.1 hsource
  obtain ⟨hnone', htrees'⟩ := spellsProgram_iff.1 hfull
  have hruns (n n' : Nat) := runCode_unfolds htrees htrees' h settings n n'
  simp only [runSource, hnone, hnone']
  refine ⟨fun n n' hends hends' => ?_, ?_, ?_⟩
  · rcases hruns n n' with hsame | ⟨hexhausted, -⟩ | ⟨hexhausted, -⟩
    · exact hsame
    · exact absurd hexhausted hends
    · exact absurd hexhausted hends'
  · rintro ⟨n, hends⟩
    refine ⟨5 * n, fun hends' => ?_⟩
    rcases hruns n (5 * n) with hsame | ⟨hexhausted, -⟩ | ⟨-, hlt⟩
    · exact hends (hsame.exhausted_iff.2 hends')
    · exact hends hexhausted
    · exact absurd hlt (Nat.lt_irrefl _)
  · rintro ⟨n, hends'⟩
    refine ⟨n, fun hends => ?_⟩
    rcases hruns n n with hsame | ⟨-, hlt⟩ | ⟨hexhausted, -⟩
    · exact hends' (hsame.exhausted_iff.1 hends)
    · exact absurd hlt (Nat.lt_irrefl _)
    · exact hends' hexhausted

/-- The increment of `x`, `x = x + 1`. -/
def countingStep : Expr Unit :=
  .assign "x" () (.binary .add (.reference "x" ()) (.literal (.int 1) ()) ()) ()

/-- A program that counts to two, with a loop of the given form. -/
def countingProgram (loop : Option (Stmt Unit) → Option (Expr Unit) → Option (Expr Unit) →
    Stmt Unit → Stmt Unit) : List (Stmt Unit) :=
  [.declare "x" (some (.literal (.int 0) ())) (),
    loop none (some (.binary .less (.reference "x" ()) (.literal (.int 2) ()) ())) none
      (.expression countingStep ())]

/-- Its text with a loop with clauses. -/
def countingText : String := "var x = 0; for (; x < 2;) x = x + 1;"

/-- Its text with the loop written out. -/
def countingFullText : String := "var x = 0; \x7b while (x < 2) \x7b x = x + 1; \x7d \x7d"

theorem spells_counting :
    SpellsProgram countingText (countingProgram lowerFor) ∧
      SpellsProgram countingFullText (countingProgram fullFor) := by
  have hdeclare : SpellsStmt (.stmt false (.declare "x" (some (.literal (.int 0) ())) ())) _ :=
    .initialise (Word.is_keyword "var") (.mk blank_nil) (Word.is_punct "=") (.int 0) blank_nil
      (Word.is_punct ";")
  have htest : Spells (.expr (.binary .less (.reference "x" ()) (.literal (.int 2) ()) ())) _ :=
    .operation (.reference "x") blank_nil
      (show Word.connective? (.punct "<") = some (.binary .less) from rfl) (.int 2)
  have hsum : Spells (.expr (.binary .add (.reference "x" ()) (.literal (.int 1) ()) ())) _ :=
    .operation (.reference "x") blank_nil
      (show Word.connective? (.punct "+") = some (.binary .add) from rfl) (.int 1)
  have hstep : SpellsStmt (.stmt false (.expression countingStep ())) _ :=
    .expression (.assign (.reference "x") blank_nil (Word.is_punct "=") hsum) blank_nil
      (Word.is_punct ";")
  have hfor : SpellsStmt (.body (countingProgram lowerFor)) _ :=
    .cons hdeclare (.cons (.forLoop (Word.is_keyword "for") blank_nil (Word.is_punct "(")
      (.noFirst blank_nil (Word.is_punct ";")) (.some htest blank_nil (Word.is_punct ";"))
      (.none blank_nil (Word.is_punct ")")) hstep rfl) .nil)
  have hbody : SpellsStmt (.stmt false (.block [.expression countingStep ()] ())) _ :=
    .block (Word.is_punct "\x7b") (.cons hstep .nil) blank_nil (Word.is_punct "\x7d")
  have hwhile : SpellsStmt (.body (countingProgram fullFor)) _ :=
    .cons hdeclare (.cons (.block (Word.is_punct "\x7b") (.cons (.loop (Word.is_keyword "while")
      (.mk blank_nil (Word.is_punct "(") htest blank_nil (Word.is_punct ")")) hbody rfl) .nil)
      blank_nil (Word.is_punct "\x7d")) .nil)
  constructor
  · refine ⟨?_, _, [.endOfInput], by decide +kernel, hfor, .endOfInput, rfl, rfl⟩
    simp [countingProgram, countingStep, lowerFor, lowerLoop, lowerBody, Stmt.ShapedAll,
      Stmt.Shaped, Expr.Shaped, Expr.rank, BinaryOp.rank, primaryRank, Stmt.isVariable]
  · refine ⟨?_, _, [.endOfInput], by decide +kernel, hwhile, .endOfInput, rfl, rfl⟩
    simp [countingProgram, countingStep, fullFor, Stmt.ShapedAll, Stmt.Shaped, Expr.Shaped,
      Expr.rank, BinaryOp.rank, primaryRank, Stmt.isVariable]

theorem runSource_unfolds_counting :
    (SpellsProgram countingText (countingProgram lowerFor) ∧
      SpellsProgram countingFullText (countingProgram fullFor) ∧
      List.Forall₂ Stmt.Unfolds (countingProgram lowerFor) (countingProgram fullFor)) ∧
    (runSource { Settings.standard (.fixed 0) with fuel := 20 } countingText).SameBehaviour
      (runSource { Settings.standard (.fixed 0) with fuel := 30 } countingFullText) := by
  obtain ⟨hsource, hfull⟩ := spells_counting
  have hunfolds : List.Forall₂ Stmt.Unfolds (countingProgram lowerFor) (countingProgram fullFor) :=
    .cons (.declare _ _) (.cons (.forLoop _ _ _ (.expression _)) .nil)
  have hends : (runSource { Settings.standard (.fixed 0) with fuel := 20 }
      countingText).succeeded = true := by
    decide +kernel
  have hends' : (runSource { Settings.standard (.fixed 0) with fuel := 30 }
      countingFullText).succeeded = true := by
    decide +kernel
  refine ⟨⟨hsource, hfull, hunfolds⟩,
    (runSource_unfolds hsource hfull hunfolds (.standard (.fixed 0))).1 20 30 ?_ ?_⟩
  · intro hexhausted
    rw [hexhausted] at hends
    cases hends
  · intro hexhausted
    rw [hexhausted] at hends'
    cases hends'

end Scriptorium
