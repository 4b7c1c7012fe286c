import Scriptorium.Proofs.AlikeRuns
import Scriptorium.Proofs.RoundTrip

/-!
# Formatted programs run the same

A text and its canonical form are read as the same trees, so they run alike.  What a user
sees of the two runs is the same: what was printed, whether the run went wrong and why,
and what the global variables hold.

* `RunResult.SameBehaviour` — a user sees the same of two runs;
* `runCode_sameBehaviour` — codes with the same trees behave the same;
* `runSource_format` — so do a text and its canonical form.
-/

namespace Scriptorium

/-- The same was printed, and the global variables are displayed the same. -/
structure Machine.SameEffects (m m' : Machine) : Prop where
  console : m.console = m'.console
  globals : ∀ name,
    (m.env.global? name).map Value.display = (m'.env.global? name).map Value.display

/-- A user sees the same of the two runs, wherever the texts stood in the two sources.  The
runs get stuck nowhere. -/
inductive RunResult.SameBehaviour : RunResult → RunResult → Prop where
  /-- All of it was carried out. -/
  | finished {m m' : Machine} : m.SameEffects m' → SameBehaviour (.finished m) (.finished m')
  /-- It went wrong, for the same reason and in the same calls. -/
  | failed {e e' : RunError} {m m' : Machine} :
      e.Alike e' → m.SameEffects m' → SameBehaviour (.failed e m) (.failed e' m')
  /-- Both need more steps than they were given. -/
  | exhausted : SameBehaviour .exhausted .exhausted

theorem Machine.Alike.sameEffects {B : Slice StmtId → Slice StmtId → Prop} {m m' : Machine}
    (h : Machine.Alike B m m') : m.SameEffects m' :=
  ⟨h.console, h.display_global⟩

/-- The statements of a program are the roots of its trees. -/
theorem Code.HasTrees.stmtAt {c : Code} {ids : List StmtId} {trees : List (Stmt Unit)}
    (h : c.HasTrees ids trees) : List.Forall₂ c.StmtAt ids trees := by
  obtain ⟨program, hprogram, rfl⟩ := h
  exact Code.forall₂_of_mapM (fun _ _ => Code.stmtAt_of_stmtTree?) hprogram

/-- Codes with the same trees behave the same, whatever the limit on the calls, the
console, the clock and the bound. -/
theorem runCode_sameBehaviour {c d : Code} {ids ids' : List StmtId} {trees : List (Stmt Unit)}
    (hc : c.HasTrees ids trees) (hd : d.HasTrees ids' trees) (settings : Settings) :
    (runCode settings c ids).SameBehaviour (runCode settings d ids') := by
  have h := interpret_alike settings.fuel hc.stmtAt hd.stmtAt settings.machine settings.machine
    (Machine.alike_start _ _ _)
  unfold runCode
  revert h
  generalize interpret c settings.fuel ids settings.machine = o
  generalize interpret d settings.fuel ids' settings.machine = o'
  rintro (⟨-, hm⟩ | ⟨he, hm⟩ | -)
  · exact .finished hm.sameEffects
  · exact .failed he hm.sameEffects
  · exact .exhausted

/-- A text without syntax errors and its canonical form behave the same, whatever the
settings of the run. -/
theorem runSource_format {source : String} (h : (parse source).failure = none)
    (settings : Settings) :
    (runSource settings source).SameBehaviour
      (runSource settings (format (parse source).program)) := by
  obtain ⟨trees, htrees, hshaped, hlegible⟩ := parse_sound source
  obtain ⟨hnone, hagain⟩ := parse_format_trees hshaped hlegible
  have hkept : (parse source).program.map Stmt.erase = trees := htrees.stmtsOf
  rw [← format_erase, hkept]
  simp only [runSource, h, hnone]
  exact runCode_sameBehaviour htrees hagain settings

theorem runSource_format_print :
    (parse "print(1 + 2);").failure = none ∧
    (runSource (.standard (.fixed 0)) "print(1 + 2);").SameBehaviour
      (runSource (.standard (.fixed 0)) (format (parse "print(1 + 2);").program)) :=
  ⟨by decide +kernel, runSource_format (by decide +kernel) _⟩

end Scriptorium
