import Scriptorium.Layout.Outline
import Scriptorium.Report.Rendering
import Scriptorium.Run.Interpreter
import Scriptorium.Syntax.Parser

/-!
# Scripts

`runSource` reads a text as a program and runs it.  A text with a syntax error is
not run at all.  The result holds the error, if there is one, and the machine at the
end, on whose console stands what was printed.
-/

namespace Scriptorium

/-- The circumstances of a run. -/
structure Settings where
  /-- The largest number of calls under way, if there is one. -/
  callLimit : Option Nat
  /-- Where printed text goes. -/
  console : Console
  /-- The clock. -/
  clock : Clock
  /-- The bound on the steps of the run. -/
  fuel : Nat

/-- A bound on the steps of a run that no run reaches in practice. -/
def ampleFuel : Nat := 4611686018427387904

/-- The settings of a run that keeps what is printed. -/
def Settings.standard (clock : Clock) : Settings :=
  ⟨some defaultCallLimit, .empty, clock, ampleFuel⟩

/-- The machine before a run. -/
def Settings.machine (s : Settings) : Machine := Machine.start s.callLimit s.console s.clock

/-- How the run of a text ends. -/
inductive RunResult where
  /-- The text is not a program. -/
  | syntaxError (error : ParseError)
  /-- All of it was carried out. -/
  | finished (machine : Machine)
  /-- It went wrong. -/
  | failed (error : RunError) (machine : Machine)
  /-- It comes to a number under which the program holds nothing. -/
  | stuck
  /-- It needs more steps than it was given. -/
  | exhausted

namespace RunResult

/-- Did the run succeed? -/
def succeeded : RunResult → Bool
  | .finished _ => true
  | _ => false

/-- What was printed. -/
def output : RunResult → String
  | .finished m | .failed _ m => m.console.output
  | _ => ""

/-- What a reader is told. -/
def diagnostics : RunResult → List Diagnostic
  | .syntaxError e => [e.diagnostic]
  | .failed e _ => [e.diagnostic]
  | _ => []

end RunResult

/-- Runs statements of a code. -/
def runCode (settings : Settings) (code : Code) (stmts : List StmtId) : RunResult :=
  match interpret code settings.fuel stmts settings.machine with
  | .done _ m => .finished m
  | .failed e m => .failed e m
  | .stuck => .stuck
  | .exhausted => .exhausted

/-- Reads a text as a program and runs it. -/
def runSource (settings : Settings) (source : String) : RunResult :=
  let parsed := parse source
  match parsed.failure with
  | some e => .syntaxError e
  | none => runCode settings parsed.code parsed.module

end Scriptorium
