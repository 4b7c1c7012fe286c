import Scriptorium.Proofs.Restoration
import Scriptorium.Program.Script

/-!
# The console is not read

A program prints on a console and never reads it.  Whatever it does on a machine it does on
the machine with another console, with the same results, errors and variables.

* `Machine.silenced` — the machine with a console that drops what is printed;
* `Step.Deaf` — the computation does the same on the silenced machine;
* `runSource_consoles` — runs on two consoles succeed or fail alike, with the same
  diagnostics.
-/

namespace Scriptorium

variable {α β : Type}

/-- The machine with a console that drops what is printed. -/
def Machine.silenced (m : Machine) : Machine := { m with console := .silent }

/-- On the silenced machine, the computation does the same and leaves the silenced machine. -/
def Step.Deaf (x : Step α) : Prop := ∀ m, x m.silenced = (x m).after Machine.silenced

theorem Outcome.after_after (o : Outcome α) (g h : Machine → Machine) :
    (o.after g).after h = o.after fun m => h (g m) := by
  cases o <;> rfl

/-- What is done at the end may be done before or after the machine is silenced. -/
theorem Outcome.after_silenced {x : Step α} (hx : x.Deaf) {g h : Machine → Machine}
    (hgh : ∀ m, g m.silenced = (h m).silenced) (m : Machine) :
    (x m.silenced).after g = ((x m).after h).after Machine.silenced := by
  rw [hx m, Outcome.after_after, Outcome.after_after]
  exact congrArg (fun k => (x m).after k) (funext hgh)

namespace Step

namespace Deaf

theorem bind {x : Step α} {f : α → Step β} (hx : x.Deaf) (hf : ∀ a, (f a).Deaf) :
    (x >>= f).Deaf := by
  intro m
  have hxm := hx m
  show Step.bind x f m.silenced = (Step.bind x f m).after Machine.silenced
  unfold Step.bind
  rw [hxm]
  cases x m with
  | done a m₁ => exact hf a m₁
  | failed e m₁ => rfl
  | stuck => rfl
  | exhausted => rfl

theorem inFrame {x : Step α} (hx : x.Deaf) (f : FrameId) : (inFrame f x).Deaf := by
  intro m
  rw [inFrame_eq, inFrame_eq]
  exact Outcome.after_silenced hx (h := fun m' => { m' with env := m'.env.restore m.env.active })
    (fun _ => rfl) { m with env := (m.env.enter f).2 }

theorem inNewFrame {x : Step α} (hx : x.Deaf) : (inNewFrame x).Deaf := fun m =>
  hx.inFrame _ { m with env := (m.env.newFrame (some m.env.active)).2 }

theorem inCall {x : Step α} (hx : x.Deaf) (call : CallFrame) : (inCall call x).Deaf := by
  intro m
  cases hlimit : m.calls.limitReached? with
  | some limit =>
    rw [inCall_refused hlimit, inCall_refused (m := m.silenced) hlimit]
    rfl
  | none =>
    rw [inCall_eq hlimit, inCall_eq (m := m.silenced) hlimit]
    exact Outcome.after_silenced hx (h := fun m' => { m' with calls := m'.calls.pop })
      (fun _ => rfl) { m with calls := m.calls.add call }

theorem lookup (name : String) (span : Span) : (lookup name span).Deaf := by
  intro m
  show Step.lookup name span m.silenced = _
  unfold Step.lookup
  rw [show m.silenced.env = m.env from rfl]
  cases m.env.lookup name <;> rfl

theorem assign (name : String) (value : Value) (span : Span) : (assign name value span).Deaf := by
  intro m
  show Step.assign name value span m.silenced = _
  unfold Step.assign
  rw [show m.silenced.env = m.env from rfl]
  cases m.env.resolve m.env.active name <;> rfl

theorem found (held : Option α) : (found held).Deaf := by
  intro m
  cases held <;> rfl

/-- A silent console drops all that is printed on it. -/
theorem printAll {write : Console → String → Console}
    (hwrite : ∀ text, write .silent text = .silent) (values : List Value) :
    (printAll write values).Deaf := by
  intro m
  have hall : values.foldl (fun c v => write c v.display) .silent = .silent := by
    induction values with
    | nil => rfl
    | cons v values ih => rw [List.foldl_cons, hwrite, ih]
  show Outcome.done Value.zero { m with console := values.foldl _ Console.silent } = _
  rw [hall]
  rfl

theorem native (action : NativeAction) (args : List Value) (span : Span) :
    (native action args span).Deaf := by
  cases action with
  | print => exact printAll (fun _ => rfl) args
  | println => exact printAll (fun _ => rfl) args
  | clock => exact fun _ => rfl
  | zero => exact fun _ => rfl
  | firstArgument => exact fun _ => rfl
  | argumentCount => exact fun _ => rfl
  | raise error => exact fun _ => rfl

end Deaf

/-- Nothing that is made of computations that do not hear the console hears it. -/
theorem deaf_closed : Step.Closed @Step.Deaf where
  pure _ _ := rfl
  exhausted _ := rfl
  found := Deaf.found
  fail _ _ _ := rfl
  bind := Deaf.bind
  inFrame f hx := hx.inFrame f
  inNewFrame := Deaf.inNewFrame
  inCall call hx := hx.inCall call
  define _ _ _ := rfl
  lookup := Deaf.lookup
  assign := Deaf.assign
  newFrame _ _ _ := rfl
  newFunction _ _ := rfl
  native := Deaf.native

end Step

/-! ## Whole runs -/

/-- The result of a run with the console left out. -/
def RunResult.silenced : RunResult → RunResult
  | .finished m => .finished m.silenced
  | .failed e m => .failed e m.silenced
  | r => r

theorem runCode_silenced (settings : Settings) (code : Code) (stmts : List StmtId) :
    runCode { settings with console := .silent } code stmts =
      (runCode settings code stmts).silenced := by
  have hdeaf := Step.deaf_closed.interpret code settings.fuel stmts settings.machine
  have hmachine : { settings with console := .silent : Settings }.machine =
      settings.machine.silenced := rfl
  simp only [runCode, hmachine, hdeaf]
  cases interpret code settings.fuel stmts settings.machine <;> rfl

/-- What a run leads to does not depend on the console, apart from the console itself. -/
theorem runSource_silenced (settings : Settings) (source : String) :
    runSource { settings with console := .silent } source =
      (runSource settings source).silenced := by
  cases hparse : (parse source).failure with
  | some e => simp only [runSource, hparse, RunResult.silenced]
  | none => simp only [runSource, hparse, runCode_silenced]

/-- Runs on two consoles succeed or fail alike, with the same diagnostics. -/
theorem runSource_consoles (settings : Settings) (console console' : Console) (source : String) :
    let r := runSource { settings with console } source
    let r' := runSource { settings with console := console' } source
    r.succeeded = r'.succeeded ∧ r.diagnostics = r'.diagnostics ∧
      (r = .exhausted ↔ r' = .exhausted) := by
  intro r r'
  have hsilenced : r.silenced = r'.silenced :=
    (runSource_silenced { settings with console } source).symm.trans
      (runSource_silenced { settings with console := console' } source)
  revert hsilenced
  cases r <;> cases r' <;> simp_all [RunResult.silenced, RunResult.succeeded,
    RunResult.diagnostics]

end Scriptorium
