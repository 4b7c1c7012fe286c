import Scriptorium.Run.CallStack
import Scriptorium.Run.Console
import Scriptorium.Run.Environment

/-!
# The state of a run

A `Machine` is everything that a running program can change: its variables, the
calls under way, the console and the clock.  A `Step` is a computation on it, with
four ways to end: with a result, with an error, stuck because the program refers to
something that it does not hold, or not within the bound that was set on it.  An
error leaves the machine in the state that it was in, so that a further statement
can be run.
-/

namespace Scriptorium

/-! ## Machines -/

/-- A clock: the seconds that it shows at each reading. -/
structure Clock where
  /-- What the reading with a number shows. -/
  reading : Nat → Int64
  /-- The number of readings so far. -/
  readings : Nat

/-- A clock that always shows the same. -/
def Clock.fixed (seconds : Int64) : Clock := ⟨fun _ => seconds, 0⟩

/-- The state of a running program. -/
structure Machine where
  /-- The variables. -/
  env : Environment
  /-- The calls under way. -/
  calls : CallStack
  /-- What was printed. -/
  console : Console
  /-- The clock. -/
  clock : Clock
  /-- The identity of the function that is made next. -/
  nextIdentity : Nat

/-! ## Steps -/

/-- How a computation ends. -/
inductive Outcome (α : Type) where
  /-- With a result. -/
  | done (result : α) (machine : Machine)
  /-- With an error. -/
  | failed (error : RunError) (machine : Machine)
  /-- At a number under which the program holds nothing. -/
  | stuck
  /-- Not within its bound. -/
  | exhausted

/-- A computation on a machine. -/
def Step (α : Type) : Type := Machine → Outcome α

namespace Step

variable {α β : Type}

/-- The computation that has a result and changes nothing. -/
@[always_inline, inline]
def pure (result : α) : Step α := fun m => .done result m

/-- The computation that goes on with the result of another. -/
@[always_inline, inline]
def bind (first : Step α) (next : α → Step β) : Step β := fun m =>
  match first m with
  | .done result m => next result m
  | .failed error m => .failed error m
  | .stuck => .stuck
  | .exhausted => .exhausted

@[always_inline, inline]
instance : Monad Step where
  pure := Step.pure
  bind := Step.bind

/-- The computation that does not end within its bound. -/
def exhausted : Step α := fun _ => .exhausted

/-- What is held under a number, without which the computation is stuck. -/
@[always_inline, inline]
def found (held : Option α) : Step α := fun m =>
  match held with
  | some a => .done a m
  | none => .stuck

/-- Ends with an error at a place.  The error keeps the place and the calls that it
knows already. -/
def fail (error : RunError) (span : Span) : Step α := fun m =>
  .failed (m.calls.attach (error.locate span)) m

/-- Ends with the error, if there is one, at a place. -/
def ofExcept (result : Except RunError α) (span : Span) : Step α :=
  match result with
  | .ok a => Step.pure a
  | .error e => fail e span

/-- Runs a computation in the frame `f`, and activates the present frame again
however it ends. -/
@[inline]
def inFrame (f : FrameId) (body : Step α) : Step α := fun m =>
  let (previous, env) := m.env.enter f
  match body { m with env } with
  | .done result m => .done result { m with env := m.env.restore previous }
  | .failed error m => .failed error { m with env := m.env.restore previous }
  | .stuck => .stuck
  | .exhausted => .exhausted

/-- Runs a computation in a new frame inside the active one. -/
@[inline]
def inNewFrame (body : Step α) : Step α := fun m =>
  let (f, env) := m.env.newFrame (some m.env.active)
  inFrame f body { m with env }

/-- Runs the body of a call: with the call on the call stack, from which it is
taken however the body ends. -/
@[inline]
def inCall (call : CallFrame) (body : Step α) : Step α := fun m =>
  match m.calls.limitReached? with
  | some limit => fail (.callDepthExceeded limit) call.callSpan m
  | none =>
      match body { m with calls := m.calls.add call } with
      | .done result m => .done result { m with calls := m.calls.pop }
      | .failed error m => .failed error { m with calls := m.calls.pop }
      | .stuck => .stuck
      | .exhausted => .exhausted

/-- Declares a name in the active frame. -/
def define (name : String) (value : Value) : Step Unit := fun m =>
  .done () { m with env := m.env.define name value }

/-- The value of a name seen from the active frame. -/
def lookup (name : String) (span : Span) : Step Value := fun m =>
  match m.env.lookup name with
  | some value => .done value m
  | none => fail (.undefinedVariable name) span m

/-- Changes the value of a name seen from the active frame. -/
def assign (name : String) (value : Value) (span : Span) : Step Value := fun m =>
  match m.env.resolve m.env.active name with
  | some owner => .done value { m with env := m.env.defineIn owner name value }
  | none => fail (.undeclaredTarget name) span m

/-- Makes a new frame inside `parent` that holds the given names; of two equal names
the later one counts. -/
def newFrame (parent : FrameId) (bindings : List (String × Value)) : Step FrameId := fun m =>
  let (f, env) := m.env.newFrame (some parent)
  .done f { m with env := bindings.foldl (fun env b => env.defineIn f b.1 b.2) env }

/-- Makes a function out of the active frame and an identity of its own. -/
def newFunction (make : (closure : FrameId) → (identity : Nat) → UserFunction) : Step Value :=
  fun m =>
    .done (.user (make m.env.active m.nextIdentity)) { m with nextIdentity := m.nextIdentity + 1 }

/-! ## Native functions -/

/-- Prints values, each with `write`. -/
def printAll (write : Console → String → Console) (values : List Value) : Step Value := fun m =>
  .done .zero { m with console := values.foldl (fun c v => write c v.display) m.console }

/-- Reads the clock. -/
def readClock : Step Value := fun m =>
  .done (.wide (m.clock.reading m.clock.readings))
    { m with clock := { m.clock with readings := m.clock.readings + 1 } }

/-- Does what a native function does. -/
def native (action : NativeAction) (args : List Value) (span : Span) : Step Value :=
  match action with
  | .clock => readClock
  | .print => printAll Console.print args
  | .println => printAll Console.println args
  | .zero => Step.pure .zero
  | .firstArgument => Step.pure (args.headD (.int (-1)))
  | .argumentCount => Step.pure (.wide (Int64.ofNat args.length))
  | .raise error => fail error span

end Step

/-! ## The start of a run -/

/-- The native functions that every program finds in its global frame. -/
def prelude : List NativeFunction :=
  [⟨"clock", 0, .clock, 0⟩, ⟨"print", 1, .print, 1⟩, ⟨"println", 1, .println, 2⟩]

/-- The machine before the first statement of a program. -/
def Machine.start (limit : Option Nat) (console : Console) (clock : Clock) : Machine where
  env := prelude.foldl (fun env f => env.defineGlobal f.name (.native f)) .empty
  calls := .empty limit
  console := console
  clock := clock
  nextIdentity := prelude.length

/-- The limit on the number of calls when none is given. -/
def defaultCallLimit : Nat := 1000

end Scriptorium
