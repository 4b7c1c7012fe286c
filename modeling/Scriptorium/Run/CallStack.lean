import Scriptorium.Run.Failure

/-!
# Calls under way

The call stack holds a frame for every call of a declared function that has not
ended.  It keeps the number of calls within a limit, and tells an error which calls
it ended.

* `CallStack.push` — one more call, which the limit can refuse;
* `CallStack.pop` — one call less; it undoes `CallStack.add`;
* `CallStack.attach` — the calls that an error ended.
-/

namespace Scriptorium

/-- The calls under way. -/
structure CallStack where
  /-- The calls, the earliest first. -/
  frames : Array CallFrame
  /-- The largest number of calls, if there is one. -/
  limit : Option Nat
  deriving DecidableEq, Repr

namespace CallStack

/-- The stack without calls. -/
def empty (limit : Option Nat) : CallStack := ⟨#[], limit⟩

/-- The number of calls. -/
def depth (s : CallStack) : Nat := s.frames.size

/-- Is no call under way? -/
def isEmpty (s : CallStack) : Bool := s.frames.isEmpty

/-- The limit, if as many calls are under way. -/
def limitReached? (s : CallStack) : Option Nat :=
  s.limit.filter fun limit => decide (limit ≤ s.depth)

/-- The stack with one more call, whatever the limit. -/
def add (s : CallStack) (frame : CallFrame) : CallStack := { s with frames := s.frames.push frame }

/-- The stack with one more call, unless the limit is reached. -/
def push (s : CallStack) (frame : CallFrame) : Except RunError CallStack :=
  match s.limitReached? with
  | none => .ok (s.add frame)
  | some limit => .error (.callDepthExceeded limit)

/-- The stack without its latest call. -/
def pop (s : CallStack) : CallStack := { s with frames := s.frames.pop }

@[simp] theorem depth_add (s : CallStack) (frame : CallFrame) :
    (s.add frame).depth = s.depth + 1 := by
  simp [depth, add]

@[simp] theorem pop_add (s : CallStack) (frame : CallFrame) : (s.add frame).pop = s := by
  simp [pop, add]

/-- The calls, the latest first. -/
def capture (s : CallStack) : List CallFrame := s.frames.toList.reverse

/-- The error with the calls that it ends, unless it knows them already. -/
def attach (s : CallStack) (e : RunError) : RunError :=
  if s.isEmpty || !e.backtrace.isEmpty then e else { e with backtrace := s.capture }

end CallStack

end Scriptorium
