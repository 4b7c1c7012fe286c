import Scriptorium.Run.Value

/-!
# Frames of variables

The variables of a running program live in frames.  A frame holds the names that
were declared in it and the number of the frame around it; a name that it does not
hold is looked for further out.  An `Environment` holds all frames ever made and
knows which of them is active.  Frames are shared: what is assigned through one
function is seen by all others that reach the same frame.

* `Environment.chain` — a frame and those around it, from the inside out;
* `Environment.resolve` — the innermost of them that holds a name;
* `Environment.lookup`, `Environment.assign` — read and change the variable there;
* `Environment.define` — declares a variable in the active frame;
* `Environment.pushScope`, `Environment.enter`, `Environment.restore` — change the
  active frame.

A frame is made after the frame around it, so the chain of a frame is no longer
than its number and one.
-/

namespace Scriptorium

/-! ## Frames -/

/-- A frame of variables. -/
structure Frame where
  /-- The frame around it, if any. -/
  parent : Option FrameId
  /-- The names declared in it and their values, each name once. -/
  bindings : List (String × Value)
  deriving Repr

namespace Frame

/-- The value of a name declared in the frame. -/
def get? (f : Frame) (name : String) : Option Value := f.bindings.lookup name

/-- Is the name declared in the frame? -/
def binds (f : Frame) (name : String) : Bool := (f.get? name).isSome

/-- The names declared in the frame. -/
def names (f : Frame) : List String := f.bindings.map Prod.fst

/-- The bindings in which `name` has the value `value` and nothing else changes. -/
def setBinding (name : String) (value : Value) : List (String × Value) → List (String × Value)
  | [] => [(name, value)]
  | (other, old) :: bindings =>
      if other = name then (name, value) :: bindings
      else (other, old) :: setBinding name value bindings

/-- The frame in which a name has a value. -/
def set (f : Frame) (name : String) (value : Value) : Frame :=
  { f with bindings := setBinding name value f.bindings }

/-- The text that shows the size and place of a frame. -/
def describe (f : Frame) : String :=
  "Scope \x7b bindings: " ++ toString f.bindings.length ++ ", has_parent: "
    ++ toString f.parent.isSome ++ " \x7d"

end Frame

/-! ## Environments -/

/-- The frames of a running program. -/
structure Environment where
  /-- All frames; the first is the global one. -/
  frames : Array Frame
  /-- The frame in which names are declared and looked up. -/
  active : FrameId
  deriving Repr

/-- The frame around all others. -/
def FrameId.global : FrameId := ⟨0⟩

namespace Environment

/-- The environment with an empty global frame. -/
def empty : Environment := ⟨#[⟨none, []⟩], .global⟩

/-- The frame with a number. -/
def frame? (env : Environment) (f : FrameId) : Option Frame := env.frames[f.index]?

/-- The frame `f` and those around it, at most `steps` of them. -/
def chainFrom (env : Environment) : (steps : Nat) → (f : FrameId) → List FrameId
  | 0, _ => []
  | steps + 1, f =>
      match env.frame? f with
      | none => []
      | some frame =>
          match frame.parent with
          | none => [f]
          | some parent => f :: env.chainFrom steps parent

/-- A frame and those around it, from the inside out. -/
def chain (env : Environment) (f : FrameId) : List FrameId := env.chainFrom (f.index + 1) f

/-- Is a name declared in a frame? -/
def binds (env : Environment) (name : String) (f : FrameId) : Bool :=
  match env.frame? f with
  | none => false
  | some frame => frame.binds name

/-- The innermost of the frame `f` and those around it, at most `steps` of them, in
which a name is declared. -/
def resolveFrom (env : Environment) (name : String) : (steps : Nat) → (f : FrameId) → Option FrameId
  | 0, _ => none
  | steps + 1, f =>
      match env.frame? f with
      | none => none
      | some frame =>
          if frame.binds name then some f
          else
            match frame.parent with
            | none => none
            | some parent => env.resolveFrom name steps parent

/-- The innermost of a frame and those around it in which a name is declared. -/
def resolve (env : Environment) (f : FrameId) (name : String) : Option FrameId :=
  env.resolveFrom name (f.index + 1) f

theorem resolveFrom_eq_find? (env : Environment) (name : String) (steps : Nat) (f : FrameId) :
    env.resolveFrom name steps f = (env.chainFrom steps f).find? (env.binds name) := by
  induction steps generalizing f with
  | zero => rfl
  | succ steps ih =>
    unfold resolveFrom chainFrom
    cases hf : env.frame? f with
    | none => rfl
    | some frame =>
      have hb : env.binds name f = frame.binds name := by simp [binds, hf]
      rcases frame with ⟨parent, bindings⟩
      cases parent <;> simp [hb, ih, List.find?_cons] <;> split <;> simp_all

/-- Resolving a name finds the first frame of the chain that declares it. -/
theorem resolve_eq_find? (env : Environment) (f : FrameId) (name : String) :
    env.resolve f name = (env.chain f).find? (env.binds name) :=
  env.resolveFrom_eq_find? name (f.index + 1) f

/-- The value of a name seen from the frame `f`. -/
def lookupIn (env : Environment) (f : FrameId) (name : String) : Option Value := do
  (← env.frame? (← env.resolve f name)).get? name

/-- The value of a name seen from the active frame. -/
def lookup (env : Environment) (name : String) : Option Value := env.lookupIn env.active name

/-- The value of a name in the global frame. -/
def global? (env : Environment) (name : String) : Option Value := env.lookupIn .global name

/-- Declares a name in the frame `f`. -/
def defineIn (env : Environment) (f : FrameId) (name : String) (value : Value) : Environment :=
  { env with frames := env.frames.modify f.index fun frame => frame.set name value }

/-- Declares a name in the active frame. -/
def define (env : Environment) (name : String) (value : Value) : Environment :=
  env.defineIn env.active name value

/-- Declares a name in the global frame. -/
def defineGlobal (env : Environment) (name : String) (value : Value) : Environment :=
  env.defineIn .global name value

/-- Changes the value of a name seen from the frame `f`, if it is declared. -/
def assignIn? (env : Environment) (f : FrameId) (name : String) (value : Value) :
    Option Environment :=
  (env.resolve f name).map fun owner => env.defineIn owner name value

/-- Changes the value of a name seen from the active frame, if it is declared. -/
def assign? (env : Environment) (name : String) (value : Value) : Option Environment :=
  env.assignIn? env.active name value

/-- Makes an empty frame. -/
def newFrame (env : Environment) (parent : Option FrameId) : FrameId × Environment :=
  (⟨env.frames.size⟩, { env with frames := env.frames.push ⟨parent, []⟩ })

/-- Activates a frame; the answer is the frame that was active before. -/
def enter (env : Environment) (f : FrameId) : FrameId × Environment :=
  (env.active, { env with active := f })

/-- Activates a new frame inside the active one; the answer is the frame that was
active before. -/
def pushScope (env : Environment) : FrameId × Environment :=
  let (f, env) := env.newFrame (some env.active)
  env.enter f

/-- Activates a frame again. -/
def restore (env : Environment) (f : FrameId) : Environment := { env with active := f }

/-- The number of frames from the active one outwards. -/
def depth (env : Environment) : Nat := (env.chain env.active).length

end Environment

end Scriptorium
