import Scriptorium.Proofs.ClosedSteps

/-!
# What a computation restores

A computation changes the active frame and the calls under way only for as long as it
runs.  However it ends, by a value, a `return` or an error, the frame that was active is
active again and the same calls are under way; no frame is lost or hung up elsewhere, and
what was printed stays printed.  So a further statement can be run after a failure.

* `Machine.Restored` — what a computation that ended has left alone;
* `Step.Restores` — the computation restores every machine on which it ends, with a lemma
  for each way to make a computation;
* `restoresAll` — the functions of the interpreter restore, whatever the code is;
* `run_restores` — so do whole runs, and a call is only taken off where it was added.
-/

namespace Scriptorium

variable {α β : Type}

/-! ## Machines before and after -/

/-- The machine that a computation left satisfies `P`, if the computation ended. -/
def Outcome.Leaves (P : Machine → Prop) : Outcome α → Prop
  | .done _ m | .failed _ m => P m
  | .stuck | .exhausted => True

/-- The frames of `env` are frames of `env'`, inside the same frames. -/
def Environment.Extends (env env' : Environment) : Prop :=
  ∀ f frame, env.frame? f = some frame →
    ∃ frame', env'.frame? f = some frame' ∧ frame'.parent = frame.parent

/-- What a computation on `m` that ended with `m'` has left alone. -/
structure Machine.Restored (m m' : Machine) : Prop where
  active : m'.env.active = m.env.active
  calls : m'.calls = m.calls
  frames : m.env.Extends m'.env
  printed : ∃ text, m'.console.output = m.console.output ++ text

namespace Environment

variable {env env' env'' : Environment}

theorem Extends.refl (env : Environment) : env.Extends env := by
  intro f frame h
  exact ⟨frame, h, rfl⟩

theorem Extends.trans (h : env.Extends env') (h' : env'.Extends env'') : env.Extends env'' := by
  intro f frame hf
  obtain ⟨frame', hf', hparent'⟩ := h f frame hf
  obtain ⟨frame'', hf'', hparent''⟩ := h' f frame' hf'
  exact ⟨frame'', hf'', hparent''.trans hparent'⟩

theorem extends_restore (env : Environment) (f : FrameId) : env.Extends (env.restore f) := by
  intro g frame h
  exact ⟨frame, h, rfl⟩

theorem extends_defineIn (env : Environment) (f : FrameId) (name : String) (value : Value) :
    env.Extends (env.defineIn f name value) := by
  intro g frame h
  simp only [frame?, defineIn, Array.getElem?_modify] at h ⊢
  by_cases hfg : f.index = g.index
  · simp [hfg, h, Frame.set]
  · simp [hfg, h]

theorem extends_newFrame (env : Environment) (parent : Option FrameId) :
    env.Extends (env.newFrame parent).2 := by
  intro g frame h
  simp only [frame?, newFrame] at h ⊢
  obtain ⟨hlt, -⟩ := Array.getElem?_eq_some_iff.1 h
  exact ⟨frame, by rw [Array.getElem?_push_lt hlt, ← h, Array.getElem?_eq_getElem hlt], rfl⟩

/-- Declaring names one after the other. -/
theorem extends_defineAll (env : Environment) (f : FrameId) (bindings : List (String × Value)) :
    env.Extends (bindings.foldl (fun env b => env.defineIn f b.1 b.2) env) := by
  induction bindings generalizing env with
  | nil => exact .refl env
  | cons b bindings ih => exact (env.extends_defineIn f b.1 b.2).trans (ih _)

@[simp] theorem active_defineAll (env : Environment) (f : FrameId)
    (bindings : List (String × Value)) :
    (bindings.foldl (fun env b => env.defineIn f b.1 b.2) env).active = env.active := by
  induction bindings generalizing env with
  | nil => rfl
  | cons b bindings ih => rw [List.foldl_cons, ih]; rfl

end Environment

namespace Machine.Restored

variable {m m' m'' : Machine}

theorem refl (m : Machine) : m.Restored m := ⟨rfl, rfl, .refl _, "", by simp⟩

theorem trans (h : m.Restored m') (h' : m'.Restored m'') : m.Restored m'' := by
  obtain ⟨text, htext⟩ := h.printed
  obtain ⟨text', htext'⟩ := h'.printed
  exact ⟨h'.active.trans h.active, h'.calls.trans h.calls, h.frames.trans h'.frames,
    text ++ text', by rw [htext', htext, String.append_assoc]⟩

end Machine.Restored

namespace Console

/-- Printing adds to what was printed. -/
theorem output_print (c : Console) (text : String) :
    ∃ added, (c.print text).output = c.output ++ added := by
  cases c with
  | buffer printed => exact ⟨text, rfl⟩
  | silent => exact ⟨"", rfl⟩

theorem output_println (c : Console) (text : String) :
    ∃ added, (c.println text).output = c.output ++ added := by
  obtain ⟨first, hfirst⟩ := c.output_print text
  obtain ⟨last, hlast⟩ := (c.print text).output_print "\n"
  exact ⟨first ++ last, by rw [println, hlast, hfirst, String.append_assoc]⟩

theorem output_foldl {write : Console → String → Console}
    (hwrite : ∀ c text, ∃ added, (write c text).output = c.output ++ added) (values : List Value)
    (c : Console) :
    ∃ added, (values.foldl (fun c v => write c v.display) c).output = c.output ++ added := by
  induction values generalizing c with
  | nil => exact ⟨"", by simp⟩
  | cons v values ih =>
    obtain ⟨first, hfirst⟩ := hwrite c v.display
    obtain ⟨last, hlast⟩ := ih (write c v.display)
    exact ⟨first ++ last, by rw [List.foldl_cons, hlast, hfirst, String.append_assoc]⟩

end Console

/-! ## Computations -/

/-- The computation restores every machine on which it ends. -/
def Step.Restores (x : Step α) : Prop := ∀ m, (x m).Leaves m.Restored

/-- The outcome with something done to the machine at the end. -/
def Outcome.after (g : Machine → Machine) : Outcome α → Outcome α
  | .done a m => .done a (g m)
  | .failed e m => .failed e (g m)
  | .stuck => .stuck
  | .exhausted => .exhausted

theorem Outcome.Leaves.imp {P Q : Machine → Prop} {o : Outcome α} (h : o.Leaves P)
    (hPQ : ∀ m, P m → Q m) : o.Leaves Q := by
  cases o with
  | done a m => exact hPQ m h
  | failed e m => exact hPQ m h
  | stuck => trivial
  | exhausted => trivial

@[simp] theorem Outcome.leaves_after {P : Machine → Prop} {g : Machine → Machine}
    {o : Outcome α} : (o.after g).Leaves P ↔ o.Leaves fun m => P (g m) := by
  cases o <;> rfl

namespace Step

theorem restores_pure (a : α) : (pure a : Step α).Restores := fun m => .refl m

theorem restores_exhausted : (exhausted : Step α).Restores := fun _ => trivial

theorem restores_found (held : Option α) : (found held).Restores := by
  intro m
  cases held with
  | none => trivial
  | some a => exact .refl m

theorem restores_fail (e : RunError) (span : Span) : (fail e span : Step α).Restores :=
  fun m => .refl m

theorem restores_ofExcept (result : Except RunError α) (span : Span) :
    (ofExcept result span).Restores := by
  cases result with
  | ok a => exact restores_pure a
  | error e => exact restores_fail e span

theorem Restores.bind {x : Step α} {f : α → Step β} (hx : x.Restores)
    (hf : ∀ a, (f a).Restores) : (x >>= f).Restores := by
  intro m
  have hxm := hx m
  show Outcome.Leaves m.Restored (Step.bind x f m)
  unfold Step.bind
  cases h : x m with
  | done a m₁ =>
    rw [h] at hxm
    exact (hf a m₁).imp fun m₂ h₂ => hxm.trans h₂
  | failed e m₁ =>
    rw [h] at hxm
    exact hxm
  | stuck => trivial
  | exhausted => trivial

/-! ### Frames and calls -/

theorem inFrame_eq (f : FrameId) (x : Step α) (m : Machine) :
    inFrame f x m = (x { m with env := (m.env.enter f).2 }).after
      fun m' => { m' with env := m'.env.restore m.env.active } := by
  unfold Step.inFrame
  dsimp only
  cases x { m with env := (m.env.enter f).2 } <;> rfl

theorem inCall_refused {call : CallFrame} {m : Machine} {limit : Nat}
    (h : m.calls.limitReached? = some limit) (x : Step α) :
    inCall call x m = fail (.callDepthExceeded limit) call.callSpan m := by
  simp only [inCall, h]

theorem inCall_eq {call : CallFrame} {m : Machine} (h : m.calls.limitReached? = none)
    (x : Step α) :
    inCall call x m = (x { m with calls := m.calls.add call }).after
      fun m' => { m' with calls := m'.calls.pop } := by
  simp only [inCall, h]
  cases x { m with calls := m.calls.add call } <;> rfl

/-- The frame that was active before is activated again. -/
theorem Restores.inFrame {x : Step α} (hx : x.Restores) (f : FrameId) :
    (inFrame f x).Restores := by
  intro m
  rw [inFrame_eq, Outcome.leaves_after]
  refine (hx _).imp fun m₁ h₁ => ?_
  exact ⟨rfl, h₁.calls, h₁.frames.trans (Environment.extends_restore _ _), h₁.printed⟩

theorem Restores.inNewFrame {x : Step α} (hx : x.Restores) : (inNewFrame x).Restores := by
  intro m
  have hframe := m.env.extends_newFrame (some m.env.active)
  refine (hx.inFrame (m.env.newFrame (some m.env.active)).1
    { m with env := (m.env.newFrame (some m.env.active)).2 }).imp fun m₁ h₁ => ?_
  exact ⟨h₁.active, h₁.calls, hframe.trans h₁.frames, h₁.printed⟩

/-- The call that was added is the one that is taken off. -/
theorem Restores.inCall {x : Step α} (hx : x.Restores) (call : CallFrame) :
    (inCall call x).Restores := by
  intro m
  cases hlimit : m.calls.limitReached? with
  | some limit =>
    rw [inCall_refused hlimit]
    exact restores_fail _ _ m
  | none =>
    rw [inCall_eq hlimit, Outcome.leaves_after]
    refine (hx _).imp fun m₁ h₁ => ?_
    exact ⟨h₁.active, by simp [h₁.calls], h₁.frames, h₁.printed⟩

/-! ### Variables and native functions -/

theorem restores_define (name : String) (value : Value) : (define name value).Restores :=
  fun m => ⟨rfl, rfl, m.env.extends_defineIn _ _ _, "", by simp⟩

theorem restores_lookup (name : String) (span : Span) : (lookup name span).Restores := by
  intro m
  unfold lookup
  cases m.env.lookup name with
  | some value => exact .refl m
  | none => exact restores_fail _ _ m

theorem restores_assign (name : String) (value : Value) (span : Span) :
    (assign name value span).Restores := by
  intro m
  unfold assign
  cases m.env.resolve m.env.active name with
  | some owner => exact ⟨rfl, rfl, m.env.extends_defineIn _ _ _, "", by simp⟩
  | none => exact restores_fail _ _ m

theorem restores_newFrame (parent : FrameId) (bindings : List (String × Value)) :
    (newFrame parent bindings).Restores := by
  intro m
  refine ⟨?_, rfl, (m.env.extends_newFrame _).trans (Environment.extends_defineAll _ _ _), "", ?_⟩
  · exact Environment.active_defineAll _ _ _
  · exact String.append_empty.symm

theorem restores_newFunction (make : FrameId → Nat → UserFunction) :
    (newFunction make).Restores :=
  fun m => ⟨rfl, rfl, .refl _, "", by simp⟩

theorem restores_printAll {write : Console → String → Console}
    (hwrite : ∀ c text, ∃ added, (write c text).output = c.output ++ added)
    (values : List Value) : (printAll write values).Restores :=
  fun m => ⟨rfl, rfl, .refl _, Console.output_foldl hwrite values m.console⟩

/-- A native function only prints and reads the clock. -/
theorem restores_native (action : NativeAction) (args : List Value) (span : Span) :
    (native action args span).Restores := by
  cases action with
  | clock => exact fun m => ⟨rfl, rfl, .refl _, "", by simp⟩
  | print => exact restores_printAll Console.output_print args
  | println => exact restores_printAll Console.output_println args
  | zero => exact restores_pure _
  | firstArgument => exact restores_pure _
  | argumentCount => exact restores_pure _
  | raise error => exact restores_fail error span

end Step

/-! ## The interpreter -/

/-- What a computation restores is restored by all that is made of it. -/
theorem Step.restores_closed : Step.Closed @Step.Restores where
  pure := restores_pure
  exhausted := restores_exhausted
  found := restores_found
  fail := restores_fail
  bind := Restores.bind
  inFrame f hx := hx.inFrame f
  inNewFrame := Restores.inNewFrame
  inCall call hx := hx.inCall call
  define := restores_define
  lookup := restores_lookup
  assign := restores_assign
  newFrame := restores_newFrame
  newFunction := restores_newFunction
  native := restores_native

/-- With the bound `fuel`, the functions of the interpreter restore. -/
def RestoresAll (code : Code) (fuel : Nat) : Prop := Step.HoldsAll @Step.Restores code fuel

variable {code : Code} {fuel : Nat}

theorem RestoresAll.callBody (h : RestoresAll code fuel) (f : UserFunction) (args : List Value) :
    (Scriptorium.callBody code fuel f args).Restores :=
  Step.restores_closed.callBody h f args

/-- With every bound, the functions of the interpreter restore. -/
theorem restoresAll (code : Code) (fuel : Nat) : RestoresAll code fuel :=
  Step.restores_closed.interpreter code fuel

theorem restores_interpret (code : Code) (fuel : Nat) (stmts : List StmtId) :
    (interpret code fuel stmts).Restores :=
  Step.restores_closed.interpret code fuel stmts

/-- Whatever the code and the machine are, and however an expression, a statement or a
whole run ends, the active frame is the one that was active before and the calls under way
are the same, in the same order.  Where the body of a call ends, that call is the latest
one under way, so there is a call to take off, and it is this one. -/
theorem run_restores (code : Code) (fuel : Nat) (m : Machine) :
    (∀ id, (evaluate code fuel id m).Leaves m.Restored) ∧
    (∀ id, (execute code fuel id m).Leaves m.Restored) ∧
    (∀ stmts, (interpret code fuel stmts m).Leaves m.Restored) ∧
    ∀ f args span,
      callUser code (fuel + 1) f args span
        = Step.inCall ⟨f.name, span⟩ (callBody code fuel f args) ∧
      (callBody code fuel f args { m with calls := m.calls.add ⟨f.name, span⟩ }).Leaves
        fun m' => m'.calls = m.calls.add ⟨f.name, span⟩ ∧ m'.calls.isEmpty = false := by
  have h := restoresAll code fuel
  refine ⟨fun id => h.evaluate id m, fun id => h.execute id m,
    fun stmts => restores_interpret code fuel stmts m,
    fun f args span => ⟨callUser_succ code fuel f args span, ?_⟩⟩
  refine (h.callBody f args { m with calls := m.calls.add ⟨f.name, span⟩ }).imp fun m' h' => ?_
  have hcalls : m'.calls = m.calls.add ⟨f.name, span⟩ := h'.calls
  exact ⟨hcalls, by simp [hcalls, CallStack.isEmpty, CallStack.add]⟩

end Scriptorium
