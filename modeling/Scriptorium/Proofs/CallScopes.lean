import Scriptorium.Proofs.FrameGraph

/-!
# The scope of a call

The body of a call sees the arguments and what was around the declaration of the function,
and nothing of the place of the call.  So a call does the same from whatever frame it is made.

* `Machine.SameButActive` — machines that differ at most in which frame is active;
* `Outcome.Both` — computations that end alike, on related machines;
* `Machine.called_congr` — the body starts on the same machine, wherever the call is made;
* `callUser_eq` — a call is its body on that machine, after which the caller's frame is active
  again;
* `CallScope` — what the names mean at the start of the body: `Environment.Ordered.callScope`;
* `callUser_ready` — every call of a run has such a scope.
-/

namespace Scriptorium

variable {α : Type} {code : Code} {fuel : Nat}

/-! ## Machines that differ in the active frame -/

/-- The machine with another frame active. -/
def Machine.activate (m : Machine) (f : FrameId) : Machine := { m with env := m.env.restore f }

/-- The machines differ at most in which frame is active. -/
structure Machine.SameButActive (m m' : Machine) : Prop where
  frames : m'.env.frames = m.env.frames
  calls : m'.calls = m.calls
  console : m'.console = m.console
  clock : m'.clock = m.clock
  nextIdentity : m'.nextIdentity = m.nextIdentity

/-- The computations end alike, with the same value or the same error, and leave machines that
are related. -/
inductive Outcome.Both (R : Machine → Machine → Prop) : Outcome α → Outcome α → Prop
  | done {a : α} {m m' : Machine} : R m m' → Outcome.Both R (.done a m) (.done a m')
  | failed {e : RunError} {m m' : Machine} : R m m' → Outcome.Both R (.failed e m) (.failed e m')
  | stuck : Outcome.Both R .stuck .stuck
  | exhausted : Outcome.Both R .exhausted .exhausted

namespace Machine.SameButActive

variable {m m' : Machine}

theorem activate (m : Machine) (f : FrameId) : m.SameButActive (m.activate f) :=
  ⟨rfl, rfl, rfl, rfl, rfl⟩

theorem eq_activate (h : m.SameButActive m') : m' = m.activate m'.env.active := by
  obtain ⟨⟨frames, active⟩, calls, console, clock, next⟩ := m
  obtain ⟨⟨frames', active'⟩, calls', console', clock', next'⟩ := m'
  obtain ⟨rfl, rfl, rfl, rfl, rfl⟩ := h
  rfl

end Machine.SameButActive

/-! ## The body of a call -/

/-- Declaring names in a frame has nothing to do with the active one. -/
theorem Environment.restore_defineAll (env : Environment) (f a : FrameId)
    (bindings : List (String × Value)) :
    bindings.foldl (fun env b => env.defineIn f b.1 b.2) (env.restore a) =
      (bindings.foldl (fun env b => env.defineIn f b.1 b.2) env).restore a := by
  induction bindings generalizing env with
  | nil => rfl
  | cons b bindings ih => exact ih (env.defineIn f b.1 b.2)

/-- The body of a call starts on the same machine, wherever the call is made. -/
theorem Machine.called_congr {m m' : Machine} (h : m.SameButActive m') (f : UserFunction)
    (args : List Value) (span : Span) : m'.called f args span = m.called f args span := by
  have hsame := Environment.restore_defineAll (m.env.newFrame (some f.closure)).2
    ⟨m.env.frames.size⟩ m'.env.active (f.params.zip args)
  rw [h.eq_activate]
  exact congrArg (fun env : Environment => { m with
    calls := m.calls.add ⟨f.name, span⟩
    env := env.restore ⟨m.env.frames.size⟩ }) hsame

/-- The value of a call whose body ends so. -/
def Completion.value : Completion → Value
  | .normal => .zero
  | .returned value => value

/-- A result that is computed in a frame and then changed. -/
theorem Step.inFrame_bind_pure {β : Type} (f : FrameId) (x : Step α) (g : α → β) (m : Machine) :
    (inFrame f x >>= fun a => Step.pure (g a)) m =
      ((x >>= fun a => Step.pure (g a)) { m with env := (m.env.enter f).2 }).after
        fun n => { n with env := n.env.restore m.env.active } := by
  show Step.bind (inFrame f x) (fun a => Step.pure (g a)) m =
    Outcome.after _ (Step.bind x (fun a => Step.pure (g a)) _)
  unfold Step.bind
  rw [inFrame_eq]
  cases x { m with env := (m.env.enter f).2 } <;> rfl

theorem callBody_eq (code : Code) (fuel : Nat) (f : UserFunction) (args : List Value) :
    callBody code fuel f args = (Step.newFrame f.closure (f.params.zip args) >>= fun frame =>
      Step.inFrame frame (executeBlock code fuel f.body) >>= fun c => Step.pure c.value) := by
  unfold callBody
  refine congrArg (Step.newFrame f.closure (f.params.zip args) >>= ·) (funext fun frame => ?_)
  refine congrArg (Step.inFrame frame (executeBlock code fuel f.body) >>= ·) (funext fun c => ?_)
  cases c <;> rfl

/-- A call that is not refused is its body.  Afterwards it is no longer under way, and the frame
from which it was made is active again. -/
theorem callUser_eq {m : Machine} (h : m.calls.limitReached? = none) (f : UserFunction)
    (args : List Value) (span : Span) :
    callUser code (fuel + 1) f args span m =
      ((executeBlock code fuel f.body >>= fun c => Step.pure c.value) (m.called f args span)).after
        fun n => { n with calls := n.calls.pop, env := n.env.restore m.env.active } := by
  have hactive := Environment.active_defineAll (m.env.newFrame (some f.closure)).2
    ⟨m.env.frames.size⟩ (f.params.zip args)
  have hframe := Step.inFrame_bind_pure ⟨m.env.frames.size⟩ (executeBlock code fuel f.body)
    Completion.value { m with
      calls := m.calls.add ⟨f.name, span⟩
      env := (f.params.zip args).foldl (fun env b => env.defineIn ⟨m.env.frames.size⟩ b.1 b.2)
        (m.env.newFrame (some f.closure)).2 }
  rw [hactive] at hframe
  rw [callUser_succ, Step.inCall_eq h, callBody_eq]
  refine (congrArg (Outcome.after _) hframe).trans ?_
  show Outcome.after _ (Outcome.after _
    ((executeBlock code fuel f.body >>= fun c => Step.pure c.value) (m.called f args span))) = _
  generalize (executeBlock code fuel f.body >>= fun c => Step.pure c.value)
    (m.called f args span) = o
  cases o <;> rfl

/-! ## Two calls -/

/-- What is left by two calls that were made from different frames. -/
theorem Outcome.Both.after {g g' : Machine → Machine} {R : Machine → Machine → Prop}
    (hR : ∀ m, R (g m) (g' m)) (o : Outcome α) : Outcome.Both R (o.after g) (o.after g') := by
  cases o with
  | done a m => exact .done (hR m)
  | failed e m => exact .failed (hR m)
  | stuck => exact .stuck
  | exhausted => exact .exhausted

/-- A call with the right number of arguments. -/
theorem call_user {f : UserFunction} {args : List Value} (h : args.length = f.params.length)
    (span : Span) (m : Machine) :
    call code (fuel + 1) (.user f) args span m = callUser code fuel f args span m := by
  simp [call, Value.arity?, h]

/-- A call does the same from whatever frame it is made, and that frame is active afterwards. -/
theorem call_both (code : Code) (fuel : Nat) (f : UserFunction) (args : List Value) (span : Span)
    {m m' : Machine} (h : m.SameButActive m') :
    Outcome.Both
      (fun n n' => n.SameButActive n' ∧ n.env.active = m.env.active ∧ n'.env.active = m'.env.active)
      (call code fuel (.user f) args span m) (call code fuel (.user f) args span m') := by
  have hfail (e : RunError) : Outcome.Both
      (fun n n' => n.SameButActive n' ∧ n.env.active = m.env.active ∧ n'.env.active = m'.env.active)
      (Step.fail e span m : Outcome Value) (Step.fail e span m') := by
    unfold Step.fail
    rw [h.calls]
    exact .failed ⟨h, rfl, rfl⟩
  cases fuel with
  | zero => exact .exhausted
  | succ fuel =>
    by_cases hargs : args.length = f.params.length
    · rw [call_user hargs, call_user hargs]
      cases fuel with
      | zero => exact .exhausted
      | succ fuel =>
        cases hlimit : m.calls.limitReached? with
        | some limit =>
          rw [callUser_succ, Step.inCall_refused hlimit, Step.inCall_refused (h.calls ▸ hlimit)]
          exact hfail _
        | none =>
          rw [callUser_eq hlimit, callUser_eq (h.calls ▸ hlimit), m.called_congr h]
          exact .after (fun n => ⟨⟨rfl, rfl, rfl, rfl, rfl⟩, rfl, rfl⟩) _
    · have hcall (n : Machine) : call code (fuel + 1) (.user f) args span n =
          Step.fail (.arityMismatch f.name f.params.length args.length) span n := by
        simp [call, Value.arity?, Value.functionName, hargs]
      rw [hcall, hcall]
      exact hfail _

/-! ## Names in the body -/

namespace Frame

variable {bindings : List (String × Value)} {name : String}

/-- The frame in which names were declared, one after the other. -/
def setAll (frame : Frame) (bindings : List (String × Value)) : Frame :=
  bindings.foldl (fun frame b => frame.set b.1 b.2) frame

theorem parent_setAll (frame : Frame) (bindings : List (String × Value)) :
    (frame.setAll bindings).parent = frame.parent := by
  unfold setAll
  induction bindings generalizing frame with
  | nil => rfl
  | cons b bindings ih => rw [List.foldl_cons, ih, parent_set]

theorem get?_setAll_of_forall_ne (frame : Frame) (h : ∀ b ∈ bindings, b.1 ≠ name) :
    (frame.setAll bindings).get? name = frame.get? name := by
  unfold setAll
  induction bindings generalizing frame with
  | nil => rfl
  | cons b bindings ih =>
    rw [List.forall_mem_cons] at h
    rw [List.foldl_cons, ih _ h.2, get?_set, if_neg h.1.symm]

/-- The last declaration of a name counts. -/
theorem get?_setAll_last (frame : Frame) {i : Nat} {value : Value}
    (h : bindings[i]? = some (name, value))
    (hlast : ∀ j b, i < j → bindings[j]? = some b → b.1 ≠ name) :
    (frame.setAll bindings).get? name = some value := by
  obtain ⟨hi, hget⟩ := List.getElem?_eq_some_iff.1 h
  have hsplit : bindings = bindings.take i ++ (name, value) :: bindings.drop (i + 1) := by
    rw [← hget, List.getElem_cons_drop, List.take_append_drop]
  have hafter : ∀ b ∈ bindings.drop (i + 1), b.1 ≠ name := by
    intro b hb
    obtain ⟨k, hk⟩ := List.getElem?_of_mem hb
    rw [List.getElem?_drop] at hk
    exact hlast _ b (by omega) hk
  have hrest := ((frame.setAll (bindings.take i)).set name value).get?_setAll_of_forall_ne hafter
  rw [get?_set, if_pos rfl] at hrest
  rw [hsplit, setAll, List.foldl_append, List.foldl_cons]
  exact hrest

end Frame

namespace Environment

variable {env : Environment} {f g : FrameId}

theorem frame?_defineAll (env : Environment) (f : FrameId) (bindings : List (String × Value))
    (g : FrameId) :
    (bindings.foldl (fun env b => env.defineIn f b.1 b.2) env).frame? g =
      if g = f then (env.frame? g).map fun frame => frame.setAll bindings else env.frame? g := by
  induction bindings generalizing env with
  | nil => simp [Frame.setAll]
  | cons b bindings ih =>
    rw [List.foldl_cons, ih, frame?_defineIn]
    by_cases hg : g = f
    · simp only [if_pos hg, Option.map_map]
      rfl
    · simp only [if_neg hg]

end Environment

/-- What the names mean at the start of the body: a parameter leads to the new frame, and is
the argument at its last place among the parameters; every other name leads where it leads
from the frame of the declaration. -/
structure CallScope (env : Environment) (f : UserFunction) (args : List Value)
    (entry : Environment) : Prop where
  fresh : env.frame? entry.active = none
  params : ∀ (i : Nat) (name : String),
    f.params[i]? = some name → (∀ j, i < j → f.params[j]? ≠ some name) →
    entry.resolve entry.active name = some entry.active ∧ entry.lookup name = args[i]?
  others : ∀ name, name ∉ f.params →
    entry.resolve entry.active name = env.resolve f.closure name ∧
      entry.lookup name = env.lookupIn f.closure name

/-- The frames at the start of the body. -/
theorem Machine.frame?_called (m : Machine) (f : UserFunction) (args : List Value) (span : Span)
    (g : FrameId) :
    (m.called f args span).env.frame? g =
      if g.index = m.env.frames.size then
        some (Frame.setAll ⟨some f.closure, []⟩ (f.params.zip args))
      else m.env.frame? g := by
  have hall := Environment.frame?_defineAll (m.env.newFrame (some f.closure)).2
    ⟨m.env.frames.size⟩ (f.params.zip args) g
  rw [Environment.frame?_newFrame] at hall
  refine hall.trans ?_
  obtain ⟨i⟩ := g
  by_cases hi : i = m.env.frames.size
  · simp [hi]
  · simp [hi]

/-- The frames that were there before lead where they led. -/
theorem Machine.resolveFrom_called {m : Machine} (h : m.env.Ordered) (f : UserFunction)
    (args : List Value) (span : Span) (name : String) (steps : Nat) {g : FrameId}
    (hg : g.index < m.env.frames.size) :
    (m.called f args span).env.resolveFrom name steps g = m.env.resolveFrom name steps g := by
  induction steps generalizing g with
  | zero => rfl
  | succ steps ih =>
    unfold Environment.resolveFrom
    rw [m.frame?_called, if_neg (Nat.ne_of_lt hg)]
    cases hframe : m.env.frame? g with
    | none => rfl
    | some frame =>
      cases hparent : frame.parent with
      | none => simp [hparent]
      | some parent =>
        have hlt := h.parents g frame hframe parent hparent
        simp [hparent, ih (Nat.lt_trans hlt hg)]

namespace Frame

variable {params : List String} {args : List Value} {name : String}

/-- The value of a parameter in the frame of a call is the argument at its last place. -/
theorem get?_setAll_param (frame : Frame) (hargs : args.length = params.length) {i : Nat}
    (hi : params[i]? = some name) (hlast : ∀ j, i < j → params[j]? ≠ some name) :
    (frame.setAll (params.zip args)).get? name = args[i]? ∧ args[i]?.isSome := by
  have hlt : i < args.length := hargs ▸ (List.getElem?_eq_some_iff.1 hi).1
  have hvalue := List.getElem?_eq_getElem hlt
  have hget : (frame.setAll (params.zip args)).get? name = some args[i] := by
    refine frame.get?_setAll_last (List.getElem?_zip_eq_some.2 ⟨hi, hvalue⟩) ?_
    rintro j b hj hb rfl
    exact hlast j hj (List.getElem?_zip_eq_some.1 hb).1
  rw [hget, hvalue]
  exact ⟨rfl, rfl⟩

/-- The frame of a call holds the parameters only. -/
theorem get?_setAll_other (frame : Frame) (args : List Value) (h : name ∉ params) :
    (frame.setAll (params.zip args)).get? name = frame.get? name := by
  refine frame.get?_setAll_of_forall_ne ?_
  rintro b hb rfl
  exact h (List.of_mem_zip hb).1

end Frame

/-- Seen from the frame of the declaration, the same frames are found as before the call. -/
theorem Machine.resolve_called {m : Machine} (h : m.env.Ordered) {f : UserFunction}
    (hclosure : f.closure.index < m.env.frames.size) (args : List Value) (span : Span)
    (name : String) :
    (m.called f args span).env.resolveFrom name m.env.frames.size f.closure =
      m.env.resolve f.closure name := by
  rw [Machine.resolveFrom_called h f args span name m.env.frames.size hclosure,
    Environment.resolveFrom_eq_find?, Environment.resolve_eq_find?,
    h.chainFrom_eq hclosure (Nat.lt_succ_self f.closure.index)]
  rfl

/-- The body starts with the scope of its function, if the frames are in order. -/
theorem Environment.Ordered.callScope {m : Machine} (h : m.env.Ordered) {f : UserFunction}
    {args : List Value} (hargs : args.length = f.params.length)
    (hclosure : f.closure.index < m.env.frames.size) (span : Span) :
    CallScope m.env f args (m.called f args span).env := by
  have hout := Machine.resolve_called h hclosure args span
  have hold (g : FrameId) (hg : g.index < m.env.frames.size) :
      (m.called f args span).env.frame? g = m.env.frame? g := by
    rw [m.frame?_called, if_neg (Nat.ne_of_lt hg)]
  have hnew : (m.called f args span).env.frame? ⟨m.env.frames.size⟩ =
      some (Frame.setAll ⟨some f.closure, []⟩ (f.params.zip args)) := by
    rw [m.frame?_called, if_pos rfl]
  have hactive : (m.called f args span).env.active = ⟨m.env.frames.size⟩ := rfl
  generalize (m.called f args span).env = entry at hout hold hnew hactive
  refine ⟨by rw [hactive]; simp [frame?], fun i name hi hlast => ?_, fun name hname => ?_⟩
  · obtain ⟨hget, hsome⟩ := Frame.get?_setAll_param ⟨some f.closure, []⟩ hargs hi hlast
    have hresolve : entry.resolve entry.active name = some entry.active := by
      rw [hactive]
      unfold resolve resolveFrom
      simp [hnew, Frame.binds, hget, hsome]
    refine ⟨hresolve, ?_⟩
    rw [hactive] at hresolve
    simp [lookup, lookupIn, hactive, hresolve, hnew, hget]
  · have hget : Frame.get? (Frame.setAll ⟨some f.closure, []⟩ (f.params.zip args)) name = none :=
      Frame.get?_setAll_other _ args hname
    have hresolve : entry.resolve entry.active name = m.env.resolve f.closure name := by
      rw [hactive, ← hout]
      conv_lhs => unfold resolve resolveFrom
      simp [hnew, Frame.binds, hget, Frame.parent_setAll]
    refine ⟨hresolve, ?_⟩
    unfold lookup lookupIn
    rw [hresolve]
    -- the frame found was there before
    cases howner : m.env.resolve f.closure name with
    | none => rfl
    | some owner =>
      obtain ⟨frame, hheld, -⟩ := binds_of_resolve howner
      simp only [Option.bind_eq_bind, Option.bind_some,
        hold owner (frame?_eq_some_iff.1 ⟨frame, hheld⟩)]

/-! ## Calls of a run -/

/-- At every call of a run the frames are in order, and there are as many arguments as
parameters. -/
theorem callUser_ready {source : String} {settings : Settings} {f : UserFunction}
    {args : List Value} {span : Span} {m : Machine}
    (h : Visits (parse source).code (.interpret (parse source).module) settings.machine
      (.callUser f args span) m) :
    args.length = f.params.length ∧ m.env.Ordered ∧ f.closure.index < m.env.frames.size := by
  have hp := sound_parse source
  obtain ⟨hstart, htask⟩ := sound_interpret_start hp settings
  obtain ⟨hm, hf, -⟩ := h.sound hp.code hstart htask
  refine ⟨?_, hm.env.ordered, hf.closure⟩
  cases h with
  | step _ hstarts =>
    cases hstarts with
    | user hargs => exact hargs

/-- A call has nothing to do with the frame from which it is made.  From two such frames it
ends alike, and the frame is active again.  It is the body of the function, and at the start
of the body the names mean what the function says.  The frames are in order at every call of a
run. -/
theorem call_ignores_caller :
    (∀ (code : Code) (fuel : Nat) (f : UserFunction) (args : List Value) (span : Span)
      (m m' : Machine), m.SameButActive m' →
      Outcome.Both (fun n n' => n.SameButActive n' ∧
          n.env.active = m.env.active ∧ n'.env.active = m'.env.active)
        (call code fuel (.user f) args span m) (call code fuel (.user f) args span m')) ∧
    (∀ (code : Code) (fuel : Nat) (f : UserFunction) (args : List Value) (span : Span)
      (m : Machine), args.length = f.params.length → m.calls.limitReached? = none →
      call code (fuel + 2) (.user f) args span m =
        ((executeBlock code fuel f.body >>= fun c => Step.pure c.value)
          (m.called f args span)).after
            fun n => { n with calls := n.calls.pop, env := n.env.restore m.env.active }) ∧
    (∀ (f : UserFunction) (args : List Value) (span : Span) (m : Machine),
      args.length = f.params.length → m.env.Ordered → f.closure.index < m.env.frames.size →
      CallScope m.env f args (m.called f args span).env) ∧
    (∀ (source : String) (settings : Settings) (f : UserFunction) (args : List Value) (span : Span)
      (m : Machine),
      Visits (parse source).code (.interpret (parse source).module) settings.machine
        (.callUser f args span) m →
      args.length = f.params.length ∧ m.env.Ordered ∧ f.closure.index < m.env.frames.size) := by
  refine ⟨fun code fuel f args span m m' h => call_both code fuel f args span h, ?_, ?_,
    fun source settings f args span m => callUser_ready⟩
  · intro code fuel f args span m hargs hlimit
    rw [call_user hargs, callUser_eq hlimit]
  · intro f args span m hargs hordered hclosure
    exact hordered.callScope hargs hclosure span

theorem call_ignores_caller_nested :
    let f : UserFunction := ⟨"f", ⟨0⟩, ["a", "a"], ⟨0, 0⟩, .global, 3⟩
    let args : List Value := [.int 1, .int 2]
    let m : Machine := (Machine.start none .empty (.fixed 0)).nested
    Outcome.Both (fun n n' => n.SameButActive n' ∧ n.env.active = ⟨1⟩ ∧ n'.env.active = .global)
        (call .empty 5 (.user f) args .empty m)
        (call .empty 5 (.user f) args .empty (m.activate .global)) ∧
      call .empty 5 (.user f) args .empty m = .done .zero
        { (m.called f args .empty) with
          calls := m.calls
          env := (m.called f args .empty).env.restore ⟨1⟩ } ∧
      (m.called f args .empty).env.lookup "a" = some (.int 2) ∧
      (m.called f args .empty).env.lookup "b" = m.env.lookupIn .global "b" := by
  intro f args m
  have hm : m.Sound .empty := (Machine.sound_start none .empty (.fixed 0)).nested
  obtain ⟨hboth, hbody, hscope, -⟩ := call_ignores_caller
  have hcall := hscope f args .empty m rfl hm.env.ordered (by decide)
  refine ⟨hboth .empty 5 f args .empty m (m.activate .global) (.activate m .global), ?_, ?_, ?_⟩
  · exact (hbody .empty 3 f args .empty m rfl rfl).trans rfl
  · refine (hcall.params 1 "a" rfl fun j hj => ?_).2
    rw [List.getElem?_eq_none (show f.params.length ≤ j from hj)]
    exact nofun
  · exact (hcall.others "b" (by decide)).2

end Scriptorium
