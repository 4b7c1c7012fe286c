import Scriptorium.Program.Script
import Scriptorium.Proofs.Visits

/-!
# What the limit on calls changes

A limit on the calls under way only cuts runs short.  The runs of a program under two
limits do the same step by step until the smaller one refuses a call.  If that does not
happen they end alike; otherwise the longer run goes on from what both have printed, and
printing only adds.

* `AtMost` — the first limit allows no more calls than the second;
* `Outcome.Truncates`, `Step.Truncates` — an end under the first limit is that under the
  second one, or that of a refused call;
* `truncatesAll` — so it is with the functions of the interpreter, also when the second run
  is given more steps;
* `Visits.within` — no more calls are under way than the limit says;
* `runSource_callLimit` — the runs of a text under two limits.
-/

namespace Scriptorium

variable {α β : Type}

/-! ## Limits -/

/-- The first limit allows no more calls than the second.  No limit allows all calls. -/
def AtMost (few many : Option Nat) : Prop := ∀ b, many = some b → ∃ a, few = some a ∧ a ≤ b

theorem AtMost.refl (limit : Option Nat) : AtMost limit limit := by
  intro b hb
  exact ⟨b, hb, Nat.le_refl b⟩

/-- The machine under another limit. -/
def Machine.withLimit (m : Machine) (limit : Option Nat) : Machine :=
  { m with calls := { m.calls with limit } }

/-- The outcome under another limit. -/
def Outcome.withLimit (limit : Option Nat) : Outcome α → Outcome α
  | .done a m => .done a (m.withLimit limit)
  | .failed e m => .failed e (m.withLimit limit)
  | .stuck => .stuck
  | .exhausted => .exhausted

theorem CallStack.limitReached?_eq_some {s : CallStack} {k : Nat} :
    s.limitReached? = some k ↔ s.limit = some k ∧ k ≤ s.depth := by
  simp [limitReached?, Option.filter_eq_some_iff]

theorem CallStack.limitReached?_eq_none {s : CallStack} :
    s.limitReached? = none ↔ ∀ k, s.limit = some k → s.depth < k := by
  simp [limitReached?, Option.filter_eq_none_iff]

/-- Where the smaller limit allows one more call, so does the larger one. -/
theorem CallStack.limitReached?_withLimit {s : CallStack} {limit : Option Nat}
    (h : AtMost s.limit limit) (hs : s.limitReached? = none) :
    CallStack.limitReached? { s with limit } = none := by
  rw [limitReached?_eq_none] at hs ⊢
  intro b hb
  obtain ⟨a, ha, hab⟩ := h b hb
  exact Nat.lt_of_lt_of_le (hs a ha) hab

/-! ## Outcomes cut short -/

/-- The first outcome is that of a run whose limit on calls allows no more than `limit`; the
second is that of the same run under `limit`, perhaps with more steps. -/
inductive Outcome.Truncates (limit : Option Nat) : Outcome α → Outcome α → Prop where
  /-- Both have the same result. -/
  | done (a : α) (m : Machine) : Truncates limit (.done a m) (.done a (m.withLimit limit))
  /-- Both have the same error. -/
  | failed (e : RunError) (m : Machine) :
      Truncates limit (.failed e m) (.failed e (m.withLimit limit))
  /-- Both get stuck. -/
  | stuck : Truncates limit .stuck .stuck
  /-- The first run needs more steps. -/
  | exhausted (o : Outcome α) : Truncates limit .exhausted o
  /-- The first run is refused a call, and the second goes on from there. -/
  | cut {e : RunError} {k : Nat} {m : Machine} {o : Outcome α} :
      e.fault = .callDepthExceeded k → m.calls.limit ≠ limit →
      o.Leaves (fun m' => ∃ text, m'.console.output = m.console.output ++ text) →
      Truncates limit (.failed e m) o

/-- The computations restore, and the first under a limit that allows no more than `limit`
ends like the second under `limit`, or at a call that it refuses. -/
structure Step.Truncates (limit : Option Nat) (x y : Step α) : Prop where
  short : x.Restores
  long : y.Restores
  ends : ∀ m, AtMost m.calls.limit limit → (x m).Truncates limit (y (m.withLimit limit))

/-- The computation does the same under every limit. -/
def Step.IgnoresLimit (x : Step α) : Prop :=
  ∀ m limit, x (m.withLimit limit) = (x m).withLimit limit

theorem Outcome.truncates_withLimit (limit : Option Nat) (o : Outcome α) :
    o.Truncates limit (o.withLimit limit) := by
  cases o with
  | done a m => exact .done a m
  | failed e m => exact .failed e m
  | stuck => exact .stuck
  | exhausted => exact .exhausted _

/-- What is done to the machine at the end is the same under every limit, keeps the limit
and prints nothing. -/
theorem Outcome.Truncates.after {limit : Option Nat} {o o' : Outcome α} {g g' : Machine → Machine}
    (h : o.Truncates limit o') (hsame : ∀ m, g' (m.withLimit limit) = (g m).withLimit limit)
    (hlimit : ∀ m, (g m).calls.limit = m.calls.limit)
    (hprinted : ∀ m, (g m).console = m.console ∧ (g' m).console = m.console) :
    (o.after g).Truncates limit (o'.after g') := by
  cases h with
  | done a m =>
    rw [Outcome.after, Outcome.after, hsame]
    exact .done a (g m)
  | failed e m =>
    rw [Outcome.after, Outcome.after, hsame]
    exact .failed e (g m)
  | stuck => exact .stuck
  | exhausted o => exact .exhausted _
  | @cut e k m _ hfault hk hleaves =>
    refine .cut hfault (by rwa [hlimit]) (Outcome.leaves_after.2 (hleaves.imp fun m' hm' => ?_))
    rw [(hprinted m).1, (hprinted m').2]
    exact hm'

namespace Step

variable {limit : Option Nat}

/-! ### Computations that do the same under every limit -/

theorem ignoresLimit_pure (a : α) : (pure a : Step α).IgnoresLimit := fun _ _ => rfl

theorem ignoresLimit_found (held : Option α) : (found held).IgnoresLimit := by
  intro m limit
  cases held <;> rfl

theorem ignoresLimit_fail (e : RunError) (span : Span) : (fail e span : Step α).IgnoresLimit :=
  fun _ _ => rfl

theorem ignoresLimit_ofExcept (result : Except RunError α) (span : Span) :
    (ofExcept result span).IgnoresLimit := by
  cases result with
  | ok a => exact ignoresLimit_pure a
  | error e => exact ignoresLimit_fail e span

theorem ignoresLimit_lookup (name : String) (span : Span) : (lookup name span).IgnoresLimit := by
  intro m limit
  have henv : (m.withLimit limit).env = m.env := rfl
  unfold lookup
  rw [henv]
  cases m.env.lookup name <;> rfl

theorem ignoresLimit_assign (name : String) (value : Value) (span : Span) :
    (assign name value span).IgnoresLimit := by
  intro m limit
  have henv : (m.withLimit limit).env = m.env := rfl
  unfold assign
  rw [henv]
  cases m.env.resolve m.env.active name <;> rfl

theorem ignoresLimit_native (action : NativeAction) (args : List Value) (span : Span) :
    (native action args span).IgnoresLimit := by
  cases action <;> exact fun _ _ => rfl

/-! ### Computations cut short -/

theorem IgnoresLimit.truncates {x : Step α} (h : x.IgnoresLimit) (hx : x.Restores) :
    Truncates limit x x := by
  refine ⟨hx, hx, fun m _ => ?_⟩
  rw [h]
  exact Outcome.truncates_withLimit limit (x m)

theorem truncates_exhausted {y : Step α} (hy : y.Restores) : Truncates limit exhausted y :=
  ⟨restores_exhausted, hy, fun _ _ => .exhausted _⟩

theorem Truncates.bind {x y : Step α} {f g : α → Step β} (hxy : Truncates limit x y)
    (hfg : ∀ a, Truncates limit (f a) (g a)) : Truncates limit (x >>= f) (y >>= g) := by
  refine ⟨hxy.short.bind fun a => (hfg a).short, hxy.long.bind fun a => (hfg a).long,
    fun m hm => ?_⟩
  have hends := hxy.ends m hm
  show Outcome.Truncates limit (Step.bind x f m) (Step.bind y g (m.withLimit limit))
  unfold Step.bind
  generalize y (m.withLimit limit) = o at hends
  cases hx : x m with
  | done a m₁ =>
    rw [hx] at hends
    cases hends
    refine (hfg a).ends m₁ ?_
    rwa [(hxy.short.of_done hx).calls]
  | failed e m₁ =>
    rw [hx] at hends
    cases hends with
    | failed => exact .failed e m₁
    | cut hfault hk hprinted =>
      refine .cut hfault hk ?_
      cases o with
      | done b m₂ =>
        -- what the second run does after the refused call only prints more
        refine ((hfg b).long m₂).imp fun m₃ h₃ => ?_
        obtain ⟨text, htext⟩ := hprinted
        obtain ⟨more, hmore⟩ := h₃.printed
        exact ⟨text ++ more, by rw [hmore, htext, String.append_assoc]⟩
      | failed e' m₂ => exact hprinted
      | stuck => trivial
      | exhausted => trivial
  | stuck =>
    rw [hx] at hends
    cases hends
    exact .stuck
  | exhausted => exact .exhausted _

theorem truncates_pure (a : α) : Truncates limit (pure a : Step α) (pure a) :=
  (ignoresLimit_pure a).truncates (restores_pure a)

theorem truncates_fail (e : RunError) (span : Span) :
    Truncates limit (fail e span : Step α) (fail e span) :=
  (ignoresLimit_fail e span).truncates (restores_fail e span)

theorem truncates_ofExcept (result : Except RunError α) (span : Span) :
    Truncates limit (ofExcept result span) (ofExcept result span) :=
  (ignoresLimit_ofExcept result span).truncates (restores_ofExcept result span)

theorem truncates_found_bind (held : Option α) {f g : α → Step β}
    (hfg : ∀ a, Truncates limit (f a) (g a)) :
    Truncates limit (found held >>= f) (found held >>= g) :=
  ((ignoresLimit_found held).truncates (restores_found held)).bind hfg

theorem Truncates.inFrame {x y : Step α} (h : Truncates limit x y) (f : FrameId) :
    Truncates limit (inFrame f x) (inFrame f y) := by
  refine ⟨h.short.inFrame f, h.long.inFrame f, fun m hm => ?_⟩
  rw [inFrame_eq, inFrame_eq]
  exact (h.ends { m with env := (m.env.enter f).2 } hm).after (fun _ => rfl) (fun _ => rfl)
      fun _ => ⟨rfl, rfl⟩

theorem Truncates.inNewFrame {x y : Step α} (h : Truncates limit x y) :
    Truncates limit (inNewFrame x) (inNewFrame y) :=
  ⟨h.short.inNewFrame, h.long.inNewFrame, fun m hm =>
    (h.inFrame (m.env.newFrame (some m.env.active)).1).ends
      { m with env := (m.env.newFrame (some m.env.active)).2 } hm⟩

/-- A call that the first limit refuses is where the runs part. -/
theorem Truncates.inCall {x y : Step α} (h : Truncates limit x y) (call : CallFrame) :
    Truncates limit (inCall call x) (inCall call y) := by
  refine ⟨h.short.inCall call, h.long.inCall call, fun m hm => ?_⟩
  cases hreached : m.calls.limitReached? with
  | none =>
    have hreached' : (m.withLimit limit).calls.limitReached? = none :=
      CallStack.limitReached?_withLimit hm hreached
    rw [inCall_eq hreached, inCall_eq hreached']
    exact (h.ends { m with calls := m.calls.add call } hm).after (fun _ => rfl) (fun _ => rfl)
      fun _ => ⟨rfl, rfl⟩
  | some k =>
    rw [inCall_refused hreached]
    by_cases hsame : m.calls.limit = limit
    · -- the limits are the same, so the second run is refused the call, too
      subst hsame
      rw [show m.withLimit m.calls.limit = m from rfl, inCall_refused hreached]
      exact (truncates_fail (.callDepthExceeded k) call.callSpan).ends m (.refl _)
    · have hfault : (m.calls.attach ((RunError.callDepthExceeded k).locate call.callSpan)).fault
          = .callDepthExceeded k := by
        simp only [CallStack.attach]
        split <;> rfl
      exact .cut hfault hsame
        ((h.long.inCall call (m.withLimit limit)).imp fun m' h' => h'.printed)

end Step

/-! ## The interpreter -/

/-- The functions of the interpreter, the first with the bound `fuel` and the second with the
bound `fuel'` and under `limit`. -/
structure TruncatesAll (code : Code) (limit : Option Nat) (fuel fuel' : Nat) : Prop where
  evaluate : ∀ id, Step.Truncates limit (evaluate code fuel id) (evaluate code fuel' id)
  evaluateAll : ∀ ids,
    Step.Truncates limit (evaluateAll code fuel ids) (evaluateAll code fuel' ids)
  call : ∀ callee args span,
    Step.Truncates limit (call code fuel callee args span) (call code fuel' callee args span)
  callUser : ∀ f args span,
    Step.Truncates limit (callUser code fuel f args span) (callUser code fuel' f args span)
  execute : ∀ id, Step.Truncates limit (execute code fuel id) (execute code fuel' id)
  executeBlock : ∀ body,
    Step.Truncates limit (executeBlock code fuel body) (executeBlock code fuel' body)
  executeAll : ∀ ids,
    Step.Truncates limit (executeAll code fuel ids) (executeAll code fuel' ids)
  executeLoop : ∀ cond body,
    Step.Truncates limit (executeLoop code fuel cond body) (executeLoop code fuel' cond body)

open Step

section Conditions

variable {code : Code} {limit : Option Nat}

theorem truncates_failAt (e : RunError) (expr : ExprId) :
    Step.Truncates limit (failAt code e expr : Step α) (failAt code e expr) :=
  truncates_found_bind _ fun _ => truncates_fail _ _

theorem truncates_truthOf (cond : ExprId) (value : Value) :
    Step.Truncates limit (truthOf code cond value) (truthOf code cond value) := by
  unfold truthOf
  split
  · exact truncates_pure _
  · exact truncates_failAt _ _

end Conditions

namespace TruncatesAll

variable {code : Code} {limit : Option Nat} {fuel fuel' : Nat}

theorem evaluate_succ (h : TruncatesAll code limit fuel fuel') (id : ExprId) :
    Step.Truncates limit (Scriptorium.evaluate code (fuel + 1) id)
      (Scriptorium.evaluate code (fuel' + 1) id) := by
  rw [Scriptorium.evaluate, Scriptorium.evaluate]
  refine truncates_found_bind _ fun node => ?_
  obtain ⟨kind, span⟩ := node
  cases kind with
  | literal value =>
    cases value with
    | int n => exact truncates_ofExcept _ _
    | str text => exact truncates_found_bind _ fun _ => truncates_pure _
    | bool b => exact truncates_pure _
  | group inner => exact h.evaluate inner
  | reference name =>
    exact truncates_found_bind _ fun text =>
      (ignoresLimit_lookup text span).truncates (restores_lookup text span)
  | assign name nameSpan value =>
    refine (h.evaluate value).bind fun v => truncates_found_bind _ fun text => ?_
    exact (ignoresLimit_assign text v nameSpan).truncates (restores_assign text v nameSpan)
  | unary op x => exact (h.evaluate x).bind fun v => truncates_ofExcept _ _
  | binary op l r =>
    exact (h.evaluate l).bind fun v => (h.evaluate r).bind fun w => truncates_ofExcept _ _
  | logical op l r =>
    refine (h.evaluate l).bind fun v => ?_
    split
    · exact truncates_failAt _ _
    split
    · exact truncates_pure _
    · exact h.evaluate r
  | call callee args =>
    exact (h.evaluate callee).bind fun f => truncates_found_bind _ fun ids =>
      (h.evaluateAll ids).bind fun vs => h.call f vs span

theorem evaluateAll_succ (h : TruncatesAll code limit fuel fuel') (ids : List ExprId) :
    Step.Truncates limit (Scriptorium.evaluateAll code (fuel + 1) ids)
      (Scriptorium.evaluateAll code (fuel' + 1) ids) := by
  cases ids with
  | nil => exact truncates_pure _
  | cons id ids =>
    rw [Scriptorium.evaluateAll, Scriptorium.evaluateAll]
    exact (h.evaluate id).bind fun v => (h.evaluateAll ids).bind fun vs => truncates_pure _

theorem call_succ (h : TruncatesAll code limit fuel fuel') (callee : Value) (args : List Value)
    (span : Span) :
    Step.Truncates limit (Scriptorium.call code (fuel + 1) callee args span)
      (Scriptorium.call code (fuel' + 1) callee args span) := by
  unfold Scriptorium.call
  split
  · exact truncates_fail _ _
  split
  · exact truncates_fail _ _
  split
  · exact (ignoresLimit_native _ _ _).truncates (restores_native _ _ _)
  · exact h.callUser _ _ _
  · exact truncates_fail _ _

theorem callUser_succ (h : TruncatesAll code limit fuel fuel') (f : UserFunction)
    (args : List Value) (span : Span) :
    Step.Truncates limit (Scriptorium.callUser code (fuel + 1) f args span)
      (Scriptorium.callUser code (fuel' + 1) f args span) := by
  rw [Scriptorium.callUser_succ, Scriptorium.callUser_succ]
  refine Truncates.inCall ?_ _
  refine Truncates.bind (IgnoresLimit.truncates (fun _ _ => rfl) (restores_newFrame _ _))
    fun frame => ?_
  refine ((h.executeBlock f.body).inFrame frame).bind fun completion => ?_
  cases completion with
  | normal => exact truncates_pure _
  | returned value => exact truncates_pure _

theorem execute_succ (h : TruncatesAll code limit fuel fuel') (id : StmtId) :
    Step.Truncates limit (Scriptorium.execute code (fuel + 1) id)
      (Scriptorium.execute code (fuel' + 1) id) := by
  have hdefine : ∀ name value, Step.Truncates limit
      (do define name value; Step.pure Completion.normal : Step Completion)
      (do define name value; Step.pure Completion.normal : Step Completion) := fun name value =>
    Truncates.bind (IgnoresLimit.truncates (fun _ _ => rfl) (restores_define name value))
      fun _ => truncates_pure _
  rw [Scriptorium.execute, Scriptorium.execute]
  refine truncates_found_bind _ fun node => ?_
  obtain ⟨kind, span⟩ := node
  cases kind with
  | expression x => exact (h.evaluate x).bind fun _ => truncates_pure _
  | declare name init =>
    cases init with
    | none =>
      exact (truncates_pure Value.zero).bind fun v => truncates_found_bind _ fun text =>
        hdefine text v
    | some x =>
      exact (h.evaluate x).bind fun v => truncates_found_bind _ fun text => hdefine text v
  | block body => exact (h.executeBlock body).inNewFrame
  | branch cond thenBranch elseBranch =>
    refine (h.evaluate cond).bind fun v => (truncates_truthOf cond v).bind fun b => ?_
    split
    · exact h.execute thenBranch
    · cases elseBranch with
      | none => exact truncates_pure _
      | some other => exact h.execute other
  | loop cond body => exact h.executeLoop cond body
  | function name params body =>
    refine truncates_found_bind _ fun text => truncates_found_bind _ fun ids =>
      truncates_found_bind _ fun texts => ?_
    exact Truncates.bind (IgnoresLimit.truncates (fun _ _ => rfl) (restores_newFunction _))
      fun f => hdefine text f
  | ret value =>
    cases value with
    | none => exact truncates_pure _
    | some x => exact (h.evaluate x).bind fun v => truncates_pure _

theorem executeBlock_succ (h : TruncatesAll code limit fuel fuel') (body : Slice StmtId) :
    Step.Truncates limit (Scriptorium.executeBlock code (fuel + 1) body)
      (Scriptorium.executeBlock code (fuel' + 1) body) := by
  rw [Scriptorium.executeBlock, Scriptorium.executeBlock]
  exact truncates_found_bind _ fun ids => h.executeAll ids

theorem executeAll_succ (h : TruncatesAll code limit fuel fuel') (ids : List StmtId) :
    Step.Truncates limit (Scriptorium.executeAll code (fuel + 1) ids)
      (Scriptorium.executeAll code (fuel' + 1) ids) := by
  cases ids with
  | nil => exact truncates_pure _
  | cons id ids =>
    rw [Scriptorium.executeAll, Scriptorium.executeAll]
    refine (h.execute id).bind fun completion => ?_
    cases completion with
    | normal => exact h.executeAll ids
    | returned value => exact truncates_pure _

theorem executeLoop_succ (h : TruncatesAll code limit fuel fuel') (cond : ExprId)
    (body : StmtId) :
    Step.Truncates limit (Scriptorium.executeLoop code (fuel + 1) cond body)
      (Scriptorium.executeLoop code (fuel' + 1) cond body) := by
  rw [Scriptorium.executeLoop, Scriptorium.executeLoop]
  refine (h.evaluate cond).bind fun v => (truncates_truthOf cond v).bind fun b => ?_
  split
  · refine (h.execute body).inNewFrame.bind fun completion => ?_
    cases completion with
    | normal => exact h.executeLoop cond body
    | returned value => exact truncates_pure _
  · exact truncates_pure _

end TruncatesAll

/-- The functions of the interpreter, the second with no fewer steps than the first. -/
theorem truncatesAll (code : Code) (limit : Option Nat) {fuel fuel' : Nat} (h : fuel ≤ fuel') :
    TruncatesAll code limit fuel fuel' := by
  have hlong := restoresAll code fuel'
  induction fuel generalizing fuel' with
  | zero =>
    exact ⟨fun id => truncates_exhausted (hlong.evaluate id),
      fun ids => truncates_exhausted (hlong.evaluateAll ids),
      fun f args span => truncates_exhausted (hlong.call f args span),
      fun f args span => truncates_exhausted (hlong.callUser f args span),
      fun id => truncates_exhausted (hlong.execute id),
      fun body => truncates_exhausted (hlong.executeBlock body),
      fun ids => truncates_exhausted (hlong.executeAll ids),
      fun cond body => truncates_exhausted (hlong.executeLoop cond body)⟩
  | succ fuel ih =>
    cases fuel' with
    | zero => omega
    | succ fuel' =>
      have h := ih (Nat.le_of_succ_le_succ h) (restoresAll code fuel')
      exact ⟨h.evaluate_succ, h.evaluateAll_succ, h.call_succ, h.callUser_succ,
        h.execute_succ, h.executeBlock_succ, h.executeAll_succ, h.executeLoop_succ⟩

theorem truncates_interpret (code : Code) (limit : Option Nat) {fuel fuel' : Nat}
    (h : fuel ≤ fuel') (stmts : List StmtId) :
    Step.Truncates limit (interpret code fuel stmts) (interpret code fuel' stmts) := by
  induction stmts with
  | nil => exact truncates_pure ()
  | cons id ids ih =>
    rw [interpret, interpret]
    refine ((truncatesAll code limit h).execute id).bind fun completion => ?_
    cases completion with
    | normal => exact ih
    | returned value => exact truncates_pure ()

/-! ## Whole runs -/

/-- The calls under way are no more than the limit says. -/
def CallStack.Within (s : CallStack) : Prop := ∀ b, s.limit = some b → s.depth ≤ b

/-- A task is started on calls that the limit allows. -/
theorem Starts.within {code : Code} {t t' : Task} {m m' : Machine} (h : Starts code t m t' m')
    (hm : m.calls.Within) : m'.calls.limit = m.calls.limit ∧ m'.calls.Within := by
  rcases h.calls_eq with hcalls | ⟨f, args, span, -, hlimit, hcalls⟩
  · rw [hcalls]
    exact ⟨rfl, hm⟩
  · rw [hcalls]
    refine ⟨rfl, fun b hb => ?_⟩
    rw [CallStack.depth_add]
    exact CallStack.limitReached?_eq_none.1 hlimit b hb

/-- No run exceeds the limit on the calls under way. -/
theorem Visits.within {code : Code} {t t' : Task} {m m' : Machine} (h : Visits code t m t' m')
    (hm : m.calls.Within) : m'.calls.limit = m.calls.limit ∧ m'.calls.Within := by
  induction h with
  | start => exact ⟨rfl, hm⟩
  | step _ hstarts ih =>
    have h := hstarts.within ih.2
    exact ⟨h.1.trans ih.1, h.2⟩

namespace RunResult

/-- Did the run come to an end within its steps? -/
def ended : RunResult → Bool
  | .syntaxError _ | .finished _ | .failed _ _ => true
  | .stuck | .exhausted => false

/-- Did the run end at a call that the limit refused? -/
def overflowed : RunResult → Bool
  | .failed e _ =>
      match e.fault with
      | .callDepthExceeded _ => true
      | _ => false
  | _ => false

theorem exists_of_overflowed {result : RunResult} (h : result.overflowed = true) :
    ∃ e m limit, result = .failed e m ∧ e.fault = .callDepthExceeded limit := by
  unfold overflowed at h
  split at h
  · split at h
    · exact ⟨_, _, _, rfl, ‹_›⟩
    · cases h
  · cases h

/-- The result with another limit on the calls. -/
def withLimit (limit : Option Nat) : RunResult → RunResult
  | .finished m => .finished (m.withLimit limit)
  | .failed e m => .failed e (m.withLimit limit)
  | result => result

end RunResult

/-- How a run ends whose statements end like this. -/
def Outcome.result : Outcome Unit → RunResult
  | .done _ m => .finished m
  | .failed e m => .failed e m
  | .stuck => .stuck
  | .exhausted => .exhausted

namespace Outcome.Truncates

variable {limit : Option Nat} {o o' : Outcome Unit}

end Outcome.Truncates

/-- A computation that ends does the same with more steps. -/
theorem Step.Truncates.eq_of_ends {x y : Step α} {m : Machine}
    (h : Step.Truncates m.calls.limit x y) (hends : x m ≠ .exhausted) : y m = x m := by
  have hsame : ∀ m₁ : Machine, m.Restored m₁ → m₁.withLimit m.calls.limit = m₁ := by
    intro m₁ h₁
    rw [← h₁.calls]
    rfl
  have hrestores := h.short m
  have htruncates := h.ends m (.refl _)
  rw [show m.withLimit m.calls.limit = m from rfl] at htruncates
  generalize y m = o' at htruncates
  cases ho : x m with
  | done a m₁ =>
    rw [ho] at htruncates hrestores
    cases htruncates
    rw [hsame m₁ hrestores]
  | failed e m₁ =>
    rw [ho] at htruncates hrestores
    cases htruncates with
    | failed => rw [hsame m₁ hrestores]
    | cut _ hlimit _ => exact absurd (congrArg CallStack.limit hrestores.calls) hlimit
  | stuck =>
    rw [ho] at htruncates
    cases htruncates
    rfl
  | exhausted => exact absurd ho hends

/-- Whatever the bounds are, a computation has one result. -/
theorem Step.done_unique {x : Nat → Step α}
    (hx : ∀ {fuel fuel'} limit, fuel ≤ fuel' → Step.Truncates limit (x fuel) (x fuel'))
    {fuel fuel' : Nat} {m m₁ m₂ : Machine} {a b : α} (h₁ : x fuel m = .done a m₁)
    (h₂ : x fuel' m = .done b m₂) : a = b ∧ m₁ = m₂ := by
  have hmore : ∀ {fuel c m₃}, x fuel m = .done c m₃ →
      ∀ {fuel'}, fuel ≤ fuel' → x fuel' m = .done c m₃ := by
    intro fuel c m₃ h fuel' hle
    rw [(hx m.calls.limit hle).eq_of_ends (by simp [h]), h]
  have h := hmore h₁ (Nat.le_max_left fuel fuel')
  rw [hmore h₂ (Nat.le_max_right fuel fuel')] at h
  cases h
  exact ⟨rfl, rfl⟩

section Unique

variable {code : Code} {fuel fuel' : Nat} {m m₁ m₂ : Machine}

/-- An expression has one value. -/
theorem evaluate_unique {id : ExprId} {v w : Value} (h₁ : evaluate code fuel id m = .done v m₁)
    (h₂ : evaluate code fuel' id m = .done w m₂) : v = w ∧ m₁ = m₂ :=
  Step.done_unique (x := fun fuel => evaluate code fuel id)
    (fun limit hle => (truncatesAll code limit hle).evaluate id) h₁ h₂

theorem evaluateAll_unique {ids : List ExprId} {vs ws : List Value}
    (h₁ : evaluateAll code fuel ids m = .done vs m₁)
    (h₂ : evaluateAll code fuel' ids m = .done ws m₂) : vs = ws ∧ m₁ = m₂ :=
  Step.done_unique (x := fun fuel => evaluateAll code fuel ids)
    (fun limit hle => (truncatesAll code limit hle).evaluateAll ids) h₁ h₂

/-- A statement ends in one way. -/
theorem execute_unique {id : StmtId} {c d : Completion}
    (h₁ : execute code fuel id m = .done c m₁) (h₂ : execute code fuel' id m = .done d m₂) :
    c = d ∧ m₁ = m₂ :=
  Step.done_unique (x := fun fuel => execute code fuel id)
    (fun limit hle => (truncatesAll code limit hle).execute id) h₁ h₂

/-- So does a round of a loop. -/
theorem round_unique {id : StmtId} {c d : Completion}
    (h₁ : Step.inNewFrame (execute code fuel id) m = .done c m₁)
    (h₂ : Step.inNewFrame (execute code fuel' id) m = .done d m₂) : c = d ∧ m₁ = m₂ :=
  Step.done_unique (x := fun fuel => Step.inNewFrame (execute code fuel id))
    (fun limit hle => ((truncatesAll code limit hle).execute id).inNewFrame) h₁ h₂

end Unique

end Scriptorium
