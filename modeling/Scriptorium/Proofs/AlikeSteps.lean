import Scriptorium.Proofs.AlikeMachines

/-!
# Computations that a program cannot tell apart

Two computations are alike when they end alike from every two alike machines: both with
results that are related, or both with alike errors, or both not within their bound.
Neither of them gets stuck.  There is a lemma for each way to make a computation, so that
alike parts make alike wholes.

* `Outcome.Alike`, `Step.Alike` — the relations;
* `Step.Alike.bind` — the relation goes through a sequence of computations;
* `Step.Alike.inFrame`, `Step.Alike.inCall`, `Step.alike_native` — and through what is
  done to a machine.
-/

namespace Scriptorium

variable {B : Slice StmtId → Slice StmtId → Prop} {α β α' β' : Type}

/-- The computations ended alike: the results are related by `R`. -/
inductive Outcome.Alike (B : Slice StmtId → Slice StmtId → Prop) (R : α → β → Prop) :
    Outcome α → Outcome β → Prop where
  /-- Both have a result. -/
  | done {a : α} {b : β} {m m' : Machine} :
      R a b → Machine.Alike B m m' → Alike B R (.done a m) (.done b m')
  /-- Both went wrong. -/
  | failed {e e' : RunError} {m m' : Machine} :
      e.Alike e' → Machine.Alike B m m' → Alike B R (.failed e m) (.failed e' m')
  /-- Neither ended. -/
  | exhausted : Alike B R .exhausted .exhausted

/-- From alike machines, the computations end alike. -/
def Step.Alike (B : Slice StmtId → Slice StmtId → Prop) (R : α → β → Prop) (x : Step α)
    (y : Step β) : Prop :=
  ∀ m m', Machine.Alike B m m' → Outcome.Alike B R (x m) (y m')

namespace Step

variable {R : α → β → Prop} {S : α' → β' → Prop}

theorem alike_pure {a : α} {b : β} (h : R a b) : Alike B R (pure a : Step α) (pure b : Step β) :=
  fun _ _ hm => .done h hm

theorem alike_exhausted : Alike B R (exhausted : Step α) (exhausted : Step β) :=
  fun _ _ _ => .exhausted

theorem Alike.bind {x : Step α} {y : Step β} {f : α → Step α'} {g : β → Step β'}
    (hx : Alike B R x y) (hf : ∀ a b, R a b → Alike B S (f a) (g b)) :
    Alike B S (x >>= f) (y >>= g) := by
  intro m m' hm
  have hxm := hx m m' hm
  show Outcome.Alike B S (Step.bind x f m) (Step.bind y g m')
  unfold Step.bind
  revert hxm
  generalize x m = o
  generalize y m' = o'
  rintro (⟨hab, hm⟩ | ⟨he, hm⟩ | -)
  · exact hf _ _ hab _ _ hm
  · exact .failed he hm
  · exact .exhausted

/-- What is found on both sides is bound. -/
theorem Alike.found_bind {held : Option α} {held' : Option β} {a : α} {b : β}
    {f : α → Step α'} {g : β → Step β'} (ha : held = some a) (hb : held' = some b)
    (h : Alike B S (f a) (g b)) : Alike B S (found held >>= f) (found held' >>= g) := by
  intro m m' hm
  subst ha hb
  exact h m m' hm

theorem alike_fail {e e' : RunError} (h : e.Alike e') (span span' : Span) :
    Alike B R (fail e span) (fail e' span') :=
  fun _ _ hm => .failed (hm.calls.attach (h.locate span span')) hm

/-- The answer of an operator is an integer, which is alike itself. -/
theorem alike_ofExcept {r r' : Except RunError Value} (h : r = r')
    (hint : ∀ v, r = .ok v → v.isInteger = true) (span span' : Span) :
    Alike B (Value.Alike B) (ofExcept r span) (ofExcept r' span') := by
  subst h
  cases r with
  | ok v => exact alike_pure (.of_isInteger (hint v rfl))
  | error e => exact alike_fail e.alike_refl span span'

/-! ## Frames and calls -/

theorem Alike.inFrame (f : FrameId) {x : Step α} {y : Step β} (h : Alike B R x y) :
    Alike B R (inFrame f x) (inFrame f y) := by
  intro m m' hm
  have henter : Environment.Alike B (m.env.enter f).2 (m'.env.enter f).2 := hm.env.restore f
  have hxy := h { m with env := (m.env.enter f).2 } { m' with env := (m'.env.enter f).2 }
    ⟨henter, hm.calls, hm.console, hm.clock, hm.nextIdentity⟩
  have hactive : (m.env.enter f).1 = (m'.env.enter f).1 := hm.env.active
  unfold Step.inFrame
  dsimp only
  revert hxy
  generalize x _ = o
  generalize y _ = o'
  rw [hactive]
  rintro (⟨hab, hm⟩ | ⟨he, hm⟩ | -)
  · exact .done hab ⟨hm.env.restore _, hm.calls, hm.console, hm.clock, hm.nextIdentity⟩
  · exact .failed he ⟨hm.env.restore _, hm.calls, hm.console, hm.clock, hm.nextIdentity⟩
  · exact .exhausted

theorem Alike.inNewFrame {x : Step α} {y : Step β} (h : Alike B R x y) :
    Alike B R (inNewFrame x) (inNewFrame y) := by
  intro m m' hm
  obtain ⟨hframe, henv⟩ := hm.env.newFrame (some m.env.active)
  rw [show Step.inNewFrame x m = Step.inFrame (m.env.newFrame (some m.env.active)).1 x
      { m with env := (m.env.newFrame (some m.env.active)).2 } from rfl,
    show Step.inNewFrame y m' = Step.inFrame (m'.env.newFrame (some m'.env.active)).1 y
      { m' with env := (m'.env.newFrame (some m'.env.active)).2 } from rfl,
    ← hm.env.active, ← hframe]
  exact h.inFrame _ _ _ ⟨henv, hm.calls, hm.console, hm.clock, hm.nextIdentity⟩

theorem Alike.inCall {call call' : CallFrame} (hname : call.name = call'.name) {x : Step α}
    {y : Step β} (h : Alike B R x y) : Alike B R (inCall call x) (inCall call' y) := by
  intro m m' hm
  unfold Step.inCall
  rw [hm.calls.limitReached?_eq]
  split
  · exact alike_fail (RunError.alike_refl _) _ _ _ _ hm
  · have hxy := h { m with calls := m.calls.add call } { m' with calls := m'.calls.add call' }
      ⟨hm.env, hm.calls.add hname, hm.console, hm.clock, hm.nextIdentity⟩
    revert hxy
    generalize x _ = o
    generalize y _ = o'
    rintro (⟨hab, hm⟩ | ⟨he, hm⟩ | -)
    · exact .done hab ⟨hm.env, hm.calls.pop, hm.console, hm.clock, hm.nextIdentity⟩
    · exact .failed he ⟨hm.env, hm.calls.pop, hm.console, hm.clock, hm.nextIdentity⟩
    · exact .exhausted

/-! ## Variables -/

theorem alike_define (name : String) {v v' : Value} (hv : Value.Alike B v v') :
    Alike B (fun _ _ => True) (define name v) (define name v') := by
  intro m m' hm
  refine .done trivial ⟨?_, hm.calls, hm.console, hm.clock, hm.nextIdentity⟩
  show Environment.Alike B (m.env.defineIn m.env.active name v)
    (m'.env.defineIn m'.env.active name v')
  rw [hm.env.active]
  exact hm.env.defineIn _ name hv

theorem alike_lookup (name : String) (span span' : Span) :
    Alike B (Value.Alike B) (lookup name span) (lookup name span') := by
  intro m m' hm
  have hv := hm.env.lookup name
  unfold Step.lookup
  revert hv
  generalize m.env.lookup name = x
  generalize m'.env.lookup name = y
  rintro (hv | -)
  · exact .done hv hm
  · exact alike_fail (RunError.alike_refl _) _ _ _ _ hm

theorem alike_assign (name : String) {v v' : Value} (hv : Value.Alike B v v')
    (span span' : Span) :
    Alike B (Value.Alike B) (assign name v span) (assign name v' span') := by
  intro m m' hm
  unfold Step.assign
  rw [hm.env.active, hm.env.resolve_eq]
  split
  · exact .done hv ⟨hm.env.defineIn _ name hv, hm.calls, hm.console, hm.clock, hm.nextIdentity⟩
  · exact alike_fail (RunError.alike_refl _) _ _ _ _ hm

theorem alike_newFrame (parent : FrameId) {bs bs' : List (String × Value)}
    (h : List.Forall₂ (BindingAlike B) bs bs') :
    Alike B (fun f f' => f = f') (newFrame parent bs) (newFrame parent bs') := by
  intro m m' hm
  obtain ⟨hframe, henv⟩ := hm.env.newFrame (some parent)
  exact .done hframe ⟨henv.defineAll hframe h, hm.calls, hm.console, hm.clock, hm.nextIdentity⟩

theorem alike_newFunction {make make' : FrameId → Nat → UserFunction}
    (h : ∀ f n, Value.Alike B (.user (make f n)) (.user (make' f n))) :
    Alike B (Value.Alike B) (newFunction make) (newFunction make') := by
  intro m m' hm
  unfold newFunction
  rw [hm.env.active, hm.nextIdentity]
  exact .done (h _ _) ⟨hm.env, hm.calls, hm.console, hm.clock, rfl⟩

/-! ## Native functions -/

theorem alike_printAll (write : Console → String → Console) {vs vs' : List Value}
    (h : List.Forall₂ (Value.Alike B) vs vs') :
    Alike B (Value.Alike B) (printAll write vs) (printAll write vs') := by
  intro m m' hm
  refine .done (.int 0) ⟨hm.env, hm.calls, ?_, hm.clock, hm.nextIdentity⟩
  show vs.foldl _ m.console = vs'.foldl _ m'.console
  rw [hm.console]
  exact Value.Resembles.foldl_display_eq (h.imp fun _ _ => Value.Alike.resembles) write _

theorem alike_readClock : Alike B (Value.Alike B) readClock readClock := by
  intro m m' hm
  unfold readClock
  rw [hm.clock]
  exact .done (.wide _) ⟨hm.env, hm.calls, hm.console, rfl, hm.nextIdentity⟩

/-- A native function does the same with alike arguments. -/
theorem alike_native (action : NativeAction) {vs vs' : List Value}
    (h : List.Forall₂ (Value.Alike B) vs vs') (span span' : Span) :
    Alike B (Value.Alike B) (native action vs span) (native action vs' span') := by
  cases action with
  | clock => exact alike_readClock
  | print => exact alike_printAll _ h
  | println => exact alike_printAll _ h
  | zero => exact alike_pure (.int 0)
  | firstArgument =>
    cases h with
    | nil => exact alike_pure (.int (-1))
    | cons hv _ => exact alike_pure hv
  | argumentCount =>
    unfold native
    dsimp only
    rw [h.length_eq]
    exact alike_pure (.wide _)
  | raise error => exact alike_fail error.alike_refl _ _

end Step

end Scriptorium
