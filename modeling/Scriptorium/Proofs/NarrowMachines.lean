import Scriptorium.Proofs.FrameChanges
import Scriptorium.Proofs.NarrowPrograms

/-!
# Machines without wide integers

No operator makes a wide integer out of narrow ones, so a wide integer comes from a large
literal or from a function that answers one.  Of the functions that are provided, only that
of the clock does, and it can be reached only through the variable `clock`.

* `Value.Narrow` — what an expression of a narrow program may be;
* `Environment.Narrow` — all variables hold such values, apart from `clock`, which may hold
  any function that is provided;
* `Outcome.Narrow` — a computation has left such variables, with a lemma for each way to
  make a computation.
-/

namespace Scriptorium

variable {α β : Type} {code : Code}

/-! ## Values -/

/-- Is the value an integer of 64 bits? -/
def Value.isWide : Value → Bool
  | .wide _ => true
  | _ => false

/-- The value is no wide integer and no function that could answer one. -/
def Value.Narrow (code : Code) : Value → Prop
  | .int _ | .str _ => True
  | .wide _ => False
  | .native f => f.action ≠ .clock ∧ f.action ≠ .argumentCount
  | .user f => code.NarrowStmts f.body

namespace Value.Narrow

variable {v w : Value}

theorem isWide (h : v.Narrow code) : v.isWide = false := by
  cases v with
  | wide n => exact h.elim
  | _ => rfl

theorem of_value? {n : Int} (h : Width.narrow.value? n = some v) : v.Narrow code := by
  unfold Width.value? at h
  split at h
  · cases h
    trivial
  · cases h

/-- A literal that fits in 32 bits is narrow. -/
theorem of_ofLiteral {n : Nat} (hn : (n : Int) ≤ Width.narrow.greatest)
    (h : Value.ofLiteral n = .ok v) : v.Narrow code := by
  have hleast : Width.narrow.least ≤ (n : Int) := by
    have : Width.narrow.least ≤ 0 := by decide
    omega
  have hvalue : Width.narrow.value? n = some (.int (Int32.ofInt n)) := if_pos ⟨hleast, hn⟩
  rw [Value.ofLiteral, hvalue] at h
  cases h
  trivial

theorem commonWidth (hv : v.Narrow code) (hw : w.Narrow code) :
    v.commonWidth w = .narrow := by
  cases v with
  | wide n => exact hv.elim
  | _ =>
    cases w with
    | wide n => exact hw.elim
    | _ => rfl

/-- An operator on a narrow integer has a narrow result. -/
theorem unary {op : UnaryOp} (hv : v.Narrow code) (h : op.apply v = .ok w) : w.Narrow code := by
  unfold UnaryOp.apply at h
  split at h
  · cases h
  · cases h
    trivial
  · split at h
    · next hvalue =>
      cases h
      rw [hv.commonWidth hv] at hvalue
      exact of_value? hvalue
    · cases h

/-- An operator on narrow integers has a narrow result: what does not fit is an error. -/
theorem binary {op : BinaryOp} {x : Value} (hv : v.Narrow code) (hw : w.Narrow code)
    (h : op.apply v w = .ok x) : x.Narrow code := by
  unfold BinaryOp.apply at h
  split at h
  · cases h
  · cases h
  · split at h
    · cases h
    · cases h
      trivial
    · split at h
      · next hvalue =>
        cases h
        rw [hv.commonWidth hw] at hvalue
        exact of_value? hvalue
      · cases h

/-- An integer that is narrow lies in the range of 32 bits. -/
theorem bounds {n : Int} (hv : v.Narrow code) (h : v.toInt? = some n) :
    Width.narrow.least ≤ n ∧ n ≤ Width.narrow.greatest := by
  cases v with
  | int k =>
    cases h
    exact ⟨k.le_toInt, Int.le_of_lt_add_one k.toInt_lt⟩
  | wide k => exact hv.elim
  | str text => cases h
  | native f => cases h
  | user f => cases h

end Value.Narrow

/-! ## Variables -/

/-- The variable holds a narrow value, or it is `clock` and holds a function that is
provided. -/
def NarrowBinding (code : Code) (b : String × Value) : Prop :=
  b.2.Narrow code ∨ b.1 = "clock" ∧ ∃ f, b.2 = .native f

theorem NarrowBinding.isWide {b : String × Value} (h : NarrowBinding code b) :
    b.2.isWide = false := by
  rcases h with h | ⟨-, f, hf⟩
  · exact h.isWide
  · rw [hf]
    rfl

/-- The variables in the frames hold what they may hold. -/
def Environment.Narrow (code : Code) (env : Environment) : Prop :=
  ∀ f frame, env.frame? f = some frame → ∀ b ∈ frame.bindings, NarrowBinding code b

namespace Environment.Narrow

variable {env : Environment}

theorem defineIn (h : env.Narrow code) (f : FrameId) (name : String) {v : Value}
    (hv : v.Narrow code) : (env.defineIn f name v).Narrow code := by
  intro g frame hframe b hb
  rw [frame?_defineIn] at hframe
  split at hframe
  · obtain ⟨old, hold, rfl⟩ := Option.map_eq_some_iff.1 hframe
    rcases Frame.mem_setBinding hb with heq | hb
    · exact .inl (heq ▸ hv)
    · exact h g old hold b hb
  · exact h g frame hframe b hb

theorem newFrame (h : env.Narrow code) (parent : Option FrameId) :
    (env.newFrame parent).2.Narrow code := by
  intro f frame hframe b hb
  rw [frame?_newFrame] at hframe
  split at hframe
  · cases hframe
    cases hb
  · exact h f frame hframe b hb

theorem defineAll (h : env.Narrow code) (f : FrameId) {bindings : List (String × Value)}
    (hbindings : ∀ b ∈ bindings, b.2.Narrow code) :
    (bindings.foldl (fun env b => env.defineIn f b.1 b.2) env).Narrow code := by
  induction bindings generalizing env with
  | nil => exact h
  | cons b bindings ih =>
    exact ih (h.defineIn f b.1 (hbindings b List.mem_cons_self))
      fun b' hb' => hbindings b' (List.mem_cons_of_mem _ hb')

/-- Every variable but `clock` has a narrow value. -/
theorem lookup (h : env.Narrow code) {name : String} (hname : name ≠ "clock") {v : Value}
    (hv : env.lookup name = some v) : v.Narrow code := by
  simp only [Environment.lookup, lookupIn, Option.bind_eq_bind, Option.bind_eq_some_iff] at hv
  obtain ⟨f, -, frame, hframe, hget⟩ := hv
  obtain ⟨before, after, hbindings, -⟩ := List.lookup_eq_some_iff.1 hget
  rcases h f frame hframe (name, v) (by simp [hbindings]) with hv | ⟨hclock, -⟩
  · exact hv
  · exact absurd hclock hname

end Environment.Narrow

theorem Machine.narrow_nested {m : Machine} (h : m.env.Narrow code) :
    m.nested.env.Narrow code :=
  h.newFrame _

theorem Machine.narrow_called {m : Machine} (h : m.env.Narrow code) (f : UserFunction)
    {args : List Value} (hargs : ∀ v ∈ args, v.Narrow code) (span : Span) :
    (m.called f args span).env.Narrow code :=
  (h.newFrame _).defineAll _ fun _ hb => hargs _ (List.of_mem_zip hb).2

/-! ## Computations -/

/-- A computation that ended has left narrow variables, and its result has a property. -/
def Outcome.Narrow (code : Code) (R : α → Prop) : Outcome α → Prop
  | .done a m => m.env.Narrow code ∧ R a
  | .failed _ m => m.env.Narrow code
  | .stuck | .exhausted => True

namespace Outcome.Narrow

variable {R : α → Prop} {Q : β → Prop} {m : Machine}

theorem bind {x : Step α} {f : α → Step β} (hx : (x m).Narrow code R)
    (hf : ∀ a m₁, m₁.env.Narrow code → R a → (f a m₁).Narrow code Q) :
    ((x >>= f) m).Narrow code Q := by
  show Outcome.Narrow code Q (Step.bind x f m)
  unfold Step.bind
  cases h : x m with
  | done a m₁ =>
    rw [h] at hx
    exact hf a m₁ hx.1 hx.2
  | failed e m₁ =>
    rw [h] at hx
    exact hx
  | stuck => trivial
  | exhausted => trivial

theorem found_bind {held : Option α} {f : α → Step β}
    (hf : ∀ a, held = some a → (f a m).Narrow code Q) :
    ((Step.found held >>= f) m).Narrow code Q := by
  cases held with
  | none => trivial
  | some a => exact hf a rfl

theorem fail (hm : m.env.Narrow code) (e : RunError) (span : Span) :
    (Step.fail e span m).Narrow code R :=
  hm

theorem ofExcept (hm : m.env.Narrow code) {result : Except RunError α} {span : Span}
    (h : ∀ a, result = .ok a → R a) : (Step.ofExcept result span m).Narrow code R := by
  cases result with
  | ok a => exact ⟨hm, h a rfl⟩
  | error e => exact hm

/-- What is done to the machine at the end leaves the variables alone. -/
theorem after {o : Outcome α} (h : o.Narrow code R) {g : Machine → Machine}
    (hg : ∀ m, m.env.Narrow code → (g m).env.Narrow code) : (o.after g).Narrow code R := by
  cases o with
  | done a m => exact ⟨hg m h.1, h.2⟩
  | failed e m => exact hg m h
  | stuck => trivial
  | exhausted => trivial

theorem inFrame {x : Step α} {f : FrameId}
    (hx : (x { m with env := (m.env.enter f).2 }).Narrow code R) :
    (Step.inFrame f x m).Narrow code R := by
  rw [Step.inFrame_eq]
  exact hx.after fun _ h => h

theorem inNewFrame {x : Step α} (hx : (x m.nested).Narrow code R) :
    (Step.inNewFrame x m).Narrow code R :=
  inFrame hx

theorem inCall {x : Step α} (hm : m.env.Narrow code) {call : CallFrame}
    (hx : (x { m with calls := m.calls.add call }).Narrow code R) :
    (Step.inCall call x m).Narrow code R := by
  cases hlimit : m.calls.limitReached? with
  | some limit =>
    rw [Step.inCall_refused hlimit]
    exact hm
  | none =>
    rw [Step.inCall_eq hlimit]
    exact hx.after fun _ h => h

/-! ### Variables and native functions -/

theorem define (hm : m.env.Narrow code) (name : String) {v : Value} (hv : v.Narrow code) :
    (Step.define name v m).Narrow code fun _ => True :=
  ⟨hm.defineIn m.env.active name hv, trivial⟩

theorem lookup (hm : m.env.Narrow code) {name : String} (hname : name ≠ "clock") (span : Span) :
    (Step.lookup name span m).Narrow code (Value.Narrow code) := by
  unfold Step.lookup
  split
  · next v hv => exact ⟨hm, hm.lookup hname hv⟩
  · exact hm

theorem assign (hm : m.env.Narrow code) (name : String) {v : Value} (hv : v.Narrow code)
    (span : Span) : (Step.assign name v span m).Narrow code (Value.Narrow code) := by
  unfold Step.assign
  split
  · next owner _ => exact ⟨hm.defineIn owner name hv, hv⟩
  · exact hm

/-- A function that is provided answers zero or its first argument, if it does not read the
clock or count its arguments. -/
theorem native (hm : m.env.Narrow code) {f : NativeFunction} (hf : (Value.native f).Narrow code)
    {args : List Value} (hargs : ∀ v ∈ args, v.Narrow code) (span : Span) :
    (Step.native f.action args span m).Narrow code (Value.Narrow code) := by
  cases haction : f.action with
  | clock => exact absurd haction hf.1
  | print => exact ⟨hm, trivial⟩
  | println => exact ⟨hm, trivial⟩
  | zero => exact ⟨hm, trivial⟩
  | firstArgument =>
    cases args with
    | nil => exact ⟨hm, trivial⟩
    | cons v args => exact ⟨hm, hargs v List.mem_cons_self⟩
  | argumentCount => exact absurd haction hf.2
  | raise e => exact hm

end Outcome.Narrow

/-- At the start of a run the functions that are provided are narrow, apart from that of the
clock, which the variable `clock` holds. -/
theorem Machine.narrow_start (limit : Option Nat) (console : Console) (clock : Clock) :
    (Machine.start limit console clock).env.Narrow code := by
  rintro ⟨_ | index⟩ frame hframe b hb
  · cases hframe
    -- the bindings of the prelude, one by one
    rcases hb with _ | ⟨_, _ | ⟨_, _ | ⟨_, ⟨⟩⟩⟩⟩
    · exact .inr ⟨rfl, _, rfl⟩
    · exact .inl ⟨nofun, nofun⟩
    · exact .inl ⟨nofun, nofun⟩
  · cases hframe

end Scriptorium
