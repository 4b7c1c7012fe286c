import Scriptorium.Run.Interpreter
import Mathlib.Data.List.Forall2
import Mathlib.Data.Option.Basic

/-!
# Machines that a program cannot tell apart

Two codes can hold the same program under other numbers and with other places in it.
While they run, the machines differ in what a program cannot observe: the number of the
declaration of a function, where its body is stored and the places in the calls under
way.  They are *alike* when they differ in nothing else.  Which bodies correspond to each
other is left open: `B` relates the stored lists of statements.

* `Value.Alike`, `Environment.Alike`, `RunError.Alike`, `Machine.Alike` — the relations;
* `Value.Resembles` — what operators, conditions and messages depend on;
* `Environment.Alike.lookup`, `Environment.Alike.defineIn`,
  `Environment.Alike.newFrame` — what is done to alike environments has alike results;
* `Machine.alike_start` — the machine before a run is alike itself.
-/

namespace Scriptorium

variable {B : Slice StmtId → Slice StmtId → Prop}

/-! ## Values -/

/-- The values are the same, but for declared functions: these have the same name and the same
parameters.  That is all that operators, conditions and messages depend on. -/
inductive Value.Resembles : Value → Value → Prop where
  /-- The same value. -/
  | same (v : Value) : Resembles v v
  /-- Functions that are declared. -/
  | user {f g : UserFunction} :
      f.name = g.name → f.params = g.params → Resembles (.user f) (.user g)

/-- The values are the same, functions apart, which may be stored elsewhere. -/
inductive Value.Alike (B : Slice StmtId → Slice StmtId → Prop) : Value → Value → Prop where
  /-- An integer of 32 bits. -/
  | int (n : Int32) : Alike B (.int n) (.int n)
  /-- An integer of 64 bits. -/
  | wide (n : Int64) : Alike B (.wide n) (.wide n)
  /-- A text. -/
  | str (text : String) : Alike B (.str text) (.str text)
  /-- A function that is provided. -/
  | native (f : NativeFunction) : Alike B (.native f) (.native f)
  /-- A function that is declared. -/
  | user {f g : UserFunction} :
      f.name = g.name → f.params = g.params → f.closure = g.closure → f.identity = g.identity →
      B f.body g.body → Alike B (.user f) (.user g)

namespace Value

namespace Resembles

variable {v w v' w' : Value}

theorem toInt?_eq (h : v.Resembles w) : v.toInt? = w.toInt? := by
  cases h <;> rfl

theorem isInteger_eq (h : v.Resembles w) : v.isInteger = w.isInteger := by
  rw [isInteger, isInteger, h.toInt?_eq]

theorem isTrue_eq (h : v.Resembles w) : v.isTrue = w.isTrue := by
  rw [isTrue, isTrue, h.toInt?_eq]

theorem typeName_eq (h : v.Resembles w) : v.typeName = w.typeName := by
  cases h <;> rfl

theorem display_eq (h : v.Resembles w) : v.display = w.display := by
  cases h with
  | same => rfl
  | user hname => rw [display, display, hname]

theorem arity?_eq (h : v.Resembles w) : v.arity? = w.arity? := by
  cases h with
  | same => rfl
  | user _ hparams => rw [arity?, arity?, hparams]

theorem functionName_eq (h : v.Resembles w) : v.functionName = w.functionName := by
  cases h with
  | same => rfl
  | user hname => exact hname

theorem commonWidth_eq (h : v.Resembles w) (h' : v'.Resembles w') :
    v.commonWidth v' = w.commonWidth w' := by
  cases h with
  | same =>
    cases h' with
    | same => rfl
    | user => cases v <;> rfl
  | user =>
    cases h' with
    | same => cases v' <;> rfl
    | user => rfl

theorem decidedBy_eq (h : v.Resembles w) (op : LogicalOp) : op.decidedBy v = op.decidedBy w := by
  cases op <;> simp [LogicalOp.decidedBy, h.isTrue_eq]

/-- What is printed of them is the same. -/
theorem foldl_display_eq {vs vs' : List Value} (h : List.Forall₂ Resembles vs vs')
    (write : Console → String → Console) (console : Console) :
    vs.foldl (fun c v => write c v.display) console =
      vs'.foldl (fun c v => write c v.display) console := by
  induction h generalizing console with
  | nil => rfl
  | cons hv _ ih => rw [List.foldl_cons, List.foldl_cons, hv.display_eq, ih]

end Resembles

theorem Alike.resembles {v w : Value} (h : Alike B v w) : v.Resembles w := by
  cases h with
  | user hname hparams => exact .user hname hparams
  | _ => exact .same _

/-- An integer is alike itself only. -/
theorem Alike.of_isInteger {v : Value} (h : v.isInteger = true) : Alike B v v := by
  cases v with
  | int n => exact .int n
  | wide n => exact .wide n
  | _ => exact absurd h (by simp [isInteger, toInt?])

theorem isInteger_of_value? {w : Width} {n : Int} {v : Value} (h : w.value? n = some v) :
    v.isInteger = true := by
  unfold Width.value? at h
  split at h
  · cases h
    cases w <;> rfl
  · exact absurd h (by simp)

theorem isInteger_of_ofLiteral {n : Nat} {v : Value} (h : ofLiteral n = .ok v) :
    v.isInteger = true := by
  unfold ofLiteral at h
  split at h
  · next hv =>
    cases h
    exact isInteger_of_value? hv
  · split at h
    · next hv =>
      cases h
      exact isInteger_of_value? hv
    · exact absurd h (by simp)

end Value

theorem BinaryOp.isInteger_of_apply {op : BinaryOp} {l r v : Value} (h : op.apply l r = .ok v) :
    v.isInteger = true := by
  unfold apply at h
  split at h
  · exact absurd h (by simp)
  · exact absurd h (by simp)
  · split at h
    · exact absurd h (by simp)
    · cases h
      rfl
    · split at h
      · next hv =>
        cases h
        exact Value.isInteger_of_value? hv
      · exact absurd h (by simp)

theorem UnaryOp.isInteger_of_apply {op : UnaryOp} {v w : Value} (h : op.apply v = .ok w) :
    w.isInteger = true := by
  unfold apply at h
  split at h
  · exact absurd h (by simp)
  · cases h
    rfl
  · split at h
    · next hv =>
      cases h
      exact Value.isInteger_of_value? hv
    · exact absurd h (by simp)

/-- An operator has the same answer for operands that resemble each other. -/
theorem BinaryOp.apply_eq (op : BinaryOp) {l r l' r' : Value} (hl : l.Resembles l')
    (hr : r.Resembles r') : op.apply l r = op.apply l' r' := by
  unfold apply
  rw [hl.toInt?_eq, hr.toInt?_eq, hl.typeName_eq, hr.typeName_eq, hl.commonWidth_eq hr]

theorem UnaryOp.apply_eq (op : UnaryOp) {v w : Value} (h : v.Resembles w) :
    op.apply v = op.apply w := by
  unfold apply
  rw [h.toInt?_eq, h.typeName_eq, h.isTrue_eq, h.commonWidth_eq h]

/-! ## Frames -/

/-- The names are the same and their values are alike. -/
def BindingAlike (B : Slice StmtId → Slice StmtId → Prop) (b b' : String × Value) : Prop :=
  b.1 = b'.1 ∧ Value.Alike B b.2 b'.2

/-- The frames hold the same names with alike values, and the frames around them have the
same number. -/
structure Frame.Alike (B : Slice StmtId → Slice StmtId → Prop) (f f' : Frame) : Prop where
  parent : f.parent = f'.parent
  bindings : List.Forall₂ (BindingAlike B) f.bindings f'.bindings

theorem rel_isSome_eq {α β : Type} {R : α → β → Prop} {x : Option α} {y : Option β}
    (h : Option.Rel R x y) : x.isSome = y.isSome := by
  cases h <;> rfl

section Bindings

variable {R : Value → Value → Prop} {bs bs' : List (String × Value)}

/-- The same names, with values that are related, have related values when they are looked
up. -/
theorem rel_lookup (h : List.Forall₂ (fun b b' => b.1 = b'.1 ∧ R b.2 b'.2) bs bs')
    (name : String) : Option.Rel R (bs.lookup name) (bs'.lookup name) := by
  induction h with
  | nil => exact .none
  | @cons b b' _ _ hb _ ih =>
    obtain ⟨other, v⟩ := b
    obtain ⟨other', v'⟩ := b'
    obtain ⟨rfl, hv⟩ := hb
    cases hname : name == other with
    | true => simpa only [List.lookup_cons, hname] using Option.Rel.some hv
    | false => simpa only [List.lookup_cons, hname] using ih

theorem rel_setBinding (h : List.Forall₂ (fun b b' => b.1 = b'.1 ∧ R b.2 b'.2) bs bs')
    (name : String) {v v' : Value} (hv : R v v') :
    List.Forall₂ (fun b b' => b.1 = b'.1 ∧ R b.2 b'.2) (Frame.setBinding name v bs)
      (Frame.setBinding name v' bs') := by
  induction h with
  | nil => exact .cons ⟨rfl, hv⟩ .nil
  | @cons b b' _ _ hb hbs ih =>
    obtain ⟨other, w⟩ := b
    obtain ⟨other', w'⟩ := b'
    obtain ⟨rfl, hw⟩ := hb
    simp only [Frame.setBinding]
    split
    · exact .cons ⟨rfl, hv⟩ hbs
    · exact .cons ⟨rfl, hw⟩ ih

/-- Parameters and related arguments. -/
theorem rel_zip (names : List String) {vs vs' : List Value} (h : List.Forall₂ R vs vs') :
    List.Forall₂ (fun b b' => b.1 = b'.1 ∧ R b.2 b'.2) (names.zip vs) (names.zip vs') := by
  induction names generalizing vs vs' with
  | nil => exact .nil
  | cons name names ih =>
    cases h with
    | nil => exact .nil
    | cons hv hvs => exact .cons ⟨rfl, hv⟩ (ih hvs)

end Bindings

namespace Frame.Alike

variable {f f' : Frame} {v v' : Value}

theorem get? (h : Frame.Alike B f f') (name : String) :
    Option.Rel (Value.Alike B) (f.get? name) (f'.get? name) :=
  rel_lookup h.bindings name

theorem binds_eq (h : Frame.Alike B f f') (name : String) : f.binds name = f'.binds name :=
  rel_isSome_eq (h.get? name)

theorem set (h : Frame.Alike B f f') (name : String) (hv : Value.Alike B v v') :
    Frame.Alike B (f.set name v) (f'.set name v') :=
  ⟨h.parent, rel_setBinding h.bindings name hv⟩

end Frame.Alike

/-! ## Environments -/

/-- There are the same frames, one by one alike, and the same one is active. -/
structure Environment.Alike (B : Slice StmtId → Slice StmtId → Prop) (env env' : Environment) :
    Prop where
  active : env.active = env'.active
  size : env.frames.size = env'.frames.size
  frames : ∀ f, Option.Rel (Frame.Alike B) (env.frame? f) (env'.frame? f)

namespace Environment.Alike

variable {env env' : Environment} {v v' : Value}

theorem resolve_eq (h : Environment.Alike B env env') (f : FrameId) (name : String) :
    env.resolve f name = env'.resolve f name := by
  unfold resolve
  generalize f.index + 1 = steps
  induction steps generalizing f with
  | zero => rfl
  | succ steps ih =>
    unfold resolveFrom
    have hf := h.frames f
    revert hf
    generalize env.frame? f = x
    generalize env'.frame? f = y
    rintro (hf | -)
    · dsimp only
      rw [hf.binds_eq, hf.parent]
      split
      · rfl
      · split
        · rfl
        · exact ih _
    · rfl

theorem lookupIn (h : Environment.Alike B env env') (f : FrameId) (name : String) :
    Option.Rel (Value.Alike B) (env.lookupIn f name) (env'.lookupIn f name) := by
  unfold Environment.lookupIn
  rw [h.resolve_eq]
  cases env'.resolve f name with
  | none => exact .none
  | some owner =>
    have hf := h.frames owner
    revert hf
    simp only [Option.bind_eq_bind, Option.bind_some]
    generalize env.frame? owner = x
    generalize env'.frame? owner = y
    rintro (hf | -)
    · exact hf.get? name
    · exact .none

theorem lookup (h : Environment.Alike B env env') (name : String) :
    Option.Rel (Value.Alike B) (env.lookup name) (env'.lookup name) := by
  unfold Environment.lookup
  rw [h.active]
  exact h.lookupIn _ name

theorem defineIn (h : Environment.Alike B env env') (f : FrameId) (name : String)
    (hv : Value.Alike B v v') :
    Environment.Alike B (env.defineIn f name v) (env'.defineIn f name v') := by
  refine ⟨h.active, by simp [Environment.defineIn, h.size], fun g => ?_⟩
  have hg := h.frames g
  simp only [Environment.defineIn, frame?, Array.getElem?_modify] at hg ⊢
  split
  · revert hg
    generalize env.frames[g.index]? = x
    generalize env'.frames[g.index]? = y
    rintro (hg | -)
    · exact .some (hg.set name hv)
    · exact .none
  · exact hg

/-- Declaring names one after the other. -/
theorem defineAll (h : Environment.Alike B env env') {f f' : FrameId} (hf : f = f')
    {bs bs' : List (String × Value)} (hbs : List.Forall₂ (BindingAlike B) bs bs') :
    Environment.Alike B (bs.foldl (fun env b => env.defineIn f b.1 b.2) env)
      (bs'.foldl (fun env b => env.defineIn f' b.1 b.2) env') := by
  subst hf
  induction hbs generalizing env env' with
  | nil => exact h
  | cons hb _ ih =>
    obtain ⟨hname, hv⟩ := hb
    rw [List.foldl_cons, List.foldl_cons, hname]
    exact ih (h.defineIn f _ hv)

theorem newFrame (h : Environment.Alike B env env') (parent : Option FrameId) :
    (env.newFrame parent).1 = (env'.newFrame parent).1 ∧
      Environment.Alike B (env.newFrame parent).2 (env'.newFrame parent).2 := by
  refine ⟨by simp [Environment.newFrame, h.size], h.active,
    by simp [Environment.newFrame, h.size], fun g => ?_⟩
  have hg := h.frames g
  simp only [Environment.newFrame, frame?, Array.getElem?_push, h.size] at hg ⊢
  split
  · exact .some ⟨rfl, .nil⟩
  · exact hg

theorem restore (h : Environment.Alike B env env') (f : FrameId) :
    Environment.Alike B (env.restore f) (env'.restore f) :=
  ⟨rfl, h.size, h.frames⟩

end Environment.Alike

/-! ## Calls and errors -/

/-- The names of the called functions. -/
def callNames (calls : List CallFrame) : List String := calls.map CallFrame.name

/-- The same functions are called, and the limit is the same. -/
structure CallStack.Alike (s s' : CallStack) : Prop where
  names : callNames s.frames.toList = callNames s'.frames.toList
  limit : s.limit = s'.limit

/-- The errors have the same cause, the same notes and the same functions in their
backtraces. -/
structure RunError.Alike (e e' : RunError) : Prop where
  fault : e.fault = e'.fault
  notes : e.notes = e'.notes
  backtrace : callNames e.backtrace = callNames e'.backtrace

theorem RunError.alike_refl (e : RunError) : e.Alike e := ⟨rfl, rfl, rfl⟩

theorem RunError.Alike.locate {e e' : RunError} (h : e.Alike e') (span span' : Span) :
    (e.locate span).Alike (e'.locate span') := by
  obtain ⟨hfault, hnotes, hbacktrace⟩ := h
  unfold RunError.locate
  split <;> split <;> exact ⟨hfault, hnotes, hbacktrace⟩

theorem isEmpty_eq_of_callNames {calls calls' : List CallFrame}
    (h : callNames calls = callNames calls') : calls.isEmpty = calls'.isEmpty := by
  have := congrArg List.isEmpty h
  simpa [callNames] using this

namespace CallStack.Alike

variable {s s' : CallStack}

theorem depth_eq (h : s.Alike s') : s.depth = s'.depth := by
  have := congrArg List.length h.names
  simpa [callNames, depth] using this

theorem limitReached?_eq (h : s.Alike s') : s.limitReached? = s'.limitReached? := by
  rw [limitReached?, limitReached?, h.limit, h.depth_eq]

theorem add (h : s.Alike s') {call call' : CallFrame} (hname : call.name = call'.name) :
    (s.add call).Alike (s'.add call') :=
  ⟨by simpa [callNames, CallStack.add, hname] using h.names, h.limit⟩

theorem pop (h : s.Alike s') : s.pop.Alike s'.pop := by
  refine ⟨?_, h.limit⟩
  have := congrArg List.dropLast h.names
  simpa [callNames, CallStack.pop, List.map_dropLast] using this

theorem attach (h : s.Alike s') {e e' : RunError} (he : e.Alike e') :
    (s.attach e).Alike (s'.attach e') := by
  have hempty : s.isEmpty = s'.isEmpty := by
    have := isEmpty_eq_of_callNames h.names
    simpa [isEmpty] using this
  unfold CallStack.attach
  rw [hempty, isEmpty_eq_of_callNames he.backtrace]
  split
  · exact he
  · refine ⟨he.fault, he.notes, ?_⟩
    have := congrArg List.reverse h.names
    simpa [callNames, capture] using this

end CallStack.Alike

/-! ## Machines -/

/-- The machines differ in nothing that a program can observe. -/
structure Machine.Alike (B : Slice StmtId → Slice StmtId → Prop) (m m' : Machine) : Prop where
  env : Environment.Alike B m.env m'.env
  calls : m.calls.Alike m'.calls
  console : m.console = m'.console
  clock : m.clock = m'.clock
  nextIdentity : m.nextIdentity = m'.nextIdentity

theorem Environment.alike_empty : Environment.Alike B .empty .empty := by
  refine ⟨rfl, rfl, fun f => ?_⟩
  unfold Environment.frame? Environment.empty
  rcases f with ⟨_ | i⟩
  · exact .some ⟨rfl, .nil⟩
  · simp

/-- At the start there are only functions that are provided. -/
theorem Machine.alike_start (limit : Option Nat) (console : Console) (clock : Clock) :
    Machine.Alike B (.start limit console clock) (.start limit console clock) := by
  refine ⟨?_, ⟨rfl, rfl⟩, rfl, rfl, rfl⟩
  have hfold : ∀ (fs : List NativeFunction) (env : Environment), Environment.Alike B env env →
      Environment.Alike B (fs.foldl (fun env f => env.defineGlobal f.name (.native f)) env)
        (fs.foldl (fun env f => env.defineGlobal f.name (.native f)) env) := by
    intro fs
    induction fs with
    | nil => exact fun _ h => h
    | cons f fs ih => exact fun env h => ih _ (h.defineIn _ _ (.native f))
  exact hfold prelude _ Environment.alike_empty

/-- Every global variable is displayed the same. -/
theorem Machine.Alike.display_global {m m' : Machine} (h : Machine.Alike B m m')
    (name : String) :
    (m.env.global? name).map Value.display = (m'.env.global? name).map Value.display := by
  have hglobal : Option.Rel (Value.Alike B) (m.env.global? name) (m'.env.global? name) :=
    h.env.lookupIn .global name
  revert hglobal
  generalize m.env.global? name = x
  generalize m'.env.global? name = y
  rintro (hv | -)
  · simp [hv.resembles.display_eq]
  · rfl

end Scriptorium
