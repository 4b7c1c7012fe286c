import Scriptorium.Proofs.Visits

/-!
# Sound machines

On a sound machine every function value, wherever it is held, is one that a statement of
the code declares, and the frame that it remembers is there.  Each frame lies inside an
earlier one, so whoever follows the frames outwards meets none of them twice.

* `Value.Sound`, `Environment.Sound`, `Machine.Sound` — what it takes;
* `Environment.borrows?` — the frames that a change of a variable holds on to while it
  looks for the frame that declares it;
* `Environment.Sound.exists_borrows?` — none of them is asked for while it is held;
* `Outcome.Sound` — a computation has left a sound machine, with a lemma for each way to
  make a computation.
-/

namespace Scriptorium

variable {α β : Type} {code : Code} {n n' : Nat}

/-! ## Values -/

/-- The function is one that a statement of the code declares, and the frame that was
active at its declaration is one of the first `n`. -/
structure UserFunction.Sound (code : Code) (n : Nat) (f : UserFunction) : Prop where
  declared : ∃ name params span,
    code.arena.stmt? f.declaration = some ⟨.function name params f.body, span⟩ ∧
    code.names.text? name = some f.name ∧
    ∃ ids, code.arena.paramsIn? params = some ids ∧ ids.mapM code.names.text? = some f.params
  closure : f.closure.index < n

/-- A function is one of the code, or one that is provided and does not fail. -/
def Value.Sound (code : Code) (n : Nat) : Value → Prop
  | .user f => f.Sound code n
  | .native f => ∀ e, f.action ≠ .raise e
  | .int _ | .wide _ | .str _ => True

theorem Value.Sound.mono {v : Value} (h : v.Sound code n) (hle : n ≤ n') : v.Sound code n' := by
  cases v with
  | user f => exact ⟨h.declared, Nat.lt_of_lt_of_le h.closure hle⟩
  | native f => exact h
  | int k => trivial
  | wide k => trivial
  | str text => trivial

/-- An integer holds no function. -/
theorem Value.sound_of_isInteger {v : Value} (h : v.isInteger = true) : v.Sound code n := by
  cases v with
  | int k => trivial
  | wide k => trivial
  | str text => cases h
  | native f => cases h
  | user f => cases h

/-! ## Environments -/

/-- The active frame is there, every frame lies inside an earlier one, and all values are
sound. -/
structure Environment.Sound (code : Code) (env : Environment) : Prop where
  active : env.active.index < env.frames.size
  parents : ∀ f frame, env.frame? f = some frame → ∀ parent ∈ frame.parent, parent.index < f.index
  values : ∀ f frame, env.frame? f = some frame →
    ∀ b ∈ frame.bindings, b.2.Sound code env.frames.size

theorem Frame.mem_setBinding {name : String} {v : Value} {bindings : List (String × Value)}
    {b : String × Value} (h : b ∈ Frame.setBinding name v bindings) : b.2 = v ∨ b ∈ bindings := by
  induction bindings with
  | nil =>
    rw [Frame.setBinding, List.mem_singleton] at h
    exact .inl (by rw [h])
  | cons a bindings ih =>
    obtain ⟨other, old⟩ := a
    rw [Frame.setBinding] at h
    split at h
    · rcases List.mem_cons.1 h with rfl | h
      · exact .inl rfl
      · exact .inr (List.mem_cons_of_mem _ h)
    · rcases List.mem_cons.1 h with rfl | h
      · exact .inr List.mem_cons_self
      · exact (ih h).imp_right (List.mem_cons_of_mem _)

namespace Environment

variable {env env' : Environment}

theorem size_defineIn (env : Environment) (f : FrameId) (name : String) (v : Value) :
    (env.defineIn f name v).frames.size = env.frames.size := by
  simp [defineIn]

theorem frame?_eq_some_iff {f : FrameId} :
    (∃ frame, env.frame? f = some frame) ↔ f.index < env.frames.size := by
  rw [frame?, ← Option.isSome_iff_exists]
  simp

/-- No frame is lost. -/
theorem Extends.size_le (h : env.Extends env') : env.frames.size ≤ env'.frames.size := by
  by_contra hlt
  have hheld : ∃ frame, env.frame? ⟨env'.frames.size⟩ = some frame :=
    frame?_eq_some_iff.2 (Nat.lt_of_not_le hlt)
  obtain ⟨frame, hframe⟩ := hheld
  obtain ⟨frame', hframe', -⟩ := h _ _ hframe
  exact absurd (frame?_eq_some_iff.1 ⟨frame', hframe'⟩) (Nat.lt_irrefl _)

namespace Sound

theorem restore (h : env.Sound code) {f : FrameId} (hf : f.index < env.frames.size) :
    (env.restore f).Sound code :=
  ⟨hf, h.parents, h.values⟩

theorem defineIn (h : env.Sound code) (f : FrameId) (name : String) {v : Value}
    (hv : v.Sound code env.frames.size) : (env.defineIn f name v).Sound code := by
  have hframe : ∀ g frame, (env.defineIn f name v).frame? g = some frame →
      ∃ old, env.frame? g = some old ∧ frame.parent = old.parent ∧
        ∀ b ∈ frame.bindings, b.2 = v ∨ b ∈ old.bindings := by
    intro g frame hg
    simp only [frame?, Environment.defineIn, Array.getElem?_modify] at hg ⊢
    split at hg
    · obtain ⟨old, hold, rfl⟩ := Option.map_eq_some_iff.1 hg
      exact ⟨old, hold, rfl, fun b hb => Frame.mem_setBinding hb⟩
    · exact ⟨frame, hg, rfl, fun b hb => .inr hb⟩
  refine ⟨?_, fun g frame hg => ?_, fun g frame hg b hb => ?_⟩
  · rw [size_defineIn]
    exact h.active
  · obtain ⟨old, hold, hparent, -⟩ := hframe g frame hg
    rw [hparent]
    exact h.parents g old hold
  · obtain ⟨old, hold, -, hbindings⟩ := hframe g frame hg
    rw [size_defineIn]
    rcases hbindings b hb with rfl | hb
    · exact hv
    · exact h.values g old hold b hb

theorem newFrame (h : env.Sound code) {parent : FrameId}
    (hparent : parent.index < env.frames.size) :
    (env.newFrame (some parent)).2.Sound code ∧
      (env.newFrame (some parent)).2.frames.size = env.frames.size + 1 := by
  have hsize : (env.newFrame (some parent)).2.frames.size = env.frames.size + 1 := by
    simp [Environment.newFrame]
  have hframe : ∀ g frame, (env.newFrame (some parent)).2.frame? g = some frame →
      env.frame? g = some frame ∨ g.index = env.frames.size ∧ frame = ⟨some parent, []⟩ := by
    intro g frame hg
    simp only [frame?, Environment.newFrame, Array.getElem?_push] at hg ⊢
    split at hg
    · next hindex =>
      cases hg
      exact .inr ⟨hindex, rfl⟩
    · exact .inl hg
  refine ⟨⟨?_, fun g frame hg => ?_, fun g frame hg b hb => ?_⟩, hsize⟩
  · rw [hsize]
    exact Nat.lt_succ_of_lt h.active
  · rcases hframe g frame hg with hg | ⟨hindex, rfl⟩
    · exact h.parents g frame hg
    · rintro _ ⟨⟩
      rw [hindex]
      exact hparent
  · rw [hsize]
    rcases hframe g frame hg with hg | ⟨-, rfl⟩
    · exact (h.values g frame hg b hb).mono (Nat.le_succ _)
    · cases hb

theorem defineAll (h : env.Sound code) (f : FrameId) {bindings : List (String × Value)}
    (hbindings : ∀ b ∈ bindings, b.2.Sound code env.frames.size) :
    (bindings.foldl (fun env b => env.defineIn f b.1 b.2) env).Sound code ∧
      (bindings.foldl (fun env b => env.defineIn f b.1 b.2) env).frames.size = env.frames.size := by
  induction bindings generalizing env with
  | nil => exact ⟨h, rfl⟩
  | cons b bindings ih =>
    rw [List.foldl_cons]
    have hsize := size_defineIn env f b.1 b.2
    have hb := ih (h.defineIn f b.1 (hbindings b List.mem_cons_self)) fun b' hb' => by
      rw [hsize]
      exact hbindings b' (List.mem_cons_of_mem _ hb')
    exact ⟨hb.1, hb.2.trans hsize⟩

/-- The frame of a call: a new frame that holds the given names. -/
theorem callFrame (h : env.Sound code) {parent : FrameId} (hparent : parent.index < env.frames.size)
    {bindings : List (String × Value)}
    (hbindings : ∀ b ∈ bindings, b.2.Sound code env.frames.size) :
    let env' := bindings.foldl (fun env' b => env'.defineIn ⟨env.frames.size⟩ b.1 b.2)
      (env.newFrame (some parent)).2
    env'.Sound code ∧ env.frames.size < env'.frames.size := by
  obtain ⟨henv, hsize⟩ := h.newFrame hparent
  have hbindings' : ∀ b ∈ bindings,
      b.2.Sound code (env.newFrame (some parent)).2.frames.size := fun b hb => by
    rw [hsize]
    exact (hbindings b hb).mono (Nat.le_succ _)
  obtain ⟨hall, hsize'⟩ := henv.defineAll ⟨env.frames.size⟩ hbindings'
  refine ⟨hall, ?_⟩
  rw [hsize', hsize]
  exact Nat.lt_succ_self _

/-- The value of a variable is sound. -/
theorem lookup (h : env.Sound code) {name : String} {v : Value} (hv : env.lookup name = some v) :
    v.Sound code env.frames.size := by
  simp only [Environment.lookup, lookupIn, Option.bind_eq_bind, Option.bind_eq_some_iff] at hv
  obtain ⟨f, -, frame, hframe, hget⟩ := hv
  obtain ⟨before, after, hbindings, -⟩ := List.lookup_eq_some_iff.1 hget
  exact h.values f frame hframe (name, v) (by simp [hbindings])

end Sound

end Environment

/-! ## Borrowed frames -/

/-- The frames that a change of the variable `name` borrows, last one first, after those in
`held`: from the frame `f` outwards up to the one that declares the name, each of them for
as long as the change takes.  There is no answer if a frame is asked for while it is held,
or is not there; `steps` bounds the number of frames. -/
def Environment.borrows? (env : Environment) (name : String) :
    (steps : Nat) → (held : List FrameId) → (f : FrameId) → Option (List FrameId)
  | 0, _, _ => none
  | steps + 1, held, f =>
      if f ∈ held then none
      else
        match env.frame? f with
        | none => none
        | some frame =>
            if frame.binds name then some (f :: held)
            else
              match frame.parent with
              | none => some (f :: held)
              | some parent => env.borrows? name steps (f :: held) parent

namespace Environment.Sound

variable {env : Environment}

/-- A change of a variable never asks for a frame that it holds already, and it ends at the
frame in which it finds the name. -/
theorem exists_borrows?_from (h : env.Sound code) (name : String) {steps : Nat}
    {held : List FrameId} {f : FrameId} (hf : f.index < env.frames.size) (hsteps : f.index < steps)
    (hheld : ∀ g ∈ held, f.index < g.index) :
    ∃ last held', env.borrows? name steps held f = some (last :: held') ∧
      env.resolveFrom name steps f = if env.binds name last then some last else none := by
  induction steps generalizing held f with
  | zero => omega
  | succ steps ih =>
    obtain ⟨frame, hframe⟩ := frame?_eq_some_iff.2 hf
    have hnew : f ∉ held := fun hmem => Nat.lt_irrefl _ (hheld f hmem)
    have hbinds : env.binds name f = frame.binds name := by simp [binds, hframe]
    simp only [borrows?, resolveFrom, hframe, if_neg hnew]
    cases hname : frame.binds name with
    | true => exact ⟨f, held, rfl, by simp [hbinds, hname]⟩
    | false =>
      cases hparent : frame.parent with
      | none => exact ⟨f, held, rfl, by simp [hbinds, hname]⟩
      | some parent =>
        -- the frames further out have smaller numbers than those that are held
        have hlt := h.parents f frame hframe parent hparent
        refine ih (Nat.lt_trans hlt hf) (by omega) fun g hg => ?_
        rcases List.mem_cons.1 hg with rfl | hg
        · exact hlt
        · exact Nat.lt_trans hlt (hheld g hg)

theorem exists_borrows? (h : env.Sound code) (name : String) :
    ∃ last held, env.borrows? name (env.active.index + 1) [] env.active = some (last :: held) ∧
      env.resolve env.active name = if env.binds name last then some last else none :=
  h.exists_borrows?_from name h.active (Nat.lt_succ_self _) (by simp)

end Environment.Sound

/-! ## Machines and computations -/

/-- The environment is sound, and the names of the calls under way are known. -/
structure Machine.Sound (code : Code) (m : Machine) : Prop where
  env : m.env.Sound code
  calls : ∀ call ∈ m.calls.capture, ∃ name, code.names.text? name = some call.name

@[simp] theorem CallStack.capture_add (s : CallStack) (frame : CallFrame) :
    (s.add frame).capture = frame :: s.capture := by
  simp [capture, add]

/-- The new frame lies inside the active one. -/
theorem Machine.Sound.nested {m : Machine} (hm : m.Sound code) : m.nested.Sound code := by
  obtain ⟨henv, hsize⟩ := hm.env.newFrame hm.env.active
  refine ⟨henv.restore (f := ⟨m.env.frames.size⟩) ?_, hm.calls⟩
  rw [hsize]
  exact Nat.lt_succ_self _

/-- A computation that ended has left a sound machine, and its result has a property that
may depend on the number of frames. -/
def Outcome.Sound (code : Code) (R : Nat → α → Prop) : Outcome α → Prop
  | .done a m => m.Sound code ∧ R m.env.frames.size a
  | .failed _ m => m.Sound code
  | .stuck | .exhausted => True

namespace Outcome.Sound

variable {R : Nat → α → Prop} {Q : Nat → β → Prop} {m : Machine}

theorem bind {x : Step α} {f : α → Step β} (hx : (x m).Sound code R)
    (hf : ∀ a m₁, x m = .done a m₁ → m₁.Sound code → R m₁.env.frames.size a →
      (f a m₁).Sound code Q) : ((x >>= f) m).Sound code Q := by
  show Outcome.Sound code Q (Step.bind x f m)
  unfold Step.bind
  cases h : x m with
  | done a m₁ =>
    rw [h] at hx
    exact hf a m₁ h hx.1 hx.2
  | failed e m₁ =>
    rw [h] at hx
    exact hx
  | stuck => trivial
  | exhausted => trivial

theorem found_bind {held : Option α} {f : α → Step β}
    (hf : ∀ a, held = some a → (f a m).Sound code Q) :
    ((Step.found held >>= f) m).Sound code Q := by
  cases held with
  | none => trivial
  | some a => exact hf a rfl

theorem fail (hm : m.Sound code) (e : RunError) (span : Span) :
    (Step.fail e span m).Sound code R :=
  hm

theorem ofExcept (hm : m.Sound code) {result : Except RunError α} {span : Span}
    (h : ∀ a, result = .ok a → R m.env.frames.size a) :
    (Step.ofExcept result span m).Sound code R := by
  cases result with
  | ok a => exact ⟨hm, h a rfl⟩
  | error e => exact hm

/-- What is done to the machine at the end keeps it sound and adds no frame. -/
theorem after {o : Outcome α} {P : Machine → Prop} {g : Machine → Machine} (h : o.Sound code R)
    (hleaves : o.Leaves P) (hg : ∀ m, P m → m.Sound code →
      (g m).Sound code ∧ (g m).env.frames.size = m.env.frames.size) :
    (o.after g).Sound code R := by
  cases o with
  | done a m =>
    obtain ⟨hm, hsize⟩ := hg m hleaves h.1
    refine ⟨hm, ?_⟩
    rw [hsize]
    exact h.2
  | failed e m => exact (hg m hleaves h).1
  | stuck => trivial
  | exhausted => trivial

theorem inFrame {x : Step α} (hm : m.Sound code) (hrestores : x.Restores) {f : FrameId}
    (hx : (x { m with env := (m.env.enter f).2 }).Sound code R) :
    (Step.inFrame f x m).Sound code R := by
  rw [Step.inFrame_eq]
  refine hx.after (hrestores _) fun m₁ h₁ hm₁ => ⟨⟨hm₁.env.restore ?_, hm₁.calls⟩, rfl⟩
  exact Nat.lt_of_lt_of_le hm.env.active h₁.frames.size_le

theorem inNewFrame {x : Step α} (hm : m.Sound code) (hrestores : x.Restores)
    (hx : (x m.nested).Sound code R) : (Step.inNewFrame x m).Sound code R := by
  have henv := (hm.env.newFrame hm.env.active).1
  exact inFrame (m := { m with env := (m.env.newFrame (some m.env.active)).2 })
    ⟨henv, hm.calls⟩ hrestores hx

/-- The calls under way are the same at the end of a call. -/
theorem inCall {x : Step α} (hm : m.Sound code) (hrestores : x.Restores) {call : CallFrame}
    (hx : (x { m with calls := m.calls.add call }).Sound code R) :
    (Step.inCall call x m).Sound code R := by
  cases hlimit : m.calls.limitReached? with
  | some limit =>
    rw [Step.inCall_refused hlimit]
    exact fail hm _ _
  | none =>
    rw [Step.inCall_eq hlimit]
    refine hx.after (hrestores _) fun m₁ h₁ hm₁ => ⟨⟨hm₁.env, ?_⟩, rfl⟩
    rw [show m₁.calls = m.calls.add call from h₁.calls, CallStack.pop_add]
    exact hm.calls

/-! ### Variables and native functions -/

theorem define (hm : m.Sound code) (name : String) {v : Value}
    (hv : v.Sound code m.env.frames.size) :
    (Step.define name v m).Sound code fun _ _ => True :=
  ⟨⟨hm.env.defineIn m.env.active name hv, hm.calls⟩, trivial⟩

theorem lookup (hm : m.Sound code) (name : String) (span : Span) :
    (Step.lookup name span m).Sound code (Value.Sound code) := by
  unfold Step.lookup
  split
  · next v hv => exact ⟨hm, hm.env.lookup hv⟩
  · exact fail hm _ _

theorem assign (hm : m.Sound code) (name : String) {v : Value}
    (hv : v.Sound code m.env.frames.size) (span : Span) :
    (Step.assign name v span m).Sound code (Value.Sound code) := by
  unfold Step.assign
  split
  · next owner _ =>
    refine ⟨⟨hm.env.defineIn owner name hv, hm.calls⟩, ?_⟩
    rwa [Environment.size_defineIn]
  · exact fail hm _ _

/-- The frame of a call lies inside that of the declaration and holds the arguments. -/
theorem newFrame (hm : m.Sound code) {parent : FrameId} (hparent : parent.index < m.env.frames.size)
    {bindings : List (String × Value)}
    (hbindings : ∀ b ∈ bindings, b.2.Sound code m.env.frames.size) :
    (Step.newFrame parent bindings m).Sound code fun n f => f.index < n := by
  obtain ⟨henv, hlt⟩ := hm.env.callFrame hparent hbindings
  exact ⟨⟨henv, hm.calls⟩, hlt⟩

/-- A native function answers an integer or its first argument. -/
theorem native (hm : m.Sound code) {f : NativeFunction}
    (hf : (Value.native f).Sound code m.env.frames.size) {args : List Value}
    (hargs : ∀ v ∈ args, v.Sound code m.env.frames.size) (span : Span) :
    (Step.native f.action args span m).Sound code (Value.Sound code) := by
  cases haction : f.action with
  | clock => exact ⟨⟨hm.env, hm.calls⟩, trivial⟩
  | print => exact ⟨⟨hm.env, hm.calls⟩, trivial⟩
  | println => exact ⟨⟨hm.env, hm.calls⟩, trivial⟩
  | zero => exact ⟨hm, trivial⟩
  | firstArgument =>
    cases args with
    | nil => exact ⟨hm, trivial⟩
    | cons v args => exact ⟨hm, hargs v List.mem_cons_self⟩
  | argumentCount => exact ⟨hm, trivial⟩
  | raise e => exact absurd haction (hf e)

end Outcome.Sound

/-- The start of a run: the global frame holds the functions that are provided. -/
theorem Machine.sound_start (limit : Option Nat) (console : Console) (clock : Clock) :
    (Machine.start limit console clock).Sound code := by
  have hempty : Environment.empty.Sound code := by
    have hframe : ∀ f frame, Environment.empty.frame? f = some frame → frame = ⟨none, []⟩ := by
      rintro ⟨_ | index⟩ frame h
      · cases h
        rfl
      · cases h
    refine ⟨Nat.zero_lt_one, fun f frame h parent hparent => ?_, fun f frame h b hb => ?_⟩
    · rw [hframe f frame h] at hparent
      cases hparent
    · rw [hframe f frame h] at hb
      cases hb
  have hprelude : ∀ (fs : List NativeFunction) {env : Environment}, env.Sound code →
      (∀ f ∈ fs, ∀ e, f.action ≠ .raise e) →
      (fs.foldl (fun env f => env.defineGlobal f.name (.native f)) env).Sound code := by
    intro fs
    induction fs with
    | nil => exact fun henv _ => henv
    | cons f fs ih =>
      intro env henv hfs
      exact ih (henv.defineIn .global f.name (v := .native f) (hfs f List.mem_cons_self))
        fun g hg => hfs g (List.mem_cons_of_mem _ hg)
  refine ⟨hprelude prelude hempty ?_, by simp [Machine.start, CallStack.empty, CallStack.capture]⟩
  simp [prelude]

end Scriptorium
