import Scriptorium.Run.Machine

/-!
# Variables in shared frames

A frame can be reached from many others: from the blocks inside it and from the calls of all
functions that were declared in it.  What is assigned through one of them is seen through
every other one from which the name leads to the same frame, and through no frame from which
a nearer declaration hides it.

* `Environment.Ordered` — every frame was made after the one around it, which is how the
  frames of a graph without circles are numbered;
* `Environment.Nearest` — the frame that a name leads to;
* `Environment.lookupIn_defineIn`, `Environment.lookupIn_of_assignIn?` — what is seen from
  any frame after a declaration and after an assignment;
* `Operation`, `Environment.perform` — what can be done to an environment;
* `ordered_lawful` — the laws of declarations and assignments, in every environment that was
  made by such operations.
-/

namespace Scriptorium

/-! ## One frame -/

namespace Frame

theorem lookup_setBinding (name : String) (value : Value) (bindings : List (String × Value))
    (other : String) :
    (setBinding name value bindings).lookup other =
      if other = name then some value else bindings.lookup other := by
  induction bindings with
  | nil =>
    by_cases h : other = name
    · simp [setBinding, h]
    · simp [setBinding, List.lookup_cons, beq_eq_false_iff_ne.2 h, h]
  | cons b bindings ih =>
    obtain ⟨key, old⟩ := b
    by_cases hkey : key = name
    · subst hkey
      by_cases h : other = key
      · simp [setBinding, h]
      · simp [setBinding, List.lookup_cons, beq_eq_false_iff_ne.2 h, h]
    · by_cases h : other = key
      · simp [setBinding, h, hkey]
      · simp [setBinding, List.lookup_cons, beq_eq_false_iff_ne.2 h, hkey, ih]

/-- The value of a name after one was set. -/
theorem get?_set (f : Frame) (name : String) (value : Value) (other : String) :
    (f.set name value).get? other = if other = name then some value else f.get? other :=
  lookup_setBinding name value f.bindings other

theorem binds_set (f : Frame) (name : String) (value : Value) (other : String) :
    (f.set name value).binds other = (decide (other = name) || f.binds other) := by
  rw [binds, get?_set, binds]
  by_cases h : other = name <;> simp [h]

/-- A name that the frame holds already stays where it is; a new one comes last. -/
theorem names_set (f : Frame) (name : String) (value : Value) :
    (f.set name value).names = if f.binds name then f.names else f.names ++ [name] := by
  unfold names binds get? set
  induction f.bindings with
  | nil => rfl
  | cons b bindings ih =>
    obtain ⟨key, old⟩ := b
    by_cases h : key = name
    · simp [setBinding, h]
    · have hne : (name == key) = false := beq_eq_false_iff_ne.2 (Ne.symm h)
      simp only [setBinding, h, if_false, List.map_cons, ih, List.lookup_cons, hne]
      split <;> rfl

@[simp] theorem parent_set (f : Frame) (name : String) (value : Value) :
    (f.set name value).parent = f.parent := rfl

end Frame

/-! ## Changing one variable -/

namespace Environment

variable {env env' : Environment} {f g owner : FrameId} {name other : String} {value : Value}

theorem frame?_defineIn (env : Environment) (f : FrameId) (name : String) (value : Value)
    (g : FrameId) :
    (env.defineIn f name value).frame? g =
      if g = f then (env.frame? g).map fun frame => frame.set name value else env.frame? g := by
  obtain ⟨i⟩ := f
  obtain ⟨j⟩ := g
  simp only [frame?, defineIn, Array.getElem?_modify, FrameId.mk.injEq, eq_comm (a := j)]

theorem binds_defineIn (env : Environment) (f : FrameId) (name : String) (value : Value)
    (other : String) (g : FrameId) :
    (env.defineIn f name value).binds other g =
      (env.binds other g || (decide (other = name ∧ g = f) && (env.frame? f).isSome)) := by
  simp only [binds, frame?_defineIn]
  by_cases hg : g = f
  · subst hg
    cases env.frame? g with
    | none => simp
    | some frame => simp [Frame.binds_set, Bool.or_comm]
  · simp [hg]

/-- The frame that a name leads to holds the name. -/
theorem binds_of_resolve (h : env.resolve f name = some owner) :
    ∃ frame, env.frame? owner = some frame ∧ frame.binds name = true := by
  rw [resolve_eq_find?] at h
  have hbinds := List.find?_some h
  unfold binds at hbinds
  split at hbinds
  · cases hbinds
  · exact ⟨_, ‹_›, hbinds⟩

/-- A name leads somewhere exactly if it has a value. -/
theorem isSome_lookupIn (env : Environment) (f : FrameId) (name : String) :
    (env.lookupIn f name).isSome = (env.resolve f name).isSome := by
  unfold lookupIn
  cases h : env.resolve f name with
  | none => rfl
  | some owner =>
    obtain ⟨frame, hframe, hbinds⟩ := binds_of_resolve h
    simpa [hframe, Frame.binds] using hbinds

/-- Where a name leads depends on the frames only through the frames around them and the
frames that hold the name. -/
theorem resolve_congr
    (hparent : ∀ g, (env'.frame? g).map Frame.parent = (env.frame? g).map Frame.parent)
    (hbinds : ∀ g, env'.binds name g = env.binds name g) (f : FrameId) :
    env'.resolve f name = env.resolve f name := by
  have hchain : ∀ steps g, env'.chainFrom steps g = env.chainFrom steps g := by
    intro steps
    induction steps with
    | zero => exact fun _ => rfl
    | succ steps ih =>
      intro g
      have hg := hparent g
      unfold chainFrom
      cases h' : env'.frame? g <;> cases h : env.frame? g <;> simp_all
  rw [resolve_eq_find?, resolve_eq_find?, chain, chain, hchain, funext hbinds]

theorem parent_defineIn (env : Environment) (f : FrameId) (name : String) (value : Value)
    (g : FrameId) :
    ((env.defineIn f name value).frame? g).map Frame.parent = (env.frame? g).map Frame.parent := by
  rw [frame?_defineIn]
  split
  · rw [Option.map_map]
    rfl
  · rfl

/-- A declaration changes where its own name leads, and only to the frame of the
declaration. -/
theorem resolve_defineIn (h : other = name → (env.defineIn f name value).resolve g name ≠ some f) :
    (env.defineIn f name value).resolve g other = env.resolve g other := by
  by_cases hname : other = name
  · subst hname
    replace h := h rfl
    unfold resolve at h ⊢
    generalize g.index + 1 = steps at h ⊢
    induction steps generalizing g with
    | zero => rfl
    | succ steps ih =>
      unfold resolveFrom at h ⊢
      rw [frame?_defineIn] at h ⊢
      by_cases hg : g = f
      · subst hg
        cases hframe : env.frame? g with
        | none => simp
        | some frame => simp [hframe, Frame.binds_set] at h
      · rw [if_neg hg] at h ⊢
        cases hframe : env.frame? g with
        | none => rfl
        | some frame =>
          simp only [hframe] at h ⊢
          split
          · rfl
          · next hbinds =>
            rw [if_neg hbinds] at h
            cases hparent : frame.parent with
            | none => rfl
            | some parent =>
              rw [hparent] at h
              exact ih h
  · refine resolve_congr (parent_defineIn env f name value) (fun g => ?_) g
    simp [binds_defineIn, hname]

/-- After a declaration its value is seen from the frames from which its name leads to it
now.  Elsewhere, and of other names, the same is seen as before. -/
theorem lookupIn_defineIn (env : Environment) (f : FrameId) (name : String) (value : Value)
    (g : FrameId) (other : String) :
    (env.defineIn f name value).lookupIn g other =
      if other = name ∧ (env.defineIn f name value).resolve g name = some f then some value
      else env.lookupIn g other := by
  split
  · next h =>
    obtain ⟨rfl, hresolve⟩ := h
    obtain ⟨frame, hframe, -⟩ := binds_of_resolve hresolve
    rw [frame?_defineIn, if_pos rfl] at hframe
    obtain ⟨old, hold, rfl⟩ := Option.map_eq_some_iff.1 hframe
    simp [lookupIn, hresolve, frame?_defineIn, hold, Frame.get?_set]
  · next h =>
    have hresolve : (env.defineIn f name value).resolve g other = env.resolve g other :=
      resolve_defineIn fun hname hf => h ⟨hname, hf⟩
    unfold lookupIn
    rw [hresolve]
    cases howner : env.resolve g other with
    | none => rfl
    | some owner =>
      -- the frame found is another one, or it holds the name as before
      have hother : owner = f → other ≠ name := by
        rintro rfl rfl
        exact h ⟨rfl, hresolve.trans howner⟩
      simp only [Option.bind_eq_bind, Option.bind_some, frame?_defineIn]
      by_cases hf : owner = f
      · rw [if_pos hf]
        cases env.frame? owner with
        | none => rfl
        | some frame => simp [Frame.get?_set, hother hf]
      · rw [if_neg hf]

theorem assignIn?_eq_some_iff :
    env.assignIn? f name value = some env' ↔
      ∃ owner, env.resolve f name = some owner ∧ env' = env.defineIn owner name value := by
  rw [assignIn?, Option.map_eq_some_iff]
  simp only [eq_comm (b := env')]

/-- An assignment changes neither where names lead nor which names a frame holds. -/
theorem resolve_of_assignIn? (h : env.assignIn? f name value = some env') :
    (∀ g other, env'.resolve g other = env.resolve g other) ∧
      ∀ g, (env'.frame? g).map Frame.names = (env.frame? g).map Frame.names := by
  obtain ⟨owner, howner, rfl⟩ := assignIn?_eq_some_iff.1 h
  obtain ⟨frame, hframe, hbinds⟩ := binds_of_resolve howner
  refine ⟨fun g other => resolve_congr (parent_defineIn env owner name value) (fun g => ?_) g,
    fun g => ?_⟩
  · rw [binds_defineIn]
    by_cases hg : other = name ∧ g = owner
    · obtain ⟨rfl, rfl⟩ := hg
      simp [binds, hframe, hbinds]
    · simp [hg]
  · rw [frame?_defineIn]
    split
    · next hg =>
      rw [hg, hframe]
      simp [Frame.names_set, hbinds]
    · rfl

/-- After an assignment its value is seen from the frames from which the name leads to the
same frame as from that of the assignment. -/
theorem lookupIn_of_assignIn? (h : env.assignIn? f name value = some env') (g : FrameId)
    (other : String) :
    env'.lookupIn g other =
      if other = name ∧ env.resolve g name = env.resolve f name then some value
      else env.lookupIn g other := by
  have hresolve := (resolve_of_assignIn? h).1
  obtain ⟨owner, howner, rfl⟩ := assignIn?_eq_some_iff.1 h
  rw [lookupIn_defineIn, hresolve, howner]

/-! ## The frame that a name leads to -/

/-- The active frame is there, and every frame was made after the one around it.  As frames
are numbered in the order in which they are made, and keep the frame around them, these are
the graphs without circles. -/
structure Ordered (env : Environment) : Prop where
  active : env.active.index < env.frames.size
  parents : ∀ f frame, env.frame? f = some frame → ∀ parent ∈ frame.parent, parent.index < f.index

/-- Seen from a frame, the name leads to the nearest frame outwards that holds it. -/
inductive Nearest (env : Environment) (name : String) : FrameId → FrameId → Prop where
  /-- The frame itself holds it. -/
  | here {f : FrameId} {frame : Frame} :
      env.frame? f = some frame → frame.binds name = true → Nearest env name f f
  /-- The frame does not hold it, so it is looked for in the frame around it. -/
  | outward {f parent owner : FrameId} {frame : Frame} :
      env.frame? f = some frame → frame.binds name = false → frame.parent = some parent →
      Nearest env name parent owner → Nearest env name f owner

/-- The walk outwards through the frames is long enough to find the nearest one. -/
theorem Ordered.resolve_eq_some_iff (h : env.Ordered) :
    env.resolve f name = some owner ↔ env.Nearest name f owner := by
  have hfrom : ∀ steps f, f.index < steps →
      (env.resolveFrom name steps f = some owner ↔ env.Nearest name f owner) := by
    intro steps
    induction steps with
    | zero => exact fun f hf => absurd hf (Nat.not_lt_zero _)
    | succ steps ih =>
      intro f hf
      unfold resolveFrom
      constructor
      · intro hresolve
        split at hresolve
        · cases hresolve
        next frame hframe =>
        split at hresolve
        · next hbinds =>
          cases hresolve
          exact .here hframe hbinds
        next hbinds =>
        split at hresolve
        · cases hresolve
        next parent hparent =>
        have hlt := h.parents f frame hframe parent hparent
        exact .outward hframe (by simpa using hbinds) hparent ((ih parent (by omega)).1 hresolve)
      · rintro (⟨hframe, hbinds⟩ | ⟨hframe, hbinds, hparent, howner⟩)
        · simp [hframe, hbinds]
        · have hlt := h.parents _ _ hframe _ hparent
          simpa [hframe, hbinds, hparent] using (ih _ (by omega)).2 howner
  exact hfrom _ f (Nat.lt_succ_self _)

/-! ## Operations -/

end Environment

/-- What can be done to an environment. -/
inductive Operation where
  /-- Declares a name in the active frame. -/
  | define (name : String) (value : Value)
  /-- Declares a name in the global frame. -/
  | defineGlobal (name : String) (value : Value)
  /-- Changes the value of a name seen from the active frame, if it has one. -/
  | assign (name : String) (value : Value)
  /-- Activates a new frame inside the active one. -/
  | pushScope
  /-- Makes a frame, inside another one or not. -/
  | newFrame (parent : Option FrameId)
  /-- Activates a frame. -/
  | enter (f : FrameId)
  /-- Activates a frame again. -/
  | restore (f : FrameId)

namespace Environment

variable {env env' : Environment} {f g owner : FrameId} {name other : String} {value : Value}

/-- The environment after an operation. -/
def perform (env : Environment) : Operation → Environment
  | .define name value => env.define name value
  | .defineGlobal name value => env.defineGlobal name value
  | .assign name value => (env.assign? name value).getD env
  | .pushScope => env.pushScope.2
  | .newFrame parent => (env.newFrame parent).2
  | .enter f => (env.enter f).2
  | .restore f => env.restore f

/-- The frames that an operation names are there. -/
def Allows (env : Environment) : Operation → Prop
  | .enter f | .restore f => f.index < env.frames.size
  | .newFrame parent => ∀ f ∈ parent, f.index < env.frames.size
  | .define .. | .defineGlobal .. | .assign .. | .pushScope => True

/-- The environment `env'` comes of `env` by operations whose frames are there. -/
inductive Becomes (env : Environment) : Environment → Prop where
  /-- Nothing was done. -/
  | start : Becomes env env
  /-- One more operation. -/
  | step {env' : Environment} {operation : Operation} :
      Becomes env env' → env'.Allows operation → Becomes env (env'.perform operation)

namespace Ordered

theorem empty : Environment.empty.Ordered := by
  refine ⟨Nat.zero_lt_one, ?_⟩
  rintro ⟨_ | i⟩ frame hframe parent hparent
  · cases hframe
    cases hparent
  · cases hframe

theorem defineIn (h : env.Ordered) (f : FrameId) (name : String) (value : Value) :
    (env.defineIn f name value).Ordered := by
  refine ⟨?_, fun g frame hframe parent hparent => ?_⟩
  · simpa [Environment.defineIn] using h.active
  · have hsame := parent_defineIn env f name value g
    rw [hframe] at hsame
    obtain ⟨old, hold, hparents⟩ := Option.map_eq_some_iff.1 hsame.symm
    exact h.parents g old hold parent (hparents ▸ hparent)

theorem restore (h : env.Ordered) (hf : f.index < env.frames.size) : (env.restore f).Ordered :=
  ⟨hf, h.parents⟩

theorem newFrame (h : env.Ordered) {parent : Option FrameId}
    (hparent : ∀ f ∈ parent, f.index < env.frames.size) : (env.newFrame parent).2.Ordered := by
  refine ⟨?_, fun g frame hframe => ?_⟩
  · have := h.active
    simp only [Environment.newFrame, Array.size_push]
    omega
  · simp only [Environment.newFrame, frame?, Array.getElem?_push] at hframe
    split at hframe
    · next hg =>
      cases hframe
      rw [hg]
      exact hparent
    · exact h.parents g frame hframe

/-- Operations keep the order of the frames. -/
theorem perform (h : env.Ordered) {operation : Operation} (hallowed : env.Allows operation) :
    (env.perform operation).Ordered := by
  cases operation with
  | define name value => exact h.defineIn _ _ _
  | defineGlobal name value => exact h.defineIn _ _ _
  | assign name value =>
    show ((env.assign? name value).getD env).Ordered
    cases hassign : env.assign? name value with
    | none => exact h
    | some env' =>
      obtain ⟨owner, -, rfl⟩ := assignIn?_eq_some_iff.1 hassign
      exact h.defineIn owner name value
  | pushScope =>
    have hnew : (env.newFrame (some env.active)).2.Ordered := h.newFrame fun f hf => by
      cases hf
      exact h.active
    exact hnew.restore (f := ⟨env.frames.size⟩) (by simp [Environment.newFrame])
  | newFrame parent => exact h.newFrame hallowed
  | enter f => exact h.restore hallowed
  | restore f => exact h.restore hallowed

theorem becomes (h : env.Ordered) (hbecomes : env.Becomes env') : env'.Ordered := by
  induction hbecomes with
  | start => exact h
  | step _ hallowed ih => exact ih.perform hallowed

end Ordered

/-! ## The laws -/

/-- What is seen of assignments and declarations. -/
structure Lawful (env : Environment) : Prop where
  /-- A name can be assigned to exactly where it has a value. -/
  assigns : ∀ f name value,
    (env.assignIn? f name value).isSome = (env.lookupIn f name).isSome
  /-- An assignment is seen from the frames from which the name leads to the same frame. -/
  assigned : ∀ {f name value env'}, env.assignIn? f name value = some env' → ∀ g other,
    let Same := other = name ∧ ∃ owner, env.Nearest name f owner ∧ env.Nearest name g owner
    (Same → env'.lookupIn g other = some value) ∧
      (¬ Same → env'.lookupIn g other = env.lookupIn g other)
  /-- No frame gains or loses a name by an assignment. -/
  names : ∀ {f name value env'}, env.assignIn? f name value = some env' → ∀ g,
    (env'.frame? g).map Frame.names = (env.frame? g).map Frame.names
  /-- Running an assignment fails where the name has no value, and then changes nothing. -/
  run : ∀ m : Machine, m.env = env → ∀ name value span,
    match env.assign? name value with
    | some env' => Step.assign name value span m = .done value { m with env := env' }
    | none => env.lookup name = none ∧ ∃ e, Step.assign name value span m = .failed e m
  /-- A declaration is seen from the frames from which its name leads to it now. -/
  defined : ∀ f name value g other,
    let env' := env.defineIn f name value
    let Same := other = name ∧ env'.Nearest name g f
    (Same → env'.lookupIn g other = some value) ∧
      (¬ Same → env'.lookupIn g other = env.lookupIn g other)

theorem Ordered.lawful (h : env.Ordered) : env.Lawful where
  assigns f name value := by rw [isSome_lookupIn, assignIn?, Option.isSome_map]
  assigned {f name value env'} hassign g other := by
    have hsame : (∃ owner, env.Nearest name f owner ∧ env.Nearest name g owner) ↔
        env.resolve g name = env.resolve f name := by
      obtain ⟨owner, howner, -⟩ := assignIn?_eq_some_iff.1 hassign
      simp only [← h.resolve_eq_some_iff, howner]
      constructor
      · rintro ⟨_, ⟨⟩, hg⟩
        exact hg
      · exact fun hg => ⟨owner, rfl, hg⟩
    simp only [hsame]
    rw [lookupIn_of_assignIn? hassign]
    exact ⟨fun hg => if_pos hg, fun hg => if_neg hg⟩
  names hassign := (resolve_of_assignIn? hassign).2
  run m henv name value span := by
    subst henv
    unfold Step.assign assign? assignIn?
    cases hresolve : m.env.resolve m.env.active name with
    | some owner => rfl
    | none =>
      have hnone : m.env.lookupIn m.env.active name = none := by
        simpa [hresolve] using isSome_lookupIn m.env m.env.active name
      exact ⟨hnone, _, rfl⟩
  defined f name value g other := by
    dsimp only
    rw [← (h.defineIn f name value).resolve_eq_some_iff, lookupIn_defineIn]
    exact ⟨fun hg => if_pos hg, fun hg => if_neg hg⟩

end Environment

/-- In frames without circles assignments and declarations obey their laws, and they still do
after any number of operations. -/
theorem ordered_lawful {env : Environment} (h : env.Ordered) :
    env.Lawful ∧ ∀ env', env.Becomes env' → env'.Lawful :=
  ⟨h.lawful, fun _ hbecomes => (h.becomes hbecomes).lawful⟩

/-- Two frames inside the global one, one of which has a variable of the same name: what is
assigned from the other one is seen in the global frame, and not where it is hidden. -/
theorem ordered_lawful_hidden :
    let env : Environment :=
      ⟨#[⟨none, [("x", .int 1)]⟩, ⟨some .global, []⟩, ⟨some .global, [("x", .int 2)]⟩], ⟨1⟩⟩
    env.Ordered ∧ env.Lawful ∧ (env.perform (.assign "x" (.int 3))).Lawful ∧
      [0, 1, 2].map (fun i => (env.perform (.assign "x" (.int 3))).lookupIn ⟨i⟩ "x") =
        [some (.int 3), some (.int 3), some (.int 2)] := by
  intro env
  have hordered : env.Ordered := by
    refine ⟨by decide, ?_⟩
    rintro ⟨_ | _ | _ | i⟩ frame hframe parent hparent <;> cases hframe <;> cases hparent <;> decide
  have hlawful := ordered_lawful hordered
  exact ⟨hordered, hlawful.1, hlawful.2 _ (.step .start trivial), by rfl⟩

end Scriptorium
