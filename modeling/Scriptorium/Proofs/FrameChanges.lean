import Scriptorium.Proofs.SharedFrames
import Scriptorium.Proofs.SoundMachines

/-!
# How frames change

What a run does to the frames that were there is done by declarations, which add a name to
the active frame, and by assignments, which change a value where the name leads.  All other
steps leave the frames alone or make new ones.

* `Frame.Evolves`, `Environment.Evolves` — frames gain names and change values only as
  said, and new frames lie inside others;
* `Task.Declares`, `Task.Assigns` — the name that a task declares, or assigns to, by itself;
* `evolvesAll` — the frames change only by the tasks that a run comes to;
* `Environment.Grows` — frames are kept where they are, and new ones lie inside others;
* `Starts.grows` — so it is when a task starts another one;
* `Enters`, `Starts.enters` — the tasks that are started in a new frame, and that all others
  are started in the active one.
-/

namespace Scriptorium

variable {α β : Type} {code : Code} {fuel : Nat}

/-! ## Frames -/

/-- The frame lies where it was, and it gained names and changed values only as said. -/
structure Frame.Evolves (declared assigned : String → Prop) (frame frame' : Frame) : Prop where
  parent : frame'.parent = frame.parent
  names : ∃ added, frame'.names = frame.names ++ added ∧ ∀ name ∈ added, declared name
  values : ∀ name, frame'.get? name ≠ frame.get? name → declared name ∨ assigned name

namespace Frame.Evolves

variable {declared assigned declared' assigned' : String → Prop} {frame frame' frame'' : Frame}

theorem refl (frame : Frame) : frame.Evolves declared assigned frame :=
  ⟨rfl, ⟨[], by simp⟩, fun _ h => absurd rfl h⟩

theorem trans (h : frame.Evolves declared assigned frame')
    (h' : frame'.Evolves declared assigned frame'') : frame.Evolves declared assigned frame'' := by
  obtain ⟨added, hnames, hadded⟩ := h.names
  obtain ⟨added', hnames', hadded'⟩ := h'.names
  refine ⟨h'.parent.trans h.parent, ⟨added ++ added', ?_, ?_⟩, fun name hname => ?_⟩
  · rw [hnames', hnames, List.append_assoc]
  · intro name hname
    exact (List.mem_append.1 hname).elim (hadded name) (hadded' name)
  · by_cases hsame : frame'.get? name = frame.get? name
    · exact h'.values name (hsame ▸ hname)
    · exact h.values name hsame

theorem mono (h : frame.Evolves declared assigned frame')
    (hdeclared : ∀ name, declared name → declared' name)
    (hassigned : ∀ name, assigned name → assigned' name) :
    frame.Evolves declared' assigned' frame' :=
  ⟨h.parent, h.names.imp fun _ hadded => ⟨hadded.1, fun name hname =>
    hdeclared name (hadded.2 name hname)⟩,
    fun name hname => (h.values name hname).imp (hdeclared name) (hassigned name)⟩

/-- A name is set that the frame may gain, or one that it holds and that may be assigned to. -/
theorem set {name : String} (value : Value)
    (h : declared name ∨ frame.binds name = true ∧ assigned name) :
    frame.Evolves declared assigned (frame.set name value) := by
  refine ⟨rfl, ?_, fun other hother => ?_⟩
  · rw [names_set]
    by_cases hbinds : frame.binds name = true
    · exact ⟨[], by simp [hbinds]⟩
    · refine ⟨[name], by simp [hbinds], fun other hother => ?_⟩
      rw [List.mem_singleton.1 hother]
      exact h.resolve_right fun hassigned => hbinds hassigned.1
  · have hname : other = name := by
      by_contra hne
      exact hother (by rw [get?_set, if_neg hne])
    rw [hname]
    exact h.imp_right And.right

end Frame.Evolves

/-! ## Environments -/

/-- All frames are still there and evolved as said, and the new ones lie inside others. -/
structure Environment.Evolves (declared assigned : FrameId → String → Prop)
    (env env' : Environment) : Prop where
  kept : ∀ f frame, env.frame? f = some frame →
    ∃ frame', env'.frame? f = some frame' ∧ frame.Evolves (declared f) (assigned f) frame'
  made : ∀ f frame', env.frame? f = none → env'.frame? f = some frame' → frame'.parent ≠ none

namespace Environment

variable {declared assigned declared' assigned' : FrameId → String → Prop}
  {env env' env'' : Environment}

theorem frame?_newFrame (env : Environment) (parent : Option FrameId) (f : FrameId) :
    (env.newFrame parent).2.frame? f =
      if f.index = env.frames.size then some ⟨parent, []⟩ else env.frame? f := by
  simp only [newFrame, frame?, Array.getElem?_push]

namespace Evolves

theorem refl (env : Environment) : env.Evolves declared assigned env := by
  refine ⟨fun f frame hframe => ⟨frame, hframe, .refl frame⟩, fun f frame hnone hframe => ?_⟩
  rw [hnone] at hframe
  cases hframe

theorem trans (h : env.Evolves declared assigned env') (h' : env'.Evolves declared assigned env'') :
    env.Evolves declared assigned env'' := by
  constructor
  · intro f frame hframe
    obtain ⟨frame', hframe', hevolves⟩ := h.kept f frame hframe
    obtain ⟨frame'', hframe'', hevolves'⟩ := h'.kept f frame' hframe'
    exact ⟨frame'', hframe'', hevolves.trans hevolves'⟩
  · intro f frame'' hnone hframe''
    cases hframe' : env'.frame? f with
    | none => exact h'.made f frame'' hframe' hframe''
    | some frame' =>
      obtain ⟨same, hsame, hevolves⟩ := h'.kept f frame' hframe'
      rw [hframe''] at hsame
      cases hsame
      rw [hevolves.parent]
      exact h.made f frame' hnone hframe'

theorem mono (h : env.Evolves declared assigned env')
    (hdeclared : ∀ f name, env.frame? f ≠ none → declared f name → declared' f name)
    (hassigned : ∀ f name, assigned f name → assigned' f name) :
    env.Evolves declared' assigned' env' := by
  refine ⟨fun f frame hframe => ?_, h.made⟩
  have hheld : env.frame? f ≠ none := by simp [hframe]
  refine (h.kept f frame hframe).imp fun frame' hframe' => ⟨hframe'.1, ?_⟩
  exact hframe'.2.mono (fun name => hdeclared f name hheld) (hassigned f)

/-- It does not matter which frame is active. -/
theorem restore (h : env.Evolves declared assigned env') (f : FrameId) :
    env.Evolves declared assigned (env'.restore f) :=
  ⟨h.kept, h.made⟩

theorem newFrame (env : Environment) (parent : FrameId) :
    env.Evolves declared assigned (env.newFrame (some parent)).2 := by
  constructor
  · intro f frame hframe
    have hlt : f.index < env.frames.size := frame?_eq_some_iff.1 ⟨frame, hframe⟩
    exact ⟨frame, by rw [frame?_newFrame, if_neg (Nat.ne_of_lt hlt), hframe], .refl frame⟩
  · intro f frame' hnone hframe'
    rw [frame?_newFrame, hnone] at hframe'
    split at hframe'
    · cases hframe'
      simp
    · cases hframe'

/-- A name is set in a frame that is not there yet, or as it may be. -/
theorem defineIn (h : env.Evolves declared assigned env') (f : FrameId) (name : String)
    (value : Value)
    (hset : ∀ frame, env'.frame? f = some frame →
      env.frame? f = none ∨ declared f name ∨ frame.binds name = true ∧ assigned f name) :
    env.Evolves declared assigned (env'.defineIn f name value) := by
  constructor
  · intro g frame hframe
    obtain ⟨frame', hframe', hevolves⟩ := h.kept g frame hframe
    rw [frame?_defineIn, hframe']
    by_cases hg : g = f
    · subst hg
      rw [if_pos rfl]
      refine ⟨frame'.set name value, rfl, hevolves.trans (.set value ?_)⟩
      exact (hset frame' hframe').resolve_left (by simp [hframe])
    · exact ⟨frame', by rw [if_neg hg], hevolves⟩
  · intro g frame' hnone hframe'
    have hparent := parent_defineIn env' f name value g
    rw [hframe'] at hparent
    obtain ⟨old, hold, hsame⟩ := Option.map_eq_some_iff.1 hparent.symm
    rw [← hsame]
    exact h.made g old hnone hold

/-- The frame of a call is new, so the arguments are set in no other frame. -/
theorem callFrame (env : Environment) (parent : FrameId) (bindings : List (String × Value)) :
    env.Evolves declared assigned
      (bindings.foldl (fun env' b => env'.defineIn ⟨env.frames.size⟩ b.1 b.2)
        (env.newFrame (some parent)).2) := by
  have hnone : env.frame? ⟨env.frames.size⟩ = none := by simp [frame?]
  have hall : ∀ env', env.Evolves declared assigned env' → env.Evolves declared assigned
      (bindings.foldl (fun env' b => env'.defineIn ⟨env.frames.size⟩ b.1 b.2) env') := by
    induction bindings with
    | nil => exact fun env' h => h
    | cons b bindings ih =>
      intro env' h
      exact ih _ (h.defineIn _ _ _ fun _ _ => .inl hnone)
  exact hall _ (.newFrame env parent)

end Evolves

end Environment

/-! ## What a task does to frames -/

/-- The name that a statement declares. -/
def StmtKind.declared? : StmtKind → Option NameId
  | .declare name _ | .function name _ _ => some name
  | .expression _ | .block _ | .branch .. | .loop .. | .ret _ => none

/-- The statement declares the name. -/
def Code.Introduces (code : Code) (id : StmtId) (name : String) : Prop :=
  ∃ node n, code.arena.stmt? id = some node ∧ node.kind.declared? = some n ∧
    code.names.text? n = some name

/-- The task by itself declares the name in the frame. -/
inductive Task.Declares (code : Code) (m : Machine) : Task → FrameId → String → Prop where
  /-- A statement declares in the active frame. -/
  | statement {id : StmtId} {name : String} :
      code.Introduces id name → Declares code m (.execute id) m.env.active name

/-- The task by itself assigns to the name in the frame. -/
inductive Task.Assigns (code : Code) (m : Machine) : Task → FrameId → String → Prop where
  /-- An assignment is to the frame that the name leads to when the value is computed. -/
  | expression {id x : ExprId} {n : NameId} {nameSpan span : Span} {name : String}
      {owner : FrameId} {v : Value} {m' : Machine} {fuel : Nat} :
      code.arena.expr? id = some ⟨.assign n nameSpan x, span⟩ →
      Scriptorium.evaluate code fuel x m = .done v m' → code.names.text? n = some name →
      m'.env.resolve m'.env.active name = some owner →
      Assigns code m (.evaluate id) owner name

/-- A task that is come to declares the name in the frame. -/
def Task.LeadsToDeclare (code : Code) (t : Task) (m : Machine) (f : FrameId) (name : String) :
    Prop :=
  ∃ t' m', Visits code t m t' m' ∧ t'.Declares code m' f name

/-- A task that is come to assigns to the name in the frame. -/
def Task.LeadsToAssign (code : Code) (t : Task) (m : Machine) (f : FrameId) (name : String) :
    Prop :=
  ∃ t' m', Visits code t m t' m' ∧ t'.Assigns code m' f name

/-- A computation that belongs to the task `t` on the machine `m`, and that was carried out
on `m₁`, has changed the frames as the tasks do that are come to. -/
def Outcome.Evolves (code : Code) (t : Task) (m m₁ : Machine) (o : Outcome α) : Prop :=
  o.Leaves fun m₂ => m₁.env.Evolves (t.LeadsToDeclare code m) (t.LeadsToAssign code m) m₂.env

/-- The computation changes no frame. -/
def Step.KeepsFrames (x : Step α) : Prop := ∀ m, (x m).Leaves fun m' => m'.env = m.env

namespace Step

theorem keepsFrames_pure (a : α) : (pure a : Step α).KeepsFrames := fun _ => rfl

theorem keepsFrames_fail (e : RunError) (span : Span) : (fail e span : Step α).KeepsFrames :=
  fun _ => rfl

theorem keepsFrames_ofExcept (result : Except RunError α) (span : Span) :
    (ofExcept result span).KeepsFrames := by
  cases result with
  | ok a => exact keepsFrames_pure a
  | error e => exact keepsFrames_fail e span

theorem keepsFrames_lookup (name : String) (span : Span) : (lookup name span).KeepsFrames := by
  intro m
  unfold lookup
  cases m.env.lookup name with
  | some value => exact keepsFrames_pure value m
  | none => exact keepsFrames_fail _ span m

theorem keepsFrames_newFunction (make : FrameId → Nat → UserFunction) :
    (newFunction make).KeepsFrames := fun _ => rfl

theorem keepsFrames_native (action : NativeAction) (args : List Value) (span : Span) :
    (native action args span).KeepsFrames := by
  cases action <;> exact fun _ => rfl

theorem keepsFrames_failAt (e : RunError) (expr : ExprId) :
    (failAt code e expr : Step α).KeepsFrames := by
  intro m
  unfold failAt
  cases h : code.arena.expr? expr with
  | none => trivial
  | some node => exact keepsFrames_fail e node.span m

theorem keepsFrames_truthOf (cond : ExprId) (value : Value) :
    (truthOf code cond value).KeepsFrames := by
  unfold truthOf
  split
  · exact keepsFrames_pure _
  · exact keepsFrames_failAt _ _

end Step

namespace Outcome.Evolves

variable {t t' : Task} {m m' m₁ : Machine}

theorem of_keepsFrames {x : Step α} (h : x.KeepsFrames) (m₁ : Machine) :
    (x m₁).Evolves code t m m₁ := by
  refine (h m₁).imp fun m₂ h₂ => ?_
  rw [h₂]
  exact .refl _

/-- What a started task does is done by tasks that are come to. -/
theorem of_starts {o : Outcome α} (h : Starts code t m t' m') (ho : o.Evolves code t' m' m₁) :
    o.Evolves code t m m₁ := by
  refine ho.imp fun m₂ h₂ => h₂.mono ?_ ?_
  · rintro f name - ⟨s, n, hvisits, hdeclares⟩
    exact ⟨s, n, .of_starts h hvisits, hdeclares⟩
  · rintro f name ⟨s, n, hvisits, hassigns⟩
    exact ⟨s, n, .of_starts h hvisits, hassigns⟩

theorem bind {x : Step α} {f : α → Step β} (hx : (x m₁).Evolves code t m m₁)
    (hf : ∀ a m₂, x m₁ = .done a m₂ → (f a m₂).Evolves code t m m₂) :
    ((x >>= f) m₁).Evolves code t m m₁ := by
  show Outcome.Evolves code t m m₁ (Step.bind x f m₁)
  unfold Step.bind
  cases h : x m₁ with
  | done a m₂ =>
    rw [h] at hx
    exact (hf a m₂ h).imp fun m₃ h₃ => hx.trans h₃
  | failed e m₂ =>
    rw [h] at hx
    exact hx
  | stuck => trivial
  | exhausted => trivial

theorem found_bind {held : Option α} {f : α → Step β}
    (hf : ∀ a, held = some a → (f a m₁).Evolves code t m m₁) :
    ((Step.found held >>= f) m₁).Evolves code t m m₁ := by
  cases held with
  | none => trivial
  | some a => exact hf a rfl

theorem inFrame {x : Step α} {f : FrameId}
    (h : (x { m₁ with env := (m₁.env.enter f).2 }).Evolves code t m
      { m₁ with env := (m₁.env.enter f).2 }) :
    (Step.inFrame f x m₁).Evolves code t m m₁ := by
  rw [Step.inFrame_eq]
  exact Outcome.leaves_after.2 (h.imp fun m₂ h₂ => ⟨h₂.kept, h₂.made⟩)

theorem inNewFrame {x : Step α} (h : (x m₁.nested).Evolves code t m m₁.nested) :
    (Step.inNewFrame x m₁).Evolves code t m m₁ := by
  have hinFrame : (Step.inFrame ⟨m₁.env.frames.size⟩ x
      { m₁ with env := (m₁.env.newFrame (some m₁.env.active)).2 }).Evolves code t m
        { m₁ with env := (m₁.env.newFrame (some m₁.env.active)).2 } := inFrame h
  exact hinFrame.imp fun m₂ h₂ => (Environment.Evolves.newFrame m₁.env m₁.env.active).trans h₂

/-- A declaration in the active frame. -/
theorem define {id : StmtId} {name : String} (hname : code.Introduces id name) (value : Value)
    (hactive : m₁.env.active = m.env.active) :
    (Step.define name value m₁).Evolves code (.execute id) m m₁ := by
  refine Environment.Evolves.defineIn (.refl _) _ _ _ fun frame _ => .inr (.inl ?_)
  rw [hactive]
  exact ⟨_, m, .start, .statement hname⟩

/-- An assignment, where the value was computed. -/
theorem assign {id x : ExprId} {n : NameId} {nameSpan span : Span} {name : String} {v : Value}
    (hnode : code.arena.expr? id = some ⟨.assign n nameSpan x, span⟩)
    (hx : evaluate code fuel x m = .done v m₁) (hname : code.names.text? n = some name) :
    (Step.assign name v nameSpan m₁).Evolves code (.evaluate id) m m₁ := by
  unfold Step.assign
  cases howner : m₁.env.resolve m₁.env.active name with
  | none => exact of_keepsFrames (Step.keepsFrames_fail _ _) m₁
  | some owner =>
    refine Environment.Evolves.defineIn (.refl _) _ _ _ fun frame hframe => .inr (.inr ?_)
    obtain ⟨held, hheld, hbinds⟩ := Environment.binds_of_resolve howner
    rw [hframe] at hheld
    cases hheld
    exact ⟨hbinds, _, m, .start, .expression hnode hx hname howner⟩

end Outcome.Evolves

/-- With the bound `fuel`, the functions of the interpreter change the frames as the tasks do
that they come to. -/
structure EvolvesAll (code : Code) (fuel : Nat) : Prop where
  evaluate : ∀ id m, (evaluate code fuel id m).Evolves code (.evaluate id) m m
  evaluateAll : ∀ ids m, (evaluateAll code fuel ids m).Evolves code (.evaluateAll ids) m m
  call : ∀ callee args span m,
    (call code fuel callee args span m).Evolves code (.call callee args span) m m
  callUser : ∀ f args span m,
    (callUser code fuel f args span m).Evolves code (.callUser f args span) m m
  execute : ∀ id m, (execute code fuel id m).Evolves code (.execute id) m m
  executeBlock : ∀ body m, (executeBlock code fuel body m).Evolves code (.executeBlock body) m m
  executeAll : ∀ ids m, (executeAll code fuel ids m).Evolves code (.executeAll ids) m m
  executeLoop : ∀ cond body m,
    (executeLoop code fuel cond body m).Evolves code (.executeLoop cond body) m m

namespace EvolvesAll

open Step

theorem evaluate_of_starts (h : EvolvesAll code fuel) {t : Task} {m m₁ : Machine} {id : ExprId}
    (hs : Starts code t m (.evaluate id) m₁) :
    (Scriptorium.evaluate code fuel id m₁).Evolves code t m m₁ :=
  .of_starts hs (h.evaluate id m₁)

theorem evaluate_succ (h : EvolvesAll code fuel) (id : ExprId) (m : Machine) :
    (Scriptorium.evaluate code (fuel + 1) id m).Evolves code (.evaluate id) m m := by
  rw [Scriptorium.evaluate]
  refine .found_bind fun node hnode => ?_
  obtain ⟨kind, span⟩ := node
  have operand : ∀ {x}, kind.operand? = some x →
      (Scriptorium.evaluate code fuel x m).Evolves code (.evaluate id) m m := fun hx =>
    h.evaluate_of_starts (.operand hnode hx)
  cases kind with
  | literal value =>
    cases value with
    | int n => exact .of_keepsFrames (keepsFrames_ofExcept _ _) m
    | str text => exact .found_bind fun text _ => .of_keepsFrames (keepsFrames_pure _) m
    | bool b => exact .of_keepsFrames (keepsFrames_pure _) m
  | group inner => exact operand rfl
  | reference name => exact .found_bind fun text _ => .of_keepsFrames (keepsFrames_lookup _ _) m
  | assign name nameSpan value =>
    refine .bind (operand rfl) fun v m₁ hm₁ => ?_
    exact .found_bind fun text htext => .assign hnode hm₁ htext
  | unary op x =>
    exact .bind (operand rfl) fun v m₁ _ => .of_keepsFrames (keepsFrames_ofExcept _ _) m₁
  | binary op l r =>
    refine .bind (operand rfl) fun v m₁ hm₁ => ?_
    exact .bind (h.evaluate_of_starts (.binaryRight hnode hm₁)) fun w m₂ _ =>
      .of_keepsFrames (keepsFrames_ofExcept _ _) m₂
  | logical op l r =>
    refine .bind (operand rfl) fun v m₁ hm₁ => ?_
    by_cases hinteger : v.isInteger = true
    · by_cases hdecided : op.decidedBy v = true
      · simp only [hinteger, hdecided, Bool.not_true, Bool.false_eq_true, if_false, if_true]
        exact .of_keepsFrames (keepsFrames_pure _) m₁
      · simp only [hinteger, hdecided, Bool.not_true, Bool.false_eq_true, if_false]
        exact h.evaluate_of_starts (.logicalRight hnode hm₁ hinteger (by simpa using hdecided))
    · simp only [hinteger, Bool.not_false, if_true]
      exact .of_keepsFrames (keepsFrames_failAt _ _) m₁
  | call callee args =>
    refine .bind (operand rfl) fun f m₁ hm₁ => ?_
    refine .found_bind fun ids hids => ?_
    refine .bind (.of_starts (.arguments hnode hm₁ hids) (h.evaluateAll ids m₁))
      fun vs m₂ hm₂ => ?_
    exact .of_starts (.call hnode hm₁ hids hm₂) (h.call f vs span m₂)

theorem evaluateAll_succ (h : EvolvesAll code fuel) (ids : List ExprId) (m : Machine) :
    (Scriptorium.evaluateAll code (fuel + 1) ids m).Evolves code (.evaluateAll ids) m m := by
  cases ids with
  | nil => exact .of_keepsFrames (keepsFrames_pure _) m
  | cons id ids =>
    rw [Scriptorium.evaluateAll]
    refine .bind (h.evaluate_of_starts .headExpr) fun v m₁ hm₁ => ?_
    exact .bind (.of_starts (.tailExprs hm₁) (h.evaluateAll ids m₁)) fun vs m₂ _ =>
      .of_keepsFrames (keepsFrames_pure _) m₂

theorem call_succ (h : EvolvesAll code fuel) (callee : Value) (args : List Value) (span : Span)
    (m : Machine) :
    (Scriptorium.call code (fuel + 1) callee args span m).Evolves code (.call callee args span)
      m m := by
  unfold Scriptorium.call
  cases callee with
  | native f =>
    simp only [Value.arity?]
    split
    · exact .of_keepsFrames (keepsFrames_fail _ _) m
    · exact .of_keepsFrames (keepsFrames_native _ _ _) m
  | user f =>
    simp only [Value.arity?]
    split
    · exact .of_keepsFrames (keepsFrames_fail _ _) m
    · next hlength =>
      exact .of_starts (.user (Decidable.not_not.1 hlength)) (h.callUser f args span m)
  | int n => exact .of_keepsFrames (keepsFrames_fail _ _) m
  | wide n => exact .of_keepsFrames (keepsFrames_fail _ _) m
  | str text => exact .of_keepsFrames (keepsFrames_fail _ _) m

theorem callUser_succ (h : EvolvesAll code fuel) (f : UserFunction) (args : List Value)
    (span : Span) (m : Machine) :
    (Scriptorium.callUser code (fuel + 1) f args span m).Evolves code (.callUser f args span)
      m m := by
  rw [Scriptorium.callUser_succ]
  cases hlimit : m.calls.limitReached? with
  | some limit =>
    rw [inCall_refused hlimit]
    exact .of_keepsFrames (keepsFrames_fail _ _) m
  | none =>
    rw [inCall_eq hlimit]
    refine Outcome.leaves_after.2 ?_
    refine Outcome.Evolves.bind (x := Step.newFrame f.closure (f.params.zip args))
      (Environment.Evolves.callFrame m.env f.closure (f.params.zip args)) fun frame m₁ hm₁ => ?_
    cases hm₁
    have hbody : (Scriptorium.executeBlock code fuel f.body (m.called f args span)).Evolves code
        (.callUser f args span) m (m.called f args span) :=
      .of_starts (.body hlimit) (h.executeBlock f.body _)
    refine .bind (.inFrame hbody) fun completion m₂ _ => ?_
    cases completion with
    | normal => exact .of_keepsFrames (keepsFrames_pure _) m₂
    | returned value => exact .of_keepsFrames (keepsFrames_pure _) m₂

theorem execute_succ (h : EvolvesAll code fuel) (id : StmtId) (m : Machine) :
    (Scriptorium.execute code (fuel + 1) id m).Evolves code (.execute id) m m := by
  rw [Scriptorium.execute]
  refine .found_bind fun node hnode => ?_
  obtain ⟨kind, span⟩ := node
  have operand : ∀ {x}, kind.operand? = some x →
      (Scriptorium.evaluate code fuel x m).Evolves code (.execute id) m m := fun hx =>
    h.evaluate_of_starts (.expression hnode hx)
  cases kind with
  | expression x =>
    exact .bind (operand rfl) fun v m₁ _ => .of_keepsFrames (keepsFrames_pure _) m₁
  | declare name init =>
    have hdefine : ∀ value m₁, m₁.env.active = m.env.active → ((do
        let name ← Step.found (code.names.text? name)
        Step.define name value
        Step.pure Completion.normal : Step Completion) m₁).Evolves code (.execute id) m m₁ := by
      intro value m₁ hactive
      refine .found_bind fun text htext => ?_
      exact .bind (.define ⟨_, name, hnode, rfl, htext⟩ value hactive) fun _ m₂ _ =>
        .of_keepsFrames (keepsFrames_pure _) m₂
    cases init with
    | none => exact hdefine .zero m rfl
    | some x =>
      exact .bind (operand rfl) fun v m₁ hm₁ =>
        hdefine v m₁ (((restoresAll code fuel).evaluate x).of_done hm₁).active
  | block body => exact .inNewFrame (.of_starts (.block hnode) (h.executeBlock body _))
  | branch cond thenBranch elseBranch =>
    refine .bind (operand rfl) fun v m₁ hm₁ => ?_
    refine .bind (.of_keepsFrames (keepsFrames_truthOf _ _) m₁) fun b m₂ hm₂ => ?_
    obtain ⟨hinteger, htrue, rfl⟩ := TracesAll.truthOf_done hm₂
    cases b with
    | true => exact .of_starts (.thenBranch hnode hm₁ htrue) (h.execute thenBranch m₁)
    | false =>
      cases elseBranch with
      | none => exact .of_keepsFrames (keepsFrames_pure _) m₁
      | some other =>
        exact .of_starts (.elseBranch hnode hm₁ hinteger htrue) (h.execute other m₁)
  | loop cond body => exact .of_starts (.loop hnode) (h.executeLoop cond body m)
  | function name params body =>
    refine .found_bind fun text htext => .found_bind fun ids _ => .found_bind fun texts _ => ?_
    refine .bind (.of_keepsFrames (keepsFrames_newFunction _) m) fun value m₁ hm₁ => ?_
    cases hm₁
    exact .bind (.define ⟨_, name, hnode, rfl, htext⟩ _ rfl) fun _ m₂ _ =>
      .of_keepsFrames (keepsFrames_pure _) m₂
  | ret value =>
    cases value with
    | none => exact .of_keepsFrames (keepsFrames_pure _) m
    | some x => exact .bind (operand rfl) fun v m₁ _ => .of_keepsFrames (keepsFrames_pure _) m₁

theorem executeBlock_succ (h : EvolvesAll code fuel) (body : Slice StmtId) (m : Machine) :
    (Scriptorium.executeBlock code (fuel + 1) body m).Evolves code (.executeBlock body) m m := by
  rw [Scriptorium.executeBlock]
  exact .found_bind fun ids hids => .of_starts (.statements hids) (h.executeAll ids m)

theorem executeAll_succ (h : EvolvesAll code fuel) (ids : List StmtId) (m : Machine) :
    (Scriptorium.executeAll code (fuel + 1) ids m).Evolves code (.executeAll ids) m m := by
  cases ids with
  | nil => exact .of_keepsFrames (keepsFrames_pure _) m
  | cons id ids =>
    rw [Scriptorium.executeAll]
    refine .bind (.of_starts .headStmt (h.execute id m)) fun completion m₁ hm₁ => ?_
    cases completion with
    | normal => exact .of_starts (.tailStmts hm₁) (h.executeAll ids m₁)
    | returned value => exact .of_keepsFrames (keepsFrames_pure _) m₁

theorem executeLoop_succ (h : EvolvesAll code fuel) (cond : ExprId) (body : StmtId) (m : Machine) :
    (Scriptorium.executeLoop code (fuel + 1) cond body m).Evolves code (.executeLoop cond body)
      m m := by
  rw [Scriptorium.executeLoop]
  refine .bind (h.evaluate_of_starts .condition) fun v m₁ hm₁ => ?_
  refine .bind (.of_keepsFrames (keepsFrames_truthOf _ _) m₁) fun b m₂ hm₂ => ?_
  obtain ⟨-, htrue, rfl⟩ := TracesAll.truthOf_done hm₂
  cases b with
  | true =>
    refine .bind (.inNewFrame (.of_starts (.round hm₁ htrue) (h.execute body _)))
      fun completion m₂ hm₂ => ?_
    cases completion with
    | normal => exact .of_starts (.again hm₁ htrue hm₂) (h.executeLoop cond body m₂)
    | returned value => exact .of_keepsFrames (keepsFrames_pure _) m₂
  | false => exact .of_keepsFrames (keepsFrames_pure _) m₁

end EvolvesAll

/-- With every bound, the frames change only by the tasks that are come to. -/
theorem evolvesAll (code : Code) (fuel : Nat) : EvolvesAll code fuel := by
  induction fuel with
  | zero =>
    exact ⟨fun _ _ => trivial, fun _ _ => trivial, fun _ _ _ _ => trivial,
      fun _ _ _ _ => trivial, fun _ _ => trivial, fun _ _ => trivial, fun _ _ => trivial,
      fun _ _ _ => trivial⟩
  | succ fuel ih =>
    exact ⟨ih.evaluate_succ, ih.evaluateAll_succ, ih.call_succ, ih.callUser_succ,
      ih.execute_succ, ih.executeBlock_succ, ih.executeAll_succ, ih.executeLoop_succ⟩

theorem evolves_interpret (code : Code) (fuel : Nat) (stmts : List StmtId) (m : Machine) :
    (interpret code fuel stmts m).Evolves code (.interpret stmts) m m := by
  induction stmts generalizing m with
  | nil => exact .of_keepsFrames (Step.keepsFrames_pure ()) m
  | cons id ids ih =>
    rw [interpret]
    refine .bind (.of_starts .headTop ((evolvesAll code fuel).execute id m))
      fun completion m₁ hm₁ => ?_
    cases completion with
    | normal => exact .of_starts (.tailTop hm₁) (ih m₁)
    | returned value => exact .of_keepsFrames (Step.keepsFrames_pure ()) m₁

/-! ## The tasks that are started -/

/-- All frames are still there, inside the same frames, and new ones lie inside others. -/
def Environment.Grows (env env' : Environment) : Prop :=
  env.Evolves (fun _ _ => True) (fun _ _ => True) env'

namespace Environment.Grows

variable {env env' : Environment}

theorem of_evolves {declared assigned : FrameId → String → Prop}
    (h : env.Evolves declared assigned env') : env.Grows env' :=
  h.mono (fun _ _ _ _ => trivial) fun _ _ _ => trivial

theorem extends_frames (h : env.Grows env') : env.Extends env' := by
  intro f frame hframe
  obtain ⟨frame', hframe', hevolves⟩ := h.kept f frame hframe
  exact ⟨frame', hframe', hevolves.parent⟩

end Environment.Grows

theorem Outcome.Evolves.grows {t : Task} {m m₁ m₂ : Machine} {o : Outcome α} {a : α}
    (h : o.Evolves code t m m₁) (ho : o = .done a m₂) : m₁.env.Grows m₂.env := by
  rw [ho] at h
  exact .of_evolves h

variable {t t' : Task} {m m' : Machine}

/-- A task is started with all frames where they were. -/
theorem Starts.grows (h : Starts code t m t' m') : m.env.Grows m'.env := by
  have hevaluate : ∀ {fuel id v m m'}, evaluate code fuel id m = .done v m' →
      m.env.Grows m'.env := fun {fuel id _ m _} h => ((evolvesAll code fuel).evaluate id m).grows h
  have hexecute : ∀ {fuel id c m m'}, execute code fuel id m = .done c m' →
      m.env.Grows m'.env := fun {fuel id _ m _} h => ((evolvesAll code fuel).execute id m).grows h
  cases h with
  | operand | headExpr | user | expression | loop | statements | headStmt | condition
  | headTop => exact .refl _
  | binaryRight _ h₁ => exact hevaluate h₁
  | logicalRight _ h₁ => exact hevaluate h₁
  | arguments _ h₁ => exact hevaluate h₁
  | @call _ _ _ _ _ _ m₁ _ _ _ fuel _ h₁ _ h₂ =>
    exact (hevaluate h₁).trans (((evolvesAll code fuel).evaluateAll _ m₁).grows h₂)
  | tailExprs h₁ => exact hevaluate h₁
  | body => exact (Environment.Evolves.callFrame m.env _ _).restore _
  | block => exact (Environment.Evolves.newFrame m.env m.env.active).restore _
  | thenBranch _ h₁ => exact hevaluate h₁
  | elseBranch _ h₁ => exact hevaluate h₁
  | tailStmts h₁ => exact hexecute h₁
  | @round _ _ _ m₁ _ _ h₁ =>
    exact (hevaluate h₁).trans ((Environment.Evolves.newFrame m₁.env m₁.env.active).restore _)
  | @again cond body _ m₁ _ _ fuel h₁ htrue h₂ =>
    have hround : (Step.inNewFrame (execute code fuel body) m₁).Evolves code
        (.executeLoop cond body) m m₁ :=
      .inNewFrame (.of_starts (.round h₁ htrue) ((evolvesAll code fuel).execute body _))
    exact (hevaluate h₁).trans (hround.grows h₂)
  | tailTop h₁ => exact hexecute h₁

/-- The first task starts the second one in a new frame. -/
inductive Enters (code : Code) : Task → Machine → Task → Machine → Prop where
  /-- A block starts its statements. -/
  | block {id : StmtId} {body : Slice StmtId} {span : Span} {m : Machine} :
      code.arena.stmt? id = some ⟨.block body, span⟩ →
      Enters code (.execute id) m (.executeBlock body) m.nested
  /-- A loop starts a round. -/
  | round {cond : ExprId} {body : StmtId} {m m' : Machine} {v : Value} {fuel : Nat} :
      evaluate code fuel cond m = .done v m' → v.isTrue = true →
      Enters code (.executeLoop cond body) m (.execute body) m'.nested
  /-- The call of a declared function starts its body. -/
  | body {f : UserFunction} {args : List Value} {span : Span} {m : Machine} :
      m.calls.limitReached? = none →
      Enters code (.callUser f args span) m (.executeBlock f.body) (m.called f args span)

theorem Enters.starts (h : Enters code t m t' m') : Starts code t m t' m' := by
  cases h with
  | block hnode => exact .block hnode
  | round hv htrue => exact .round hv htrue
  | body hlimit => exact .body hlimit

/-- The frame was not there when the first task started. -/
theorem Enters.size_le (h : Enters code t m t' m') :
    m.env.frames.size ≤ m'.env.active.index := by
  cases h with
  | block | body => exact Nat.le_refl _
  | round hv => exact (((restoresAll code _).evaluate _).of_done hv).frames.size_le

/-- All other tasks are started in the active frame. -/
theorem Starts.enters (h : Starts code t m t' m') :
    m'.env.active = m.env.active ∨ Enters code t m t' m' := by
  have hevaluate : ∀ {fuel id v m m'}, evaluate code fuel id m = .done v m' → m.Restored m' :=
    fun {fuel id _ _ _} h => ((restoresAll code fuel).evaluate id).of_done h
  have hexecute : ∀ {fuel id c m m'}, execute code fuel id m = .done c m' → m.Restored m' :=
    fun {fuel id _ _ _} h => ((restoresAll code fuel).execute id).of_done h
  cases h with
  | operand | headExpr | user | expression | loop | statements | headStmt | condition
  | headTop => exact .inl rfl
  | binaryRight _ h₁ => exact .inl (hevaluate h₁).active
  | logicalRight _ h₁ => exact .inl (hevaluate h₁).active
  | arguments _ h₁ => exact .inl (hevaluate h₁).active
  | call _ h₁ _ h₂ =>
    exact .inl ((hevaluate h₁).trans (((restoresAll code _).evaluateAll _).of_done h₂)).active
  | tailExprs h₁ => exact .inl (hevaluate h₁).active
  | body hlimit => exact .inr (.body hlimit)
  | block hnode => exact .inr (.block hnode)
  | thenBranch _ h₁ => exact .inl (hevaluate h₁).active
  | elseBranch _ h₁ => exact .inl (hevaluate h₁).active
  | tailStmts h₁ => exact .inl (hexecute h₁).active
  | round h₁ htrue => exact .inr (.round h₁ htrue)
  | again h₁ _ h₂ =>
    exact .inl ((hevaluate h₁).trans
      (((restoresAll code _).execute _).inNewFrame.of_done h₂)).active
  | tailTop h₁ => exact .inl (hexecute h₁).active

theorem Starts.active (h : Starts code t m t' m') :
    m'.env.active = m.env.active ∨ m.env.frames.size ≤ m'.env.active.index :=
  h.enters.imp_right Enters.size_le

theorem Visits.grows (h : Visits code t m t' m') : m.env.Grows m'.env := by
  induction h with
  | start => exact .refl _
  | step _ hstarts ih => exact ih.trans hstarts.grows

end Scriptorium
