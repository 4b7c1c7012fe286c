import Scriptorium.Proofs.RunOrder
import Scriptorium.Proofs.SoundTasks

/-!
# The graph of the frames

In every state of a run each frame but the global one lies inside a frame that was made
before, and it stays there; so whoever goes outwards comes to the global frame.  Each entry
of a block, each round of a loop and each call of a declared function is carried out in a
frame of its own, which was not there before.

* `Environment.LeadsOut` — going outwards from a frame comes to the global one;
* `Environment.Rooted` — the shape of the frames;
* `Enters.fresh`, `Enters.unique` — the frame was not there before, and it is entered once;
* `run_rooted` — all of this holds in the run of any text.
-/

namespace Scriptorium

variable {code : Code} {fuel : Nat}

/-! ## The way outwards -/

namespace Environment

/-- Going outwards from a frame comes to the global one. -/
inductive LeadsOut (env : Environment) : FrameId → Prop where
  /-- The global frame, which lies in no other. -/
  | global {frame : Frame} :
      env.frame? .global = some frame → frame.parent = none → LeadsOut env .global
  /-- A frame inside another one. -/
  | outward {f parent : FrameId} {frame : Frame} :
      env.frame? f = some frame → frame.parent = some parent → LeadsOut env parent →
      LeadsOut env f

/-- The shape of the frames: a tree with the global frame at its root, in which all frames are
that are active or remembered. -/
structure Rooted (env : Environment) : Prop where
  /-- The global frame is the only one inside no other. -/
  root : ∃ frame, env.frame? .global = some frame
  roots : ∀ f frame, env.frame? f = some frame → (frame.parent = none ↔ f = .global)
  /-- The frame around another one was made before. -/
  parents : ∀ f frame parent, env.frame? f = some frame → frame.parent = some parent →
    parent.index < f.index
  active : env.LeadsOut env.active
  closures : ∀ f frame name g, env.frame? f = some frame → (name, .user g) ∈ frame.bindings →
    env.LeadsOut g.closure
  /-- The way outwards ends by itself: no number of further steps makes it longer, and a name
  leads to the same frame. -/
  ways : ∀ f name steps, f.index < steps →
    env.chainFrom steps f = env.chain f ∧ env.resolveFrom name steps f = env.resolve f name

variable {env : Environment}

theorem Sound.ordered (h : env.Sound code) : env.Ordered := ⟨h.active, h.parents⟩

/-- As the frames further out have smaller numbers, enough steps lead to the end of the way. -/
theorem Ordered.chainFrom_eq (h : env.Ordered) {steps steps' : Nat} {f : FrameId}
    (hsteps : f.index < steps) (hsteps' : f.index < steps') :
    env.chainFrom steps f = env.chainFrom steps' f := by
  induction steps generalizing steps' f with
  | zero => exact absurd hsteps (Nat.not_lt_zero _)
  | succ steps ih =>
    cases steps' with
    | zero => exact absurd hsteps' (Nat.not_lt_zero _)
    | succ steps' =>
      unfold chainFrom
      cases hframe : env.frame? f with
      | none => rfl
      | some frame =>
        cases hparent : frame.parent with
        | none => simp [hparent]
        | some parent =>
          have hlt := h.parents f frame hframe parent hparent
          simp only [hparent]
          rw [ih (by omega) (by omega : parent.index < steps')]

/-- The frames of the environment, where only the global one may lie in no other, and the others
in frames that were made before. -/
theorem Ordered.leadsOut (h : env.Ordered)
    (hroots : ∀ f frame, env.frame? f = some frame → (frame.parent = none ↔ f = .global))
    {f : FrameId} (hf : f.index < env.frames.size) : env.LeadsOut f := by
  obtain ⟨i⟩ := f
  induction i using Nat.strong_induction_on with
  | _ i ih =>
    obtain ⟨frame, hframe⟩ := frame?_eq_some_iff.2 hf
    cases hparent : frame.parent with
    | none =>
      have hglobal := (hroots _ _ hframe).1 hparent
      rw [hglobal] at hframe ⊢
      exact .global hframe hparent
    | some parent =>
      have hlt : parent.index < i := h.parents _ _ hframe _ hparent
      exact .outward hframe hparent (ih parent.index hlt (Nat.lt_trans hlt hf))

/-- A sound environment that comes from one with just the global frame. -/
theorem Grows.rooted {start : Environment} (h : start.Grows env) (hsize : start.frames.size = 1)
    (hglobal : ∃ frame, start.frame? .global = some frame ∧ frame.parent = none)
    (hsound : env.Sound code) : env.Rooted := by
  obtain ⟨frame₀, hframe₀, hparent₀⟩ := hglobal
  obtain ⟨root, hroot, hrootparent⟩ := h.extends_frames _ _ hframe₀
  have hroots : ∀ f frame, env.frame? f = some frame → (frame.parent = none ↔ f = .global) := by
    intro f frame hframe
    constructor
    · intro hnone
      by_contra hne
      -- the frame was not there at the start, so it lies inside another one
      have hnew : start.frame? f = none := by
        by_contra hold
        have hlt := frame?_eq_some_iff.1 (Option.ne_none_iff_exists'.1 hold)
        refine hne ?_
        obtain ⟨i⟩ := f
        rw [hsize] at hlt
        exact congrArg FrameId.mk (Nat.lt_one_iff.1 hlt)
      exact h.made f frame hnew hframe hnone
    · rintro rfl
      rw [hroot] at hframe
      cases hframe
      exact hrootparent.trans hparent₀
  have hout : ∀ {f : FrameId}, f.index < env.frames.size → env.LeadsOut f :=
    fun hf => hsound.ordered.leadsOut hroots hf
  refine ⟨⟨root, hroot⟩, hroots, fun f frame parent hframe hparent =>
    hsound.parents f frame hframe parent hparent, hout hsound.active, ?_, ?_⟩
  · intro f frame name g hframe hg
    have hsound : UserFunction.Sound code env.frames.size g := hsound.values f frame hframe _ hg
    exact hout hsound.closure
  · intro f name steps hsteps
    have hchain : env.chainFrom steps f = env.chain f :=
      hsound.ordered.chainFrom_eq hsteps (Nat.lt_succ_self _)
    rw [resolveFrom_eq_find?, resolve_eq_find?, hchain]
    exact ⟨rfl, rfl⟩

end Environment

/-! ## Sound machines all along -/

theorem Outcome.Sound.of_machine? {α : Type} {R : Nat → α → Prop} {o : Outcome α} {m : Machine}
    (h : o.Sound code R) (ho : o.machine? = some m) : m.Sound code := by
  cases o with
  | done a m' =>
    cases ho
    exact h.1
  | failed e m' =>
    cases ho
    exact h
  | stuck => cases ho
  | exhausted => cases ho

/-- A sound task leaves a sound machine. -/
theorem Task.Ends.sound {t : Task} {m m' : Machine} (h : t.Ends code m m') (hm : m.Sound code)
    (ht : t.Sound code m) : m'.Sound code := by
  obtain ⟨fuel, h⟩ := h
  have hall := soundAll code fuel
  cases t with
  | evaluate id => exact (hall.evaluate id m hm).of_machine? h
  | evaluateAll ids => exact (hall.evaluateAll ids m hm).of_machine? h
  | call f args span => exact (hall.call f args span m hm ht.1 ht.2.1).of_machine? h
  | callUser f args span => exact (hall.callUser f args span m hm ht.1 ht.2.1).of_machine? h
  | execute id => exact (hall.execute id m hm).of_machine? h
  | executeBlock body => exact (hall.executeBlock body m hm).of_machine? h
  | executeAll ids => exact (hall.executeAll ids m hm).of_machine? h
  | executeLoop cond body => exact (hall.executeLoop cond body m hm).of_machine? h
  | interpret stmts => exact (sound_interpret code fuel stmts hm).of_machine? h

/-- A task leaves the frames where they were. -/
theorem Task.Ends.grows {t : Task} {m m' : Machine} (h : t.Ends code m m') :
    m.env.Grows m'.env := by
  obtain ⟨fuel, h⟩ := h
  have hall := evolvesAll code fuel
  cases t with
  | evaluate id => exact .of_evolves ((hall.evaluate id m).of_machine? h)
  | evaluateAll ids => exact .of_evolves ((hall.evaluateAll ids m).of_machine? h)
  | call callee args span => exact .of_evolves ((hall.call callee args span m).of_machine? h)
  | callUser f args span => exact .of_evolves ((hall.callUser f args span m).of_machine? h)
  | execute id => exact .of_evolves ((hall.execute id m).of_machine? h)
  | executeBlock body => exact .of_evolves ((hall.executeBlock body m).of_machine? h)
  | executeAll ids => exact .of_evolves ((hall.executeAll ids m).of_machine? h)
  | executeLoop cond body => exact .of_evolves ((hall.executeLoop cond body m).of_machine? h)
  | interpret stmts => exact .of_evolves ((evolves_interpret code fuel stmts m).of_machine? h)

theorem Reached.sound {t : Task} {m n : Machine} (h : Reached code t m n) (hcode : code.Sound)
    (hm : m.Sound code) (ht : t.Sound code m) : n.Sound code := by
  cases h with
  | started hvisits => exact (hvisits.sound hcode hm ht).1
  | ended hvisits hends =>
    obtain ⟨hm', ht'⟩ := hvisits.sound hcode hm ht
    exact hends.sound hm' ht'

theorem Reached.grows {t : Task} {m n : Machine} (h : Reached code t m n) :
    m.env.Grows n.env := by
  cases h with
  | started hvisits => exact hvisits.grows
  | ended hvisits hends => exact hvisits.grows.trans hends.grows

/-! ## New frames -/

section New

variable {t t' s s' : Task} {m m' k k' n p : Machine}

theorem Enters.frame? (h : Enters code t m t' m') (hsound : m'.Sound code) :
    m.env.frame? m'.env.active = none ∧ ∃ frame, m'.env.frame? m'.env.active = some frame := by
  refine ⟨?_, Environment.frame?_eq_some_iff.2 hsound.env.active⟩
  by_contra hheld
  exact absurd (Environment.frame?_eq_some_iff.1 (Option.ne_none_iff_exists'.1 hheld))
    (Nat.not_lt.2 h.size_le)

theorem Environment.frame?_eq_none_of_le {env : Environment} {f : FrameId}
    (h : env.frames.size ≤ f.index) : env.frame? f = none :=
  Array.getElem?_eq_none h

/-- What ends before a task is started in a new frame has no such frame. -/
theorem Precedes.size_le (h : Precedes code m s k m') (hm : m.Sound code)
    (henters : Enters code t m t' m') :
    ∃ p, s.Ends code k p ∧ p.env.frames.size ≤ m'.env.active.index := by
  obtain ⟨p, hp, -, hactive | hnew⟩ := h
  · have hle := henters.size_le
    rw [hactive] at hle
    exact absurd hm.env.active (Nat.not_lt.2 hle)
  · exact ⟨p, hp, hnew⟩

/-- Where a task ends that started another one in a new frame, the frame is there. -/
theorem Enters.extends_ends (h : Enters code t m t' m') (hends : t.Ends code m p) :
    m'.env.Extends p.env := by
  obtain ⟨q, hq, hextends⟩ := h.starts.ends hends
  exact hq.restored.frames.trans hextends

/-- A machine of a run has the new frame only where it has all frames that were there when the
frame was entered: the frame was not there before. -/
theorem Enters.fresh {r : Task} {start : Machine} (henters : Enters code t m t' m')
    (hvisits : Visits code r start t m) (hm : m.Sound code) (h : Reached code r start n) :
    n.env.frame? m'.env.active = none ∨ m'.env.Extends n.env := by
  obtain ⟨s, k, hvisits', hbounds⟩ := h.exists_bounds
  have hbefore : n.env.Extends m.env → n.env.frame? m'.env.active = none := fun hextends =>
    Environment.frame?_eq_none_of_le (Nat.le_trans hextends.size_le henters.size_le)
  rcases hvisits.order hvisits' with hinside | hinside | ⟨p, hp, hextends⟩ | ⟨p, hp, hextends⟩
  · rcases hinside.eq_or_starts with ⟨rfl, rfl⟩ | ⟨u, j, hu, hvisits''⟩
    · rcases hbounds with rfl | hends
      · exact .inl (hbefore (.refl _))
      · exact .inr (henters.extends_ends hends)
    · have hlater := hvisits''.grows.extends_frames.trans hbounds.extends_frames
      rcases henters.starts.order hu with ⟨rfl, rfl⟩ | ⟨p, hp, hextends, -⟩ | hprecedes
      · exact .inr hlater
      · exact .inr ((hp.restored.frames.trans hextends).trans hlater)
      · obtain ⟨p, hp, hsize⟩ := hprecedes.size_le hm henters
        obtain ⟨q, hq, hextends⟩ := hvisits''.ends hp
        have hle := ((hbounds.extends_ends hq).trans hextends).size_le
        exact .inl (Environment.frame?_eq_none_of_le (Nat.le_trans hle hsize))
  · rcases hbounds with rfl | hends
    · exact .inl (hbefore hinside.grows.extends_frames)
    · obtain ⟨p, hp, hextends⟩ := hinside.ends hends
      exact .inr ((henters.extends_ends hp).trans hextends)
  · exact .inr (((henters.extends_ends hp).trans hextends).trans hbounds.extends_frames)
  · exact .inl (hbefore ((hbounds.extends_ends hp).trans hextends))

/-- A frame that came later is not the active one. -/
theorem Machine.Sound.active_ne (hm : m.Sound code)
    (h : m.env.frames.size ≤ n.env.active.index) : m.env.active ≠ n.env.active := by
  intro heq
  have hlt := hm.env.active
  rw [heq] at hlt
  omega

/-- A frame that is there when a task starts is not the one in which it starts another one. -/
theorem Enters.active_ne (henters : Enters code s k s' k') (hm' : m'.Sound code)
    (h : m'.env.Extends k.env) : m'.env.active ≠ k'.env.active :=
  hm'.active_ne (Nat.le_trans h.size_le henters.size_le)

/-- A task that is part of another one does not enter the same frame, unless it is this
one. -/
theorem Enters.unique_of_visits (henters : Enters code t m t' m') (hm : m.Sound code)
    (hm' : m'.Sound code) (henters' : Enters code s k s' k') (hk' : k'.Sound code)
    (h : Visits code t m s k) (heq : m'.env.active = k'.env.active) :
    t = s ∧ m = k ∧ t' = s' ∧ m' = k' := by
  rcases h.eq_or_starts with ⟨rfl, rfl⟩ | ⟨u, j, hu, hvisits⟩
  · rcases henters.starts.order henters'.starts with ⟨rfl, rfl⟩ | hprecedes | hprecedes
    · exact ⟨rfl, rfl, rfl, rfl⟩
    · obtain ⟨p, hp, hsize⟩ := hprecedes.size_le hm henters'
      have hle := hp.restored.frames.size_le
      exact absurd heq (hm'.active_ne (Nat.le_trans hle hsize))
    · obtain ⟨p, hp, hsize⟩ := hprecedes.size_le hm henters
      have hle := hp.restored.frames.size_le
      exact absurd heq.symm (hk'.active_ne (Nat.le_trans hle hsize))
  · have hlater := hvisits.grows.extends_frames
    rcases henters.starts.order hu with ⟨rfl, rfl⟩ | ⟨p, hp, hextends, -⟩ | hprecedes
    · exact absurd heq (henters'.active_ne hm' hlater)
    · exact absurd heq (henters'.active_ne hm'
        ((hp.restored.frames.trans hextends).trans hlater))
    · obtain ⟨p, hp, hsize⟩ := hprecedes.size_le hm henters
      obtain ⟨q, hq, hextends⟩ := hvisits.ends hp
      have hle := ((henters'.extends_ends hq).trans hextends).size_le
      exact absurd heq.symm (hk'.active_ne (Nat.le_trans hle hsize))

/-- A frame is entered once. -/
theorem Enters.unique {r : Task} {start : Machine} (henters : Enters code t m t' m')
    (hvisits : Visits code r start t m) (hvisits' : Visits code r start s k)
    (henters' : Enters code s k s' k') (hm : m.Sound code) (hm' : m'.Sound code)
    (hk : k.Sound code) (hk' : k'.Sound code) (heq : m'.env.active = k'.env.active) :
    t = s ∧ m = k ∧ t' = s' ∧ m' = k' := by
  rcases hvisits.order hvisits' with hinside | hinside | ⟨p, hp, hextends⟩ | ⟨p, hp, hextends⟩
  · exact henters.unique_of_visits hm hm' henters' hk' hinside heq
  · obtain ⟨rfl, rfl, rfl, rfl⟩ :=
      henters'.unique_of_visits hk hk' henters hm' hinside heq.symm
    exact ⟨rfl, rfl, rfl, rfl⟩
  · exact absurd heq (henters'.active_ne hm' ((henters.extends_ends hp).trans hextends))
  · exact absurd heq.symm
      (henters.active_ne hk' ((henters'.extends_ends hp).trans hextends))

end New

/-! ## Whole runs -/

/-- The machine at the end of a run is one of the run. -/
theorem reached_runSource {source : String} {settings : Settings} {m : Machine}
    (h : runSource settings source = .finished m ∨
      ∃ e, runSource settings source = .failed e m) :
    Reached (parse source).code (.interpret (parse source).module) settings.machine m := by
  cases hparse : (parse source).failure with
  | some e =>
    simp only [runSource, hparse] at h
    rcases h with h | ⟨e, h⟩ <;> cases h
  | none =>
    simp only [runSource, hparse, runCode] at h
    cases hrun : interpret (parse source).code settings.fuel (parse source).module
        settings.machine with
    | done a last =>
      rw [hrun] at h
      rcases h with h | ⟨e, h⟩ <;> cases h
      exact .ended .start ⟨settings.fuel, by rw [Task.machine?, hrun]; rfl⟩
    | failed e last =>
      rw [hrun] at h
      rcases h with h | ⟨e, h⟩ <;> cases h
      exact .ended .start ⟨settings.fuel, by rw [Task.machine?, hrun]; rfl⟩
    | stuck => rw [hrun] at h; rcases h with h | ⟨e, h⟩ <;> cases h
    | exhausted => rw [hrun] at h; rcases h with h | ⟨e, h⟩ <;> cases h

/-- In each state of the run of a text the frames form a tree with the global one at its root,
and the active frame, those that functions in variables remember and those of the functions
that are called are in it; a frame never comes to lie elsewhere.  Each task is started in the
active frame, but the statements of a block, the rounds of a loop and the body of a call in a
frame that was in no state before, and that is entered by nothing else. -/
theorem run_rooted (source : String) (settings : Settings) :
    let code := (parse source).code
    let run := Task.interpret (parse source).module
    (∀ m, Reached code run settings.machine m → m.env.Rooted) ∧
    (∀ m n f frame frame', Reached code run settings.machine m →
      Reached code run settings.machine n → m.env.frame? f = some frame →
      n.env.frame? f = some frame' → frame.parent = frame'.parent) ∧
    (∀ g args span m, Visits code run settings.machine (.callUser g args span) m →
      m.env.LeadsOut g.closure ∧ ∀ h, .user h ∈ args → m.env.LeadsOut h.closure) ∧
    (∀ t m t' m', Visits code run settings.machine t m → Starts code t m t' m' →
      m'.env.active = m.env.active ∨ Enters code t m t' m') ∧
    (∀ t m t' m', Visits code run settings.machine t m → Enters code t m t' m' →
      (∃ frame, m'.env.frame? m'.env.active = some frame) ∧
      m.env.frame? m'.env.active = none ∧
      ∀ n, Reached code run settings.machine n →
        n.env.frame? m'.env.active = none ∨ m'.env.Extends n.env) ∧
    ∀ t m t' m' s k s' k', Visits code run settings.machine t m →
      Visits code run settings.machine s k → Enters code t m t' m' → Enters code s k s' k' →
      m'.env.active = k'.env.active → t = s ∧ m = k ∧ t' = s' ∧ m' = k' := by
  intro code run
  have hp := sound_parse source
  obtain ⟨hm₀, ht₀⟩ := sound_interpret_start hp settings
  have hvisits : ∀ {t m}, Visits code run settings.machine t m → m.Sound code ∧ t.Sound code m :=
    fun h => h.sound hp.code hm₀ ht₀
  have henters : ∀ {t m t' m'}, Visits code run settings.machine t m → Enters code t m t' m' →
      m'.Sound code := fun h henters => (hvisits (.step h henters.starts)).1
  have hrooted : ∀ m, Reached code run settings.machine m → m.env.Rooted := fun m h =>
    h.grows.rooted rfl ⟨_, rfl, rfl⟩ (h.sound hp.code hm₀ ht₀).env
  have hout : ∀ {t m f}, Visits code run settings.machine t m → f.index < m.env.frames.size →
      m.env.LeadsOut f := fun h hf =>
    (hvisits h).1.env.ordered.leadsOut (hrooted _ (.started h)).roots hf
  refine ⟨hrooted, fun m n f frame frame' hm hn hframe hframe' => ?_,
    fun g args span m h => ?_, fun t m t' m' _ hstarts => hstarts.enters,
    fun t m t' m' h he => ?_, fun t m t' m' s k s' k' h h' he he' =>
      he.unique h h' he' (hvisits h).1 (henters h he) (hvisits h').1 (henters h' he')⟩
  · rcases hm.total hn with hextends | hextends
    · obtain ⟨other, hother, hparent⟩ := hextends f frame hframe
      rw [hframe'] at hother
      cases hother
      exact hparent.symm
    · obtain ⟨other, hother, hparent⟩ := hextends f frame' hframe'
      rw [hframe] at hother
      cases hother
      exact hparent
  · obtain ⟨hg, hargs, -⟩ := (hvisits h).2
    exact ⟨hout h hg.closure, fun g' hg' => hout h (UserFunction.Sound.closure (hargs _ hg'))⟩
  · obtain ⟨hnone, hsome⟩ := he.frame? (henters h he)
    exact ⟨hsome, hnone, fun n hn => he.fresh h (hvisits h).1 hn⟩

/-- Two rounds of a loop, each of which makes a function that outlives it. -/
theorem run_rooted_closure :
    ∃ m, runSource ⟨some 9, .empty, .fixed 0, 60⟩
        "var f = 0; var i = 0; while (i < 2) \x7b fun g() \x7b\x7d f = g; i = i + 1; \x7d f();"
          = .finished m ∧ m.env.Rooted := by
  have hsucceeded : (runSource ⟨some 9, .empty, .fixed 0, 60⟩
      "var f = 0; var i = 0; while (i < 2) \x7b fun g() \x7b\x7d f = g; i = i + 1; \x7d f();"
        ).succeeded = true := by decide +kernel
  obtain ⟨m, hrun⟩ := RunResult.exists_of_succeeded hsucceeded
  obtain ⟨hrooted, -⟩ := run_rooted
    "var f = 0; var i = 0; while (i < 2) \x7b fun g() \x7b\x7d f = g; i = i + 1; \x7d f();"
    ⟨some 9, .empty, .fixed 0, 60⟩
  exact ⟨m, hrun, hrooted m (reached_runSource (.inl hrun))⟩

end Scriptorium
