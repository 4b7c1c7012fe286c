import Scriptorium.Proofs.AlikeMachines
import Scriptorium.Proofs.FrameChanges

/-!
# Machines with spare frames

A frame without names is passed over whenever a name is looked for.  So two runs can be
compared of which the second makes more frames than the first, as long as these *spare* frames
stay empty.  A `FrameMap` says of each frame of the second run what it is: a frame that
corresponds to one of the first run, or a spare one.  It grows while the two runs go on, and
what is related by it stays related.

* `FrameMap.Pairs`, `FrameMap.Sees` — frames that correspond, and frames from which the same
  names are seen;
* `Value.Matches`, `Environment.Matches`, `Machine.Matches` — values, frames and machines that
  differ in the numbers of frames and in the spare frames only;
* `Environment.Matches.resolve` — a name is found in frames that correspond;
* `Environment.Matches.newFrame`, `Environment.Matches.spareFrame` — frames that are made in
  both runs, or in the second one only.
-/

namespace Scriptorium

/-! ## Frames that correspond -/

/-- What a frame of the second run is. -/
inductive FrameRole where
  /-- It corresponds to a frame of the first run. -/
  | frame (f : FrameId)
  /-- It is spare: an empty frame inside another. -/
  | spare (parent : FrameId)

/-- What the frames of the second run are, in the order of their numbers. -/
abbrev FrameMap := List FrameRole

namespace FrameMap

variable {M N : FrameMap} {a f f' p : FrameId}

/-- The frames of the two runs correspond to each other. -/
def Pairs (M : FrameMap) (f f' : FrameId) : Prop := M[f'.index]? = some (.frame f)

/-- The frame of the second run is spare and stands inside the other one. -/
def Spares (M : FrameMap) (f' p : FrameId) : Prop := M[f'.index]? = some (.spare p)

/-- Out of a frame of the second run one comes, through spare frames only, to the one that
corresponds to `a`. -/
inductive Sees (M : FrameMap) (a : FrameId) : FrameId → Prop where
  /-- They correspond. -/
  | here {f' : FrameId} : M.Pairs a f' → Sees M a f'
  /-- A spare frame is left. -/
  | outwards {f' p : FrameId} : M.Spares f' p → Sees M a p → Sees M a f'

theorem mono_getElem? (h : M <+: N) {i : Nat} {role : FrameRole} (hi : M[i]? = some role) :
    N[i]? = some role := by
  obtain ⟨more, rfl⟩ := h
  rw [List.getElem?_append_left (List.getElem?_eq_some_iff.1 hi).1, hi]

theorem Pairs.mono (h : M.Pairs f f') (hMN : M <+: N) : N.Pairs f f' := mono_getElem? hMN h

theorem Sees.mono (h : M.Sees a f') (hMN : M <+: N) : N.Sees a f' := by
  induction h with
  | here h => exact .here (h.mono hMN)
  | outwards h _ ih => exact .outwards (mono_getElem? hMN h) ih

theorem Sees.exists_pairs (h : M.Sees a f') : ∃ g, M.Pairs a g := by
  induction h with
  | here h => exact ⟨_, h⟩
  | outwards _ _ ih => exact ih

theorem Sees.lt (h : M.Sees a f') : f'.index < M.length := by
  cases h with
  | here h => exact (List.getElem?_eq_some_iff.1 h).1
  | outwards h _ => exact (List.getElem?_eq_some_iff.1 h).1

/-- The frame that is made last is the only one more. -/
theorem getElem?_concat {role role' : FrameRole} {i : Nat}
    (h : (M ++ [role])[i]? = some role') :
    M[i]? = some role' ∨ i = M.length ∧ role' = role := by
  rcases Nat.lt_trichotomy i M.length with hi | rfl | hi
  · exact .inl (by rwa [List.getElem?_append_left hi] at h)
  · rw [List.getElem?_concat_length, Option.some.injEq] at h
    exact .inr ⟨rfl, h.symm⟩
  · rw [List.getElem?_eq_none (by simp; omega)] at h
    cases h

end FrameMap

variable {M N : FrameMap} {B : Slice StmtId → Slice StmtId → Prop}

/-! ## Values -/

/-- Is the value a function that was declared? -/
def Value.isDeclared : Value → Bool
  | .user _ => true
  | _ => false

/-- The values are the same, but for declared functions: these were made in frames that
correspond, and have related bodies. -/
inductive Value.Matches (M : FrameMap) (B : Slice StmtId → Slice StmtId → Prop) :
    Value → Value → Prop where
  /-- No declared functions. -/
  | same {v : Value} : v.isDeclared = false → Matches M B v v
  /-- Declared functions. -/
  | user {f g : UserFunction} :
      f.name = g.name → f.params = g.params → M.Pairs f.closure g.closure →
      f.identity = g.identity → B f.body g.body → Matches M B (.user f) (.user g)

namespace Value.Matches

variable {v w : Value}

theorem mono (h : v.Matches M B w) (hMN : M <+: N) : v.Matches N B w := by
  cases h with
  | same h => exact .same h
  | user hname hparams hclosure hidentity hbody =>
    exact .user hname hparams (hclosure.mono hMN) hidentity hbody

theorem resembles (h : v.Matches M B w) : v.Resembles w := by
  cases h with
  | same => exact .same v
  | user hname hparams => exact .user hname hparams

theorem of_isInteger (h : v.isInteger = true) : v.Matches M B v := by
  refine .same ?_
  cases v with
  | user => simp [isInteger, toInt?] at h
  | _ => rfl

end Value.Matches

/-! ## Frames -/

/-- The names are the same and their values match. -/
def BindingMatches (M : FrameMap) (B : Slice StmtId → Slice StmtId → Prop)
    (b b' : String × Value) : Prop :=
  b.1 = b'.1 ∧ b.2.Matches M B b'.2

theorem bindingMatches_mono {bs bs' : List (String × Value)}
    (h : List.Forall₂ (BindingMatches M B) bs bs') (hMN : M <+: N) :
    List.Forall₂ (BindingMatches N B) bs bs' :=
  h.imp fun _ _ ⟨hname, hv⟩ => ⟨hname, hv.mono hMN⟩

/-- The frames `fr` and `fr'`, with the numbers `f` and `f'`, hold the same names with values
that match.  Seen from the frames around them, which were made before, the names are the
same. -/
structure Frame.Matches (M : FrameMap) (B : Slice StmtId → Slice StmtId → Prop) (f f' : FrameId)
    (fr fr' : Frame) : Prop where
  bindings : List.Forall₂ (BindingMatches M B) fr.bindings fr'.bindings
  parent : Option.Rel (fun p p' => M.Sees p p' ∧ p.index < f.index ∧ p'.index < f'.index)
    fr.parent fr'.parent

namespace Frame.Matches

variable {f f' : FrameId} {fr fr' : Frame}

theorem mono (h : Frame.Matches M B f f' fr fr') (hMN : M <+: N) :
    Frame.Matches N B f f' fr fr' := by
  obtain ⟨hbindings, hparent⟩ := h
  refine ⟨bindingMatches_mono hbindings hMN, ?_⟩
  revert hparent
  generalize fr.parent = x
  generalize fr'.parent = y
  rintro (⟨hsees, hlt⟩ | -)
  · exact .some ⟨hsees.mono hMN, hlt⟩
  · exact .none

theorem get? (h : Frame.Matches M B f f' fr fr') (name : String) :
    Option.Rel (Value.Matches M B) (fr.get? name) (fr'.get? name) :=
  rel_lookup h.bindings name

theorem binds_eq (h : Frame.Matches M B f f' fr fr') (name : String) :
    fr.binds name = fr'.binds name :=
  rel_isSome_eq (h.get? name)

theorem set (h : Frame.Matches M B f f' fr fr') (name : String) {v v' : Value}
    (hv : v.Matches M B v') : Frame.Matches M B f f' (fr.set name v) (fr'.set name v') :=
  ⟨rel_setBinding h.bindings name hv, h.parent⟩

end Frame.Matches

/-! ## Environments -/

/-- The frame map says what the frames of the second environment are.  Each frame of the first
one corresponds to at most one of them, and the global frames correspond. -/
structure Environment.Matches (M : FrameMap) (B : Slice StmtId → Slice StmtId → Prop)
    (env env' : Environment) : Prop where
  size : env'.frames.size = M.length
  global : M.Pairs .global .global
  unique : ∀ {f g g'}, M.Pairs f g → M.Pairs f g' → g = g'
  frames : ∀ {f f'}, M.Pairs f f' → ∃ fr fr', env.frame? f = some fr ∧ env'.frame? f' = some fr' ∧
    Frame.Matches M B f f' fr fr'
  spares : ∀ {f' p}, M.Spares f' p → env'.frame? f' = some ⟨some p, []⟩ ∧ p.index < f'.index

namespace Environment.Matches

variable {env env' : Environment} {a a' f f' p p' : FrameId} {v v' : Value}

theorem lt (h : Environment.Matches M B env env') (hf : M.Pairs f f') :
    f.index < env.frames.size := by
  obtain ⟨fr, -, hfr, -⟩ := h.frames hf
  exact (Array.getElem?_eq_some_iff.1 hfr).1

/-- A name is found in frames that correspond, or in none. -/
theorem resolve (h : Environment.Matches M B env env') (ha : M.Sees a a') (name : String) :
    Option.Rel M.Pairs (env.resolve a name) (env'.resolve a' name) := by
  unfold Environment.resolve
  have hsteps : ∀ (steps' steps : Nat) {a a' : FrameId}, M.Sees a a' → a.index < steps →
      a'.index < steps' →
      Option.Rel M.Pairs (env.resolveFrom name steps a) (env'.resolveFrom name steps' a') := by
    intro steps'
    induction steps' with
    | zero => exact fun _ _ _ _ _ h => absurd h (Nat.not_lt_zero _)
    | succ steps' ih =>
      intro steps a a' ha hsteps hsteps'
      cases ha with
      | outwards hspare hsees =>
        -- a spare frame binds nothing
        obtain ⟨hframe, hlt⟩ := h.spares hspare
        rw [resolveFrom.eq_2, hframe]
        exact ih steps hsees hsteps (by omega)
      | here hpairs =>
        obtain ⟨steps, rfl⟩ : ∃ k, steps = k + 1 := ⟨steps - 1, by omega⟩
        obtain ⟨fr, fr', hfr, hfr', hmatches⟩ := h.frames hpairs
        rw [resolveFrom, resolveFrom, hfr, hfr']
        dsimp only
        rw [hmatches.binds_eq]
        split
        · exact .some hpairs
        · have hparent := hmatches.parent
          revert hparent
          generalize fr.parent = x
          generalize fr'.parent = y
          rintro (⟨hsees, hlt, hlt'⟩ | -)
          · exact ih steps hsees (by omega) (by omega)
          · exact .none
  exact hsteps _ _ ha (Nat.lt_succ_self _) (Nat.lt_succ_self _)

theorem lookupIn (h : Environment.Matches M B env env') (ha : M.Sees a a') (name : String) :
    Option.Rel (Value.Matches M B) (env.lookupIn a name) (env'.lookupIn a' name) := by
  have howner := h.resolve ha name
  unfold Environment.lookupIn
  revert howner
  generalize env.resolve a name = x
  generalize env'.resolve a' name = y
  rintro (hpairs | -)
  · obtain ⟨fr, fr', hfr, hfr', hmatches⟩ := h.frames hpairs
    simp only [Option.bind_eq_bind, Option.bind_some, hfr, hfr']
    exact hmatches.get? name
  · exact .none

/-- A name is declared in frames that correspond. -/
theorem defineIn (h : Environment.Matches M B env env') (hf : M.Pairs f f') (name : String)
    (hv : v.Matches M B v') :
    Environment.Matches M B (env.defineIn f name v) (env'.defineIn f' name v') := by
  refine ⟨by simp [Environment.defineIn, h.size], h.global, h.unique, fun {g g'} hg => ?_,
    fun {g' p} hg => ?_⟩
  · obtain ⟨fr, fr', hfr, hfr', hmatches⟩ := h.frames hg
    rw [Environment.frame?_defineIn, Environment.frame?_defineIn, hfr, hfr']
    by_cases hsame : g = f
    · subst hsame
      obtain rfl := h.unique hf hg
      exact ⟨_, _, by simp, by simp, hmatches.set name hv⟩
    · have hother : g' ≠ f' := by
        rintro rfl
        have hrole : some (FrameRole.frame f) = some (.frame g) := hf.symm.trans hg
        cases hrole
        exact hsame rfl
      exact ⟨fr, fr', by simp [hsame], by simp [hother], hmatches⟩
  · obtain ⟨hframe, hlt⟩ := h.spares hg
    have hother : g' ≠ f' := by
      rintro rfl
      have hrole : some (FrameRole.frame f) = some (.spare p) := hf.symm.trans hg
      cases hrole
    rw [Environment.frame?_defineIn, if_neg hother]
    exact ⟨hframe, hlt⟩

/-- Declaring names one after the other. -/
theorem defineAll (h : Environment.Matches M B env env') (hf : M.Pairs f f')
    {bs bs' : List (String × Value)} (hbs : List.Forall₂ (BindingMatches M B) bs bs') :
    Environment.Matches M B (bs.foldl (fun env b => env.defineIn f b.1 b.2) env)
      (bs'.foldl (fun env b => env.defineIn f' b.1 b.2) env') := by
  induction hbs generalizing env env' with
  | nil => exact h
  | cons hb _ ih =>
    obtain ⟨hname, hv⟩ := hb
    rw [List.foldl_cons, List.foldl_cons, hname]
    exact ih (h.defineIn hf _ hv)

theorem kept_newFrame {env : Environment} {f : FrameId} {fr : Frame} (parent : Option FrameId)
    (h : env.frame? f = some fr) : (env.newFrame parent).2.frame? f = some fr := by
  have hlt := (Array.getElem?_eq_some_iff.1 h).1
  rw [Environment.frame?_newFrame, if_neg (Nat.ne_of_lt hlt), h]

theorem made_newFrame (env : Environment) (parent : Option FrameId) :
    (env.newFrame parent).2.frame? (env.newFrame parent).1 = some ⟨parent, []⟩ := by
  rw [Environment.frame?_newFrame]
  exact if_pos rfl

theorem restore (h : Environment.Matches M B env env') (f f' : FrameId) :
    Environment.Matches M B (env.restore f) (env'.restore f') :=
  ⟨h.size, h.global, h.unique, h.frames, h.spares⟩

/-- A frame is made in both runs, inside frames from which the same names are seen. -/
theorem newFrame (h : Environment.Matches M B env env') (hp : M.Sees p p') :
    ∃ N : FrameMap, M <+: N ∧ N.Pairs (env.newFrame (some p)).1 (env'.newFrame (some p')).1 ∧
      Environment.Matches N B (env.newFrame (some p)).2 (env'.newFrame (some p')).2 := by
  have hM : M <+: M ++ [.frame (env.newFrame (some p)).1] := List.prefix_append _ _
  refine ⟨_, hM, by simp [FrameMap.Pairs, Environment.newFrame, h.size],
    by simp [Environment.newFrame, h.size], h.global.mono hM, fun {f g g'} hg hg' => ?_,
    fun {f f'} hf => ?_, fun {f' q} hf => ?_⟩
  · rcases FrameMap.getElem?_concat hg with hg | ⟨hi, hrole⟩ <;>
      rcases FrameMap.getElem?_concat hg' with hg' | ⟨hi', hrole'⟩
    · exact h.unique hg hg'
    · cases hrole'
      exact absurd (h.lt hg) (Nat.lt_irrefl _)
    · cases hrole
      exact absurd (h.lt hg') (Nat.lt_irrefl _)
    · cases g
      cases g'
      exact congrArg FrameId.mk (hi.trans hi'.symm)
  · rcases FrameMap.getElem?_concat hf with hf | ⟨hi, hrole⟩
    · obtain ⟨fr, fr', hfr, hfr', hmatches⟩ := h.frames hf
      exact ⟨fr, fr', kept_newFrame _ hfr, kept_newFrame _ hfr', hmatches.mono hM⟩
    · cases hrole
      obtain rfl : f' = (env'.newFrame (some p')).1 := by
        cases f'
        exact congrArg FrameId.mk (hi.trans h.size.symm)
      obtain ⟨g, hpairs⟩ := hp.exists_pairs
      exact ⟨_, _, made_newFrame _ _, made_newFrame _ _, .nil,
        .some ⟨hp.mono hM, h.lt hpairs, Nat.lt_of_lt_of_eq hp.lt h.size.symm⟩⟩
  · rcases FrameMap.getElem?_concat hf with hf | ⟨-, hrole⟩
    · exact ⟨kept_newFrame _ (h.spares hf).1, (h.spares hf).2⟩
    · cases hrole

/-- A frame is made in the second run only. -/
theorem spareFrame (h : Environment.Matches M B env env') (hp : p'.index < M.length) :
    ∃ N : FrameMap, M <+: N ∧ N.Spares (env'.newFrame (some p')).1 p' ∧
      Environment.Matches N B env (env'.newFrame (some p')).2 := by
  have hM : M <+: M ++ [.spare p'] := List.prefix_append _ _
  have hold {f g : FrameId} (hg : FrameMap.Pairs (M ++ [.spare p']) f g) : M.Pairs f g := by
    rcases FrameMap.getElem?_concat hg with hg | ⟨-, hrole⟩
    · exact hg
    · cases hrole
  refine ⟨_, hM, by simp [FrameMap.Spares, Environment.newFrame, h.size],
    by simp [Environment.newFrame, h.size], h.global.mono hM,
    fun {f g g'} hg hg' => h.unique (hold hg) (hold hg'), fun {f f'} hf => ?_,
    fun {f' q} hf => ?_⟩
  · obtain ⟨fr, fr', hfr, hfr', hmatches⟩ := h.frames (hold hf)
    exact ⟨fr, fr', hfr, kept_newFrame _ hfr', hmatches.mono hM⟩
  · rcases FrameMap.getElem?_concat hf with hf | ⟨hi, hrole⟩
    · exact ⟨kept_newFrame _ (h.spares hf).1, (h.spares hf).2⟩
    · cases hrole
      obtain rfl : f' = (env'.newFrame (some p')).1 := by
        cases f'
        exact congrArg FrameId.mk (hi.trans h.size.symm)
      exact ⟨made_newFrame _ _, Nat.lt_of_lt_of_eq hp h.size.symm⟩

end Environment.Matches

/-! ## Machines -/

/-- The frames `a` and `a'` are active, and the machines differ only in their frames and in what
a program cannot observe. -/
structure Machine.Matches (M : FrameMap) (B : Slice StmtId → Slice StmtId → Prop)
    (a a' : FrameId) (m m' : Machine) : Prop where
  env : Environment.Matches M B m.env m'.env
  active : m.env.active = a
  active' : m'.env.active = a'
  calls : m.calls.Alike m'.calls
  console : m.console = m'.console
  clock : m.clock = m'.clock
  nextIdentity : m.nextIdentity = m'.nextIdentity

/-- The map of the frames before a run. -/
def FrameMap.start : FrameMap := [.frame .global]

theorem FrameMap.start_pairs : FrameMap.start.Pairs .global .global := rfl

theorem Environment.matches_empty : Environment.Matches .start B .empty .empty := by
  have hpairs {f f' : FrameId} (h : FrameMap.start.Pairs f f') : f = .global ∧ f' = .global := by
    obtain ⟨_ | i⟩ := f'
    · cases h
      exact ⟨rfl, rfl⟩
    · cases h
  refine ⟨rfl, FrameMap.start_pairs, fun h h' => (hpairs h).2.trans (hpairs h').2.symm, fun h => ?_,
    fun {f' p} h => ?_⟩
  · obtain ⟨rfl, rfl⟩ := hpairs h
    exact ⟨_, _, rfl, rfl, .nil, .none⟩
  · obtain ⟨_ | i⟩ := f'
    · cases h
    · cases h

/-- At the start there are only functions that are provided. -/
theorem Machine.matches_start (limit : Option Nat) (console : Console) (clock : Clock) :
    Machine.Matches .start B .global .global (.start limit console clock)
      (.start limit console clock) := by
  refine ⟨?_, rfl, rfl, ⟨rfl, rfl⟩, rfl, rfl, rfl⟩
  have hfold : ∀ (fs : List NativeFunction) (env : Environment),
      Environment.Matches .start B env env →
      Environment.Matches .start B (fs.foldl (fun env f => env.defineGlobal f.name (.native f)) env)
        (fs.foldl (fun env f => env.defineGlobal f.name (.native f)) env) := by
    intro fs
    induction fs with
    | nil => exact fun _ h => h
    | cons f fs ih => exact fun env h => ih _ (h.defineIn h.global _ (.same rfl))
  exact hfold prelude _ Environment.matches_empty

/-- Every global variable is displayed the same. -/
theorem Machine.Matches.display_global {a a' : FrameId} {m m' : Machine}
    (h : Machine.Matches M B a a' m m') (name : String) :
    (m.env.global? name).map Value.display = (m'.env.global? name).map Value.display := by
  have hglobal : Option.Rel (Value.Matches M B) (m.env.global? name) (m'.env.global? name) :=
    h.env.lookupIn (.here h.env.global) name
  revert hglobal
  generalize m.env.global? name = x
  generalize m'.env.global? name = y
  rintro (hv | -)
  · simp [hv.resembles.display_eq]
  · rfl

end Scriptorium
