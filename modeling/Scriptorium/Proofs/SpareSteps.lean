import Scriptorium.Proofs.Restoration
import Scriptorium.Proofs.SpareFrames

/-!
# Computations with spare frames

Two computations match when they end alike from every two machines that match, the second with
more frames than the first.  The second one may also need a larger bound than the first, so the
relation speaks of two bounds.  The first computation may be the only one that is not within its
bound if that is the smaller of the two, and the second one if its bound is less than five times
the other.  That leaves enough for the blocks that only the second computation enters: a block
around a statement takes three calls of the interpreter more than the statement alone.

* `Outcome.Matches`, `Step.Matches` — the relations;
* `Step.Matches.bind` — the relation goes through a sequence of computations, while the map of
  the frames grows;
* `Step.Matches.inNewFrame`, `Step.Matches.inSpareFrame` — a frame that both computations make,
  and a frame that only the second one makes;
* `Step.matches_define`, `Step.matches_lookup`, `Step.matches_native` — what is done to a
  machine.
-/

namespace Scriptorium

variable {B : Slice StmtId → Slice StmtId → Prop} {n n' k k' : Nat} {M : FrameMap}
  {a a' f f' : FrameId} {α β α' β' : Type}

/-- With the bounds `n` and `n'`, the computations ended alike in the active frames `a` and `a'`.
The map of the frames has grown from `M`, and in the larger one the results are related by
`R`. -/
inductive Outcome.Matches (B : Slice StmtId → Slice StmtId → Prop) (n n' : Nat) (M : FrameMap)
    (a a' : FrameId) (R : FrameMap → α → β → Prop) : Outcome α → Outcome β → Prop where
  /-- Both have a result. -/
  | done {N : FrameMap} {x : α} {y : β} {m m' : Machine} :
      M <+: N → R N x y → Machine.Matches N B a a' m m' →
      Matches B n n' M a a' R (.done x m) (.done y m')
  /-- Both went wrong. -/
  | failed {N : FrameMap} {e e' : RunError} {m m' : Machine} :
      e.Alike e' → Machine.Matches N B a a' m m' →
      Matches B n n' M a a' R (.failed e m) (.failed e' m')
  /-- Neither ended. -/
  | exhausted : Matches B n n' M a a' R .exhausted .exhausted
  /-- The first one had the smaller bound and did not end. -/
  | first {o : Outcome β} : n < n' → Matches B n n' M a a' R .exhausted o
  /-- The second one did not end. -/
  | second {o : Outcome α} : n' < 5 * n → Matches B n n' M a a' R o .exhausted

/-- From machines that match, the computations end alike. -/
def Step.Matches (B : Slice StmtId → Slice StmtId → Prop) (n n' : Nat) (M : FrameMap)
    (a a' : FrameId) (R : FrameMap → α → β → Prop) (x : Step α) (y : Step β) : Prop :=
  ∀ m m', Machine.Matches M B a a' m m' → Outcome.Matches B n n' M a a' R (x m) (y m')

variable {R : FrameMap → α → β → Prop}

/-- What matches with some bounds matches with others that excuse as much, and what matches in a
larger map of the frames matches in a smaller one. -/
theorem Outcome.Matches.imp {N : FrameMap} {o : Outcome α} {o' : Outcome β}
    (h : Outcome.Matches B k k' N a a' R o o') (hMN : M <+: N) (hfirst : k < k' → n < n')
    (hsecond : k' < 5 * k → n' < 5 * n) : Outcome.Matches B n n' M a a' R o o' := by
  cases h with
  | done hNO hR hm => exact .done (hMN.trans hNO) hR hm
  | failed he hm => exact .failed he hm
  | exhausted => exact .exhausted
  | first hlt => exact .first (hfirst hlt)
  | second hlt => exact .second (hsecond hlt)

namespace Step

variable {S : FrameMap → α' → β' → Prop} {x : Step α} {y : Step β}

theorem matches_pure {v : α} {w : β} (h : R M v w) :
    Matches B n n' M a a' R (pure v : Step α) (pure w : Step β) :=
  fun _ _ hm => .done (List.prefix_refl M) h hm

theorem matches_exhausted :
    Matches B n n' M a a' R (exhausted : Step α) (exhausted : Step β) :=
  fun _ _ _ => .exhausted

theorem matches_first (h : n < n') (y : Step β) :
    Matches B n n' M a a' R (exhausted : Step α) y :=
  fun _ _ _ => .first h

theorem matches_second (h : n' < 5 * n) (x : Step α) :
    Matches B n n' M a a' R x (exhausted : Step β) :=
  fun _ _ _ => .second h

theorem Matches.within (h : Matches B k k' M a a' R x y) (hfirst : k < k' → n < n')
    (hsecond : k' < 5 * k → n' < 5 * n) : Matches B n n' M a a' R x y :=
  fun m m' hm => (h m m' hm).imp (List.prefix_refl M) hfirst hsecond

theorem Matches.bind {f : α → Step α'} {g : β → Step β'} (hx : Matches B n n' M a a' R x y)
    (hf : ∀ {N}, M <+: N → ∀ v w, R N v w → Matches B n n' N a a' S (f v) (g w)) :
    Matches B n n' M a a' S (x >>= f) (y >>= g) := by
  intro m m' hm
  have hxm := hx m m' hm
  show Outcome.Matches B n n' M a a' S (Step.bind x f m) (Step.bind y g m')
  unfold Step.bind
  revert hxm
  generalize x m = o
  generalize y m' = o'
  rintro (⟨hMN, hR, hm⟩ | ⟨he, hm⟩ | - | hlt | hlt)
  · exact (hf hMN _ _ hR _ _ hm).imp hMN id id
  · exact .failed he hm
  · exact .exhausted
  · exact .first hlt
  · exact .second hlt

/-- What is found on both sides is bound. -/
theorem Matches.found_bind {held : Option α} {held' : Option β} {v : α} {w : β}
    {f : α → Step α'} {g : β → Step β'} (hv : held = some v) (hw : held' = some w)
    (h : Matches B n n' M a a' S (f v) (g w)) :
    Matches B n n' M a a' S (found held >>= f) (found held' >>= g) := by
  intro m m' hm
  subst hv hw
  exact h m m' hm

theorem matches_fail {e e' : RunError} (h : e.Alike e') (span span' : Span) :
    Matches B n n' M a a' R (fail e span) (fail e' span') :=
  fun _ _ hm => .failed (hm.calls.attach (h.locate span span')) hm

/-- The answer of an operator is an integer, which matches itself. -/
theorem matches_ofExcept {r r' : Except RunError Value} (h : r = r')
    (hint : ∀ v, r = .ok v → v.isInteger = true) (span span' : Span) :
    Matches B n n' M a a' (fun N => Value.Matches N B) (ofExcept r span) (ofExcept r' span') := by
  subst h
  cases r with
  | ok v => exact matches_pure (.of_isInteger (hint v rfl))
  | error e => exact matches_fail e.alike_refl span span'

/-! ## Frames and calls -/

/-- The first computation runs in a frame. -/
theorem Matches.inFirstFrame (h : Matches B n n' M f a' R x y) :
    Matches B n n' M a a' R (inFrame f x) y := by
  intro m m' hm
  have hxy := h { m with env := (m.env.enter f).2 } m'
    { hm with env := hm.env.restore f _, active := rfl }
  unfold Step.inFrame
  dsimp only
  revert hxy
  generalize x _ = o
  generalize y m' = o'
  have hactive : (m.env.enter f).1 = a := hm.active
  rw [hactive]
  rintro (⟨hMN, hR, hm⟩ | ⟨he, hm⟩ | - | hlt | hlt)
  · exact .done hMN hR { hm with env := hm.env.restore a _, active := rfl }
  · exact .failed he { hm with env := hm.env.restore a _, active := rfl }
  · exact .exhausted
  · exact .first hlt
  · exact .second hlt

/-- The second computation runs in a frame. -/
theorem Matches.inSecondFrame (h : Matches B n n' M a f' R x y) :
    Matches B n n' M a a' R x (inFrame f' y) := by
  intro m m' hm
  have hxy := h m { m' with env := (m'.env.enter f').2 }
    { hm with env := hm.env.restore _ f', active' := rfl }
  unfold Step.inFrame
  dsimp only
  revert hxy
  generalize x m = o
  generalize y _ = o'
  have hactive : (m'.env.enter f').1 = a' := hm.active'
  rw [hactive]
  rintro (⟨hMN, hR, hm⟩ | ⟨he, hm⟩ | - | hlt | hlt)
  · exact .done hMN hR { hm with env := hm.env.restore _ a', active' := rfl }
  · exact .failed he { hm with env := hm.env.restore _ a', active' := rfl }
  · exact .exhausted
  · exact .first hlt
  · exact .second hlt

theorem Matches.inFrame (h : Matches B n n' M f f' R x y) :
    Matches B n n' M a a' R (inFrame f x) (inFrame f' y) :=
  h.inSecondFrame.inFirstFrame

/-- Both computations run in a new frame. -/
theorem Matches.inNewFrame (hsees : M.Sees a a')
    (h : ∀ {N : FrameMap} {f f'}, M <+: N → N.Pairs f f' → Matches B n n' N f f' R x y) :
    Matches B n n' M a a' R (inNewFrame x) (inNewFrame y) := by
  rintro m m' ⟨henv, rfl, rfl, hcalls, hconsole, hclock, hidentity⟩
  obtain ⟨N, hMN, hpairs, hnew⟩ := henv.newFrame hsees
  rw [show Step.inNewFrame x m = Step.inFrame (m.env.newFrame (some m.env.active)).1 x
      { m with env := (m.env.newFrame (some m.env.active)).2 } from rfl,
    show Step.inNewFrame y m' = Step.inFrame (m'.env.newFrame (some m'.env.active)).1 y
      { m' with env := (m'.env.newFrame (some m'.env.active)).2 } from rfl]
  exact ((h hMN hpairs).inFrame { m with env := _ } { m' with env := _ }
    ⟨hnew, rfl, rfl, hcalls, hconsole, hclock, hidentity⟩).imp hMN id id

/-- Only the second computation runs in a new frame.  The frame is spare. -/
theorem Matches.inSpareFrame (hsees : M.Sees a a')
    (h : ∀ {N : FrameMap} {f'}, M <+: N → N.Sees a f' → Matches B n n' N a f' R x y) :
    Matches B n n' M a a' R x (Step.inNewFrame y) := by
  rintro m m' ⟨henv, rfl, rfl, hcalls, hconsole, hclock, hidentity⟩
  obtain ⟨N, hMN, hspares, hnew⟩ := henv.spareFrame hsees.lt
  rw [show Step.inNewFrame y m' = Step.inFrame (m'.env.newFrame (some m'.env.active)).1 y
      { m' with env := (m'.env.newFrame (some m'.env.active)).2 } from rfl]
  exact ((h hMN (.outwards hspares (hsees.mono hMN))).inSecondFrame m { m' with env := _ }
    ⟨hnew, rfl, rfl, hcalls, hconsole, hclock, hidentity⟩).imp hMN id id

theorem Matches.inCall {call call' : CallFrame} (hname : call.name = call'.name)
    (h : Matches B n n' M a a' R x y) :
    Matches B n n' M a a' R (inCall call x) (inCall call' y) := by
  rintro m m' hm
  unfold Step.inCall
  rw [hm.calls.limitReached?_eq]
  split
  · exact matches_fail (RunError.alike_refl _) _ _ _ _ hm
  · have hxy := h { m with calls := m.calls.add call } { m' with calls := m'.calls.add call' }
      { hm with calls := hm.calls.add hname }
    revert hxy
    generalize x _ = o
    generalize y _ = o'
    rintro (⟨hMN, hR, hm⟩ | ⟨he, hm⟩ | - | hlt | hlt)
    · exact .done hMN hR { hm with calls := hm.calls.pop }
    · exact .failed he { hm with calls := hm.calls.pop }
    · exact .exhausted
    · exact .first hlt
    · exact .second hlt

/-! ## Variables -/

/-- A name is declared in the active frames, which have to correspond. -/
theorem matches_define (hpairs : M.Pairs a a') (name : String) {v v' : Value}
    (hv : v.Matches M B v') :
    Matches B n n' M a a' (fun _ _ _ => True) (define name v) (define name v') := by
  rintro m m' ⟨henv, rfl, rfl, hcalls, hconsole, hclock, hidentity⟩
  exact .done (List.prefix_refl M) trivial
    ⟨henv.defineIn hpairs name hv, rfl, rfl, hcalls, hconsole, hclock, hidentity⟩

theorem matches_lookup (hsees : M.Sees a a') (name : String) (span span' : Span) :
    Matches B n n' M a a' (fun N => Value.Matches N B) (lookup name span)
      (lookup name span') := by
  rintro m m' ⟨henv, rfl, rfl, hcalls, hconsole, hclock, hidentity⟩
  have hm : Machine.Matches M B m.env.active m'.env.active m m' :=
    ⟨henv, rfl, rfl, hcalls, hconsole, hclock, hidentity⟩
  have hv : Option.Rel (Value.Matches M B) (m.env.lookup name) (m'.env.lookup name) :=
    henv.lookupIn hsees name
  unfold Step.lookup
  revert hv
  generalize m.env.lookup name = x
  generalize m'.env.lookup name = y
  rintro (hv | -)
  · exact .done (List.prefix_refl M) hv hm
  · exact matches_fail (RunError.alike_refl _) _ _ _ _ hm

theorem matches_assign (hsees : M.Sees a a') (name : String) {v v' : Value}
    (hv : v.Matches M B v') (span span' : Span) :
    Matches B n n' M a a' (fun N => Value.Matches N B) (assign name v span)
      (assign name v' span') := by
  rintro m m' ⟨henv, rfl, rfl, hcalls, hconsole, hclock, hidentity⟩
  have howner := henv.resolve hsees name
  unfold Step.assign
  revert howner
  generalize m.env.resolve m.env.active name = x
  generalize m'.env.resolve m'.env.active name = y
  rintro (howner | -)
  · exact .done (List.prefix_refl M) hv
      ⟨henv.defineIn howner name hv, rfl, rfl, hcalls, hconsole, hclock, hidentity⟩
  · exact matches_fail (RunError.alike_refl _) _ _ _ _
      ⟨henv, rfl, rfl, hcalls, hconsole, hclock, hidentity⟩

/-- The frame of a call is made inside frames that correspond. -/
theorem matches_newFrame {p p' : FrameId} (hp : M.Pairs p p') {bs bs' : List (String × Value)}
    (hbs : List.Forall₂ (BindingMatches M B) bs bs') :
    Matches B n n' M a a' FrameMap.Pairs (newFrame p bs) (newFrame p' bs') := by
  intro m m' hm
  obtain ⟨N, hMN, hpairs, hnew⟩ := hm.env.newFrame (.here hp)
  exact .done hMN hpairs { hm with
    env := hnew.defineAll hpairs (bindingMatches_mono hbs hMN)
    active := (Environment.active_defineAll _ _ _).trans hm.active
    active' := (Environment.active_defineAll _ _ _).trans hm.active' }

theorem matches_newFunction {make make' : FrameId → Nat → UserFunction}
    (h : ∀ i, Value.Matches M B (.user (make a i)) (.user (make' a' i))) :
    Matches B n n' M a a' (fun N => Value.Matches N B) (newFunction make)
      (newFunction make') := by
  rintro m m' ⟨henv, rfl, rfl, hcalls, hconsole, hclock, hidentity⟩
  unfold newFunction
  rw [hidentity]
  exact .done (List.prefix_refl M) (h _) ⟨henv, rfl, rfl, hcalls, hconsole, hclock, rfl⟩

/-! ## Native functions -/

theorem matches_printAll (write : Console → String → Console) {vs vs' : List Value}
    (h : List.Forall₂ (Value.Matches M B) vs vs') :
    Matches B n n' M a a' (fun N => Value.Matches N B) (printAll write vs)
      (printAll write vs') := by
  intro m m' hm
  refine .done (List.prefix_refl M) (.same rfl) { hm with console := ?_ }
  show vs.foldl _ m.console = vs'.foldl _ m'.console
  rw [hm.console]
  exact Value.Resembles.foldl_display_eq (h.imp fun _ _ => Value.Matches.resembles) write _

theorem matches_readClock :
    Matches B n n' M a a' (fun N => Value.Matches N B) readClock readClock := by
  intro m m' hm
  unfold readClock
  rw [hm.clock]
  exact .done (List.prefix_refl M) (.same rfl) { hm with clock := rfl }

/-- A native function does the same with arguments that match. -/
theorem matches_native (action : NativeAction) {vs vs' : List Value}
    (h : List.Forall₂ (Value.Matches M B) vs vs') (span span' : Span) :
    Matches B n n' M a a' (fun N => Value.Matches N B) (native action vs span)
      (native action vs' span') := by
  cases action with
  | clock => exact matches_readClock
  | print => exact matches_printAll _ h
  | println => exact matches_printAll _ h
  | zero => exact matches_pure (.same rfl)
  | firstArgument =>
    cases h with
    | nil => exact matches_pure (.same rfl)
    | cons hv _ => exact matches_pure hv
  | argumentCount =>
    unfold native
    dsimp only
    rw [h.length_eq]
    exact matches_pure (.same rfl)
  | raise error => exact matches_fail error.alike_refl _ _

end Step

end Scriptorium
