import Scriptorium.Proofs.CallLimit
import Scriptorium.Proofs.FrameChanges

/-!
# Declarations stay in their frame

A variable or a function is declared in the frame that is active, and nothing else adds a
name to a frame.  Expressions, blocks and loops leave the frames that were there before
with the names that they had: what they declare, they declare in frames of their own.  Any
other statement adds to the active frame at most the name of the declaration that it comes
to through branches.

* `Task.Scoped` — the tasks that declare nothing in the active frame;
* `Branches` — the statements that a statement comes to through branches;
* `declarations_contained` — which frames gain which names.
-/

namespace Scriptorium

variable {α β : Type} {code : Code} {fuel : Nat}

/-! ## The tasks that declare -/

/-- The statement carries out others, and those in frames of their own. -/
def StmtKind.Scoped : StmtKind → Prop
  | .block _ | .loop .. => True
  | .expression _ | .declare .. | .branch .. | .function .. | .ret _ => False

/-- The task declares nothing in the active frame. -/
def Task.Scoped (code : Code) : Task → Prop
  | .evaluate _ | .evaluateAll _ | .call .. | .callUser .. | .executeLoop .. => True
  | .execute id => ∃ node, code.arena.stmt? id = some node ∧ node.kind.Scoped
  | .executeBlock _ | .executeAll _ | .interpret _ => False

/-- Such a task starts tasks that declare nothing in the active frame either, and others
only in a new frame. -/
theorem Starts.scoped {t t' : Task} {m m' : Machine} (h : Starts code t m t' m')
    (ht : t.Scoped code) : t'.Scoped code ∨ m.env.frames.size ≤ m'.env.active.index := by
  have hkind : ∀ {id kind span}, code.arena.stmt? id = some ⟨kind, span⟩ →
      (Task.execute id).Scoped code → kind.Scoped := by
    rintro id kind span hnode ⟨node, hnode', hscoped⟩
    rw [hnode] at hnode'
    cases hnode'
    exact hscoped
  cases h with
  | operand | binaryRight | logicalRight | arguments | call | headExpr | tailExprs | user
  | expression | condition | again | loop => exact .inl trivial
  | body | block => exact .inr (Nat.le_refl _)
  | round h₁ => exact .inr (((restoresAll code _).evaluate _).of_done h₁).frames.size_le
  | thenBranch hnode => exact (hkind hnode ht).elim
  | elseBranch hnode => exact (hkind hnode ht).elim
  | statements | headStmt | tailStmts | headTop | tailTop => exact ht.elim

/-- What is come to in a new frame declares nothing in the frames that were there. -/
theorem Visits.scoped {t t' : Task} {m m' : Machine} (h : Visits code t m t' m')
    (ht : t.Scoped code) : t'.Scoped code ∨ m.env.frames.size ≤ m'.env.active.index := by
  induction h with
  | start => exact .inl ht
  | step hvisits hstarts ih =>
    have hsize := hvisits.grows.extends_frames.size_le
    rcases ih with hscoped | hnew
    · exact (hstarts.scoped hscoped).imp_right (Nat.le_trans hsize)
    · rcases hstarts.active with hactive | hnewer
      · exact .inr (by rw [hactive]; exact hnew)
      · exact .inr (Nat.le_trans hsize hnewer)

theorem Task.Scoped.not_declares {t : Task} {m : Machine} {f : FrameId} {name : String}
    (ht : t.Scoped code) : ¬ t.Declares code m f name := by
  intro hdeclares
  cases hdeclares with
  | statement hintroduces =>
    obtain ⟨node, n, hnode, hdeclared, -⟩ := hintroduces
    obtain ⟨node', hnode', hscoped⟩ := ht
    rw [hnode] at hnode'
    cases hnode'
    cases hkind : node.kind <;>
      simp [hkind, StmtKind.declared?, StmtKind.Scoped] at hdeclared hscoped

/-- Such a task leads to no declaration in a frame that was there. -/
theorem Task.Scoped.not_leadsToDeclare {t : Task} {m : Machine} {f : FrameId} {name : String}
    (ht : t.Scoped code) (hf : m.env.frame? f ≠ none) : ¬ t.LeadsToDeclare code m f name := by
  rintro ⟨t', m', hvisits, hdeclares⟩
  rcases hvisits.scoped ht with hscoped | hnew
  · exact hscoped.not_declares hdeclares
  · have hlt : f.index < m.env.frames.size :=
      Environment.frame?_eq_some_iff.1 (Option.ne_none_iff_exists'.1 hf)
    cases hdeclares
    omega

/-- The statements that a statement comes to through branches only: nothing else makes a
statement start another one. -/
inductive Branches (code : Code) (id : StmtId) (m : Machine) : StmtId → Machine → Prop where
  /-- The statement itself. -/
  | start : Branches code id m id m
  /-- One more branch. -/
  | step {id' id'' : StmtId} {m' m'' : Machine} :
      Branches code id m id' m' → Starts code (.execute id') m' (.execute id'') m'' →
      Branches code id m id'' m''

theorem Branches.active {id id' : StmtId} {m m' : Machine} (h : Branches code id m id' m') :
    m'.env.active = m.env.active := by
  induction h with
  | start => rfl
  | step _ hstarts ih =>
    cases hstarts with
    | thenBranch _ h₁ =>
      rw [← ih]
      exact (((restoresAll code _).evaluate _).of_done h₁).active
    | elseBranch _ h₁ =>
      rw [← ih]
      exact (((restoresAll code _).evaluate _).of_done h₁).active

/-- A statement comes to others through branches, to tasks that declare nothing in the
active frame, and to tasks in new frames. -/
theorem Visits.branches {id : StmtId} {t : Task} {m m' : Machine}
    (h : Visits code (.execute id) m t m') :
    (∃ id', t = .execute id' ∧ Branches code id m id' m') ∨ t.Scoped code ∨
      m.env.frames.size ≤ m'.env.active.index := by
  induction h with
  | start => exact .inl ⟨id, rfl, .start⟩
  | step hvisits hstarts ih =>
    have hsize := hvisits.grows.extends_frames.size_le
    rcases ih with ⟨id', rfl, hbranches⟩ | hscoped | hnew
    · cases hstarts with
      | expression | loop => exact .inr (.inl trivial)
      | block => exact .inr (.inr hsize)
      | thenBranch hnode h₁ htrue =>
        exact .inl ⟨_, rfl, .step hbranches (.thenBranch hnode h₁ htrue)⟩
      | elseBranch hnode h₁ hinteger htrue =>
        exact .inl ⟨_, rfl, .step hbranches (.elseBranch hnode h₁ hinteger htrue)⟩
    · exact .inr ((hstarts.scoped hscoped).imp_right (Nat.le_trans hsize))
    · rcases hstarts.active with hactive | hnewer
      · exact .inr (.inr (by rw [hactive]; exact hnew))
      · exact .inr (.inr (Nat.le_trans hsize hnewer))

/-- What a statement declares in a frame that was there is what it comes to through
branches, and the frame is the active one. -/
theorem branches_of_leadsToDeclare {id : StmtId} {m : Machine} {f : FrameId} {name : String}
    (hf : m.env.frame? f ≠ none) (h : (Task.execute id).LeadsToDeclare code m f name) :
    f = m.env.active ∧ ∃ id' m', Branches code id m id' m' ∧ code.Introduces id' name := by
  obtain ⟨t, m', hvisits, hdeclares⟩ := h
  rcases hvisits.branches with ⟨id', rfl, hbranches⟩ | hscoped | hnew
  · cases hdeclares with
    | statement hname => exact ⟨hbranches.active, id', m', hbranches, hname⟩
  · exact absurd hdeclares hscoped.not_declares
  · have hlt : f.index < m.env.frames.size :=
      Environment.frame?_eq_some_iff.1 (Option.ne_none_iff_exists'.1 hf)
    cases hdeclares
    omega

/-! ## Declarations that were carried out -/

/-- A computation in two parts has a result if both parts have one. -/
theorem Step.bind_eq_done {x : Step α} {f : α → Step β} {m m' : Machine} {b : β} :
    (x >>= f) m = .done b m' ↔ ∃ a m₁, x m = .done a m₁ ∧ f a m₁ = .done b m' := by
  show Step.bind x f m = .done b m' ↔ _
  unfold Step.bind
  cases x m <;> simp

theorem Step.found_bind_eq_done {held : Option α} {f : α → Step β} {m m' : Machine} {b : β} :
    (Step.found held >>= f) m = .done b m' ↔ ∃ a, held = some a ∧ f a m = .done b m' := by
  cases held with
  | none => exact ⟨(nomatch ·), fun ⟨_, h, _⟩ => nomatch h⟩
  | some a =>
    refine ⟨fun h => ⟨a, rfl, h⟩, ?_⟩
    rintro ⟨_, ⟨⟩, hdone⟩
    exact hdone

/-- A statement that ends has carried out the branch that it comes to. -/
theorem Starts.execute_branch {id id' : StmtId} {m m' m'' : Machine} {c : Completion}
    (h : Starts code (.execute id) m (.execute id') m')
    (hdone : execute code fuel id m = .done c m'') :
    ∃ fuel', execute code fuel' id' m' = .done c m'' := by
  cases fuel with
  | zero => cases hdone
  | succ fuel =>
    rw [execute] at hdone
    obtain ⟨node, hnode', hdone⟩ := Step.found_bind_eq_done.1 hdone
    cases h with
    | thenBranch hnode hv htrue =>
      rw [hnode] at hnode'
      cases hnode'
      obtain ⟨v', m₁, hv', hdone⟩ := Step.bind_eq_done.1 hdone
      obtain ⟨rfl, rfl⟩ := evaluate_unique hv hv'
      obtain ⟨b, m₂, hb, hdone⟩ := Step.bind_eq_done.1 hdone
      obtain ⟨-, rfl, rfl⟩ := TracesAll.truthOf_done hb
      rw [htrue] at hdone
      exact ⟨fuel, hdone⟩
    | elseBranch hnode hv hinteger htrue =>
      rw [hnode] at hnode'
      cases hnode'
      obtain ⟨v', m₁, hv', hdone⟩ := Step.bind_eq_done.1 hdone
      obtain ⟨rfl, rfl⟩ := evaluate_unique hv hv'
      obtain ⟨b, m₂, hb, hdone⟩ := Step.bind_eq_done.1 hdone
      obtain ⟨-, rfl, rfl⟩ := TracesAll.truthOf_done hb
      rw [htrue] at hdone
      exact ⟨fuel, hdone⟩

theorem Branches.execute_branch {id id' : StmtId} {m m' m'' : Machine} {c : Completion}
    (h : Branches code id m id' m') (hdone : execute code fuel id m = .done c m'') :
    ∃ fuel', execute code fuel' id' m' = .done c m'' := by
  induction h with
  | start => exact ⟨fuel, hdone⟩
  | step _ hstarts ih =>
    obtain ⟨fuel', hdone'⟩ := ih
    exact hstarts.execute_branch hdone'

/-- A declaration that ends has declared its name. -/
theorem Code.Introduces.binds {id : StmtId} {name : String} {m m' : Machine} {c : Completion}
    (h : code.Introduces id name) (hdone : execute code fuel id m = .done c m') {frame : Frame}
    (hframe : m'.env.frame? m.env.active = some frame) : frame.binds name = true := by
  obtain ⟨⟨kind, span⟩, n, hnode, hdeclared, hname⟩ := h
  have hdefined : ∀ {value : Value} {m₁ : Machine}, m₁.env.active = m.env.active →
      m'.env = m₁.env.define name value → frame.binds name = true := by
    intro value m₁ hactive henv
    rw [henv, Environment.define, hactive, Environment.frame?_defineIn, if_pos rfl] at hframe
    obtain ⟨old, -, rfl⟩ := Option.map_eq_some_iff.1 hframe
    simp [Frame.binds_set]
  cases fuel with
  | zero => cases hdone
  | succ fuel =>
    rw [execute] at hdone
    obtain ⟨node, hnode', hdone⟩ := Step.found_bind_eq_done.1 hdone
    rw [hnode] at hnode'
    cases hnode'
    cases kind with
    | declare n' init =>
      cases hdeclared
      have hdefine : ∀ {value : Value} {m₁ : Machine}, m₁.env.active = m.env.active → ((do
          let name ← Step.found (code.names.text? n)
          Step.define name value
          Step.pure Completion.normal : Step Completion) m₁) = .done c m' →
          frame.binds name = true := by
        intro value m₁ hactive hdone
        obtain ⟨text, htext, hdone⟩ := Step.found_bind_eq_done.1 hdone
        rw [hname] at htext
        cases htext
        cases hdone
        exact hdefined hactive rfl
      cases init with
      | none => exact hdefine rfl hdone
      | some x =>
        obtain ⟨value, m₁, hvalue, hdone⟩ := Step.bind_eq_done.1 hdone
        exact hdefine (((restoresAll code fuel).evaluate x).of_done hvalue).active hdone
    | function n' params body =>
      cases hdeclared
      obtain ⟨text, htext, hdone⟩ := Step.found_bind_eq_done.1 hdone
      rw [hname] at htext
      cases htext
      obtain ⟨ids, -, hdone⟩ := Step.found_bind_eq_done.1 hdone
      obtain ⟨texts, -, hdone⟩ := Step.found_bind_eq_done.1 hdone
      cases hdone
      exact hdefined rfl rfl
    | expression | block | branch | loop | ret => cases hdeclared

/-! ## The main result -/

/-- Every frame that was there holds the names that it held, and where it changed a value, a
task that was come to assigns to the name in this frame. -/
def Outcome.KeepsNames (code : Code) (t : Task) (m : Machine) (o : Outcome α) : Prop :=
  o.Leaves fun m' => ∀ f frame, m.env.frame? f = some frame →
    ∃ frame', m'.env.frame? f = some frame' ∧ frame'.names = frame.names ∧
      ∀ name, frame'.get? name ≠ frame.get? name → t.LeadsToAssign code m f name

theorem Outcome.Evolves.keepsNames {t : Task} {m : Machine} {o : Outcome α}
    (h : o.Evolves code t m m) (ht : t.Scoped code) : o.KeepsNames code t m := by
  refine h.imp fun m' hevolves f frame hframe => ?_
  have hnone : ∀ name, ¬ t.LeadsToDeclare code m f name := fun name =>
    ht.not_leadsToDeclare (by simp [hframe])
  obtain ⟨frame', hframe', hsame⟩ := hevolves.kept f frame hframe
  obtain ⟨added, hnames, hadded⟩ := hsame.names
  have hadded : added = [] :=
    List.eq_nil_iff_forall_not_mem.2 fun name hname => hnone name (hadded name hname)
  refine ⟨frame', hframe', ?_, fun name hname => ?_⟩
  · rw [hnames, hadded, List.append_nil]
  · exact (hsame.values name hname).resolve_left (hnone name)

/-- However they end and whatever the machine is, expressions, blocks and loops leave every
frame that was there with the names that it held, and change its values by assignments only.
Any other statement adds names to no frame but the active one, and these are names of the
declarations that it comes to through branches; if it ends without an error, all of them
are in the frame. -/
theorem declarations_contained (code : Code) (fuel : Nat) (m : Machine) :
    (∀ id, (evaluate code fuel id m).KeepsNames code (.evaluate id) m) ∧
    (∀ id node, code.arena.stmt? id = some node → node.kind.Scoped →
      (execute code fuel id m).KeepsNames code (.execute id) m) ∧
    (∀ id, (execute code fuel id m).Leaves fun m' => ∀ f frame, m.env.frame? f = some frame →
      ∃ frame' added, m'.env.frame? f = some frame' ∧ frame'.names = frame.names ++ added ∧
        ∀ name ∈ added, f = m.env.active ∧
          ∃ id' m₁, Branches code id m id' m₁ ∧ code.Introduces id' name) ∧
    ∀ id c m' id' m₁ name frame, execute code fuel id m = .done c m' →
      Branches code id m id' m₁ → code.Introduces id' name →
      m'.env.frame? m.env.active = some frame → frame.binds name = true := by
  have hall := evolvesAll code fuel
  refine ⟨fun id => (hall.evaluate id m).keepsNames trivial, fun id node hnode hscoped =>
    (hall.execute id m).keepsNames ⟨node, hnode, hscoped⟩, fun id => ?_, ?_⟩
  · refine (hall.execute id m).imp fun m' hevolves f frame hframe => ?_
    obtain ⟨frame', hframe', hsame⟩ := hevolves.kept f frame hframe
    obtain ⟨added, hnames, hadded⟩ := hsame.names
    refine ⟨frame', added, hframe', hnames, fun name hname => ?_⟩
    exact branches_of_leadsToDeclare (by simp [hframe]) (hadded name hname)
  · intro id c m' id' m₁ name frame hdone hbranches hname hframe
    obtain ⟨fuel', hdone'⟩ := hbranches.execute_branch hdone
    rw [← hbranches.active] at hframe
    exact hname.binds hdone' hframe

/-- A branch that declares a function, and a block around it. -/
theorem declarations_contained_function :
    let code : Code :=
      ⟨⟨#[⟨.literal (.int 1), ⟨4, 5⟩⟩], #[], #[⟨.function ⟨0⟩ ⟨0, 0⟩ ⟨1, 0⟩, ⟨7, 17⟩⟩,
        ⟨.branch ⟨0⟩ ⟨0⟩ none, ⟨2, 17⟩⟩, ⟨.block ⟨0, 1⟩, ⟨0, 19⟩⟩], #[⟨1⟩], #[]⟩, ⟨#["f"]⟩⟩
    let m := Machine.start none .empty (.fixed 0)
    (execute code 9 ⟨2⟩ m).KeepsNames code (.execute ⟨2⟩) m ∧
      ∃ m' frame, execute code 9 ⟨1⟩ m = .done .normal m' ∧
        m'.env.frame? m.env.active = some frame ∧ frame.binds "f" = true := by
  intro code m
  obtain ⟨-, hkeeps, -, hbinds⟩ := declarations_contained code 9 m
  have hcond : evaluate code 8 ⟨0⟩ m = .done (.int 1) m := rfl
  refine ⟨hkeeps ⟨2⟩ _ rfl trivial, _, _, rfl, rfl, ?_⟩
  exact hbinds ⟨1⟩ .normal _ ⟨0⟩ m "f" _ rfl (.step .start (.thenBranch rfl hcond rfl))
    ⟨_, _, rfl, rfl, rfl⟩ rfl

end Scriptorium
