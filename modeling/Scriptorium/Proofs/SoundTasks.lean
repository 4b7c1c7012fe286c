import Scriptorium.Proofs.SoundParsing
import Scriptorium.Proofs.SoundRuns
import Scriptorium.Program.Script

/-!
# Runs that never get stuck

A run of a sound code visits only tasks that find what they look up.  The invariant that
carries it says of a task where in the text its nodes were read: inside the declaration of
the function that was called last, whose call was read inside the declaration of the one
called before it, and so on out to the top level.

* `Code.Live` — a stretch of text inside the calls under way;
* `Task.Sound` — the nodes of a task are stored, and they were read there;
* `Starts.sound`, `Visits.sound` — one step of a run of a sound code keeps tasks and
  machines sound, and so does the whole run;
* `Machine.Grounded` — what the values and the calls of a machine refer to is there;
* `runSource_grounded` — the run of a text without syntax errors never gets stuck.
-/

namespace Scriptorium

variable {code : Code} {calls calls' : CallStack} {span span' : Span} {m m' : Machine}

/-! ## The calls under way -/

/-- A function of this name is declared around the span. -/
def Code.Declares (code : Code) (name : String) (span : Span) : Prop :=
  ∃ id nameId params body outer, code.arena.stmt? id = some ⟨.function nameId params body, outer⟩ ∧
    code.names.text? nameId = some name ∧ span.Inside outer

/-- A call was read from the span. -/
def Code.Calls (code : Code) (span : Span) : Prop :=
  ∃ id callee args, code.arena.expr? id = some ⟨.call callee args, span⟩

/-- The span lies in the function that was called last, whose call lies in the function that
was called before it, and so on; the latest call comes first. -/
def Code.Live (code : Code) : List CallFrame → Span → Prop
  | [], _ => True
  | call :: calls, span =>
      code.Declares call.name span ∧ code.Calls call.callSpan ∧ code.Live calls call.callSpan

theorem Code.Declares.inside {name : String} (h : code.Declares name span)
    (hspan : span'.Inside span) : code.Declares name span' := by
  obtain ⟨id, nameId, params, body, outer, hstmt, hname, hinside⟩ := h
  exact ⟨id, nameId, params, body, outer, hstmt, hname, hspan.trans hinside⟩

theorem Code.Live.inside {frames : List CallFrame} (h : code.Live frames span)
    (hspan : span'.Inside span) : code.Live frames span' := by
  cases frames with
  | nil => trivial
  | cons call frames => exact ⟨h.1.inside hspan, h.2⟩

/-! ## Sound tasks -/

/-- The expression is stored, and it was read inside the calls under way. -/
def Code.LiveExpr (code : Code) (calls : CallStack) (id : ExprId) : Prop :=
  ∃ node, code.arena.expr? id = some node ∧ code.Live calls.capture node.span

/-- The statement is stored, and it was read inside the calls under way. -/
def Code.LiveStmt (code : Code) (calls : CallStack) (id : StmtId) : Prop :=
  ∃ node, code.arena.stmt? id = some node ∧ code.Live calls.capture node.span

/-- The nodes of the task are stored and were read inside the calls under way, and its
values are sound. -/
def Task.Sound (code : Code) (m : Machine) : Task → Prop
  | .evaluate id => code.LiveExpr m.calls id
  | .evaluateAll ids => ∀ id ∈ ids, code.LiveExpr m.calls id
  | .call f args span =>
      f.Sound code m.env.frames.size ∧ (∀ v ∈ args, v.Sound code m.env.frames.size) ∧
        code.Calls span ∧ code.Live m.calls.capture span
  | .callUser f args span =>
      UserFunction.Sound code m.env.frames.size f ∧
        (∀ v ∈ args, v.Sound code m.env.frames.size) ∧
        code.Calls span ∧ code.Live m.calls.capture span
  | .execute id => code.LiveStmt m.calls id
  | .executeBlock body =>
      ∃ ids, code.arena.stmtsIn? body = some ids ∧ ∀ id ∈ ids, code.LiveStmt m.calls id
  | .executeAll ids | .interpret ids => ∀ id ∈ ids, code.LiveStmt m.calls id
  | .executeLoop cond body => code.LiveExpr m.calls cond ∧ code.LiveStmt m.calls body

theorem Code.ExprInside.live {id : ExprId} (h : code.ExprInside span id)
    (hlive : code.Live calls.capture span) : code.LiveExpr calls id := by
  obtain ⟨node, hnode, hinside⟩ := h
  exact ⟨node, hnode, hlive.inside hinside⟩

theorem Code.StmtInside.live {id : StmtId} (h : code.StmtInside span id)
    (hlive : code.Live calls.capture span) : code.LiveStmt calls id := by
  obtain ⟨node, hnode, hinside⟩ := h
  exact ⟨node, hnode, hlive.inside hinside⟩

/-- What a sound expression computes first lies inside it. -/
theorem ExprKind.Sound.operand {kind : ExprKind} {x : ExprId} (h : kind.Sound code span)
    (hx : kind.operand? = some x) : code.ExprInside span x := by
  cases kind with
  | literal value => cases hx
  | reference name => cases hx
  | unary op y => cases hx; exact h
  | group y => cases hx; exact h
  | binary op l r => cases hx; exact h.1
  | logical op l r => cases hx; exact h.1
  | assign name nameSpan value => cases hx; exact h.2.2
  | call callee args => cases hx; exact h.1

/-- What a sound statement computes first lies inside it. -/
theorem StmtKind.Sound.operand {kind : StmtKind} {x : ExprId} (h : kind.Sound code span)
    (hx : kind.operand? = some x) : code.ExprInside span x := by
  cases kind with
  | expression y => cases hx; exact h
  | declare name init => exact h.2 x hx
  | block body => cases hx
  | branch cond thenBranch elseBranch => cases hx; exact h.1
  | loop cond body => cases hx
  | function name params body => cases hx
  | ret value => exact h x hx

/-- The body of a call starts on a sound machine. -/
theorem Machine.Sound.called (hm : m.Sound code) {f : UserFunction} {args : List Value}
    (hf : f.Sound code m.env.frames.size) (hargs : ∀ v ∈ args, v.Sound code m.env.frames.size)
    (span : Span) : (m.called f args span).Sound code := by
  have hbindings : ∀ b ∈ f.params.zip args, b.2.Sound code m.env.frames.size :=
    fun b hb => hargs b.2 (List.of_mem_zip hb).2
  obtain ⟨henv, hlt⟩ := hm.env.callFrame hf.closure hbindings
  refine ⟨henv.restore hlt, fun call hcall => ?_⟩
  rw [Machine.called, CallStack.capture_add] at hcall
  rcases List.mem_cons.1 hcall with rfl | hcall
  · obtain ⟨name, -, -, -, hname, -⟩ := hf.declared
    exact ⟨name, hname⟩
  · exact hm.calls call hcall

/-- A computation that has a result has left a sound machine, with the same calls under
way. -/
theorem Outcome.Sound.of_done {α : Type} {x : Step α} {R : Nat → α → Prop} {a : α}
    (h : (x m).Sound code R) (hx : x m = .done a m') : m'.Sound code ∧ R m'.env.frames.size a := by
  rw [hx] at h
  exact h

/-! ## Tasks that start tasks -/

theorem Code.LiveExpr.live {id : ExprId} {node : ExprNode} (h : code.LiveExpr calls id)
    (hnode : code.arena.expr? id = some node) : code.Live calls.capture node.span := by
  obtain ⟨node', hnode', hlive⟩ := h
  rw [hnode] at hnode'
  cases hnode'
  exact hlive

theorem Code.LiveStmt.live {id : StmtId} {node : StmtNode} (h : code.LiveStmt calls id)
    (hnode : code.arena.stmt? id = some node) : code.Live calls.capture node.span := by
  obtain ⟨node', hnode', hlive⟩ := h
  rw [hnode] at hnode'
  cases hnode'
  exact hlive

/-- An expression that was computed. -/
theorem evaluate_done {fuel : Nat} {id : ExprId} {v : Value} (hm : m.Sound code)
    (h : evaluate code fuel id m = .done v m') :
    m'.Sound code ∧ v.Sound code m'.env.frames.size ∧ m'.calls = m.calls := by
  obtain ⟨hm', hv⟩ := ((soundAll code fuel).evaluate id m hm).of_done h
  exact ⟨hm', hv, (((restoresAll code fuel).evaluate id).of_done h).calls⟩

/-- A statement that was carried out. -/
theorem execute_done {fuel : Nat} {id : StmtId} {c : Completion} (hm : m.Sound code)
    (h : execute code fuel id m = .done c m') : m'.Sound code ∧ m'.calls = m.calls :=
  ⟨(((soundAll code fuel).execute id m hm).of_done h).1,
    (((restoresAll code fuel).execute id).of_done h).calls⟩

/-- A sound task on a sound machine of a sound code starts sound tasks on sound machines. -/
theorem Starts.sound {t t' : Task} (hcode : code.Sound) (h : Starts code t m t' m')
    (hm : m.Sound code) (ht : t.Sound code m) : m'.Sound code ∧ t'.Sound code m' := by
  cases h with
  | operand hnode hx =>
    exact ⟨hm, ((hcode.exprs _ _ hnode).operand hx).live (Code.LiveExpr.live ht hnode)⟩
  | binaryRight hnode hl =>
    obtain ⟨hm', -, hcalls⟩ := evaluate_done hm hl
    rw [Task.Sound, hcalls]
    exact ⟨hm', (hcode.exprs _ _ hnode).2.live (Code.LiveExpr.live ht hnode)⟩
  | logicalRight hnode hl =>
    obtain ⟨hm', -, hcalls⟩ := evaluate_done hm hl
    rw [Task.Sound, hcalls]
    exact ⟨hm', (hcode.exprs _ _ hnode).2.live (Code.LiveExpr.live ht hnode)⟩
  | arguments hnode hf hids =>
    obtain ⟨hm', -, hcalls⟩ := evaluate_done hm hf
    obtain ⟨ids, hids', hinside⟩ := (hcode.exprs _ _ hnode).2
    rw [hids] at hids'
    cases hids'
    rw [Task.Sound, hcalls]
    exact ⟨hm', fun id hid => (hinside id hid).live (Code.LiveExpr.live ht hnode)⟩
  | @call _ _ _ _ _ _ _ _ _ _ fuel hnode hf _ hvs =>
    obtain ⟨hm₁, hfsound, hcalls⟩ := evaluate_done hm hf
    obtain ⟨hm₂, hargs⟩ := ((soundAll code fuel).evaluateAll _ _ hm₁).of_done hvs
    have hsame := ((restoresAll code fuel).evaluateAll _).of_done hvs
    refine ⟨hm₂, hfsound.mono hsame.frames.size_le, hargs, ⟨_, _, _, hnode⟩, ?_⟩
    rw [hsame.calls, hcalls]
    exact Code.LiveExpr.live ht hnode
  | headExpr => exact ⟨hm, ht _ List.mem_cons_self⟩
  | tailExprs hv =>
    obtain ⟨hm', -, hcalls⟩ := evaluate_done hm hv
    rw [Task.Sound, hcalls]
    exact ⟨hm', fun id hid => ht id (List.mem_cons_of_mem _ hid)⟩
  | user => exact ⟨hm, ht⟩
  | body =>
    obtain ⟨hf, hargs, hcalls, hlive⟩ := ht
    refine ⟨hm.called hf hargs _, ?_⟩
    -- the body lies inside the declaration of the function
    obtain ⟨name, params, outer, hstmt, hname, -⟩ := hf.declared
    obtain ⟨-, -, ids, hids, hinside⟩ := hcode.stmts _ _ hstmt
    refine ⟨ids, hids, fun id hid => (hinside id hid).live ?_⟩
    rw [Machine.called, CallStack.capture_add]
    exact ⟨⟨_, name, params, _, outer, hstmt, hname, .refl _⟩, hcalls, hlive⟩
  | expression hnode hx =>
    exact ⟨hm, ((hcode.stmts _ _ hnode).operand hx).live (Code.LiveStmt.live ht hnode)⟩
  | block hnode =>
    obtain ⟨ids, hids, hinside⟩ := hcode.stmts _ _ hnode
    exact ⟨hm.nested, ids, hids, fun id hid =>
      (hinside id hid).live (Code.LiveStmt.live ht hnode)⟩
  | thenBranch hnode hv =>
    obtain ⟨hm', -, hcalls⟩ := evaluate_done hm hv
    rw [Task.Sound, hcalls]
    exact ⟨hm', (hcode.stmts _ _ hnode).2.1.live (Code.LiveStmt.live ht hnode)⟩
  | elseBranch hnode hv =>
    obtain ⟨hm', -, hcalls⟩ := evaluate_done hm hv
    rw [Task.Sound, hcalls]
    exact ⟨hm', ((hcode.stmts _ _ hnode).2.2 _ rfl).live (Code.LiveStmt.live ht hnode)⟩
  | loop hnode =>
    have hlive := Code.LiveStmt.live ht hnode
    have hkind := hcode.stmts _ _ hnode
    exact ⟨hm, hkind.1.live hlive, hkind.2.live hlive⟩
  | statements hids =>
    obtain ⟨ids, hids', hlive⟩ := ht
    rw [hids] at hids'
    cases hids'
    exact ⟨hm, hlive⟩
  | headStmt => exact ⟨hm, ht _ List.mem_cons_self⟩
  | tailStmts hv =>
    obtain ⟨hm', hcalls⟩ := execute_done hm hv
    rw [Task.Sound, hcalls]
    exact ⟨hm', fun id hid => ht id (List.mem_cons_of_mem _ hid)⟩
  | condition => exact ⟨hm, ht.1⟩
  | round hv =>
    obtain ⟨hm', -, hcalls⟩ := evaluate_done hm hv
    refine ⟨hm'.nested, ?_⟩
    rw [Task.Sound, Machine.nested, hcalls]
    exact ht.2
  | @again cond body _ _ _ _ fuel hv _ hround =>
    obtain ⟨hm₁, -, hcalls⟩ := evaluate_done hm hv
    have hrestores := (restoresAll code fuel).execute body
    have hsound := (soundAll code fuel).execute body _ hm₁.nested
    rw [Task.Sound, (hrestores.inNewFrame.of_done hround).calls, hcalls]
    exact ⟨((Outcome.Sound.inNewFrame hm₁ hrestores hsound).of_done hround).1, ht⟩
  | headTop => exact ⟨hm, ht _ List.mem_cons_self⟩
  | tailTop hv =>
    obtain ⟨hm', hcalls⟩ := execute_done hm hv
    rw [Task.Sound, hcalls]
    exact ⟨hm', fun id hid => ht id (List.mem_cons_of_mem _ hid)⟩

/-- A run of a sound code visits sound tasks on sound machines. -/
theorem Visits.sound {t t' : Task} (hcode : code.Sound) (h : Visits code t m t' m')
    (hm : m.Sound code) (ht : t.Sound code m) : m'.Sound code ∧ t'.Sound code m' := by
  induction h with
  | start => exact ⟨hm, ht⟩
  | step _ hstarts ih => exact hstarts.sound hcode ih.1 ih.2

/-! ## What a sound task looks up -/

theorem ExprKind.Sound.grounded {kind : ExprKind} (h : kind.Sound code span) :
    kind.Grounded code := by
  cases kind with
  | literal value =>
    cases value with
    | int n => trivial
    | str text => exact h
    | bool b => trivial
  | unary op x => trivial
  | binary op l r => trivial
  | logical op l r => exact h.1.imp fun _ hnode => hnode.1
  | group x => trivial
  | reference name => exact h
  | assign name nameSpan value => exact h.1
  | call callee args => exact h.2.imp fun _ hids => hids.1

theorem StmtKind.Sound.grounded {kind : StmtKind} (h : kind.Sound code span) :
    kind.Grounded code := by
  cases kind with
  | expression x => trivial
  | declare name init => exact h.1
  | block body => trivial
  | branch cond thenBranch elseBranch => exact h.1.imp fun _ hnode => hnode.1
  | loop cond body => trivial
  | function name params body => exact ⟨h.1, h.2.1⟩
  | ret value => trivial

/-- A sound task of a sound code finds what it looks up. -/
theorem Task.Sound.grounded {t : Task} (hcode : code.Sound) (h : t.Sound code m) :
    t.Grounded code := by
  cases t with
  | evaluate id =>
    obtain ⟨node, hnode, -⟩ := h
    exact ⟨node, hnode, (hcode.exprs id node hnode).grounded⟩
  | evaluateAll ids => trivial
  | call f args span => trivial
  | callUser f args span => trivial
  | execute id =>
    obtain ⟨node, hnode, -⟩ := h
    exact ⟨node, hnode, (hcode.stmts id node hnode).grounded⟩
  | executeBlock body => exact h.imp fun _ hids => hids.1
  | executeAll ids => trivial
  | executeLoop cond body => exact h.1.imp fun _ hnode => hnode.1
  | interpret ids => trivial

/-! ## Whole runs -/

/-- What a call of a function looks up is there. -/
structure UserFunction.Grounded (code : Code) (env : Environment) (f : UserFunction) : Prop where
  name : ∃ name, code.names.text? name = some f.name
  params : ∃ params ids, code.arena.paramsIn? params = some ids ∧
    ids.mapM code.names.text? = some f.params
  body : ∃ ids, code.arena.stmtsIn? f.body = some ids
  closure : ∃ frame, env.frame? f.closure = some frame

/-- What the values in the frames and the calls under way refer to is there, and a change
of a variable asks for no frame that it holds already. -/
structure Machine.Grounded (code : Code) (m : Machine) : Prop where
  functions : ∀ f frame name g, m.env.frame? f = some frame → (name, .user g) ∈ frame.bindings →
    g.Grounded code m.env
  calls : ∀ call ∈ m.calls.capture, ∃ name, code.names.text? name = some call.name
  borrows : ∀ name, ∃ last held,
    m.env.borrows? name (m.env.active.index + 1) [] m.env.active = some (last :: held) ∧
    m.env.resolve m.env.active name = if m.env.binds name last then some last else none

theorem UserFunction.Sound.grounded {f : UserFunction} (hcode : code.Sound)
    (h : UserFunction.Sound code m.env.frames.size f) : f.Grounded code m.env := by
  obtain ⟨nameId, params, outer, hstmt, hname, ids, hids, htexts⟩ := h.declared
  obtain ⟨-, -, hbody⟩ := hcode.stmts _ _ hstmt
  exact ⟨⟨nameId, hname⟩, ⟨params, ids, hids, htexts⟩, hbody.imp fun _ hids => hids.1,
    Environment.frame?_eq_some_iff.2 h.closure⟩

theorem Machine.Sound.grounded (hcode : code.Sound) (hm : m.Sound code) : m.Grounded code := by
  refine ⟨fun f frame name g hframe hg => ?_, hm.calls, fun name => hm.env.exists_borrows? name⟩
  have hsound : UserFunction.Sound code m.env.frames.size g := hm.env.values f frame hframe _ hg
  exact hsound.grounded hcode

/-- At the start of a run no calls are under way, so all of the text is live. -/
theorem sound_interpret_start {p : Parsed} (hp : p.Sound) (settings : Settings) :
    settings.machine.Sound p.code ∧ (Task.interpret p.module).Sound p.code settings.machine := by
  refine ⟨Machine.sound_start _ _ _, fun id hid => ?_⟩
  obtain ⟨node, hnode⟩ := hp.module id hid
  exact ⟨node, hnode, trivial⟩

/-- A run does not get stuck if all that it looks up is there. -/
theorem runCode_ne_stuck {settings : Settings} {stmts : List StmtId}
    (h : ∀ t m, Visits code (.interpret stmts) settings.machine t m → t.Grounded code) :
    runCode settings code stmts ≠ .stuck := by
  have htraced := interpret_traced code settings.fuel stmts settings.machine
  unfold runCode
  cases hrun : interpret code settings.fuel stmts settings.machine with
  | done a last => exact nofun
  | failed e last => exact nofun
  | stuck =>
    rw [hrun] at htraced
    obtain ⟨t, m, hvisits, hnot⟩ := htraced
    exact absurd (h t m hvisits) hnot
  | exhausted => exact nofun

/-- Whatever the code is, a run that finishes or fails leaves a sound machine. -/
theorem sound_runCode {settings : Settings} {stmts : List StmtId}
    (h : runCode settings code stmts = .finished m ∨
      ∃ e, runCode settings code stmts = .failed e m) : m.Sound code := by
  have hsound := sound_interpret code settings.fuel stmts (m := settings.machine)
    (Machine.sound_start _ _ _)
  unfold runCode at h
  cases hrun : interpret code settings.fuel stmts settings.machine with
  | done a last =>
    rw [hrun] at h hsound
    rcases h with h | ⟨e, h⟩ <;> cases h
    exact hsound.1
  | failed e last =>
    rw [hrun] at h hsound
    rcases h with h | ⟨e, h⟩ <;> cases h
    exact hsound
  | stuck => rw [hrun] at h; rcases h with h | ⟨e, h⟩ <;> cases h
  | exhausted => rw [hrun] at h; rcases h with h | ⟨e, h⟩ <;> cases h

theorem RunResult.exists_of_succeeded {result : RunResult} (h : result.succeeded = true) :
    ∃ m, result = .finished m := by
  unfold succeeded at h
  split at h
  · exact ⟨_, rfl⟩
  · cases h

theorem runSource_of_accepted {source : String} (h : (parse source).failure = none)
    (settings : Settings) :
    runSource settings source = runCode settings (parse source).code (parse source).module := by
  simp only [runSource, h]

/-- The run of a text without syntax errors never gets stuck, whatever the limit on the
calls: each task that it visits finds the nodes, lists and names that it looks up, each
function that it calls has its body and parameters in the arena, and on each machine, those
at the end included, so have the functions that the frames hold, and no change of a variable
borrows a frame twice. -/
theorem runSource_grounded {source : String} (h : (parse source).failure = none)
    (settings : Settings) :
    let code := (parse source).code
    let run := Task.interpret (parse source).module
    runSource settings source ≠ .stuck ∧
    (∀ t m, Visits code run settings.machine t m → t.Grounded code ∧ m.Grounded code) ∧
    (∀ f args span m, Visits code run settings.machine (.callUser f args span) m →
      f.Grounded code m.env) ∧
    ∀ m, (runSource settings source = .finished m ∨
      ∃ e, runSource settings source = .failed e m) → m.Grounded code := by
  intro code run
  have hp := sound_parse source
  obtain ⟨hm, ht⟩ := sound_interpret_start hp settings
  have hvisits : ∀ t m, Visits code run settings.machine t m →
      t.Grounded code ∧ m.Grounded code := by
    intro t m hv
    obtain ⟨hm', ht'⟩ := hv.sound hp.code hm ht
    exact ⟨ht'.grounded hp.code, hm'.grounded hp.code⟩
  have hcalls : ∀ f args span m, Visits code run settings.machine (.callUser f args span) m →
      f.Grounded code m.env := by
    intro f args span m hv
    obtain ⟨-, hf, -⟩ := hv.sound hp.code hm ht
    exact hf.grounded hp.code
  rw [runSource_of_accepted h]
  exact ⟨runCode_ne_stuck fun t m hv => (hvisits t m hv).1, hvisits, hcalls,
    fun m hends => (sound_runCode hends).grounded hp.code⟩

/-- A call makes a function, which a variable holds after the call has ended. -/
theorem runSource_grounded_closure :
    (parse "fun f(n) \x7b fun g() \x7b return n; \x7d return g; \x7d var x = f(1); x();").failure
      = none ∧
    ∃ m, runSource ⟨some 1, .empty, .fixed 0, 60⟩
        "fun f(n) \x7b fun g() \x7b return n; \x7d return g; \x7d var x = f(1); x();"
          = .finished m ∧
      m.Grounded (parse
        "fun f(n) \x7b fun g() \x7b return n; \x7d return g; \x7d var x = f(1); x();").code := by
  have hparse : (parse
      "fun f(n) \x7b fun g() \x7b return n; \x7d return g; \x7d var x = f(1); x();").failure
        = none := by decide +kernel
  have hsucceeded : (runSource ⟨some 1, .empty, .fixed 0, 60⟩
      "fun f(n) \x7b fun g() \x7b return n; \x7d return g; \x7d var x = f(1); x();").succeeded
        = true := by decide +kernel
  obtain ⟨m, hrun⟩ := RunResult.exists_of_succeeded hsucceeded
  obtain ⟨-, -, -, hends⟩ := runSource_grounded hparse ⟨some 1, .empty, .fixed 0, 60⟩
  exact ⟨hparse, m, hrun, hends m (.inl hrun)⟩

end Scriptorium
