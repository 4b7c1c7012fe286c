import Scriptorium.Proofs.CallLimit
import Scriptorium.Proofs.SoundTasks

/-!
# What an error says about its place

An error is made without a place and without calls; the task that raises it puts both in,
and nobody after it changes them.  So the error at the end of a run tells the calls that
were under way at the task that raised it, and from where each of them was made.

* `CallStack.attach_fresh` — an error that was just made gets all the calls under way;
* `Code.Live.getElem?` — the calls under way, each inside the function called before it;
* `Task.Sound.site_live` — a sound task raises errors at places inside the calls under way;
* `runSource_backtrace` — the error at the end of a run tells the way from the top level of
  the text to its own place.
-/

namespace Scriptorium

variable {code : Code} {calls : CallStack} {span : Span} {m : Machine}

/-! ## The calls that an error is given -/

/-- An error that was just made is given a place and all the calls under way. -/
theorem CallStack.attach_fresh {e : RunError} (h : e.Fresh calls) (site : Span) :
    calls.attach (e.locate site) = { e with span := some site, backtrace := calls.capture } := by
  have hlocate : e.locate site = { e with span := some site } := by
    simp only [RunError.locate, h.span]
  have hcapture : calls.isEmpty = true → calls.capture = [] := by
    simp [isEmpty, capture]
  rw [hlocate, attach]
  by_cases hempty : calls.isEmpty = true
  · rw [hcapture hempty, if_pos (by simp [hempty]), ← h.backtrace]
  · rw [if_neg (by simp [hempty, h.backtrace])]

/-- Each call under way was made inside the function that was called before it, and the
place that is live lies in the function that was called last. -/
theorem Code.Live.getElem? {frames : List CallFrame} (h : code.Live frames span) {i : Nat}
    {call : CallFrame} (hcall : frames[i]? = some call) :
    code.Calls call.callSpan ∧ ∃ inner,
      (span :: frames.map CallFrame.callSpan)[i]? = some inner ∧
        code.Declares call.name inner := by
  induction frames generalizing span i with
  | nil => simp at hcall
  | cons latest frames ih =>
    cases i with
    | zero =>
      cases hcall
      exact ⟨h.2.1, span, rfl, h.1⟩
    | succ i => exact ih h.2.2 hcall

/-! ## Places of errors -/

/-- An expression was read from the span, or the name that an expression assigns to. -/
def Code.MarksExpr (code : Code) (span : Span) : Prop :=
  (∃ id kind, code.arena.expr? id = some ⟨kind, span⟩) ∨
    ∃ id name value outer, code.arena.expr? id = some ⟨.assign name span value, outer⟩

theorem Code.marksExpr_span {id : ExprId} {node : ExprNode}
    (h : code.arena.expr? id = some node) : code.MarksExpr node.span := .inl ⟨id, node.kind, h⟩

/-- The places of the errors of an expression lie inside it. -/
theorem ExprNode.Site.inside {id : ExprId} {node : ExprNode} {site : Span} (hcode : code.Sound)
    (hnode : code.arena.expr? id = some node) (h : node.Site code site) :
    code.MarksExpr site ∧ site.Inside node.span := by
  have hkind := hcode.exprs id node hnode
  rcases h with rfl | ⟨name, value, hassign⟩ | ⟨op, l, r, left, hlogical, hleft, rfl⟩
  · exact ⟨Code.marksExpr_span hnode, .refl _⟩
  · rw [hassign] at hkind
    obtain ⟨kind, outer⟩ := node
    cases hassign
    exact ⟨.inr ⟨id, name, value, outer, hnode⟩, hkind.2.1⟩
  · rw [hlogical] at hkind
    obtain ⟨node', hnode', hinside⟩ := hkind.1
    rw [hleft] at hnode'
    cases hnode'
    exact ⟨Code.marksExpr_span hleft, hinside⟩

/-- A sound task raises errors at expressions, or at names that are assigned to, inside the
calls under way. -/
theorem Task.Sound.site_live {t : Task} {site : Span} (hcode : code.Sound) (ht : t.Sound code m)
    (h : t.Site code site) : code.MarksExpr site ∧ code.Live m.calls.capture site := by
  cases t with
  | evaluate id =>
    obtain ⟨node, hnode, hsite⟩ := h
    have hinside := hsite.inside hcode hnode
    exact ⟨hinside.1, (Code.LiveExpr.live ht hnode).inside hinside.2⟩
  | evaluateAll ids => cases h
  | call f args span =>
    cases h
    obtain ⟨-, -, ⟨id, callee, args, hnode⟩, hlive⟩ := ht
    exact ⟨Code.marksExpr_span hnode, hlive⟩
  | callUser f args span =>
    cases h
    obtain ⟨-, -, ⟨id, callee, args, hnode⟩, hlive⟩ := ht
    exact ⟨Code.marksExpr_span hnode, hlive⟩
  | execute id =>
    obtain ⟨cond, t, e, outer, node, hstmt, hnode, rfl⟩ := h
    have hcond := (hcode.stmts _ _ hstmt).1.live (Code.LiveStmt.live ht hstmt)
    exact ⟨Code.marksExpr_span hnode, hcond.live hnode⟩
  | executeBlock body => cases h
  | executeAll ids => cases h
  | executeLoop cond body =>
    obtain ⟨node, hnode, rfl⟩ := h
    exact ⟨Code.marksExpr_span hnode, ht.1.live hnode⟩
  | interpret ids => cases h

/-- A sound task fails with an error that was just made: the functions that are provided
make none. -/
theorem Task.Raises.fresh_of_sound {t : Task} {e : RunError} (h : t.Raises code m e)
    (ht : t.Sound code m) : ∃ made site, RunError.Fresh made m.calls ∧ t.Site code site ∧
      e = { made with span := some site, backtrace := m.calls.capture } := by
  cases h with
  | fresh hsite hfresh => exact ⟨_, _, hfresh, hsite, CallStack.attach_fresh hfresh _⟩
  | native haction => exact absurd haction (ht.1 _)

/-! ## Errors at the end of a run -/

theorem runSource_failed {source : String} {settings : Settings} {e : RunError}
    (h : runSource settings source = .failed e m) :
    ∃ m', interpret (parse source).code settings.fuel (parse source).module settings.machine
      = .failed e m' := by
  simp only [runSource, runCode] at h
  split at h
  · cases h
  split at h
  · cases h
  · cases h
    exact ⟨_, ‹_›⟩
  · cases h
  · cases h

/-- The error at the end of a run stands at an expression or at a name that is assigned to,
in the function that the first call of its backtrace names; each call there was made in the
function that the next one names.  If it says that there were too many calls, there were as
many as were allowed, and the backtrace tells all of them.  These are the calls that were
under way at the task that failed. -/
theorem runSource_backtrace {source : String} {settings : Settings} {e : RunError} {last : Machine}
    (h : runSource settings source = .failed e last) :
    let code := (parse source).code
    ∃ span, e.span = some span ∧ code.MarksExpr span ∧
    (∀ (i : Nat) (call : CallFrame), e.backtrace[i]? = some call → code.Calls call.callSpan ∧
      ∃ inner, (span :: e.backtrace.map CallFrame.callSpan)[i]? = some inner ∧
        code.Declares call.name inner) ∧
    (∀ depth, e.fault = .callDepthExceeded depth →
      settings.callLimit = some depth ∧ e.backtrace.length = depth) ∧
    ∃ t m, Visits code (.interpret (parse source).module) settings.machine t m ∧
      t.Site code span ∧ e.backtrace = m.calls.capture := by
  intro code
  have hp := sound_parse source
  obtain ⟨m', hrun⟩ := runSource_failed h
  have htraced := interpret_traced code settings.fuel (parse source).module settings.machine
  rw [hrun] at htraced
  obtain ⟨t, m, hvisits, hraises⟩ := htraced
  obtain ⟨hm, ht⟩ := sound_interpret_start hp settings
  obtain ⟨-, ht⟩ := hvisits.sound hp.code hm ht
  have hwithin := hvisits.within (fun b _ => Nat.zero_le b)
  obtain ⟨made, span, hfresh, hsite, rfl⟩ := hraises.fresh_of_sound ht
  obtain ⟨hmarks, hlive⟩ := Task.Sound.site_live hp.code ht hsite
  refine ⟨span, rfl, hmarks, fun i call hcall => hlive.getElem? hcall, ?_,
    t, m, hvisits, hsite, rfl⟩
  intro depth hfault
  -- no more calls are allowed, and never were there more than are allowed
  obtain ⟨hlimit, hreached⟩ := CallStack.limitReached?_eq_some.1 (hfresh.limit depth hfault)
  have hdepth : m.calls.depth = depth := Nat.le_antisymm (hwithin.2 depth hlimit) hreached
  have hlength : m.calls.capture.length = m.calls.depth := by
    simp [CallStack.capture, CallStack.depth]
  exact ⟨hwithin.1.symm.trans hlimit, hlength.trans hdepth⟩

/-- A function that calls itself without end, under a limit of two calls. -/
theorem runSource_backtrace_countdown :
    ∃ e last span call,
      runSource ⟨some 2, .empty, .fixed 0, 60⟩ "fun f(n) \x7b return f(n - 1); \x7d f(3);"
        = .failed e last ∧
      e.fault = .callDepthExceeded 2 ∧ e.backtrace.length = 2 ∧ e.backtrace[0]? = some call ∧
      e.span = some span ∧
      (parse "fun f(n) \x7b return f(n - 1); \x7d f(3);").code.Declares call.name span := by
  have hoverflowed : (runSource ⟨some 2, .empty, .fixed 0, 60⟩
      "fun f(n) \x7b return f(n - 1); \x7d f(3);").overflowed = true := by decide +kernel
  obtain ⟨e, last, depth, hrun, hfault⟩ := RunResult.exists_of_overflowed hoverflowed
  obtain ⟨span, hspan, -, hcalls, hdepth, -⟩ := runSource_backtrace hrun
  obtain ⟨hlimit, hlength⟩ := hdepth depth hfault
  cases hlimit
  obtain ⟨call, hcall⟩ : ∃ call, e.backtrace[0]? = some call :=
    ⟨_, List.getElem?_eq_getElem (by omega)⟩
  obtain ⟨-, inner, hinner, hdeclares⟩ := hcalls 0 call hcall
  cases hinner
  exact ⟨e, last, span, call, hrun, hfault, hlength, hcall, hspan, hdeclares⟩

end Scriptorium
