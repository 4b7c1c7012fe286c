import Scriptorium.Proofs.AlikeMachines
import Scriptorium.Proofs.SoundMachines

/-!
# Runs on sound machines

Whatever the code is, a run that starts on a sound machine leaves one, and what it computes
is sound there: a function is made from what the code holds, a frame inside a frame that
there is, and the values that a run passes on are those of the frames.  The frames grow
while a value is on its way, so a value stays sound.

* `Completion.Sound` — what a statement passes on;
* `soundAll` — the functions of the interpreter leave sound machines;
* `sound_interpret` — so does a whole run, whether it ends or fails.
-/

namespace Scriptorium

variable {code : Code} {fuel : Nat}

/-! ## What a run leaves -/

/-- The value of a `return` is sound. -/
def Completion.Sound (code : Code) (n : Nat) : Completion → Prop
  | .normal => True
  | .returned v => v.Sound code n

/-- With the bound `fuel`, the functions of the interpreter leave sound machines. -/
structure SoundAll (code : Code) (fuel : Nat) : Prop where
  evaluate : ∀ id m, m.Sound code → (evaluate code fuel id m).Sound code (Value.Sound code)
  evaluateAll : ∀ ids m, m.Sound code →
    (evaluateAll code fuel ids m).Sound code fun n vs => ∀ v ∈ vs, v.Sound code n
  call : ∀ f args span m, m.Sound code → f.Sound code m.env.frames.size →
    (∀ v ∈ args, v.Sound code m.env.frames.size) →
    (call code fuel f args span m).Sound code (Value.Sound code)
  callUser : ∀ f args span m, m.Sound code → UserFunction.Sound code m.env.frames.size f →
    (∀ v ∈ args, v.Sound code m.env.frames.size) →
    (callUser code fuel f args span m).Sound code (Value.Sound code)
  execute : ∀ id m, m.Sound code → (execute code fuel id m).Sound code (Completion.Sound code)
  executeBlock : ∀ body m, m.Sound code →
    (executeBlock code fuel body m).Sound code (Completion.Sound code)
  executeAll : ∀ ids m, m.Sound code →
    (executeAll code fuel ids m).Sound code (Completion.Sound code)
  executeLoop : ∀ cond body m, m.Sound code →
    (executeLoop code fuel cond body m).Sound code (Completion.Sound code)

open Outcome

variable {m : Machine}

theorem sound_truthOf (hm : m.Sound code) (cond : ExprId) (v : Value) :
    (truthOf code cond v m).Sound code fun _ _ => True := by
  unfold truthOf
  split
  · exact ⟨hm, trivial⟩
  · exact .found_bind fun node _ => .fail hm _ _

namespace SoundAll

theorem evaluate_succ (h : SoundAll code fuel) (id : ExprId) (hm : m.Sound code) :
    (Scriptorium.evaluate code (fuel + 1) id m).Sound code (Value.Sound code) := by
  rw [Scriptorium.evaluate]
  refine .found_bind fun node hnode => ?_
  obtain ⟨kind, span⟩ := node
  cases kind with
  | literal value =>
    cases value with
    | int n =>
      exact .ofExcept hm fun v hv => Value.sound_of_isInteger (Value.isInteger_of_ofLiteral hv)
    | str text => exact .found_bind fun text _ => ⟨hm, trivial⟩
    | bool b => exact ⟨hm, trivial⟩
  | group inner => exact h.evaluate inner m hm
  | reference name => exact .found_bind fun text _ => .lookup hm text span
  | assign name nameSpan value =>
    exact .bind (h.evaluate value m hm) fun v m₁ _ hm₁ hv =>
      .found_bind fun text _ => .assign hm₁ text hv nameSpan
  | unary op x =>
    exact .bind (h.evaluate x m hm) fun v m₁ _ hm₁ _ =>
      .ofExcept hm₁ fun w hw => Value.sound_of_isInteger (UnaryOp.isInteger_of_apply hw)
  | binary op l r =>
    exact .bind (h.evaluate l m hm) fun v m₁ _ hm₁ _ =>
      .bind (h.evaluate r m₁ hm₁) fun w m₂ _ hm₂ _ =>
        .ofExcept hm₂ fun x hx => Value.sound_of_isInteger (BinaryOp.isInteger_of_apply hx)
  | logical op l r =>
    refine .bind (h.evaluate l m hm) fun v m₁ _ hm₁ hv => ?_
    split
    · exact .found_bind fun node _ => .fail hm₁ _ _
    split
    · exact ⟨hm₁, hv⟩
    · exact h.evaluate r m₁ hm₁
  | call callee args =>
    refine .bind (h.evaluate callee m hm) fun f m₁ _ hm₁ hf => .found_bind fun ids _ => ?_
    refine .bind (h.evaluateAll ids m₁ hm₁) fun vs m₂ hvs hm₂ hargs => ?_
    have hsize := (((restoresAll code fuel).evaluateAll ids).of_done hvs).frames.size_le
    exact h.call f vs span m₂ hm₂ (hf.mono hsize) hargs

theorem evaluateAll_succ (h : SoundAll code fuel) (ids : List ExprId) (hm : m.Sound code) :
    (Scriptorium.evaluateAll code (fuel + 1) ids m).Sound code
      fun n vs => ∀ v ∈ vs, v.Sound code n := by
  cases ids with
  | nil => exact ⟨hm, by simp⟩
  | cons id ids =>
    rw [Scriptorium.evaluateAll]
    refine .bind (h.evaluate id m hm) fun v m₁ _ hm₁ hv => ?_
    refine .bind (h.evaluateAll ids m₁ hm₁) fun vs m₂ hvs hm₂ hall => ⟨hm₂, fun w hw => ?_⟩
    have hsize := (((restoresAll code fuel).evaluateAll ids).of_done hvs).frames.size_le
    rcases List.mem_cons.1 hw with rfl | hw
    · exact hv.mono hsize
    · exact hall w hw

theorem call_succ (h : SoundAll code fuel) (f : Value) (args : List Value) (span : Span)
    (hm : m.Sound code) (hf : f.Sound code m.env.frames.size)
    (hargs : ∀ v ∈ args, v.Sound code m.env.frames.size) :
    (Scriptorium.call code (fuel + 1) f args span m).Sound code (Value.Sound code) := by
  unfold Scriptorium.call
  cases f with
  | native f =>
    simp only [Value.arity?]
    split
    · exact .fail hm _ _
    · exact .native hm hf hargs span
  | user f =>
    simp only [Value.arity?]
    split
    · exact .fail hm _ _
    · exact h.callUser f args span m hm hf hargs
  | int n => exact .fail hm _ _
  | wide n => exact .fail hm _ _
  | str text => exact .fail hm _ _

theorem callUser_succ (h : SoundAll code fuel) (f : UserFunction) (args : List Value)
    (span : Span) (hm : m.Sound code) (hf : f.Sound code m.env.frames.size)
    (hargs : ∀ v ∈ args, v.Sound code m.env.frames.size) :
    (Scriptorium.callUser code (fuel + 1) f args span m).Sound code (Value.Sound code) := by
  have hrestores := restoresAll code fuel
  rw [Scriptorium.callUser_succ]
  refine .inCall hm (hrestores.callBody f args) ?_
  obtain ⟨name, params, fspan, -, hname, -⟩ := hf.declared
  have hm' : Machine.Sound code { m with calls := m.calls.add ⟨f.name, span⟩ } := by
    refine ⟨hm.env, fun call hcall => ?_⟩
    rw [CallStack.capture_add] at hcall
    rcases List.mem_cons.1 hcall with rfl | hcall
    · exact ⟨name, hname⟩
    · exact hm.calls call hcall
  refine .bind (.newFrame hm' hf.closure fun b hb => hargs b.2 (List.of_mem_zip hb).2)
    fun frame m₁ _ hm₁ hframe => ?_
  refine .bind (.inFrame hm₁ (hrestores.executeBlock f.body)
    (h.executeBlock f.body _ ⟨hm₁.env.restore hframe, hm₁.calls⟩)) fun completion m₂ _ hm₂ hc => ?_
  cases completion with
  | normal => exact ⟨hm₂, trivial⟩
  | returned v => exact ⟨hm₂, hc⟩

theorem execute_succ (h : SoundAll code fuel) (id : StmtId) (hm : m.Sound code) :
    (Scriptorium.execute code (fuel + 1) id m).Sound code (Completion.Sound code) := by
  have hrestores := restoresAll code fuel
  have hdefine : ∀ text v m₁, m₁.Sound code → v.Sound code m₁.env.frames.size →
      ((do Step.define text v; Step.pure Completion.normal : Step Completion) m₁).Sound code
        (Completion.Sound code) := fun text v m₁ hm₁ hv =>
    .bind (.define hm₁ text hv) fun _ m₂ _ hm₂ _ => ⟨hm₂, trivial⟩
  rw [Scriptorium.execute]
  refine .found_bind fun node hnode => ?_
  obtain ⟨kind, span⟩ := node
  cases kind with
  | expression x => exact .bind (h.evaluate x m hm) fun v m₁ _ hm₁ _ => ⟨hm₁, trivial⟩
  | declare name init =>
    cases init with
    | none =>
      have hzero : (Step.pure Value.zero m).Sound code (Value.Sound code) := ⟨hm, trivial⟩
      exact .bind hzero fun v m₁ _ hm₁ hv => .found_bind fun text _ => hdefine text v m₁ hm₁ hv
    | some x =>
      exact .bind (h.evaluate x m hm) fun v m₁ _ hm₁ hv =>
        .found_bind fun text _ => hdefine text v m₁ hm₁ hv
  | block body =>
    exact .inNewFrame hm (hrestores.executeBlock body) (h.executeBlock body _ hm.nested)
  | branch cond thenBranch elseBranch =>
    refine .bind (h.evaluate cond m hm) fun v m₁ _ hm₁ _ => ?_
    refine .bind (sound_truthOf hm₁ cond v) fun b m₂ _ hm₂ _ => ?_
    split
    · exact h.execute thenBranch m₂ hm₂
    · cases elseBranch with
      | none => exact ⟨hm₂, trivial⟩
      | some other => exact h.execute other m₂ hm₂
  | loop cond body => exact h.executeLoop cond body m hm
  | function name params body =>
    refine .found_bind fun text htext => .found_bind fun ids hids => .found_bind
      fun texts htexts => ?_
    -- the new function is the one that this statement declares
    have hf : UserFunction.Sound code m.env.frames.size
        ⟨text, id, texts, body, m.env.active, m.nextIdentity⟩ :=
      ⟨⟨name, params, span, hnode, htext, ids, hids, htexts⟩, hm.env.active⟩
    exact hdefine text _ { m with nextIdentity := m.nextIdentity + 1 } ⟨hm.env, hm.calls⟩ hf
  | ret value =>
    cases value with
    | none => exact ⟨hm, trivial⟩
    | some x => exact .bind (h.evaluate x m hm) fun v m₁ _ hm₁ hv => ⟨hm₁, hv⟩

theorem executeBlock_succ (h : SoundAll code fuel) (body : Slice StmtId) (hm : m.Sound code) :
    (Scriptorium.executeBlock code (fuel + 1) body m).Sound code (Completion.Sound code) := by
  rw [Scriptorium.executeBlock]
  exact .found_bind fun ids _ => h.executeAll ids m hm

theorem executeAll_succ (h : SoundAll code fuel) (ids : List StmtId) (hm : m.Sound code) :
    (Scriptorium.executeAll code (fuel + 1) ids m).Sound code (Completion.Sound code) := by
  cases ids with
  | nil => exact ⟨hm, trivial⟩
  | cons id ids =>
    rw [Scriptorium.executeAll]
    refine .bind (h.execute id m hm) fun completion m₁ _ hm₁ hc => ?_
    cases completion with
    | normal => exact h.executeAll ids m₁ hm₁
    | returned v => exact ⟨hm₁, hc⟩

theorem executeLoop_succ (h : SoundAll code fuel) (cond : ExprId) (body : StmtId)
    (hm : m.Sound code) :
    (Scriptorium.executeLoop code (fuel + 1) cond body m).Sound code (Completion.Sound code) := by
  rw [Scriptorium.executeLoop]
  refine .bind (h.evaluate cond m hm) fun v m₁ _ hm₁ _ => ?_
  refine .bind (sound_truthOf hm₁ cond v) fun b m₂ _ hm₂ _ => ?_
  split
  · refine .bind (.inNewFrame hm₂ ((restoresAll code fuel).execute body)
      (h.execute body _ hm₂.nested)) fun completion m₃ _ hm₃ hc => ?_
    cases completion with
    | normal => exact h.executeLoop cond body m₃ hm₃
    | returned v => exact ⟨hm₃, hc⟩
  · exact ⟨hm₂, trivial⟩

end SoundAll

/-- With every bound, the functions of the interpreter leave sound machines. -/
theorem soundAll (code : Code) (fuel : Nat) : SoundAll code fuel := by
  induction fuel with
  | zero =>
    exact ⟨fun _ _ _ => trivial, fun _ _ _ => trivial, fun _ _ _ _ _ _ _ => trivial,
      fun _ _ _ _ _ _ _ => trivial, fun _ _ _ => trivial, fun _ _ _ => trivial,
      fun _ _ _ => trivial, fun _ _ _ _ => trivial⟩
  | succ fuel ih =>
    exact ⟨fun id _ => ih.evaluate_succ id, fun ids _ => ih.evaluateAll_succ ids,
      fun f args span _ => ih.call_succ f args span,
      fun f args span _ => ih.callUser_succ f args span, fun id _ => ih.execute_succ id,
      fun body _ => ih.executeBlock_succ body, fun ids _ => ih.executeAll_succ ids,
      fun cond body _ => ih.executeLoop_succ cond body⟩

theorem sound_interpret (code : Code) (fuel : Nat) (stmts : List StmtId) (hm : m.Sound code) :
    (interpret code fuel stmts m).Sound code fun _ _ => True := by
  induction stmts generalizing m with
  | nil => exact ⟨hm, trivial⟩
  | cons id ids ih =>
    rw [interpret]
    refine .bind ((soundAll code fuel).execute id m hm) fun completion m₁ _ hm₁ _ => ?_
    cases completion with
    | normal => exact ih hm₁
    | returned v => exact ⟨hm₁, trivial⟩

end Scriptorium
