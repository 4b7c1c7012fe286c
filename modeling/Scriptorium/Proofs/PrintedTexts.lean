import Scriptorium.Proofs.PrintCalls
import Scriptorium.Proofs.SilentRuns
import Scriptorium.Proofs.SoundTasks

/-!
# What a run prints

The text that a run prints is that of its print calls, in the order in which they are made,
whether the run succeeds or goes wrong.  Nobody can tell from anything else where the text went.

* `PrintsAll`, `printsAll` — the functions of the interpreter print the texts of the print
  calls to which their parts come, proved along each function;
* `runSource_prints` — the printed text, the diagnostics and the success of whole runs.
-/

namespace Scriptorium

variable {α β : Type} {code : Code} {fuel : Nat}

open Step

/-! ## Provided functions -/

/-- A provided function that is not made to print, or does not get as many arguments as it
takes, prints nothing. -/
theorem silent_native {m : Machine} {f : NativeFunction} {args : List Value} {span : Span}
    (h : ¬ PrintCall.Valid ⟨f, args, span, m⟩) :
    (call code (fuel + 1) (.native f) args span).Silent := by
  intro m₁
  unfold call
  simp only [Value.arity?]
  split
  · exact silent_fail _ _ m₁
  · next harity =>
    have harity : args.length = f.arity := Decidable.not_not.1 harity
    cases haction : f.action with
    | print => exact (h ⟨.inl haction, harity⟩).elim
    | println => exact (h ⟨.inr haction, harity⟩).elim
    | clock => exact ⟨rfl, .refl _⟩
    | zero => exact silent_pure _ m₁
    | firstArgument => exact silent_pure _ m₁
    | argumentCount => exact silent_pure _ m₁
    | raise e => exact silent_fail _ _ m₁

/-- The call of a provided function is a print call, or it prints nothing. -/
theorem prints_native (f : NativeFunction) (args : List Value) (span : Span) (m : Machine) :
    (call code (fuel + 1) (.native f) args span m).Prints code
      (.only (.call (.native f) args span) m) m := by
  by_cases hvalid : PrintCall.Valid ⟨f, args, span, m⟩
  · rw [PrintCall.call_eq hvalid]
    rintro _ ⟨⟩
    refine ⟨[⟨f, args, span, m⟩], .call hvalid (.refl m) (.nothing (.refl _)), fun c => ?_⟩
    rw [List.mem_singleton]
    constructor
    · rintro rfl
      exact ⟨_, _, ⟨rfl, rfl⟩, hvalid, .start⟩
    · rintro ⟨_, _, ⟨rfl, rfl⟩, hc⟩
      rcases hc.visits.eq_or_starts with ⟨htask, hmachine⟩ | ⟨u, n, hu, -⟩
      · obtain ⟨g, vs, site, n⟩ := c
        cases htask
        cases hmachine
        rfl
      · exact (starts_iff.1 hu).elim
  · refine .only (fun c hc htask => hvalid ?_) (.silent (silent_native hvalid) m)
    obtain ⟨g, vs, site, n⟩ := c
    cases htask
    exact ⟨hc.prints, hc.arity⟩

/-! ## The interpreter -/

/-- With the bound `fuel`, the calls that print in a function of the interpreter are those to
which its task comes. -/
structure PrintsAll (code : Code) (fuel : Nat) : Prop where
  evaluate : ∀ id m, (evaluate code fuel id m).Prints code (.only (.evaluate id) m) m
  evaluateAll : ∀ ids m,
    (evaluateAll code fuel ids m).Prints code (.only (.evaluateAll ids) m) m
  call : ∀ callee args span m,
    (call code fuel callee args span m).Prints code (.only (.call callee args span) m) m
  callUser : ∀ f args span m,
    (callUser code fuel f args span m).Prints code (.only (.callUser f args span) m) m
  execute : ∀ id m, (execute code fuel id m).Prints code (.only (.execute id) m) m
  executeBlock : ∀ body m,
    (executeBlock code fuel body m).Prints code (.only (.executeBlock body) m) m
  executeAll : ∀ ids m, (executeAll code fuel ids m).Prints code (.only (.executeAll ids) m) m
  executeLoop : ∀ cond body m,
    (executeLoop code fuel cond body m).Prints code (.only (.executeLoop cond body) m) m

namespace PrintsAll

variable {m : Machine}

/-- An expression, and then what its value tells. -/
theorem evaluate_bind (h : PrintsAll code fuel) (id : ExprId) {f : Value → Step β}
    {next : Value → Machine → Tasks}
    (hf : ∀ v m₁, (f v m₁).Prints code (next v m₁) m₁) :
    ((Scriptorium.evaluate code fuel id >>= f) m).Prints code
      ((Tasks.only (.evaluate id) m).andThen (Scriptorium.evaluate code · id) m next) m :=
  .bind (x := fun fuel => Scriptorium.evaluate code fuel id)
    (fun limit hle => (truncatesAll code limit hle).evaluate id) (h.evaluate id m)
    fun v m₁ _ => hf v m₁

/-- A statement, and then, if it does not end the call, what follows. -/
theorem execute_bind (h : PrintsAll code fuel) (id : StmtId) {next : Step β} {S : Machine → Tasks}
    {last : Value → Step β} (hlast : ∀ v, (last v).Silent)
    (hnext : ∀ m₁, (next m₁).Prints code (S m₁) m₁) :
    ((Scriptorium.execute code fuel id >>= fun c => match c with
      | .returned v => last v
      | .normal => next) m).Prints code
      ((Tasks.only (.execute id) m).andThen (Scriptorium.execute code · id) m
        fun c m₁ => Tasks.unlessReturned (S m₁) c) m := by
  refine .bind (x := fun fuel => Scriptorium.execute code fuel id)
    (fun limit hle => (truncatesAll code limit hle).execute id) (h.execute id m)
    fun c m₁ _ => ?_
  cases c with
  | normal => exact hnext m₁
  | returned v => exact .silent (hlast v) m₁

theorem parts_evaluate (h : PrintsAll code fuel) (id : ExprId) (m : Machine) :
    (Scriptorium.evaluate code (fuel + 1) id m).Prints code ((Task.evaluate id).Parts code m)
      m := by
  rw [Scriptorium.evaluate]
  refine .found_bind fun node _ => ?_
  obtain ⟨kind, span⟩ := node
  cases kind with
  | literal value =>
    cases value with
    | int n => exact .silent (silent_ofExcept _ _) m
    | str text => exact .silent ((silent_found _).bind fun _ => silent_pure _) m
    | bool b => exact .silent (silent_pure _) m
  | reference name => exact .silent ((silent_found _).bind fun _ => silent_lookup _ _) m
  | group x => exact h.evaluate x m
  | unary op x => exact .bind_silent (h.evaluate x m) fun _ => silent_ofExcept _ _
  | assign name nameSpan x =>
    exact .bind_silent (h.evaluate x m) fun _ =>
      (silent_found _).bind fun _ => silent_assign _ _ _
  | binary op l r =>
    exact h.evaluate_bind l fun v m₁ =>
      .bind_silent (h.evaluate r m₁) fun _ => silent_ofExcept _ _
  | logical op l r =>
    refine h.evaluate_bind l fun v m₁ => ?_
    refine .given (fun hright => ?_) fun hnone => ?_
    · simp only [hright.1, hright.2, Bool.not_true, Bool.false_eq_true, if_false]
      exact h.evaluate r m₁
    · split
      · exact .silent (silent_failAt _ _) m₁
      split
      · exact .silent (silent_pure _) m₁
      · next hinteger hdecided => simp_all
  | call callee args =>
    refine h.evaluate_bind callee fun f m₁ => .found_bind fun ids _ => ?_
    exact .bind (x := fun fuel => Scriptorium.evaluateAll code fuel ids)
      (fun limit hle => (truncatesAll code limit hle).evaluateAll ids) (h.evaluateAll ids m₁)
      fun vs m₂ _ => h.call f vs span m₂

theorem parts_evaluateAll (h : PrintsAll code fuel) (ids : List ExprId) (m : Machine) :
    (Scriptorium.evaluateAll code (fuel + 1) ids m).Prints code
      ((Task.evaluateAll ids).Parts code m) m := by
  cases ids with
  | nil => exact .silent (silent_pure _) m
  | cons id ids =>
    rw [Scriptorium.evaluateAll]
    exact h.evaluate_bind id fun _ m₁ =>
      .bind_silent (h.evaluateAll ids m₁) fun _ => silent_pure _

theorem parts_callUser (h : PrintsAll code fuel) (f : UserFunction) (args : List Value)
    (span : Span) (m : Machine) :
    (Scriptorium.callUser code (fuel + 1) f args span m).Prints code
      ((Task.callUser f args span).Parts code m) m := by
  rw [callUser_succ]
  refine .given (fun hlimit => ?_) fun hlimit => ?_
  · rw [inCall_eq hlimit]
    refine .after ?_ fun m' => ⟨rfl, .refl _⟩
    refine .bind_silent
      (x := Step.inFrame ⟨m.env.frames.size⟩ (Scriptorium.executeBlock code fuel f.body))
      (.inFrame ((h.executeBlock f.body _).after_quiet (.called m f args span))) fun c => ?_
    cases c with
    | normal => exact silent_pure _
    | returned v => exact silent_pure _
  · obtain ⟨limit, hlimit⟩ := Option.ne_none_iff_exists'.1 hlimit
    rw [inCall_refused hlimit]
    exact .silent (silent_fail _ _) m

theorem parts_execute (h : PrintsAll code fuel) (id : StmtId) (m : Machine) :
    (Scriptorium.execute code (fuel + 1) id m).Prints code ((Task.execute id).Parts code m)
      m := by
  rw [Scriptorium.execute]
  refine .found_bind fun node _ => ?_
  obtain ⟨kind, span⟩ := node
  cases kind with
  | expression x => exact .bind_silent (h.evaluate x m) fun _ => silent_pure _
  | declare name init =>
    have hname : ∀ value, (do
        let name ← Step.found (code.names.text? name)
        Step.define name value
        Step.pure Completion.normal : Step Completion).Silent := fun value =>
      (silent_found _).bind fun _ => (silent_define _ _).bind fun _ => silent_pure _
    cases init with
    | none => exact .silent ((silent_pure _).bind hname) m
    | some x => exact .bind_silent (h.evaluate x m) hname
  | block body => exact .inNewFrame ((h.executeBlock body _).after_quiet (.nested m))
  | branch cond thenBranch elseBranch =>
    refine h.evaluate_bind cond fun v m₁ => .truthOf_bind fun _ => ?_
    split
    · exact h.execute thenBranch m₁
    · cases elseBranch with
      | none => exact .held_none (.silent (silent_pure _) m₁)
      | some other => exact .held_some (h.execute other m₁)
  | loop cond body => exact h.executeLoop cond body m
  | function name params body =>
    exact .silent ((silent_found _).bind fun _ => (silent_found _).bind fun _ =>
      (silent_found _).bind fun _ => (silent_newFunction _).bind fun _ =>
      (silent_define _ _).bind fun _ => silent_pure _) m
  | ret value =>
    cases value with
    | none => exact .silent (silent_pure _) m
    | some x => exact .bind_silent (h.evaluate x m) fun _ => silent_pure _

theorem parts_executeBlock (h : PrintsAll code fuel) (body : Slice StmtId) (m : Machine) :
    (Scriptorium.executeBlock code (fuel + 1) body m).Prints code
      ((Task.executeBlock body).Parts code m) m := by
  rw [Scriptorium.executeBlock]
  exact .found_bind fun ids _ => h.executeAll ids m

theorem parts_executeAll (h : PrintsAll code fuel) (ids : List StmtId) (m : Machine) :
    (Scriptorium.executeAll code (fuel + 1) ids m).Prints code
      ((Task.executeAll ids).Parts code m) m := by
  cases ids with
  | nil => exact .silent (silent_pure _) m
  | cons id ids =>
    rw [Scriptorium.executeAll]
    exact h.execute_bind id (fun _ => silent_pure _) fun m₁ => h.executeAll ids m₁

theorem parts_executeLoop (h : PrintsAll code fuel) (cond : ExprId) (body : StmtId)
    (m : Machine) :
    (Scriptorium.executeLoop code (fuel + 1) cond body m).Prints code
      ((Task.executeLoop cond body).Parts code m) m := by
  rw [Scriptorium.executeLoop]
  refine h.evaluate_bind cond fun v m₁ => .truthOf_bind fun _ => ?_
  refine .given (fun htrue => ?_) fun hfalse => ?_
  · rw [if_pos htrue]
    refine .bind (x := fun fuel => Step.inNewFrame (Scriptorium.execute code fuel body))
      (fun limit hle => ((truncatesAll code limit hle).execute body).inNewFrame)
      (.inNewFrame ((h.execute body _).after_quiet (.nested m₁))) fun c m₂ _ => ?_
    cases c with
    | normal => exact h.executeLoop cond body m₂
    | returned v => exact .silent (silent_pure _) m₂
  · rw [if_neg hfalse]
    exact .silent (silent_pure _) m₁

theorem succ (h : PrintsAll code fuel) : PrintsAll code (fuel + 1) where
  evaluate id m := .only_parts rfl (h.parts_evaluate id m)
  evaluateAll ids m := .only_parts rfl (h.parts_evaluateAll ids m)
  call callee args span m := by
    cases callee with
    | native f => exact prints_native f args span m
    | user f =>
      refine .only_parts rfl (.given (fun hlength => ?_) fun hlength => ?_)
      · simp only [Scriptorium.call, Value.arity?, hlength, ne_eq, not_true_eq_false, if_false]
        exact h.callUser f args span m
      · simp only [Scriptorium.call, Value.arity?, ne_eq, hlength, not_false_eq_true, if_true]
        exact .silent (silent_fail _ _) m
    | int n | wide n | str text =>
      exact .only_parts rfl (.silent (silent_fail _ _) m)
  callUser f args span m := .only_parts rfl (h.parts_callUser f args span m)
  execute id m := .only_parts rfl (h.parts_execute id m)
  executeBlock body m := .only_parts rfl (h.parts_executeBlock body m)
  executeAll ids m := .only_parts rfl (h.parts_executeAll ids m)
  executeLoop cond body m := .only_parts rfl (h.parts_executeLoop cond body m)

end PrintsAll

/-- With every bound, the calls that print in a function of the interpreter are those to which
its task comes. -/
theorem printsAll (code : Code) (fuel : Nat) : PrintsAll code fuel := by
  induction fuel with
  | zero =>
    exact ⟨fun _ _ => .exhausted, fun _ _ => .exhausted, fun _ _ _ _ => .exhausted,
      fun _ _ _ _ => .exhausted, fun _ _ => .exhausted, fun _ _ => .exhausted,
      fun _ _ => .exhausted, fun _ _ _ => .exhausted⟩
  | succ fuel ih => exact ih.succ

theorem prints_interpret (code : Code) (fuel : Nat) (stmts : List StmtId) (m : Machine) :
    (interpret code fuel stmts m).Prints code (.only (.interpret stmts) m) m := by
  refine .only_parts rfl ?_
  induction stmts generalizing m with
  | nil => exact .silent (silent_pure _) m
  | cons id ids ih =>
    rw [interpret]
    exact (printsAll code fuel).execute_bind id (fun _ => silent_pure _)
      fun m₁ => .only_parts rfl (ih m₁)

/-! ## Whole runs -/

/-- A diagnostic has a text. -/
theorem View.render_ne_empty (view : View) (d : Diagnostic) : view.render d ≠ "" := by
  unfold View.render
  simp

theorem View.renderAll_eq_empty {view : View} {ds : List Diagnostic} :
    view.renderAll ds = "" ↔ ds = [] := by
  cases ds with
  | nil => simp [renderAll]
  | cons d ds => simp [renderAll, String.join_cons, view.render_ne_empty d]

/-- A run that does not get stuck succeeds exactly if there is nothing to tell. -/
theorem RunResult.succeeded_iff_diagnostics {r : RunResult} (hstuck : r ≠ .stuck)
    (hexhausted : r ≠ .exhausted) : r.succeeded = true ↔ r.diagnostics = [] := by
  cases r with
  | syntaxError e => simp [succeeded, diagnostics]
  | finished m => simp [succeeded, diagnostics]
  | failed e m => simp [succeeded, diagnostics]
  | stuck => exact (hstuck rfl).elim
  | exhausted => exact (hexhausted rfl).elim

/-- A run of a code that ends has printed the texts of its print calls. -/
theorem runCode_prints {settings : Settings} {stmts : List StmtId} {m : Machine}
    (h : (interpret code settings.fuel stmts settings.machine).machine? = some m) :
    ∃ calls, Printing code settings.machine calls m ∧
      ∀ c : PrintCall, c ∈ calls ↔ c.Executed code (.interpret stmts) settings.machine := by
  obtain ⟨calls, hcalls, hmem⟩ := prints_interpret code settings.fuel stmts settings.machine m h
  refine ⟨calls, hcalls, fun c => (hmem c).trans ⟨?_, fun hc => ⟨_, _, ⟨rfl, rfl⟩, hc⟩⟩⟩
  rintro ⟨_, _, ⟨rfl, rfl⟩, hc⟩
  exact hc

theorem RunResult.exists_machine {settings : Settings} {stmts : List StmtId}
    (hstuck : runCode settings code stmts ≠ .stuck)
    (hexhausted : runCode settings code stmts ≠ .exhausted) :
    ∃ m, (interpret code settings.fuel stmts settings.machine).machine? = some m ∧
      (runCode settings code stmts).output = m.console.output := by
  unfold runCode at hstuck hexhausted ⊢
  cases hrun : interpret code settings.fuel stmts settings.machine with
  | done a m => exact ⟨m, rfl, rfl⟩
  | failed e m => exact ⟨m, rfl, rfl⟩
  | stuck => simp [hrun] at hstuck
  | exhausted => simp [hrun] at hexhausted

/-- A run that keeps what is printed and one that drops it succeed or fail alike and tell a
reader the same, whatever else the settings are; one ends if the other does.  A run that ends
succeeds exactly if there is nothing to tell.  A text with a syntax error prints nothing.  The
run of any other text, if it ends, with an error or without, has printed the texts of the print
calls that it came to: of all of them and no others, one after the other, where each finds the
texts of those before it on the console. -/
theorem runSource_prints (settings : Settings) (source : String) (view : View) :
    let code := (parse source).code
    let run := Task.interpret (parse source).module
    let buffered := { settings with console := .empty }
    let r := runSource buffered source
    let r' := runSource { settings with console := .silent } source
    (r.succeeded = r'.succeeded ∧
      view.renderAll r.diagnostics = view.renderAll r'.diagnostics ∧
      (r = .exhausted ↔ r' = .exhausted)) ∧
    (r ≠ .exhausted → (r.succeeded = true ↔ view.renderAll r.diagnostics = "")) ∧
    (∀ e, (parse source).failure = some e → r = .syntaxError e ∧ r.output = "") ∧
    ((parse source).failure = none → r ≠ .exhausted → ∃ calls : List PrintCall,
      (∀ c, c ∈ calls ↔ c.Executed code run buffered.machine) ∧
      calls.Pairwise (PrintCall.Precedes code) ∧
      (∀ earlier c later, calls = earlier ++ c :: later →
        c.machine.console = .buffer (String.join (earlier.map PrintCall.text))) ∧
      r.output = String.join (calls.map PrintCall.text)) := by
  intro code run buffered r r'
  obtain ⟨hsucceeded, hdiagnostics, hexhausted⟩ :=
    runSource_consoles settings .empty .silent source
  have hrejected : ∀ e, (parse source).failure = some e → r = .syntaxError e := fun e he => by
    simp only [r, runSource, he]
  have hstuck : r ≠ .stuck := by
    cases hparse : (parse source).failure with
    | some e => simp [hrejected e hparse]
    | none => exact (runSource_grounded hparse buffered).1
  refine ⟨⟨hsucceeded, congrArg view.renderAll hdiagnostics, hexhausted⟩, fun hends => ?_,
    fun e he => ⟨hrejected e he, by rw [hrejected e he]; rfl⟩, fun hparse hends => ?_⟩
  · rw [RunResult.succeeded_iff_diagnostics hstuck hends, View.renderAll_eq_empty]
  · have hrun : r = runCode buffered code (parse source).module :=
      runSource_of_accepted hparse buffered
    rw [hrun] at hstuck hends ⊢
    obtain ⟨m, hm, houtput⟩ := RunResult.exists_machine hstuck hends
    obtain ⟨calls, hcalls, hmem⟩ := runCode_prints hm
    have hstart : buffered.machine.console = .buffer "" := rfl
    refine ⟨calls, hmem, hcalls.pairwise, ?_, ?_⟩
    · rintro earlier c later rfl
      rw [hcalls.upTo.console_eq, hstart, Console.print, String.empty_append]
    · rw [houtput, hcalls.console_eq, hstart, Console.print, String.empty_append, Console.output]

/-- Two calls have printed where a run goes wrong. -/
theorem runSource_prints_before_failure :
    (parse "print(1); println(2); x; print(3);").failure = none ∧
    (runSource ⟨some 9, .empty, .fixed 0, 60⟩ "print(1); println(2); x; print(3);").succeeded
      = false ∧
    ∃ calls : List PrintCall, calls.Pairwise
        (PrintCall.Precedes (parse "print(1); println(2); x; print(3);").code) ∧
      String.join (calls.map PrintCall.text) = "12\n" := by
  have hparse : (parse "print(1); println(2); x; print(3);").failure = none := by decide +kernel
  have hfailed : (runSource ⟨some 9, .empty, .fixed 0, 60⟩
      "print(1); println(2); x; print(3);").succeeded = false := by decide +kernel
  have houtput : (runSource ⟨some 9, .empty, .fixed 0, 60⟩
      "print(1); println(2); x; print(3);").output = "12\n" := by decide +kernel
  have hends : runSource ⟨some 9, .empty, .fixed 0, 60⟩ "print(1); println(2); x; print(3);" ≠
      .exhausted := by
    intro h
    rw [h] at houtput
    exact absurd houtput (by decide)
  obtain ⟨-, -, -, hprints⟩ := runSource_prints ⟨some 9, .empty, .fixed 0, 60⟩
    "print(1); println(2); x; print(3);" ⟨false, none⟩
  obtain ⟨calls, -, hpairwise, -, hcalls⟩ := hprints hparse hends
  exact ⟨hparse, hfailed, calls, hpairwise, hcalls.symm.trans houtput⟩

end Scriptorium
