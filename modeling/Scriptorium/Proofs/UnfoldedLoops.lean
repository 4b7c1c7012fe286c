import Scriptorium.Proofs.AlikeRuns
import Scriptorium.Proofs.Grammar
import Scriptorium.Proofs.SpareSteps

/-!
# Loops with clauses, written out

A loop with clauses stands for a loop with a condition, put in a block together with the first
clause, and with the last clause in a block together with its body.  A block is left out where
the clause is absent.  Written out in full, both blocks are always there.  The two forms run
alike: the blocks that are left out would only add spare frames.

* `fullFor`, `Stmt.Unfolds` — the full form, and trees in which loops are written out;
* `Mirrors` — each function of the interpreter does the same on a code and on one with the
  loops written out, with a bound for each of them;
* `mirrors` — it is so with any two bounds;
* `interpret_unfolds` — programs run alike when their loops are written out.
-/

namespace Scriptorium

/-! ## The full form -/

/-- The statement that a loop with clauses stands for, with both blocks. -/
def fullFor (first : Option (Stmt Unit)) (cond last : Option (Expr Unit)) (body : Stmt Unit) :
    Stmt Unit :=
  .block (first.toList ++ [.loop (cond.getD (.literal (.bool true) ()))
    (.block (body :: last.toList.map fun last => .expression last ()) ()) ()]) ()

/-- The second tree is the first one in which any number of loops with clauses are written out
in full, also inside each other. -/
inductive Stmt.Unfolds : Stmt Unit → Stmt Unit → Prop where
  /-- An expression. -/
  | expression (e : Expr Unit) : Unfolds (.expression e ()) (.expression e ())
  /-- The declaration of a variable. -/
  | declare (name : String) (init : Option (Expr Unit)) :
      Unfolds (.declare name init ()) (.declare name init ())
  /-- A block. -/
  | block {ss ss' : List (Stmt Unit)} :
      List.Forall₂ Unfolds ss ss' → Unfolds (.block ss ()) (.block ss' ())
  /-- A conditional without `else`. -/
  | branch (cond : Expr Unit) {s s' : Stmt Unit} :
      Unfolds s s' → Unfolds (.branch cond s none ()) (.branch cond s' none ())
  /-- A conditional with `else`. -/
  | branchElse (cond : Expr Unit) {s s' t t' : Stmt Unit} :
      Unfolds s s' → Unfolds t t' →
      Unfolds (.branch cond s (some t) ()) (.branch cond s' (some t') ())
  /-- A loop. -/
  | loop (cond : Expr Unit) {s s' : Stmt Unit} :
      Unfolds s s' → Unfolds (.loop cond s ()) (.loop cond s' ())
  /-- The declaration of a function. -/
  | function (name : String) (params : List String) {ss ss' : List (Stmt Unit)} :
      List.Forall₂ Unfolds ss ss' →
      Unfolds (.function name params ss ()) (.function name params ss' ())
  /-- A `return`. -/
  | ret (value : Option (Expr Unit)) : Unfolds (.ret value ()) (.ret value ())
  /-- A loop with clauses, which is written out. -/
  | forLoop (first : Option (Stmt Unit)) (cond last : Option (Expr Unit)) {s s' : Stmt Unit} :
      Unfolds s s' → Unfolds (lowerFor first cond last s) (fullFor first cond last s')

mutual

/-- No loop has to be written out. -/
theorem Stmt.Unfolds.refl : (s : Stmt Unit) → s.Unfolds s
  | .expression e _ => .expression e
  | .declare name init _ => .declare name init
  | .block ss _ => .block (Stmt.Unfolds.reflAll ss)
  | .branch cond s none _ => .branch cond (Stmt.Unfolds.refl s)
  | .branch cond s (some t) _ => .branchElse cond (Stmt.Unfolds.refl s) (Stmt.Unfolds.refl t)
  | .loop cond s _ => .loop cond (Stmt.Unfolds.refl s)
  | .function name params ss _ => .function name params (Stmt.Unfolds.reflAll ss)
  | .ret value _ => .ret value

theorem Stmt.Unfolds.reflAll : (ss : List (Stmt Unit)) → List.Forall₂ Stmt.Unfolds ss ss
  | [] => .nil
  | s :: ss => .cons (Stmt.Unfolds.refl s) (Stmt.Unfolds.reflAll ss)

end

/-- The bodies of two loops.  The second one may stand in a block of its own. -/
inductive Stmt.UnfoldsBody : Stmt Unit → Stmt Unit → Prop where
  /-- It does not. -/
  | bare {s s' : Stmt Unit} : s.Unfolds s' → UnfoldsBody s s'
  /-- It does. -/
  | boxed {s s' : Stmt Unit} : s.Unfolds s' → UnfoldsBody s (.block [s'] ())

/-- In the full form, the last clause stands in a block with the body, and the body in a block
of its own if there is no last clause. -/
theorem Stmt.unfoldsBody_lowerBody {s s' : Stmt Unit} (h : s.Unfolds s')
    (last : Option (Expr Unit)) :
    (lowerBody s last).UnfoldsBody
      (.block (s' :: last.toList.map fun last => .expression last ()) ()) := by
  cases last with
  | none => exact .boxed h
  | some last => exact .bare (.block (.cons h (.cons (.expression last) .nil)))

/-- Statements that are carried out side by side.  A loop is compared with the loop inside its
full form. -/
inductive Stmt.Meets : Stmt Unit → Stmt Unit → Prop where
  /-- Loops are written out. -/
  | unfolds {s s' : Stmt Unit} : s.Unfolds s' → Meets s s'
  /-- Loops whose bodies correspond. -/
  | loop (cond : Expr Unit) {s s' : Stmt Unit} :
      s.UnfoldsBody s' → Meets (.loop cond s ()) (.loop cond s' ())

/-! ## The interpreter -/

variable {c d : Code}

/-- The lists of statements correspond, one by one. -/
def MeetingBody (c d : Code) (body body' : Slice StmtId) : Prop :=
  ∃ ids ids' ss ss', c.arena.stmtsIn? body = some ids ∧ List.Forall₂ c.StmtAt ids ss ∧
    d.arena.stmtsIn? body' = some ids' ∧ List.Forall₂ d.StmtAt ids' ss' ∧
    List.Forall₂ Stmt.Meets ss ss'

/-- The values match. -/
abbrev MeetingValue (c d : Code) (M : FrameMap) : Value → Value → Prop :=
  Value.Matches M (MeetingBody c d)

/-- The statements end alike. -/
inductive Completion.Meets (c d : Code) (M : FrameMap) : Completion → Completion → Prop where
  /-- The next statement follows. -/
  | normal : Meets c d M .normal .normal
  /-- The call ends. -/
  | returned {v v' : Value} : MeetingValue c d M v v' → Meets c d M (.returned v) (.returned v')

/-- With the bounds `n` and `n'`, the interpreter does the same on the two codes.  What declares
names in the active frame needs frames that correspond; for the rest it is enough that the same
names are seen. -/
structure Mirrors (c d : Code) (n n' : Nat) : Prop where
  evaluate : ∀ {M : FrameMap} {a a' id id' e}, M.Sees a a' → c.ExprAt id e → d.ExprAt id' e →
    Step.Matches (MeetingBody c d) n n' M a a' (MeetingValue c d) (evaluate c n id)
      (evaluate d n' id')
  evaluateAll : ∀ {M : FrameMap} {a a' ids ids' es}, M.Sees a a' →
    List.Forall₂ c.ExprAt ids es → List.Forall₂ d.ExprAt ids' es →
    Step.Matches (MeetingBody c d) n n' M a a' (fun N => List.Forall₂ (MeetingValue c d N))
      (evaluateAll c n ids) (evaluateAll d n' ids')
  call : ∀ {M : FrameMap} {a a' f f' args args'} (span span' : Span),
    MeetingValue c d M f f' → List.Forall₂ (MeetingValue c d M) args args' →
    Step.Matches (MeetingBody c d) n n' M a a' (MeetingValue c d) (call c n f args span)
      (call d n' f' args' span')
  callUser : ∀ {M : FrameMap} {a a' f f' args args'} (span span' : Span),
    MeetingValue c d M (.user f) (.user f') → List.Forall₂ (MeetingValue c d M) args args' →
    Step.Matches (MeetingBody c d) n n' M a a' (MeetingValue c d) (callUser c n f args span)
      (callUser d n' f' args' span')
  execute : ∀ {M : FrameMap} {a a' id id' s s'}, M.Pairs a a' → c.StmtAt id s →
    d.StmtAt id' s' → s.Meets s' →
    Step.Matches (MeetingBody c d) n n' M a a' (Completion.Meets c d) (execute c n id)
      (execute d n' id')
  executeBlock : ∀ {M : FrameMap} {a a' body body'}, M.Pairs a a' → MeetingBody c d body body' →
    Step.Matches (MeetingBody c d) n n' M a a' (Completion.Meets c d) (executeBlock c n body)
      (executeBlock d n' body')
  executeAll : ∀ {M : FrameMap} {a a' ids ids' ss ss'}, M.Pairs a a' →
    List.Forall₂ c.StmtAt ids ss → List.Forall₂ d.StmtAt ids' ss' →
    List.Forall₂ Stmt.Meets ss ss' →
    Step.Matches (MeetingBody c d) n n' M a a' (Completion.Meets c d) (executeAll c n ids)
      (executeAll d n' ids')
  executeLoop : ∀ {M : FrameMap} {a a' cond cond' body body' e s s'}, M.Sees a a' →
    c.ExprAt cond e → d.ExprAt cond' e → c.StmtAt body s → d.StmtAt body' s' →
    s.UnfoldsBody s' →
    Step.Matches (MeetingBody c d) n n' M a a' (Completion.Meets c d) (executeLoop c n cond body)
      (executeLoop d n' cond' body')

/-! ## Errors and conditions -/

section Conditions

variable {M : FrameMap} {a a' : FrameId} {n n' : Nat} {id id' : ExprId} {e : Expr Unit}

theorem matches_failAt {α β : Type} {R : FrameMap → α → β → Prop} (hc : c.ExprAt id e)
    (hd : d.ExprAt id' e) (error : RunError) :
    Step.Matches (MeetingBody c d) n n' M a a' R (failAt c error id) (failAt d error id') := by
  obtain ⟨node, hnode⟩ := hc.exists_node
  obtain ⟨node', hnode'⟩ := hd.exists_node
  exact .found_bind hnode hnode' (Step.matches_fail error.alike_refl _ _)

theorem matches_truthOf (hc : c.ExprAt id e) (hd : d.ExprAt id' e) {v v' : Value}
    (hv : MeetingValue c d M v v') :
    Step.Matches (MeetingBody c d) n n' M a a' (fun _ => Eq) (truthOf c id v)
      (truthOf d id' v') := by
  unfold truthOf
  rw [hv.resembles.isInteger_eq, hv.resembles.isTrue_eq, hv.resembles.typeName_eq]
  split
  · exact Step.matches_pure rfl
  · exact matches_failAt hc hd _

end Conditions

namespace Mirrors

variable {M : FrameMap} {a a' : FrameId} {n n' : Nat}

/-- A step more on both sides excuses no less. -/
theorem succ {α β : Type} {R : FrameMap → α → β → Prop} {x : Step α} {y : Step β}
    (h : Step.Matches (MeetingBody c d) n n' M a a' R x y) :
    Step.Matches (MeetingBody c d) (n + 1) (n' + 1) M a a' R x y :=
  h.within (by omega) (by omega)

/-! ## Expressions -/

theorem evaluate_succ (h : Mirrors c d n n') {id id' : ExprId} {e : Expr Unit}
    (hsees : M.Sees a a') (hc : c.ExprAt id e) (hd : d.ExprAt id' e) :
    Step.Matches (MeetingBody c d) (n + 1) (n' + 1) M a a' (MeetingValue c d)
      (Scriptorium.evaluate c (n + 1) id) (Scriptorium.evaluate d (n' + 1) id') := by
  refine succ ?_
  rw [Scriptorium.evaluate, Scriptorium.evaluate]
  cases hc with
  | int hnode =>
    cases hd with
    | int hnode' =>
      exact .found_bind hnode hnode'
        (Step.matches_ofExcept rfl (fun _ => Value.isInteger_of_ofLiteral) _ _)
  | str hnode htext =>
    cases hd with
    | str hnode' htext' =>
      exact .found_bind hnode hnode'
        (.found_bind htext htext' (Step.matches_pure (.same rfl)))
  | bool hnode =>
    cases hd with
    | bool hnode' => exact .found_bind hnode hnode' (Step.matches_pure (.same rfl))
  | unary hnode ho =>
    cases hd with
    | unary hnode' ho' =>
      refine .found_bind hnode hnode' ((h.evaluate hsees ho ho').bind fun _ v v' hv => ?_)
      exact Step.matches_ofExcept (UnaryOp.apply_eq _ hv.resembles)
        (fun _ => UnaryOp.isInteger_of_apply) _ _
  | binary hnode hl hr =>
    cases hd with
    | binary hnode' hl' hr' =>
      refine .found_bind hnode hnode' ((h.evaluate hsees hl hl').bind fun hMN v v' hv => ?_)
      refine (h.evaluate (hsees.mono hMN) hr hr').bind fun _ w w' hw => ?_
      exact Step.matches_ofExcept (BinaryOp.apply_eq _ hv.resembles hw.resembles)
        (fun _ => BinaryOp.isInteger_of_apply) _ _
  | logical hnode hl hr =>
    cases hd with
    | logical hnode' hl' hr' =>
      refine .found_bind hnode hnode' ((h.evaluate hsees hl hl').bind fun hMN v v' hv => ?_)
      rw [hv.resembles.isInteger_eq, hv.resembles.typeName_eq, hv.resembles.decidedBy_eq]
      split
      · exact matches_failAt hl hl' _
      split
      · exact Step.matches_pure hv
      · exact h.evaluate (hsees.mono hMN) hr hr'
  | group hnode hi =>
    cases hd with
    | group hnode' hi' => exact .found_bind hnode hnode' (h.evaluate hsees hi hi')
  | reference hnode hname =>
    cases hd with
    | reference hnode' hname' =>
      exact .found_bind hnode hnode'
        (.found_bind hname hname' (Step.matches_lookup hsees _ _ _))
  | assign hnode hname hvalue =>
    cases hd with
    | assign hnode' hname' hvalue' =>
      refine .found_bind hnode hnode'
        ((h.evaluate hsees hvalue hvalue').bind fun hMN v v' hv => ?_)
      exact .found_bind hname hname' (Step.matches_assign (hsees.mono hMN) _ hv _ _)
  | call hnode hf hargs hes =>
    cases hd with
    | call hnode' hf' hargs' hes' =>
      refine .found_bind hnode hnode' ((h.evaluate hsees hf hf').bind fun hMN v v' hv => ?_)
      refine .found_bind hargs hargs' ?_
      refine (h.evaluateAll (hsees.mono hMN) hes hes').bind fun hNO vs vs' hvs => ?_
      exact h.call _ _ (hv.mono hNO) hvs

theorem evaluateAll_succ (h : Mirrors c d n n') {ids ids' : List ExprId} {es : List (Expr Unit)}
    (hsees : M.Sees a a') (hc : List.Forall₂ c.ExprAt ids es)
    (hd : List.Forall₂ d.ExprAt ids' es) :
    Step.Matches (MeetingBody c d) (n + 1) (n' + 1) M a a'
      (fun N => List.Forall₂ (MeetingValue c d N)) (Scriptorium.evaluateAll c (n + 1) ids)
      (Scriptorium.evaluateAll d (n' + 1) ids') := by
  refine succ ?_
  cases hc with
  | nil =>
    cases hd
    exact Step.matches_pure .nil
  | cons he hes =>
    cases hd with
    | cons he' hes' =>
      rw [Scriptorium.evaluateAll, Scriptorium.evaluateAll]
      refine (h.evaluate hsees he he').bind fun hMN v v' hv => ?_
      refine (h.evaluateAll (hsees.mono hMN) hes hes').bind fun hNO vs vs' hvs => ?_
      exact Step.matches_pure (.cons (hv.mono hNO) hvs)

/-! ## Calls -/

theorem call_succ (h : Mirrors c d n n') {f f' : Value} {args args' : List Value}
    (span span' : Span) (hf : MeetingValue c d M f f')
    (hargs : List.Forall₂ (MeetingValue c d M) args args') :
    Step.Matches (MeetingBody c d) (n + 1) (n' + 1) M a a' (MeetingValue c d)
      (Scriptorium.call c (n + 1) f args span) (Scriptorium.call d (n' + 1) f' args' span') := by
  refine succ ?_
  unfold Scriptorium.call
  have hsame := hf.resembles
  rw [hsame.arity?_eq, hsame.typeName_eq, hsame.functionName_eq, hargs.length_eq]
  split
  · exact Step.matches_fail (RunError.alike_refl _) _ _
  split
  · exact Step.matches_fail (RunError.alike_refl _) _ _
  cases hf with
  | user hname hparams hclosure hidentity hbody =>
    exact h.callUser _ _ (.user hname hparams hclosure hidentity hbody) hargs
  | same hdeclared =>
    cases f with
    | native f => exact Step.matches_native f.action hargs _ _
    | user => cases hdeclared
    | int | wide | str => exact Step.matches_fail (RunError.alike_refl _) _ _

theorem callUser_succ (h : Mirrors c d n n') {f f' : UserFunction} {args args' : List Value}
    (span span' : Span) (hf : MeetingValue c d M (.user f) (.user f'))
    (hargs : List.Forall₂ (MeetingValue c d M) args args') :
    Step.Matches (MeetingBody c d) (n + 1) (n' + 1) M a a' (MeetingValue c d)
      (Scriptorium.callUser c (n + 1) f args span)
      (Scriptorium.callUser d (n' + 1) f' args' span') := by
  refine succ ?_
  cases hf with
  | same hdeclared => cases hdeclared
  | user hname hparams hclosure hidentity hbody =>
    rw [Scriptorium.callUser, Scriptorium.callUser, hparams]
    refine Step.Matches.inCall hname
      ((Step.matches_newFrame hclosure (rel_zip _ hargs)).bind fun _ f f' hpairs => ?_)
    refine ((h.executeBlock hpairs hbody).inFrame).bind ?_
    rintro _ _ _ _ (- | hv)
    · exact Step.matches_pure (.same rfl)
    · exact Step.matches_pure hv

/-! ## Statements -/

theorem matches_declare (hpairs : M.Pairs a a') {name name' : NameId} {text : String}
    (hname : c.names.text? name = some text) (hname' : d.names.text? name' = some text)
    {v v' : Value} (hv : MeetingValue c d M v v') :
    Step.Matches (MeetingBody c d) n n' M a a' (Completion.Meets c d)
      (do
        let name ← Step.found (c.names.text? name)
        Step.define name v
        Step.pure .normal)
      (do
        let name ← Step.found (d.names.text? name')
        Step.define name v'
        Step.pure .normal) :=
  .found_bind hname hname'
    ((Step.matches_define hpairs _ hv).bind fun _ _ _ _ => Step.matches_pure .normal)

theorem executeAll_one (c : Code) (k : Nat) (id : StmtId) :
    Scriptorium.executeAll c (k + 2) [id] = Scriptorium.execute c (k + 1) id := by
  funext m
  rw [Scriptorium.executeAll]
  show Step.bind (Scriptorium.execute c (k + 1) id) _ m = _
  unfold Step.bind
  cases Scriptorium.execute c (k + 1) id m with
  | done completion m => cases completion <;> rfl
  | _ => rfl

/-- A block with one statement is run as the statement in a new frame, with three steps more. -/
theorem execute_box {id : StmtId} {s : Stmt Unit} (h : d.StmtAt id (.block [s] ())) :
    ∃ inner, d.StmtAt inner s ∧
      (∀ k, Scriptorium.execute d (k + 4) id =
        Step.inNewFrame (Scriptorium.execute d (k + 1) inner)) ∧
      ∀ k < 4, Scriptorium.execute d k id = Step.exhausted := by
  cases h with
  | @block _ _ body _ _ hnode hids hss =>
    cases hss with
    | @cons inner _ _ _ hs hnil =>
      cases hnil
      have hblock (k : Nat) : Scriptorium.execute d (k + 1) id =
          Step.inNewFrame (Scriptorium.executeBlock d k body) := by
        rw [Scriptorium.execute, hnode]
        rfl
      have hall (k : Nat) : Scriptorium.executeBlock d (k + 1) body =
          Scriptorium.executeAll d k [inner] := by
        rw [Scriptorium.executeBlock, hids]
        rfl
      refine ⟨inner, hs, fun k => ?_, fun k hk => ?_⟩
      · rw [hblock, hall, executeAll_one]
      · obtain rfl | rfl | rfl | rfl : k = 0 ∨ k = 1 ∨ k = 2 ∨ k = 3 := by omega
        · rfl
        · rw [hblock]
          rfl
        · rw [hblock, hall]
          rfl
        · rw [hblock, hall]
          rfl

/-- A loop, and the loop in the block of its full form.  The frame of the block is spare. -/
theorem execute_boxed (h : ∀ k', Mirrors c d n k') {id id' : StmtId} {e : Expr Unit}
    {s s' : Stmt Unit} (hsees : M.Sees a a') (hc : c.StmtAt id (.loop e s ()))
    (hd : d.StmtAt id' (.block [.loop e s' ()] ())) (hbody : s.UnfoldsBody s') :
    Step.Matches (MeetingBody c d) (n + 1) (n' + 1) M a a' (Completion.Meets c d)
      (Scriptorium.execute c (n + 1) id) (Scriptorium.execute d (n' + 1) id') := by
  obtain ⟨inner, hinner, hrun, hearly⟩ := execute_box hd
  rcases Nat.lt_or_ge n' 3 with hlt | hge
  · rw [hearly _ (by omega)]
    exact Step.matches_second (by omega) _
  · obtain ⟨k, rfl⟩ : ∃ k, n' = k + 3 := ⟨n' - 3, by omega⟩
    rw [hrun k]
    refine Step.Matches.inSpareFrame hsees fun hMN hsees => ?_
    rw [Scriptorium.execute, Scriptorium.execute]
    cases hc with
    | loop hnode hcond hs =>
      cases hinner with
      | loop hnode' hcond' hs' =>
        refine .found_bind hnode hnode' ?_
        exact ((h k).executeLoop hsees hcond hcond' hs hs' hbody).within (by omega) (by omega)

/-- Blocks with statements that meet each other. -/
theorem execute_block (h : Mirrors c d n n') {id id' : StmtId} {ss ss' : List (Stmt Unit)}
    (hsees : M.Sees a a') (hc : c.StmtAt id (.block ss ())) (hd : d.StmtAt id' (.block ss' ()))
    (hss : List.Forall₂ Stmt.Meets ss ss') :
    Step.Matches (MeetingBody c d) (n + 1) (n' + 1) M a a' (Completion.Meets c d)
      (Scriptorium.execute c (n + 1) id) (Scriptorium.execute d (n' + 1) id') := by
  refine succ ?_
  rw [Scriptorium.execute, Scriptorium.execute]
  cases hc with
  | block hnode hids hat =>
    cases hd with
    | block hnode' hids' hat' =>
      refine .found_bind hnode hnode' (Step.Matches.inNewFrame hsees fun _ hpairs => ?_)
      exact h.executeBlock hpairs ⟨_, _, _, _, hids, hat, hids', hat', hss⟩

/-- Loops with bodies that correspond. -/
theorem execute_loop (h : Mirrors c d n n') {id id' : StmtId} {e : Expr Unit} {s s' : Stmt Unit}
    (hsees : M.Sees a a') (hc : c.StmtAt id (.loop e s ())) (hd : d.StmtAt id' (.loop e s' ()))
    (hbody : s.UnfoldsBody s') :
    Step.Matches (MeetingBody c d) (n + 1) (n' + 1) M a a' (Completion.Meets c d)
      (Scriptorium.execute c (n + 1) id) (Scriptorium.execute d (n' + 1) id') := by
  refine succ ?_
  rw [Scriptorium.execute, Scriptorium.execute]
  cases hc with
  | loop hnode hcond hs =>
    cases hd with
    | loop hnode' hcond' hs' =>
      exact .found_bind hnode hnode' (h.executeLoop hsees hcond hcond' hs hs' hbody)

/-- A declaration makes a function in frames that correspond. -/
theorem execute_function (h : M.Pairs a a') {id id' : StmtId} {name : String}
    {params : List String} {ss ss' : List (Stmt Unit)}
    (hc : c.StmtAt id (.function name params ss ()))
    (hd : d.StmtAt id' (.function name params ss' ())) (hss : List.Forall₂ Stmt.Meets ss ss') :
    Step.Matches (MeetingBody c d) (n + 1) (n' + 1) M a a' (Completion.Meets c d)
      (Scriptorium.execute c (n + 1) id) (Scriptorium.execute d (n' + 1) id') := by
  rw [Scriptorium.execute, Scriptorium.execute]
  cases hc with
  | function hnode hname hparams hnames hids hat =>
    cases hd with
    | function hnode' hname' hparams' hnames' hids' hat' =>
      refine .found_bind hnode hnode' (.found_bind hname hname' ?_)
      refine .found_bind hparams hparams' (.found_bind hnames hnames' ?_)
      refine (Step.matches_newFunction fun i => ?_).bind fun hMN v v' hv => ?_
      · exact .user rfl rfl h rfl ⟨_, _, _, _, hids, hat, hids', hat', hss⟩
      · exact (Step.matches_define (h.mono hMN) _ hv).bind fun _ _ _ _ =>
          Step.matches_pure .normal

theorem execute_succ (h : ∀ k', Mirrors c d n k') {id id' : StmtId} {s s' : Stmt Unit}
    (hpairs : M.Pairs a a') (hc : c.StmtAt id s) (hd : d.StmtAt id' s') (hmeets : s.Meets s') :
    Step.Matches (MeetingBody c d) (n + 1) (n' + 1) M a a' (Completion.Meets c d)
      (Scriptorium.execute c (n + 1) id) (Scriptorium.execute d (n' + 1) id') := by
  have hsees : M.Sees a a' := .here hpairs
  cases hmeets with
  | loop _ hbody => exact (h n').execute_loop hsees hc hd hbody
  | unfolds hunfolds =>
    cases hunfolds with
    | block hss => exact (h n').execute_block hsees hc hd (hss.imp fun _ _ => .unfolds)
    | loop _ hs => exact (h n').execute_loop hsees hc hd (.bare hs)
    | function _ _ hss => exact execute_function hpairs hc hd (hss.imp fun _ _ => .unfolds)
    | forLoop first cond last hs =>
      -- the blocks that a clause asks for stand on both sides
      have hbody := Stmt.unfoldsBody_lowerBody hs last
      cases first with
      | none => exact execute_boxed h hsees hc hd hbody
      | some first =>
        exact (h n').execute_block hsees hc hd
          (.cons (.unfolds (.refl first)) (.cons (.loop _ hbody) .nil))
    | expression e =>
      refine succ ?_
      rw [Scriptorium.execute, Scriptorium.execute]
      cases hc with
      | expression hnode he =>
        cases hd with
        | expression hnode' he' =>
          refine .found_bind hnode hnode'
            (((h n').evaluate hsees he he').bind fun _ v v' hv => ?_)
          exact Step.matches_pure .normal
    | declare name init =>
      refine succ ?_
      rw [Scriptorium.execute, Scriptorium.execute]
      cases hc with
      | declare hnode hname hinit =>
        cases hd with
        | declare hnode' hname' hinit' =>
          refine .found_bind hnode hnode' ?_
          cases hinit with
          | none =>
            cases hinit'
            exact matches_declare hpairs hname hname' (.same rfl)
          | some he =>
            cases hinit' with
            | some he' =>
              exact ((h n').evaluate hsees he he').bind fun hMN v v' =>
                matches_declare (hpairs.mono hMN) hname hname'
    | branch cond hs =>
      refine succ ?_
      rw [Scriptorium.execute, Scriptorium.execute]
      cases hc with
      | branch hnode hcond hthen =>
        cases hd with
        | branch hnode' hcond' hthen' =>
          refine .found_bind hnode hnode'
            (((h n').evaluate hsees hcond hcond').bind fun hMN v v' hv => ?_)
          refine (matches_truthOf hcond hcond' hv).bind ?_
          rintro N hN b _ rfl
          split
          · exact (h n').execute (hpairs.mono (hMN.trans hN)) hthen hthen' (.unfolds hs)
          · exact Step.matches_pure .normal
    | branchElse cond hs ht =>
      refine succ ?_
      rw [Scriptorium.execute, Scriptorium.execute]
      cases hc with
      | branchElse hnode hcond hthen helse =>
        cases hd with
        | branchElse hnode' hcond' hthen' helse' =>
          refine .found_bind hnode hnode'
            (((h n').evaluate hsees hcond hcond').bind fun hMN v v' hv => ?_)
          refine (matches_truthOf hcond hcond' hv).bind ?_
          rintro N hN b _ rfl
          split
          · exact (h n').execute (hpairs.mono (hMN.trans hN)) hthen hthen' (.unfolds hs)
          · exact (h n').execute (hpairs.mono (hMN.trans hN)) helse helse' (.unfolds ht)
    | ret value =>
      refine succ ?_
      rw [Scriptorium.execute, Scriptorium.execute]
      cases hc with
      | ret hnode hvalue =>
        cases hd with
        | ret hnode' hvalue' =>
          refine .found_bind hnode hnode' ?_
          cases hvalue with
          | none =>
            cases hvalue'
            exact Step.matches_pure (.returned (.same rfl))
          | some he =>
            cases hvalue' with
            | some he' =>
              exact ((h n').evaluate hsees he he').bind fun _ v v' hv =>
                Step.matches_pure (.returned hv)

theorem executeBlock_succ (h : Mirrors c d n n') {body body' : Slice StmtId}
    (hpairs : M.Pairs a a') (hbody : MeetingBody c d body body') :
    Step.Matches (MeetingBody c d) (n + 1) (n' + 1) M a a' (Completion.Meets c d)
      (Scriptorium.executeBlock c (n + 1) body) (Scriptorium.executeBlock d (n' + 1) body') := by
  obtain ⟨ids, ids', ss, ss', hids, hat, hids', hat', hss⟩ := hbody
  refine succ ?_
  rw [Scriptorium.executeBlock, Scriptorium.executeBlock]
  exact .found_bind hids hids' (h.executeAll hpairs hat hat' hss)

theorem executeAll_succ (h : Mirrors c d n n') {ids ids' : List StmtId}
    {ss ss' : List (Stmt Unit)} (hpairs : M.Pairs a a') (hc : List.Forall₂ c.StmtAt ids ss)
    (hd : List.Forall₂ d.StmtAt ids' ss') (hss : List.Forall₂ Stmt.Meets ss ss') :
    Step.Matches (MeetingBody c d) (n + 1) (n' + 1) M a a' (Completion.Meets c d)
      (Scriptorium.executeAll c (n + 1) ids) (Scriptorium.executeAll d (n' + 1) ids') := by
  refine succ ?_
  cases hss with
  | nil =>
    cases hc
    cases hd
    exact Step.matches_pure .normal
  | cons hs hss =>
    cases hc with
    | cons hat hats =>
      cases hd with
      | cons hat' hats' =>
        rw [Scriptorium.executeAll, Scriptorium.executeAll]
        refine (h.execute hpairs hat hat' hs).bind ?_
        rintro N hMN _ _ (- | hv)
        · exact h.executeAll (hpairs.mono hMN) hats hats' hss
        · exact Step.matches_pure (.returned hv)

/-- The bodies of loops in new frames.  If the second body stands in a block of its own, the
frame of its loop is spare, and the frame of the block corresponds to the frame of the first
loop. -/
theorem execute_body (h : ∀ k', Mirrors c d n k') {id id' : StmtId} {s s' : Stmt Unit}
    (hsees : M.Sees a a') (hc : c.StmtAt id s) (hd : d.StmtAt id' s') (hs : s.UnfoldsBody s') :
    Step.Matches (MeetingBody c d) (n + 1) (n' + 1) M a a' (Completion.Meets c d)
      (Step.inNewFrame (Scriptorium.execute c n id))
      (Step.inNewFrame (Scriptorium.execute d n' id')) := by
  cases hs with
  | bare hs =>
    exact succ (Step.Matches.inNewFrame hsees fun _ hpairs =>
      (h n').execute hpairs hc hd (.unfolds hs))
  | boxed hs =>
    obtain ⟨inner, hinner, hrun, hearly⟩ := execute_box hd
    rcases Nat.lt_or_ge n' 4 with hlt | hge
    · rw [hearly _ hlt]
      exact Step.matches_second (by omega) _
    · obtain ⟨k, rfl⟩ : ∃ k, n' = k + 4 := ⟨n' - 4, by omega⟩
      rw [hrun k]
      refine Step.Matches.inSpareFrame hsees fun _ hsees => ?_
      refine Step.Matches.inNewFrame hsees fun _ hpairs => ?_
      exact ((h (k + 1)).execute hpairs hc hinner (.unfolds hs)).within (by omega) (by omega)

theorem executeLoop_succ (h : ∀ k', Mirrors c d n k') {cond cond' : ExprId}
    {body body' : StmtId} {e : Expr Unit} {s s' : Stmt Unit} (hsees : M.Sees a a')
    (hcond : c.ExprAt cond e) (hcond' : d.ExprAt cond' e) (hbody : c.StmtAt body s)
    (hbody' : d.StmtAt body' s') (hs : s.UnfoldsBody s') :
    Step.Matches (MeetingBody c d) (n + 1) (n' + 1) M a a' (Completion.Meets c d)
      (Scriptorium.executeLoop c (n + 1) cond body)
      (Scriptorium.executeLoop d (n' + 1) cond' body') := by
  rw [Scriptorium.executeLoop, Scriptorium.executeLoop]
  refine (succ ((h n').evaluate hsees hcond hcond')).bind fun hMN v v' hv => ?_
  refine (matches_truthOf hcond hcond' hv).bind ?_
  rintro N hN b _ rfl
  have hsees := hsees.mono (hMN.trans hN)
  split
  · refine (execute_body h hsees hbody hbody' hs).bind ?_
    rintro O hO _ _ (- | hv)
    · exact succ ((h n').executeLoop (hsees.mono hO) hcond hcond' hbody hbody' hs)
    · exact Step.matches_pure (.returned hv)
  · exact Step.matches_pure .normal

end Mirrors

/-! ## Runs -/

/-- With any two bounds, the interpreter does the same on the two codes. -/
theorem mirrors (c d : Code) (n n' : Nat) : Mirrors c d n n' := by
  induction n generalizing n' with
  | zero =>
    cases n' with
    | zero =>
      exact ⟨fun _ _ _ => Step.matches_exhausted, fun _ _ _ => Step.matches_exhausted,
        fun _ _ _ _ => Step.matches_exhausted, fun _ _ _ _ => Step.matches_exhausted,
        fun _ _ _ _ => Step.matches_exhausted, fun _ _ => Step.matches_exhausted,
        fun _ _ _ _ => Step.matches_exhausted, fun _ _ _ _ _ _ => Step.matches_exhausted⟩
    | succ n' =>
      have hlt : 0 < n' + 1 := Nat.succ_pos n'
      exact ⟨fun _ _ _ => Step.matches_first hlt _, fun _ _ _ => Step.matches_first hlt _,
        fun _ _ _ _ => Step.matches_first hlt _, fun _ _ _ _ => Step.matches_first hlt _,
        fun _ _ _ _ => Step.matches_first hlt _, fun _ _ => Step.matches_first hlt _,
        fun _ _ _ _ => Step.matches_first hlt _, fun _ _ _ _ _ _ => Step.matches_first hlt _⟩
  | succ n ih =>
    cases n' with
    | zero =>
      have hlt : 0 < 5 * (n + 1) := by omega
      exact ⟨fun _ _ _ => Step.matches_second hlt _, fun _ _ _ => Step.matches_second hlt _,
        fun _ _ _ _ => Step.matches_second hlt _, fun _ _ _ _ => Step.matches_second hlt _,
        fun _ _ _ _ => Step.matches_second hlt _, fun _ _ => Step.matches_second hlt _,
        fun _ _ _ _ => Step.matches_second hlt _, fun _ _ _ _ _ _ => Step.matches_second hlt _⟩
    | succ n' =>
      have h := ih n'
      exact ⟨h.evaluate_succ, h.evaluateAll_succ, h.call_succ, h.callUser_succ,
        Mirrors.execute_succ ih, h.executeBlock_succ, h.executeAll_succ,
        Mirrors.executeLoop_succ ih⟩

/-- Programs run alike when loops with clauses in them are written out. -/
theorem interpret_unfolds {M : FrameMap} {a a' : FrameId} (hpairs : M.Pairs a a')
    {ids ids' : List StmtId} {ss ss' : List (Stmt Unit)} (n n' : Nat)
    (hc : List.Forall₂ c.StmtAt ids ss) (hd : List.Forall₂ d.StmtAt ids' ss')
    (h : List.Forall₂ Stmt.Unfolds ss ss') :
    Step.Matches (MeetingBody c d) n n' M a a' (fun _ _ _ => True) (interpret c n ids)
      (interpret d n' ids') := by
  induction h generalizing M ids ids' with
  | nil =>
    cases hc
    cases hd
    exact Step.matches_pure trivial
  | cons hs _ ih =>
    cases hc with
    | cons hat hats =>
      cases hd with
      | cons hat' hats' =>
        refine ((mirrors c d n n').execute hpairs hat hat' (.unfolds hs)).bind ?_
        rintro N hMN _ _ (- | hv)
        · exact ih (hpairs.mono hMN) hats hats'
        · exact Step.matches_pure trivial

end Scriptorium
