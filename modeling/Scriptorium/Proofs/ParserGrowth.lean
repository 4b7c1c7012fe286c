import Scriptorium.Proofs.ParserRuns

/-!
# Parsers only add

A parser adds to the code and takes nothing away, also when it fails: the state
survives the error, and with it everything that was stored before.  So the statements
that were completed before a syntax error keep their trees.

* `OnlyAdds` — the code after the parser extends the code before it;
* `onlyAdds_statementAt` — the parser of statements only adds.
-/

namespace Scriptorium

/-- The state that a parser leaves, whether it succeeds or not. -/
def stateAfter {α : Type} (p : Parser α) (s : ParseState) : ParseState :=
  match p s with
  | .ok _ t => t
  | .error _ t => t

/-- The code after the parser extends the code before it. -/
def OnlyAdds {α : Type} (p : Parser α) : Prop :=
  ∀ s : ParseState, s.code.Extends (stateAfter p s).code

namespace OnlyAdds

open Scriptorium.Parser

variable {α β : Type}

theorem of_error {p : Parser α} (h : OnlyAdds p) {s t : ParseState} {e : ParseError}
    (hrun : p.run s = .error e t) : s.code.Extends t.code := by
  have hs := h s
  unfold stateAfter at hs
  rwa [show p s = .error e t from hrun] at hs

theorem of_runs {p : Parser α} (h : OnlyAdds p) {s t : ParseState} {a : α} (hrun : Runs p s a t) :
    s.code.Extends t.code := by
  have hs := h s
  unfold stateAfter at hs
  rwa [show p s = .ok a t from hrun] at hs

theorem pure (a : α) : OnlyAdds (Pure.pure a : Parser α) := fun s => .refl s.code

theorem bind {p : Parser α} {f : α → Parser β} (hp : OnlyAdds p) (hf : ∀ a, OnlyAdds (f a)) :
    OnlyAdds (p >>= f) := by
  intro s
  have h := hp s
  simp only [stateAfter, Bind.bind, EStateM.bind] at h ⊢
  cases hps : p s with
  | ok a t =>
    rw [hps] at h
    exact h.trans (hf a t)
  | error e t =>
    rw [hps] at h
    exact h

theorem map {p : Parser α} (f : α → β) (hp : OnlyAdds p) : OnlyAdds (f <$> p) := by
  rw [map_eq_pure_bind]
  exact hp.bind fun a => pure (f a)

theorem ite {c : Prop} [Decidable c] {p q : Parser α} (hp : OnlyAdds p) (hq : OnlyAdds q) :
    OnlyAdds (if c then p else q) := by
  split
  · exact hp
  · exact hq

/-! ## The basic parsers -/

theorem current : OnlyAdds Parser.current := fun s => .refl s.code

theorem size : OnlyAdds Parser.size := fun s => .refl s.code

theorem advance : OnlyAdds Parser.advance := by
  intro s
  show s.code.Extends s.advance.code
  rw [s.code_advance]
  exact .refl _

theorem skipNewlines : OnlyAdds Parser.skipNewlines := fun s => .refl s.code

theorem fail (fault : ParseFault) (token : Token) : OnlyAdds (Parser.fail fault token : Parser α) :=
  fun s => .refl s.code

theorem spanFrom (first : Span) : OnlyAdds (Parser.spanFrom first) := fun s => .refl s.code

theorem check (text : String) : OnlyAdds (Parser.check text) := current.bind fun _ => pure _

theorem expect (text : String) : OnlyAdds (Parser.expect text) :=
  current.bind fun _ => ite advance (fail _ _)

theorem expectedExpression : OnlyAdds (Parser.expectedExpression : Parser α) :=
  current.bind fun _ => fail _ _

theorem intern (text : String) : OnlyAdds (Parser.intern text) := fun _ =>
  ⟨.refl _, .refl _, .refl _, .refl _, .refl _, NameTable.grows_intern _ _⟩

theorem addExpr (kind : ExprKind) (span : Span) : OnlyAdds (Parser.addExpr kind span) := fun _ =>
  ⟨.push _ _, .refl _, .refl _, .refl _, .refl _, .refl _⟩

theorem addStmt (kind : StmtKind) (span : Span) : OnlyAdds (Parser.addStmt kind span) := fun _ =>
  ⟨.refl _, .refl _, .push _ _, .refl _, .refl _, .refl _⟩

theorem addStmtFrom (kind : StmtKind) (first : Span) : OnlyAdds (Parser.addStmtFrom kind first) :=
  (spanFrom first).bind fun _ => addStmt _ _

theorem addExprs (ids : List ExprId) : OnlyAdds (Parser.addExprs ids) := fun _ =>
  ⟨.refl _, .appendList _ _, .refl _, .refl _, .refl _, .refl _⟩

theorem addStmts (ids : List StmtId) : OnlyAdds (Parser.addStmts ids) := fun _ =>
  ⟨.refl _, .refl _, .refl _, .appendList _ _, .refl _, .refl _⟩

theorem addParams (names : List NameId) : OnlyAdds (Parser.addParams names) := fun _ =>
  ⟨.refl _, .refl _, .refl _, .refl _, .appendList _ _, .refl _⟩

/-! ## Names and lists -/

theorem identifier : OnlyAdds Parser.identifier :=
  skipNewlines.bind fun _ => current.bind fun _ => ite (advance.bind fun _ => intern _) (fail _ _)

theorem itemsFrom {tooMany : ParseFault} {item : Parser α} (h : OnlyAdds item) (fuel : Nat)
    (seen : List α) : OnlyAdds (Parser.itemsFrom tooMany item fuel seen) := by
  induction fuel generalizing seen with
  | zero => exact pure _
  | succ fuel ih =>
    have hnext : OnlyAdds (do
        let x ← item
        Parser.skipNewlines
        if ← Parser.check "," then
          let _ ← Parser.advance
          Parser.itemsFrom tooMany item fuel (x :: seen)
        else return (x :: seen).reverse) :=
      h.bind fun _ => skipNewlines.bind fun _ => (check _).bind fun _ =>
        ite (advance.bind fun _ => ih _) (pure _)
    exact skipNewlines.bind fun _ =>
      ite (current.bind fun _ => (fail _ _).bind fun _ => hnext) hnext

theorem items {tooMany : ParseFault} {item : Parser α} (h : OnlyAdds item) :
    OnlyAdds (Parser.items tooMany item) :=
  skipNewlines.bind fun _ => (check _).bind fun _ =>
    ite ((pure _).bind fun _ => (expect _).bind fun _ => pure _)
      (size.bind fun _ => (h.itemsFrom _ _).bind fun _ => (expect _).bind fun _ => pure _)

/-! ## Expressions -/

variable {expression : Parser StoredExpr}

theorem literal (value : Literal NameId) : OnlyAdds (Parser.literal value) :=
  advance.bind fun _ => addExpr _ _

theorem primary (h : OnlyAdds expression) : OnlyAdds (Parser.primary expression) := by
  refine skipNewlines.bind fun _ => current.bind fun token => ?_
  split
  · exact literal _
  · exact (intern _).bind fun _ => literal _
  · exact advance.bind fun _ => (intern _).bind fun _ => addExpr _ _
  · exact ite (literal _) (ite (literal _) expectedExpression)
  · exact ite
      (advance.bind fun _ => h.bind fun _ => skipNewlines.bind fun _ => (expect _).bind fun _ =>
        (spanFrom _).bind fun _ => addExpr _ _)
      expectedExpression
  · exact expectedExpression

theorem callsFrom (h : OnlyAdds expression) (fuel : Nat) (callee : StoredExpr) :
    OnlyAdds (Parser.callsFrom expression fuel callee) := by
  induction fuel generalizing callee with
  | zero => exact pure _
  | succ fuel ih =>
    exact (check _).bind fun _ => ite
      (advance.bind fun _ => h.items.bind fun _ => (addExprs _).bind fun _ =>
        (spanFrom _).bind fun _ => (addExpr _ _).bind fun _ => ih _)
      (pure _)

theorem calls (h : OnlyAdds expression) : OnlyAdds (Parser.calls expression) :=
  h.primary.bind fun _ => size.bind fun _ => h.callsFrom _ _

theorem assignment (h : OnlyAdds expression) (target : StoredExpr) :
    OnlyAdds (Parser.assignment expression target) := by
  refine (check _).bind fun _ => ite (advance.bind fun _ => h.bind fun _ => ?_) (pure _)
  split
  · exact addExpr _ _
  · exact fail _ _

/-- The four functions that call each other only add. -/
theorem expressionAt_and (depth : Nat) :
    OnlyAdds (Parser.expressionAt depth) ∧ (∀ level, OnlyAdds (Parser.operationAt depth level)) ∧
      (∀ level left, OnlyAdds (Parser.operationsAt depth level left)) ∧
      OnlyAdds (Parser.signedAt depth) := by
  induction depth with
  | zero =>
    exact ⟨expectedExpression, fun _ => expectedExpression, fun _ _ => pure _, expectedExpression⟩
  | succ depth ih =>
    obtain ⟨hexpr, hoperation, hrest, hsigned⟩ := ih
    refine ⟨(hoperation 0).bind fun _ => hexpr.assignment _,
      fun level => hsigned.bind fun _ => hrest _ _, fun level left => ?_, ?_⟩
    · refine skipNewlines.bind fun _ => current.bind fun token => ?_
      split
      · exact pure _
      · exact ite (advance.bind fun _ => (hoperation _).bind fun _ => (addExpr _ _).bind fun _ =>
          hrest _ _) (pure _)
    · refine skipNewlines.bind fun _ => current.bind fun token => ?_
      split
      · exact hexpr.calls
      · exact advance.bind fun _ => hsigned.bind fun _ => addExpr _ _

theorem ofExpression : OnlyAdds Parser.expression :=
  size.bind fun _ => (expressionAt_and _).1

/-! ## Statements -/

variable {statement : Parser StmtId}

theorem expressionStatement : OnlyAdds Parser.expressionStatement :=
  ofExpression.bind fun _ => skipNewlines.bind fun _ => (expect _).bind fun _ => addStmtFrom _ _

theorem variableDeclaration : OnlyAdds Parser.variableDeclaration := by
  refine advance.bind fun _ => identifier.bind fun _ => (check _).bind fun _ => ?_
  exact ite
    (advance.bind fun _ => (ofExpression.map _).bind fun _ => skipNewlines.bind fun _ =>
      (expect _).bind fun _ => addStmtFrom _ _)
    ((pure _).bind fun _ => skipNewlines.bind fun _ => (expect _).bind fun _ => addStmtFrom _ _)

theorem returnStatement (inFunction : Bool) : OnlyAdds (Parser.returnStatement inFunction) := by
  refine current.bind fun keyword => ?_
  have hrest : OnlyAdds (do
      let _ ← Parser.advance
      Parser.skipNewlines
      let value ← if ← Parser.check ";" then Pure.pure none else some <$> Parser.expression
      Parser.skipNewlines
      let _ ← Parser.expect ";"
      Parser.addStmtFrom (.ret (value.map StoredExpr.id)) keyword.span) :=
    advance.bind fun _ => skipNewlines.bind fun _ => (check _).bind fun _ => ite
      ((pure _).bind fun _ => skipNewlines.bind fun _ => (expect _).bind fun _ => addStmtFrom _ _)
      ((ofExpression.map _).bind fun _ => skipNewlines.bind fun _ => (expect _).bind fun _ =>
        addStmtFrom _ _)
  exact ite ((fail _ _).bind fun _ => hrest) hrest

theorem declaration (h : OnlyAdds statement) : OnlyAdds (Parser.declaration statement) :=
  skipNewlines.bind fun _ => (check _).bind fun _ => ite variableDeclaration h

theorem declarationsFrom (h : OnlyAdds statement) (opening : Token) (fuel : Nat)
    (seen : List StmtId) : OnlyAdds (Parser.declarationsFrom opening statement fuel seen) := by
  induction fuel generalizing seen with
  | zero => exact fail _ _
  | succ fuel ih =>
    exact skipNewlines.bind fun _ => current.bind fun _ => ite
      (advance.bind fun _ => pure _) (ite (fail _ _) (h.declaration.bind fun _ => ih _))

theorem blockBody (h : OnlyAdds statement) (opening : Token) :
    OnlyAdds (Parser.blockBody opening statement) :=
  size.bind fun _ => (h.declarationsFrom _ _ _).bind fun _ => addStmts _

theorem blockStatement (h : OnlyAdds statement) : OnlyAdds (Parser.blockStatement statement) :=
  advance.bind fun _ => (h.blockBody _).bind fun _ => addStmtFrom _ _

theorem condition : OnlyAdds Parser.condition :=
  skipNewlines.bind fun _ => (expect _).bind fun _ => ofExpression.bind fun _ =>
    skipNewlines.bind fun _ => (expect _).bind fun _ => pure _

theorem branchStatement (h : OnlyAdds statement) : OnlyAdds (Parser.branchStatement statement) :=
  advance.bind fun _ => condition.bind fun _ => h.bind fun _ => skipNewlines.bind fun _ =>
    (check _).bind fun _ => ite
      (advance.bind fun _ => (h.map _).bind fun _ => addStmtFrom _ _)
      ((pure _).bind fun _ => addStmtFrom _ _)

theorem loopStatement (h : OnlyAdds statement) : OnlyAdds (Parser.loopStatement statement) :=
  advance.bind fun _ => condition.bind fun _ => h.bind fun _ => addStmtFrom _ _

theorem forFirst : OnlyAdds Parser.forFirst :=
  (check _).bind fun _ => ite (advance.bind fun _ => pure _)
    ((check _).bind fun _ => ite (variableDeclaration.map _) (expressionStatement.map _))

theorem forClause (mark : String) : OnlyAdds (Parser.forClause mark) :=
  skipNewlines.bind fun _ => (check _).bind fun _ => ite
    ((pure _).bind fun _ => skipNewlines.bind fun _ => (expect _).bind fun _ => pure _)
    ((ofExpression.map _).bind fun _ => skipNewlines.bind fun _ => (expect _).bind fun _ => pure _)

theorem forStatement (h : OnlyAdds statement) : OnlyAdds (Parser.forStatement statement) := by
  refine advance.bind fun keyword => skipNewlines.bind fun _ => (expect _).bind fun _ =>
    skipNewlines.bind fun _ => forFirst.bind fun first => (forClause _).bind fun cond =>
    (forClause _).bind fun last => h.bind fun body => ?_
  have hboth (first loop : StmtId) : OnlyAdds (do
      let both ← Parser.addStmts [first, loop]
      Parser.addStmtFrom (.block both) keyword.span) :=
    (addStmts _).bind fun _ => addStmtFrom _ _
  cases last with
  | none =>
    refine (pure _).bind fun _ => ?_
    cases cond with
    | none =>
      refine (addExpr _ _).bind fun _ => (addStmtFrom _ _).bind fun _ => ?_
      cases first with
      | none => exact pure _
      | some first => exact hboth _ _
    | some cond =>
      refine (pure _).bind fun _ => (addStmtFrom _ _).bind fun _ => ?_
      cases first with
      | none => exact pure _
      | some first => exact hboth _ _
  | some last =>
    refine (addStmt _ _).bind fun _ => (addStmts _).bind fun _ => (addStmtFrom _ _).bind fun _ => ?_
    cases cond with
    | none =>
      refine (addExpr _ _).bind fun _ => (addStmtFrom _ _).bind fun _ => ?_
      cases first with
      | none => exact pure _
      | some first => exact hboth _ _
    | some cond =>
      refine (pure _).bind fun _ => (addStmtFrom _ _).bind fun _ => ?_
      cases first with
      | none => exact pure _
      | some first => exact hboth _ _

theorem functionDeclaration (h : OnlyAdds statement) :
    OnlyAdds (Parser.functionDeclaration statement) :=
  advance.bind fun _ => identifier.bind fun _ => skipNewlines.bind fun _ => (expect _).bind fun _ =>
    identifier.items.bind fun _ => (addParams _).bind fun _ => skipNewlines.bind fun _ =>
    (expect _).bind fun _ => (h.blockBody _).bind fun _ => addStmtFrom _ _

theorem statementAt (depth : Nat) (inFunction : Bool) :
    OnlyAdds (Parser.statementAt depth inFunction) := by
  induction depth generalizing inFunction with
  | zero => exact expectedExpression
  | succ depth ih =>
    exact skipNewlines.bind fun _ => current.bind fun _ =>
      ite (ih _).branchStatement <| ite (ih _).loopStatement <| ite (ih _).forStatement <|
      ite (ih _).functionDeclaration <| ite (returnStatement _) <| ite (ih _).blockStatement <|
      expressionStatement

theorem topStatement : OnlyAdds Parser.topStatement := size.bind fun _ => statementAt _ _

end OnlyAdds

end Scriptorium
