import Scriptorium.Proofs.LooseNodes
import Scriptorium.Proofs.ParserContracts
import Scriptorium.Proofs.ParserGrowth

/-!
# Parsers hold what is loose

A parser of expressions stores some nodes, and when it succeeds the one that it answers is the
only one of them that nothing refers to; the same goes for a parser of statements.  So at any
time the loose nodes are those that the parsers under way hold, the targets of assignments,
and the statements of the top level that are complete.  When reading stops at an error, what
was held stays loose.

* `Holding` — what the parsers under way hold;
* `Brings` — what a parser makes of the arena that it finds;
* `HoldsExpr`, `HoldsStmt` — the parser adds its answer to what is held, and nothing else;
* `HoldsStmt.statementAt` — the parser of statements does.
-/

namespace Scriptorium

variable {kept : List StmtId} {es : List StoredExpr} {ss : List StmtId}

/-! ## What is held -/

/-- The expressions `es` and the statements `ss` are held, the statements `kept` are those of
the top level that are complete, and only these and the targets of assignments are loose. -/
def Holding (kept : List StmtId) (es : List StoredExpr) (ss : List StmtId) (a : Arena) : Prop :=
  ∃ pairs, a.Loose es (ss ++ kept) pairs

/-- Besides the statements `kept` other nodes may be loose, whichever they are. -/
def Spilt (kept : List StmtId) (a : Arena) : Prop := ∃ es ss, Holding kept es ss a

/-- The list `body` of statements was stored last, and nothing refers to it. -/
def Opened (kept : List StmtId) (es : List StoredExpr) (ss : List StmtId) (body : Slice StmtId)
    (a : Arena) : Prop :=
  ∃ b ids, Holding kept es (ids ++ ss) b ∧ b.addStmts ids = (body, a)

theorem Holding.spilt {a : Arena} (h : Holding kept es ss a) : Spilt kept a := ⟨es, ss, h⟩

/-- The order in which the nodes are listed does not matter, nor whether a statement is held
or kept. -/
theorem Holding.perm {a : Arena} {kept' : List StmtId} {es' : List StoredExpr} {ss' : List StmtId}
    (h : Holding kept es ss a) (hes : es.Perm es') (hss : (ss ++ kept).Perm (ss' ++ kept')) :
    Holding kept' es' ss' a := by
  obtain ⟨pairs, hloose⟩ := h
  exact ⟨pairs, hloose.perm hes hss⟩

/-! ## What parsers make of an arena -/

/-- The parser makes an arena with the property `Q` of one with the property `P`.  When it
fails, it may leave any nodes loose besides the statements `kept`. -/
def Brings (kept : List StmtId) {α : Type} (P : Arena → Prop) (p : Parser α)
    (Q : α → Arena → Prop) : Prop :=
  ∀ s : ParseState, P s.arena →
    Meets (fun _ t => Spilt kept t.arena) s p fun a t => Q a t.arena

/-- The parser stores nothing, whether it succeeds or not. -/
def Idle {α : Type} (p : Parser α) : Prop := ∀ s : ParseState, (stateAfter p s).arena = s.arena

/-- The parser adds the expression that it answers to what is held. -/
def HoldsExpr (kept : List StmtId) (p : Parser StoredExpr) : Prop :=
  ∀ es ss, Brings kept (Holding kept es ss) p fun x => Holding kept (x :: es) ss

/-- The parser adds the statement that it answers to what is held. -/
def HoldsStmt (kept : List StmtId) (p : Parser StmtId) : Prop :=
  ∀ es ss, Brings kept (Holding kept es ss) p fun id => Holding kept es (id :: ss)

namespace Idle

variable {α β : Type}

theorem bind {p : Parser α} {f : α → Parser β} (hp : Idle p) (hf : ∀ a, Idle (f a)) :
    Idle (p >>= f) := by
  intro s
  have h := hp s
  simp only [stateAfter, Bind.bind, EStateM.bind] at h ⊢
  cases hps : p s with
  | ok a t =>
    rw [hps] at h
    exact (hf a t).trans h
  | error e t =>
    rw [hps] at h
    exact h

theorem current : Idle Parser.current := fun _ => rfl

theorem size : Idle Parser.size := fun _ => rfl

theorem check (text : String) : Idle (Parser.check text) := fun _ => rfl

theorem advance : Idle Parser.advance := fun s => congrArg Code.arena s.code_advance

theorem skipNewlines : Idle Parser.skipNewlines := fun _ => rfl

theorem spanFrom (first : Span) : Idle (Parser.spanFrom first) := fun _ => rfl

theorem intern (text : String) : Idle (Parser.intern text) := fun _ => rfl

theorem fail (fault : ParseFault) (token : Token) : Idle (Parser.fail fault token : Parser α) :=
  fun _ => rfl

theorem expect (text : String) : Idle (Parser.expect text) := by
  refine current.bind fun token => ?_
  split
  · exact advance
  · exact fail _ _

theorem identifier : Idle Parser.identifier := by
  refine skipNewlines.bind fun _ => current.bind fun token => ?_
  split
  · exact advance.bind fun _ => intern _
  · exact fail _ _

end Idle

namespace Brings

variable {α β : Type} {P : Arena → Prop} {Q : β → Arena → Prop}

theorem pure {b : β} (h : ∀ a, P a → Q b a) : Brings kept P (Pure.pure b) Q := fun _ hs =>
  Meets.pure (h _ hs)

theorem bind {p : Parser α} {f : α → Parser β} {R : α → Arena → Prop} (hp : Brings kept P p R)
    (hf : ∀ a, Brings kept (R a) (f a) Q) : Brings kept P (p >>= f) Q := fun s hs =>
  (hp s hs).bind fun a t ht => hf a t ht

theorem imp {p : Parser β} {R : β → Arena → Prop} (hp : Brings kept P p R)
    (h : ∀ b a, R b a → Q b a) : Brings kept P p Q := fun s hs =>
  (hp s hs).imp fun b t ht => h b t.arena ht

/-- A parser that stores nothing. -/
theorem idle {p : Parser α} (hp : Idle p) (hP : ∀ a, P a → Spilt kept a) :
    Brings kept P p fun _ => P := by
  intro s hs
  have harena := hp s
  unfold stateAfter at harena
  unfold Meets
  cases hrun : p s with
  | ok a t =>
    rw [hrun] at harena
    have harena : t.arena = s.arena := harena
    rwa [← harena] at hs
  | error e t =>
    rw [hrun] at harena
    have harena : t.arena = s.arena := harena
    rw [← harena] at hs
    exact hP _ hs

theorem idle_bind {p : Parser α} {f : α → Parser β} (hp : Idle p)
    (h : ∀ a, Brings kept (Holding kept es ss) (f a) Q) :
    Brings kept (Holding kept es ss) (p >>= f) Q :=
  (idle hp fun _ => Holding.spilt).bind h

theorem fail (hP : ∀ a, P a → Spilt kept a) (fault : ParseFault) (token : Token) :
    Brings kept P (Parser.fail fault token) Q := fun _ hs => hP _ hs

theorem expectedExpression : Brings kept (Holding kept es ss) Parser.expectedExpression Q :=
  fun _ hs => hs.spilt

/-! ### Nodes -/

theorem addExpr (xs : List StoredExpr) {kind : ExprKind} {span : Span}
    (hfields : kind.fields = xs.map StoredExpr.id) (hlists : kind.lists = [])
    (hkind : ∀ name nameSpan value, kind ≠ .assign name nameSpan value) :
    Brings kept (Holding kept (xs ++ es) ss) (Parser.addExpr kind span) fun x =>
      Holding kept (x :: es) ss := by
  rintro s ⟨pairs, hloose⟩
  exact Meets.addExpr ⟨pairs, hloose.addExpr hfields hlists hkind⟩

theorem addAssign {target value : StoredExpr} {name : NameId} {span : Span}
    (htarget : target.node.kind = .reference name) :
    Brings kept (Holding kept (value :: target :: es) ss)
      (Parser.addExpr (.assign name target.span value.id) span) fun x =>
        Holding kept (x :: es) ss := by
  rintro s ⟨pairs, hloose⟩
  exact Meets.addExpr ⟨_, hloose.addAssign htarget⟩

/-- A call is stored right after the list of its arguments. -/
theorem addCall_bind {callee : StoredExpr} {args : List StoredExpr} {first : Span}
    {f : StoredExpr → Parser β} (h : ∀ x, Brings kept (Holding kept (x :: es) ss) (f x) Q) :
    Brings kept (Holding kept (args ++ callee :: es) ss) (do
      let slice ← Parser.addExprs (args.map StoredExpr.id)
      let called ← Parser.addExpr (.call callee.id slice) (← Parser.spanFrom first)
      f called) Q := by
  rintro s ⟨pairs, hloose⟩
  exact Meets.addExprs_bind (Meets.spanFrom_bind (Meets.addExpr_bind
    (h _ _ ⟨pairs, hloose.addCall⟩)))

theorem addStmt (xs : List StoredExpr) (ids : List StmtId) {kind : StmtKind} {span : Span}
    (hexprs : kind.exprs = xs.map StoredExpr.id) (hfields : kind.fields = ids)
    (hlists : kind.lists = []) :
    Brings kept (Holding kept (xs ++ es) (ids ++ ss)) (Parser.addStmt kind span) fun id =>
      Holding kept es (id :: ss) := by
  rintro s ⟨pairs, hloose⟩
  rw [List.append_assoc] at hloose
  exact ⟨pairs, hloose.addStmt hexprs hfields hlists⟩

theorem addStmtFrom (xs : List StoredExpr) (ids : List StmtId) {kind : StmtKind} {first : Span}
    (hexprs : kind.exprs = xs.map StoredExpr.id) (hfields : kind.fields = ids)
    (hlists : kind.lists = []) :
    Brings kept (Holding kept (xs ++ es) (ids ++ ss)) (Parser.addStmtFrom kind first) fun id =>
      Holding kept es (id :: ss) :=
  idle_bind (.spanFrom first) fun _ => addStmt xs ids hexprs hfields hlists

theorem addStmts (ids : List StmtId) :
    Brings kept (Holding kept es (ids ++ ss)) (Parser.addStmts ids) (Opened kept es ss) :=
  fun s hs => Meets.addStmts ⟨s.arena, ids, hs, rfl⟩

/-- A statement with a list is stored right after the list. -/
theorem addBody {kind : StmtKind} {body : Slice StmtId} {first : Span} (hexprs : kind.exprs = [])
    (hfields : kind.fields = []) (hlists : kind.lists = [body]) :
    Brings kept (Opened kept es ss body) (Parser.addStmtFrom kind first) fun id =>
      Holding kept es (id :: ss) := by
  rintro s ⟨b, ids, ⟨pairs, hloose⟩, hadd⟩
  rw [List.append_assoc] at hloose
  obtain ⟨rfl, harena⟩ := Prod.mk.inj hadd
  refine Meets.addStmtFrom fun span => ⟨pairs, ?_⟩
  rw [← harena]
  exact hloose.addBody hexprs hfields hlists

theorem addParams (names : List NameId) :
    Brings kept (Holding kept es ss) (Parser.addParams names) fun _ => Holding kept es ss := by
  rintro s ⟨pairs, hloose⟩
  exact ⟨pairs, hloose.addParams names⟩

/-! ### Lists -/

/-- Reading items, of which `R` says what is held after those in a list, last one first. -/
theorem itemsFrom {R : List α → Arena → Prop} (hR : ∀ xs a, R xs a → Spilt kept a)
    {item : Parser α} (hitem : ∀ xs, Brings kept (R xs) item fun x => R (x :: xs))
    {tooMany : ParseFault} (fuel : Nat) (seen : List α) :
    Brings kept (R seen) (Parser.itemsFrom tooMany item fuel seen) fun xs => R xs.reverse := by
  have hdone : ∀ xs : List α, Brings kept (R xs) (Pure.pure xs.reverse) fun xs => R xs.reverse :=
    fun xs => pure fun a h => by rwa [List.reverse_reverse]
  induction fuel generalizing seen with
  | zero => exact hdone seen
  | succ fuel ih =>
    refine (idle .skipNewlines (hR seen)).bind fun _ => ?_
    split
    · exact (idle .current (hR seen)).bind fun token => fail (hR seen) _ _
    · refine (hitem seen).bind fun x => (idle .skipNewlines (hR _)).bind fun _ => ?_
      refine (idle (.check ",") (hR _)).bind fun found => ?_
      split
      · exact (idle .advance (hR _)).bind fun _ => ih (x :: seen)
      · exact hdone (x :: seen)

theorem items {R : List α → Arena → Prop} (hR : ∀ xs a, R xs a → Spilt kept a)
    {item : Parser α} (hitem : ∀ xs, Brings kept (R xs) item fun x => R (x :: xs))
    (tooMany : ParseFault) :
    Brings kept (R []) (Parser.items tooMany item) fun xs => R xs.reverse := by
  refine (idle .skipNewlines (hR [])).bind fun _ => (idle (.check ")") (hR [])).bind fun found => ?_
  have hclose : ∀ xs : List α, Brings kept (R xs.reverse) (do
      let _ ← Parser.expect ")"
      return xs) fun xs => R xs.reverse := fun xs =>
    (idle (.expect ")") (hR _)).bind fun _ => pure fun _ h => h
  split
  · exact hclose []
  · exact (idle .size (hR [])).bind fun fuel => (itemsFrom hR hitem fuel []).bind hclose

end Brings

/-! ## Expressions -/

namespace HoldsExpr

open Brings

variable {expression : Parser StoredExpr}

theorem literal (value : Literal NameId) : HoldsExpr kept (Parser.literal value) := fun _ _ =>
  idle_bind .advance fun _ => addExpr [] rfl rfl (by simp)

theorem primary (h : HoldsExpr kept expression) : HoldsExpr kept (Parser.primary expression) := by
  intro es ss
  refine idle_bind .skipNewlines fun _ => idle_bind .current fun token => ?_
  split
  · exact literal _ es ss
  · exact idle_bind (.intern _) fun _ => literal _ es ss
  · exact idle_bind .advance fun _ => idle_bind (.intern _) fun _ =>
      addExpr [] rfl rfl (by simp)
  · split
    · exact literal _ es ss
    split
    · exact literal _ es ss
    · exact expectedExpression
  · split
    · refine idle_bind .advance fun _ => (h es ss).bind fun inner => ?_
      refine idle_bind .skipNewlines fun _ => idle_bind (.expect ")") fun _ => ?_
      exact idle_bind (.spanFrom _) fun _ => addExpr [inner] rfl rfl (by simp)
    · exact expectedExpression
  · exact expectedExpression

theorem callsFrom (h : HoldsExpr kept expression) (fuel : Nat) (callee : StoredExpr)
    (es : List StoredExpr) (ss : List StmtId) :
    Brings kept (Holding kept (callee :: es) ss) (Parser.callsFrom expression fuel callee) fun x =>
      Holding kept (x :: es) ss := by
  induction fuel generalizing callee with
  | zero => exact pure fun _ h => h
  | succ fuel ih =>
    refine idle_bind (.check "(") fun found => ?_
    split
    · refine idle_bind .advance fun _ => ?_
      have hargs := items (R := fun xs => Holding kept (xs ++ callee :: es) ss)
        (fun _ _ => Holding.spilt) (fun xs => h _ ss) .tooManyArguments
      refine (hargs.imp fun args a ha => ?_).bind fun args => addCall_bind ih
      exact ha.perm ((List.reverse_perm args).append_right _) (.refl _)
    · exact pure fun _ h => h

theorem calls (h : HoldsExpr kept expression) : HoldsExpr kept (Parser.calls expression) :=
  fun es ss => (primary h es ss).bind fun callee => idle_bind .size fun fuel =>
    callsFrom h fuel callee es ss

theorem assignment (h : HoldsExpr kept expression) (target : StoredExpr) (es : List StoredExpr)
    (ss : List StmtId) :
    Brings kept (Holding kept (target :: es) ss) (Parser.assignment expression target) fun x =>
      Holding kept (x :: es) ss := by
  refine idle_bind (.check "=") fun found => ?_
  split
  · refine idle_bind .advance fun sign => (h (target :: es) ss).bind fun value => ?_
    split
    · next htarget => exact addAssign htarget
    · exact fail (fun _ => Holding.spilt) _ _
  · exact pure fun _ h => h

theorem ofConnective {op : Connective} {left right : StoredExpr} {span : Span}
    (es : List StoredExpr) (ss : List StmtId) :
    Brings kept (Holding kept (right :: left :: es) ss)
      (Parser.addExpr (op.node left.id right.id) span) fun x => Holding kept (x :: es) ss := by
  have hnode : Brings kept (Holding kept ([left, right] ++ es) ss)
      (Parser.addExpr (op.node left.id right.id) span) fun x => Holding kept (x :: es) ss := by
    cases op with
    | binary op => exact addExpr [left, right] rfl rfl (by simp [Connective.node])
    | logical op => exact addExpr [left, right] rfl rfl (by simp [Connective.node])
  exact fun s hs => hnode s (hs.perm (.swap left right es) (.refl _))

/-- The four functions that call each other. -/
theorem expressionAt_and (depth : Nat) :
    HoldsExpr kept (Parser.expressionAt depth) ∧
      (∀ level, HoldsExpr kept (Parser.operationAt depth level)) ∧
      (∀ level left es ss, Brings kept (Holding kept (left :: es) ss)
        (Parser.operationsAt depth level left) fun x => Holding kept (x :: es) ss) ∧
      HoldsExpr kept (Parser.signedAt depth) := by
  induction depth with
  | zero =>
    have hnone : HoldsExpr kept (Parser.expectedExpression : Parser StoredExpr) :=
      fun _ _ => expectedExpression
    exact ⟨hnone, fun _ => hnone, fun _ _ _ _ => pure fun _ h => h, hnone⟩
  | succ depth ih =>
    obtain ⟨hexpr, hoperation, hrest, hsigned⟩ := ih
    refine ⟨?_, ?_, ?_, ?_⟩
    · exact fun es ss => (hoperation 0 es ss).bind fun target => assignment hexpr target es ss
    · exact fun level es ss => (hsigned es ss).bind fun left => hrest level left es ss
    · intro level left es ss
      refine idle_bind .skipNewlines fun _ => idle_bind .current fun token => ?_
      split
      · exact pure fun _ h => h
      · next op hop =>
        split
        · refine idle_bind .advance fun _ => (hoperation _ (left :: es) ss).bind fun right => ?_
          exact (ofConnective es ss).bind fun both => hrest level both es ss
        · exact pure fun _ h => h
    · intro es ss
      refine idle_bind .skipNewlines fun _ => idle_bind .current fun token => ?_
      split
      · exact calls hexpr es ss
      · exact idle_bind .advance fun sign => (hsigned es ss).bind fun operand =>
          addExpr [operand] rfl rfl (by simp)

theorem ofExpression : HoldsExpr kept Parser.expression := fun es ss =>
  idle_bind .size fun _ => (expressionAt_and _).1 es ss

theorem condition : HoldsExpr kept Parser.condition := by
  intro es ss
  refine idle_bind .skipNewlines fun _ => idle_bind (.expect "(") fun _ => ?_
  refine (ofExpression es ss).bind fun cond => ?_
  refine idle_bind .skipNewlines fun _ => idle_bind (.expect ")") fun _ => ?_
  exact pure fun _ h => h

end HoldsExpr

/-! ## Statements -/

namespace Brings

/-- An expression that may be left out. -/
theorem someExpression :
    Brings kept (Holding kept es ss) (some <$> Parser.expression) fun x =>
      Holding kept (x.toList ++ es) ss := fun s hs =>
  Meets.map (HoldsExpr.ofExpression es ss s hs)

/-- A statement that may be left out. -/
theorem someStatement {statement : Parser StmtId} (h : HoldsStmt kept statement) :
    Brings kept (Holding kept es ss) (some <$> statement) fun id =>
      Holding kept es (id.toList ++ ss) := fun s hs =>
  Meets.map (h es ss s hs)

/-- The end of a simple statement. -/
theorem statementEnd (xs : List StoredExpr) {kind : StmtKind} {first : Span}
    (hexprs : kind.exprs = xs.map StoredExpr.id) (hfields : kind.fields = [])
    (hlists : kind.lists = []) :
    Brings kept (Holding kept (xs ++ es) ss) (do
      Parser.skipNewlines
      let _ ← Parser.expect ";"
      Parser.addStmtFrom kind first) fun id => Holding kept es (id :: ss) :=
  idle_bind .skipNewlines fun _ => idle_bind (.expect ";") fun _ =>
    addStmtFrom xs [] hexprs hfields hlists

/-- A clause of a `for` and the mark that ends it. -/
theorem forClause (mark : String) :
    Brings kept (Holding kept es ss) (Parser.forClause mark) fun x =>
      Holding kept (x.toList ++ es) ss := by
  refine idle_bind .skipNewlines fun _ => idle_bind (.check mark) fun found => ?_
  have hrest : ∀ clause : Option StoredExpr, Brings kept (Holding kept (clause.toList ++ es) ss) (do
      Parser.skipNewlines
      let _ ← Parser.expect mark
      return clause) fun x => Holding kept (x.toList ++ es) ss := fun clause =>
    idle_bind .skipNewlines fun _ => idle_bind (.expect mark) fun _ => pure fun _ h => h
  split
  · exact hrest none
  · exact someExpression.bind hrest

end Brings

namespace HoldsStmt

open Brings

variable {statement : Parser StmtId}

theorem expressionStatement : HoldsStmt kept Parser.expressionStatement := fun es ss =>
  (HoldsExpr.ofExpression es ss).bind fun expr => statementEnd [expr] rfl rfl rfl

theorem variableDeclaration : HoldsStmt kept Parser.variableDeclaration := by
  intro es ss
  refine idle_bind .advance fun keyword => idle_bind .identifier fun name => ?_
  have hrest : ∀ init : Option StoredExpr, Brings kept (Holding kept (init.toList ++ es) ss) (do
      Parser.skipNewlines
      let _ ← Parser.expect ";"
      Parser.addStmtFrom (.declare name (init.map StoredExpr.id)) keyword.span) fun id =>
        Holding kept es (id :: ss) := fun init =>
    statementEnd init.toList (by cases init <;> rfl) rfl rfl
  refine idle_bind (.check "=") fun found => ?_
  split
  · exact idle_bind .advance fun _ => someExpression.bind hrest
  · exact hrest none

theorem returnStatement (inFunction : Bool) :
    HoldsStmt kept (Parser.returnStatement inFunction) := by
  intro es ss
  refine idle_bind .current fun keyword => ?_
  have hrest : ∀ value : Option StoredExpr, Brings kept (Holding kept (value.toList ++ es) ss) (do
      Parser.skipNewlines
      let _ ← Parser.expect ";"
      Parser.addStmtFrom (.ret (value.map StoredExpr.id)) keyword.span) fun id =>
        Holding kept es (id :: ss) := fun value =>
    statementEnd value.toList (by cases value <;> rfl) rfl rfl
  split
  · exact fun _ hs => hs.spilt
  · refine idle_bind .advance fun _ => idle_bind .skipNewlines fun _ => ?_
    refine idle_bind (.check ";") fun found => ?_
    split
    · exact hrest none
    · exact someExpression.bind hrest

theorem declaration (h : HoldsStmt kept statement) :
    HoldsStmt kept (Parser.declaration statement) := by
  intro es ss
  refine idle_bind .skipNewlines fun _ => idle_bind (.check "var") fun found => ?_
  split
  · exact variableDeclaration es ss
  · exact h es ss

/-- The statements of a list are held until the list is stored. -/
theorem declarationsFrom (h : HoldsStmt kept statement) (opening : Token) (fuel : Nat)
    (seen : List StmtId) (es : List StoredExpr) (ss : List StmtId) :
    Brings kept (Holding kept es (seen ++ ss))
      (Parser.declarationsFrom opening statement fuel seen) fun ids =>
        Holding kept es (ids ++ ss) := by
  induction fuel generalizing seen with
  | zero => exact fail (fun _ => Holding.spilt) _ _
  | succ fuel ih =>
    refine idle_bind .skipNewlines fun _ => idle_bind .current fun token => ?_
    split
    · refine idle_bind .advance fun _ => pure fun _ h => h.perm (.refl es) ?_
      exact ((List.reverse_perm seen).symm.append_right ss).append_right kept
    split
    · exact fail (fun _ => Holding.spilt) _ _
    · exact (declaration h es (seen ++ ss)).bind fun stmt => ih (stmt :: seen)

theorem blockBody (h : HoldsStmt kept statement) (opening : Token) (es : List StoredExpr)
    (ss : List StmtId) :
    Brings kept (Holding kept es ss) (Parser.blockBody opening statement) (Opened kept es ss) :=
  idle_bind .size fun fuel => (declarationsFrom h opening fuel [] es ss).bind addStmts

theorem blockStatement (h : HoldsStmt kept statement) :
    HoldsStmt kept (Parser.blockStatement statement) := fun es ss =>
  idle_bind .advance fun opening => (blockBody h opening es ss).bind fun _ => addBody rfl rfl rfl

theorem branchStatement (h : HoldsStmt kept statement) :
    HoldsStmt kept (Parser.branchStatement statement) := by
  intro es ss
  refine idle_bind .advance fun keyword => (HoldsExpr.condition es ss).bind fun cond => ?_
  refine (h (cond :: es) ss).bind fun thenBranch => idle_bind .skipNewlines fun _ => ?_
  have hrest : ∀ elseBranch : Option StmtId,
      Brings kept (Holding kept (cond :: es) (elseBranch.toList ++ thenBranch :: ss))
        (Parser.addStmtFrom (.branch cond.id thenBranch elseBranch) keyword.span) fun id =>
          Holding kept es (id :: ss) := by
    intro elseBranch s hs
    have hs : Holding kept ([cond] ++ es) ((thenBranch :: elseBranch.toList) ++ ss) s.arena :=
      hs.perm (.refl _) (List.perm_middle.append_right kept)
    exact addStmtFrom [cond] (thenBranch :: elseBranch.toList) rfl rfl rfl s hs
  refine idle_bind (.check "else") fun found => ?_
  split
  · exact idle_bind .advance fun _ => (someStatement h).bind hrest
  · exact hrest none

theorem loopStatement (h : HoldsStmt kept statement) :
    HoldsStmt kept (Parser.loopStatement statement) := fun es ss =>
  idle_bind .advance fun _ => (HoldsExpr.condition es ss).bind fun cond =>
    (h (cond :: es) ss).bind fun body => addStmtFrom [cond] [body] rfl rfl rfl

theorem forFirst : Brings kept (Holding kept es ss) Parser.forFirst fun first =>
    Holding kept es (first.toList ++ ss) := by
  refine idle_bind (.check ";") fun found => ?_
  split
  · exact idle_bind .advance fun _ => pure fun _ h => h
  refine idle_bind (.check "var") fun found => ?_
  split
  · exact someStatement variableDeclaration
  · exact someStatement expressionStatement

/-- A block of two statements, of which the second one was stored last. -/
theorem blockOfTwo (one two : StmtId) (first : Span) (es : List StoredExpr) (ss : List StmtId) :
    Brings kept (Holding kept es (two :: one :: ss)) (do
      let both ← Parser.addStmts [one, two]
      Parser.addStmtFrom (.block both) first) fun id => Holding kept es (id :: ss) := by
  have hblock : Brings kept (Holding kept es ([one, two] ++ ss)) (do
      let both ← Parser.addStmts [one, two]
      Parser.addStmtFrom (.block both) first) fun id => Holding kept es (id :: ss) :=
    (addStmts [one, two]).bind fun _ => addBody rfl rfl rfl
  exact fun s hs => hblock s (hs.perm (.refl es) (.swap one two (ss ++ kept)))

/-- The loop that a `for` stands for, in a block with the first clause. -/
theorem forWhole (keyword : Span) (first : Option StmtId) (cond : StoredExpr) (body : StmtId)
    (es : List StoredExpr) (ss : List StmtId) :
    Brings kept (Holding kept (cond :: es) (body :: (first.toList ++ ss))) (do
      let loop ← Parser.addStmtFrom (.loop cond.id body) keyword
      match first with
      | none => return loop
      | some first =>
          let both ← Parser.addStmts [first, loop]
          Parser.addStmtFrom (.block both) keyword) fun id => Holding kept es (id :: ss) := by
  refine (addStmtFrom [cond] [body] rfl rfl rfl).bind fun loop => ?_
  cases first with
  | none => exact pure fun _ h => h
  | some first => exact blockOfTwo first loop keyword es ss

/-- The condition of a `for`, which is true if it is left out. -/
theorem forTest_bind (keyword : Span) (cond : Option StoredExpr) {es : List StoredExpr}
    {ss : List StmtId} {f : StoredExpr → Parser StmtId} {Q : StmtId → Arena → Prop}
    (h : ∀ x, Brings kept (Holding kept (x :: es) ss) (f x) Q) :
    Brings kept (Holding kept (cond.toList ++ es) ss) (do
      let cond ←
        match cond with
        | none => Parser.addExpr (.literal (.bool true)) keyword
        | some cond => Pure.pure cond
      f cond) Q := by
  cases cond with
  | none => exact (addExpr [] rfl rfl (by simp)).bind h
  | some cond => exact h cond

/-- The body of a `for`, in a block with the last clause, which follows it. -/
theorem forBody_bind (keyword : Span) (body : StmtId) (last : Option StoredExpr)
    {es : List StoredExpr} {ss : List StmtId} {f : StmtId → Parser StmtId}
    {Q : StmtId → Arena → Prop} (h : ∀ id, Brings kept (Holding kept es (id :: ss)) (f id) Q) :
    Brings kept (Holding kept (last.toList ++ es) (body :: ss)) (do
      let body ←
        match last with
        | none => Pure.pure body
        | some last => do
            let step ← Parser.addStmt (.expression last.id) last.span
            let both ← Parser.addStmts [body, step]
            Parser.addStmtFrom (.block both) keyword
      f body) Q := by
  cases last with
  | none => exact h body
  | some last =>
    exact (addStmt [last] [] rfl rfl rfl).bind fun step =>
      (blockOfTwo body step keyword es ss).bind h

/-- The nodes of a `for` are stored from the inside out, after all clauses and the body were
read; until then the clauses that were given are held. -/
theorem forStatement (h : HoldsStmt kept statement) :
    HoldsStmt kept (Parser.forStatement statement) := by
  intro es ss
  refine idle_bind .advance fun keyword => idle_bind .skipNewlines fun _ => ?_
  refine idle_bind (.expect "(") fun _ => idle_bind .skipNewlines fun _ => ?_
  refine forFirst.bind fun first => (forClause ";").bind fun cond => ?_
  refine (forClause ")").bind fun last => (h _ _).bind fun body => ?_
  refine forBody_bind keyword.span body last fun body => ?_
  exact forTest_bind keyword.span cond fun cond => forWhole keyword.span first cond body es ss

theorem functionDeclaration (h : HoldsStmt kept statement) :
    HoldsStmt kept (Parser.functionDeclaration statement) := by
  intro es ss
  refine idle_bind .advance fun keyword => idle_bind .identifier fun name => ?_
  refine idle_bind .skipNewlines fun _ => idle_bind (.expect "(") fun _ => ?_
  refine (items (R := fun _ => Holding kept es ss) (fun _ _ => Holding.spilt)
    (fun _ => idle .identifier fun _ => Holding.spilt) _).bind fun names => ?_
  refine (addParams names).bind fun params => ?_
  refine idle_bind .skipNewlines fun _ => idle_bind (.expect "\x7b") fun opening => ?_
  exact (blockBody h opening es ss).bind fun body => addBody rfl rfl rfl

theorem statementAt (depth : Nat) (inFunction : Bool) :
    HoldsStmt kept (Parser.statementAt depth inFunction) := by
  induction depth generalizing inFunction with
  | zero => exact fun _ _ => expectedExpression
  | succ depth ih =>
    intro es ss
    refine idle_bind .skipNewlines fun _ => idle_bind .current fun token => ?_
    split
    · exact branchStatement (ih inFunction) es ss
    split
    · exact loopStatement (ih inFunction) es ss
    split
    · exact forStatement (ih inFunction) es ss
    split
    · exact functionDeclaration (ih true) es ss
    split
    · exact returnStatement inFunction es ss
    split
    · exact blockStatement (ih inFunction) es ss
    · exact expressionStatement es ss

theorem topStatement : HoldsStmt kept Parser.topStatement := fun es ss =>
  idle_bind .size fun _ => statementAt _ _ es ss

end HoldsStmt

end Scriptorium
