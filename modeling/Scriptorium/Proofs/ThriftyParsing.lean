import Scriptorium.Proofs.TokenCharges

/-!
# The parsers are thrifty

An expression is paid for by its tokens, and so is a statement, of whose tokens one is left over.
Each level of nesting and each round of a loop takes a token, and so the bounds that are counted
down are never used up.

* `Thrifty.itemsFrom`, `Thrifty.callsFrom`, `Thrifty.declarationsFrom` — the loops;
* `Thrifty.expressionAt_and` — the functions for expressions, which call each other;
* `Thrifty.statementAt` — statements.
-/

namespace Scriptorium

variable {α : Type} {w : Weights} {n c : Nat}

theorem Token.isSolid_of_connective {t : Token} {op : Connective}
    (h : Connective.ofToken? t = some op) : t.isSolid = true := by
  rw [← connective?_word] at h
  simpa [isSolid, and_comm] using Word.solid_of_connective? h

theorem Token.isSolid_of_sign {t : Token} {op : UnaryOp} (h : UnaryOp.ofToken? t = some op) :
    t.isSolid = true := by
  rw [← sign?_word] at h
  simpa [isSolid, and_comm] using Word.solid_of_sign? h

namespace Thrifty

/-! ## Names and lists -/

/-- The mark that has to come after line breaks. -/
theorem mark_bind {text : String} {p q : Parser α} {d : α → Nat}
    (h : Thrifty w n (c + 1) p q d) :
    Thrifty w n c
      (do
        Parser.skipNewlines
        let _ ← Parser.expect text
        p)
      (do
        Parser.skipNewlines
        let _ ← Parser.expect text
        q) d :=
  skipNewlines_bind (expect_bind fun _ => h.mono (Nat.sub_le n 1))

theorem identifier : Thrifty w n c Parser.identifier Parser.identifier fun _ => c + 1 := by
  refine skipNewlines_bind (current_bind fun token => ?_)
  by_cases hsymbol : token.kind = .symbol
  · rw [if_pos hsymbol]
    have htoken : token.isSolid = true := by
      simp [Token.isSolid, Token.isNewline, Token.isEnd, hsymbol]
    exact .advance_bind htoken fun _ => intern _
  · rw [if_neg hsymbol]
    exact fail _ token token

/-- Each item of a list leaves the credit `g`. -/
theorem itemsFrom {tooMany : ParseFault} {item item' : Parser α} {g : Nat}
    (h : Thrifty w n 0 item item' fun _ => g) {fuel fuel' : Nat} (hfuel : n ≤ fuel)
    (hfuel' : n ≤ fuel') (seen : List α) :
    Thrifty w n (g * seen.length) (Parser.itemsFrom tooMany item fuel seen)
      (Parser.itemsFrom tooMany item' fuel' seen) fun xs => g * xs.length := by
  induction fuel generalizing n fuel' seen with
  | zero => exact of_le_zero hfuel
  | succ fuel ih =>
    cases fuel' with
    | zero => exact of_le_zero hfuel'
    | succ fuel' =>
      have hlength : ∀ x, g * (x :: seen).length = g * seen.length + g := fun x => by
        rw [List.length_cons, Nat.mul_add_one]
      have hnext : Thrifty w n (g * seen.length)
          (do
            let x ← item
            Parser.skipNewlines
            if ← Parser.check "," then
              let _ ← Parser.advance
              Parser.itemsFrom tooMany item fuel (x :: seen)
            else return (x :: seen).reverse)
          (do
            let x ← item'
            Parser.skipNewlines
            if ← Parser.check "," then
              let _ ← Parser.advance
              Parser.itemsFrom tooMany item' fuel' (x :: seen)
            else return (x :: seen).reverse) fun xs => g * xs.length := by
        refine (h.after (g * seen.length)).bind fun x => ?_
        refine skipNewlines_bind (check_bind (fun token htoken => ?_) ?_)
        · -- the comma makes room for a further item
          refine .advance_bind htoken fun _ => ?_
          refine (ih (h.mono (Nat.sub_le n 1)) (by omega) (by omega) (x :: seen)).spare 1 ?_
            fun xs => Nat.le_succ _
          rw [hlength]
        · refine pure _ ?_
          rw [List.length_reverse, hlength]
      exact skipNewlines_bind (ite (current_bind fun token => fail_bind tooMany token token) hnext)

theorem items (tooMany : ParseFault) {item item' : Parser α} {g : Nat}
    (h : Thrifty w n 0 item item' fun _ => g) :
    Thrifty w n 0 (Parser.items tooMany item) (Parser.items tooMany item')
      fun xs => g * xs.length := by
  have hclose : ∀ found : List α, Thrifty w n (g * found.length)
      (do
        let _ ← Parser.expect ")"
        return found)
      (do
        let _ ← Parser.expect ")"
        return found) fun xs => g * xs.length :=
    fun found => expect_bind fun _ => pure found (Nat.le_succ _)
  refine skipNewlines_bind (check_bind (fun token _ => ?_) ?_)
  · exact (pure (d := fun xs => g * xs.length) [] (Nat.zero_le _)).bind hclose token
  · refine size_bind fun m hm k k' hk hk' => ?_
    exact (itemsFrom (h.mono hm) hk hk' []).bind fun found => (hclose found).mono hm

/-! ## Expressions

An expression leaves credit over if expressions are not what is counted: `1 - w.exprs`. -/

variable {expression expression' : Parser StoredExpr}

/-- A literal is paid for by its token. -/
theorem literal (hw : w.AtMostOne) {token : Token} (htoken : token.isSolid = true)
    (value : Literal NameId) :
    ThriftyAt token w n 0 (Parser.literal value) (Parser.literal value)
      fun _ => 1 - w.exprs := by
  unfold Weights.AtMostOne at hw
  exact .advance_bind htoken fun _ => addExpr _ _ (by omega)

theorem primary (hw : w.AtMostOne)
    (h : Thrifty w (n - 1) 0 expression expression' fun _ => 1 - w.exprs) :
    Thrifty w n 0 (Parser.primary expression) (Parser.primary expression')
      fun _ => 1 - w.exprs := by
  have hexprs : w.exprs ≤ 1 := by
    unfold Weights.AtMostOne at hw
    omega
  refine skipNewlines_bind (current_bind fun token => ?_)
  obtain ⟨kind, lexeme, span, location⟩ := token
  cases kind with
  | int value => exact literal hw rfl _
  | string => exact .intern_bind fun name => literal hw rfl _
  | symbol =>
    refine .advance_bind rfl fun _ => (intern _).bind fun name => ?_
    exact addExpr _ _ (by omega)
  | keyword =>
    exact .ite (literal hw rfl _) (.ite (literal hw rfl _) (expectedExpression _))
  | punct =>
    refine .ite (.advance_bind rfl fun _ => ?_) (expectedExpression _)
    refine (h.after 1).bind fun inner => mark_bind (spanFrom_bind fun _ => ?_)
    exact addExpr _ _ (by omega)
  | _ => exact expectedExpression _

/-- The parenthesis of a call pays for its node, and each argument for itself. -/
theorem callsFrom (hw : w.AtMostOne)
    (h : Thrifty w (n - 1) 0 expression expression' fun _ => 1 - w.exprs) {fuel fuel' : Nat}
    (hfuel : n ≤ fuel) (hfuel' : n ≤ fuel') (callee : StoredExpr) :
    Thrifty w n 0 (Parser.callsFrom expression fuel callee)
      (Parser.callsFrom expression' fuel' callee) fun _ => 0 := by
  induction fuel generalizing n fuel' callee with
  | zero => exact of_le_zero hfuel
  | succ fuel ih =>
    cases fuel' with
    | zero => exact of_le_zero hfuel'
    | succ fuel' =>
      unfold Weights.AtMostOne at hw
      have hargs : Thrifty w (n - 1) 0 expression expression' fun _ => w.exprLists :=
        h.spare 0 le_rfl fun _ => by omega
      refine check_bind (fun token htoken => ?_) (pure _ le_rfl)
      refine .advance_bind htoken fun _ => ?_
      refine ((items _ hargs).after 1).bind fun args => ?_
      refine (addExprs (d := 1) _ ?_).bind fun slice => spanFrom_bind fun _ => ?_
      · rw [List.length_map]
      refine (addExpr (d := 0) _ _ (by omega)).bind fun called => ?_
      exact ih (h.mono (Nat.sub_le _ 1)) (by omega) (by omega) called

theorem calls (hw : w.AtMostOne)
    (h : Thrifty w (n - 1) 0 expression expression' fun _ => 1 - w.exprs) :
    Thrifty w n 0 (Parser.calls expression) (Parser.calls expression') fun _ => 1 - w.exprs := by
  refine (primary hw h).bind fun callee => size_bind fun m hm k k' hk hk' => ?_
  exact (callsFrom hw (h.mono (by omega)) hk hk' callee).after _

theorem assignment (hw : w.AtMostOne)
    (h : Thrifty w (n - 1) 0 expression expression' fun _ => 1 - w.exprs) (target : StoredExpr) :
    Thrifty w n 0 (Parser.assignment expression target) (Parser.assignment expression' target)
      fun _ => 0 := by
  unfold Weights.AtMostOne at hw
  refine check_bind (fun token htoken => ?_) (pure _ le_rfl)
  refine .advance_bind htoken fun sign => ?_
  refine (h.after 1).bind fun value => ?_
  split
  · exact addExpr _ _ (by omega)
  · exact fail _ _

/-- The four functions that call each other, with the number of tokens that their bounds are
enough for. -/
theorem expressionAt_and (hw : w.AtMostOne) (depth depth' : Nat) :
    (∀ n, 3 * n ≤ depth → 3 * n ≤ depth' →
      Thrifty w n 0 (Parser.expressionAt depth) (Parser.expressionAt depth')
        fun _ => 1 - w.exprs) ∧
    (∀ n level, 3 * n ≤ depth + 1 → 3 * n ≤ depth' + 1 →
      Thrifty w n 0 (Parser.operationAt depth level) (Parser.operationAt depth' level)
        fun _ => 1 - w.exprs) ∧
    (∀ n level left, 3 * n ≤ depth + 2 → 3 * n ≤ depth' + 2 →
      Thrifty w n 0 (Parser.operationsAt depth level left)
        (Parser.operationsAt depth' level left) fun _ => 0) ∧
    ∀ n, 3 * n ≤ depth + 2 → 3 * n ≤ depth' + 2 →
      Thrifty w n 0 (Parser.signedAt depth) (Parser.signedAt depth') fun _ => 1 - w.exprs := by
  have hnone : ∀ {n} {p q : Parser StoredExpr} {d}, 3 * n ≤ 2 → Thrifty w n 0 p q d :=
    fun hn => of_le_zero (by omega)
  induction depth generalizing depth' with
  | zero =>
    exact ⟨fun n hn _ => hnone (by omega), fun n _ hn _ => hnone (by omega),
      fun n _ _ hn _ => hnone hn, fun n hn _ => hnone hn⟩
  | succ depth ih =>
    cases depth' with
    | zero =>
      exact ⟨fun n _ hn => hnone (by omega), fun n _ _ hn => hnone (by omega),
        fun n _ _ _ hn => hnone hn, fun n _ hn => hnone hn⟩
    | succ depth' =>
      obtain ⟨hexpr, hoperation, hrest, hsigned⟩ := ih depth'
      refine ⟨?_, ?_, ?_, ?_⟩
      · intro n hn hn'
        refine (hoperation n 0 hn hn').bind fun target => ?_
        exact (assignment hw (hexpr (n - 1) (by omega) (by omega)) target).after _
      · intro n level hn hn'
        refine (hsigned n hn hn').bind fun left => ?_
        exact (hrest n level left (by omega) (by omega)).after _
      · intro n level left hn hn'
        have hleft : Thrifty w n 0 (Pure.pure left : Parser StoredExpr) (Pure.pure left)
            fun _ => 0 := pure left le_rfl
        refine skipNewlines_bind (current_bind fun token => ?_)
        cases hop : Connective.ofToken? token with
        | none => exact hleft token
        | some op =>
          refine .ite (.advance_bind (Token.isSolid_of_connective hop) fun _ => ?_)
            (hleft token)
          refine ((hoperation (n - 1) (op.level + 1) (by omega) (by omega)).after 1).bind
            fun right => ?_
          refine (addExpr (d := 0) _ _ ?_).bind fun both => ?_
          · unfold Weights.AtMostOne at hw
            omega
          · exact hrest (n - 1) level both (by omega) (by omega)
      · intro n hn hn'
        refine skipNewlines_bind (current_bind fun token => ?_)
        cases hop : UnaryOp.ofToken? token with
        | none => exact calls hw (hexpr (n - 1) (by omega) (by omega)) token
        | some op =>
          refine .advance_bind (Token.isSolid_of_sign hop) fun sign => ?_
          refine ((hsigned (n - 1) (by omega) (by omega)).after 1).bind fun operand => ?_
          refine addExpr _ _ ?_
          unfold Weights.AtMostOne at hw
          omega

/-- An expression is paid for by its tokens. -/
theorem ofExpression (hw : w.AtMostOne) :
    Thrifty w n 0 Parser.expression Parser.expression fun _ => 1 - w.exprs :=
  size_bind fun m _ _ _ hk hk' =>
    (expressionAt_and hw _ _).1 m (Nat.mul_le_mul_left 3 hk) (Nat.mul_le_mul_left 3 hk')

/-! ## Simple statements

Of the tokens of a statement, one is left over.  It pays for the entry of the statement in the
list of a block. -/

/-- The semicolon pays for the node of a simple statement. -/
theorem statementEnd (hw : w.AtMostOne) (hc : 1 ≤ c) (kind : StmtKind) (first : Span) :
    Thrifty w n c
      (do
        Parser.skipNewlines
        let _ ← Parser.expect ";"
        Parser.addStmtFrom kind first)
      (do
        Parser.skipNewlines
        let _ ← Parser.expect ";"
        Parser.addStmtFrom kind first) fun _ => 1 := by
  unfold Weights.AtMostOne at hw
  exact mark_bind (addStmtFrom kind first (by omega))

theorem expressionStatement (hw : w.AtMostOne) :
    Thrifty w n 0 Parser.expressionStatement Parser.expressionStatement fun _ => 1 := by
  refine (ofExpression hw).bind fun expr => mark_bind (addStmtFrom _ _ ?_)
  unfold Weights.AtMostOne at hw
  omega

theorem variableDeclaration (hw : w.AtMostOne) {token : Token} (htoken : token.isSolid = true) :
    ThriftyAt token w n 0 Parser.variableDeclaration Parser.variableDeclaration fun _ => 1 := by
  refine .advance_bind htoken fun keyword => identifier.bind fun name => ?_
  refine check_bind (fun token htoken => ?_) ?_
  · refine .advance_bind htoken fun _ => ?_
    exact (map (e := fun _ => 1) (((ofExpression hw).after _).spare 0 le_rfl fun _ => by omega)).bind
      fun init => statementEnd hw le_rfl _ _
  · exact (pure (d := fun _ => 1) none (by omega)).bind fun init => statementEnd hw le_rfl _ _

theorem returnStatement (hw : w.AtMostOne) (inFunction : Bool) {token : Token}
    (htoken : token.isSolid = true) :
    ThriftyAt token w n 0 (Parser.returnStatement inFunction) (Parser.returnStatement inFunction)
      fun _ => 1 := by
  have hvalue : ThriftyAt token w n 0
      (do
        let _ ← Parser.advance
        Parser.skipNewlines
        let value ← if ← Parser.check ";" then Pure.pure none else some <$> Parser.expression
        Parser.skipNewlines
        let _ ← Parser.expect ";"
        Parser.addStmtFrom (.ret (value.map StoredExpr.id)) token.span)
      (do
        let _ ← Parser.advance
        Parser.skipNewlines
        let value ← if ← Parser.check ";" then Pure.pure none else some <$> Parser.expression
        Parser.skipNewlines
        let _ ← Parser.expect ";"
        Parser.addStmtFrom (.ret (value.map StoredExpr.id)) token.span) fun _ => 1 := by
    refine .advance_bind htoken fun _ => skipNewlines_bind (check_bind (fun token _ => ?_) ?_)
    · exact (pure (d := fun _ => 1) none le_rfl).bind
        (fun value => statementEnd hw le_rfl _ _) token
    · exact (map (e := fun _ => 1) (((ofExpression hw).after _).spare 0 le_rfl fun _ => by omega)).bind
        fun value => statementEnd hw le_rfl _ _
  exact .current_bind (.ite (fail_bind _ token token) hvalue)

/-- A declaration is read like a statement. -/
theorem declaration (hw : w.AtMostOne) {statement statement' : Parser StmtId}
    (h : Thrifty w n 0 statement statement' fun _ => 1) :
    Thrifty w n 0 (Parser.declaration statement) (Parser.declaration statement') fun _ => 1 :=
  skipNewlines_bind (check_bind (fun _ htoken => variableDeclaration hw htoken) h)

/-! ## Blocks -/

/-- Each declaration pays for its entry in the list, and the closing brace is left over. -/
theorem declarationsFrom (hw : w.AtMostOne) {statement statement' : Parser StmtId}
    (h : Thrifty w n 0 statement statement' fun _ => 1) (opening : Token) {fuel fuel' : Nat}
    (hfuel : n ≤ fuel) (hfuel' : n ≤ fuel') (seen : List StmtId) :
    Thrifty w n (w.stmtLists * seen.length)
      (Parser.declarationsFrom opening statement fuel seen)
      (Parser.declarationsFrom opening statement' fuel' seen)
      fun ids => w.stmtLists * ids.length + 1 := by
  induction fuel generalizing n fuel' seen with
  | zero => exact of_le_zero hfuel
  | succ fuel ih =>
    cases fuel' with
    | zero => exact of_le_zero hfuel'
    | succ fuel' =>
      refine skipNewlines_bind (current_bind fun token => .ite_is (fun htoken => ?_) ?_)
      · refine .advance_bind htoken fun _ => pure _ ?_
        rw [List.length_reverse]
      · refine .ite (fail _ _ token) ?_
        refine ((declaration hw h).after (w.stmtLists * seen.length)).bind_room
          (fun _ => Nat.lt_succ_self _) (fun stmt => ?_) token
        -- a declaration takes a token, so there is one fewer for the others
        refine (ih (h.mono (Nat.sub_le n 1)) (by omega) (by omega) (stmt :: seen)).spare 0 ?_
          fun _ => le_rfl
        unfold Weights.AtMostOne at hw
        rw [List.length_cons, Nat.mul_add_one]
        omega

theorem blockBody (hw : w.AtMostOne) {statement statement' : Parser StmtId}
    (h : Thrifty w n 0 statement statement' fun _ => 1) (opening : Token) :
    Thrifty w n 0 (Parser.blockBody opening statement) (Parser.blockBody opening statement')
      fun _ => 1 := by
  refine size_bind fun m hm k k' hk hk' => ?_
  refine (declarationsFrom hw (h.mono hm) opening hk hk' []).bind fun stmts => ?_
  exact addStmts stmts (Nat.add_comm _ _).le

/-! ## Compound statements

The first token of such a statement is taken before its parts are read. -/

section Compound

variable {statement statement' : Parser StmtId} {token : Token}

theorem blockStatement (hw : w.AtMostOne)
    (h : Thrifty w (n - 1) 0 statement statement' fun _ => 1) (htoken : token.isSolid = true) :
    ThriftyAt token w n 0 (Parser.blockStatement statement) (Parser.blockStatement statement')
      fun _ => 1 := by
  refine .advance_bind htoken fun opening => ?_
  refine ((blockBody hw h opening).after 1).bind fun body => addStmtFrom _ _ ?_
  unfold Weights.AtMostOne at hw
  omega

theorem condition (hw : w.AtMostOne) :
    Thrifty w n 0 Parser.condition Parser.condition fun _ => 1 :=
  mark_bind (((ofExpression hw).after 1).bind fun cond => mark_bind (pure cond (by omega)))

theorem branchStatement (hw : w.AtMostOne)
    (h : Thrifty w (n - 1) 0 statement statement' fun _ => 1) (htoken : token.isSolid = true) :
    ThriftyAt token w n 0 (Parser.branchStatement statement) (Parser.branchStatement statement')
      fun _ => 1 := by
  unfold Weights.AtMostOne at hw
  refine .advance_bind htoken fun keyword => ((condition hw).after 1).bind fun cond => ?_
  refine (h.after 2).bind fun thenBranch => skipNewlines_bind ?_
  refine check_bind (fun token htoken => ?_) ?_
  · refine .advance_bind htoken fun _ => ?_
    exact (map (e := fun _ => 2) ((h.mono (Nat.sub_le _ 1)).spare 2 (by omega)
      fun _ => by omega)).bind fun _ => addStmtFrom _ _ (by omega)
  · exact (pure (d := fun _ => 2) none (by omega)).bind fun _ => addStmtFrom _ _ (by omega)

theorem loopStatement (hw : w.AtMostOne)
    (h : Thrifty w (n - 1) 0 statement statement' fun _ => 1) (htoken : token.isSolid = true) :
    ThriftyAt token w n 0 (Parser.loopStatement statement) (Parser.loopStatement statement')
      fun _ => 1 := by
  refine .advance_bind htoken fun keyword => ((condition hw).after 1).bind fun cond => ?_
  refine (h.after 2).bind fun body => addStmtFrom _ _ ?_
  unfold Weights.AtMostOne at hw
  omega

theorem forFirst (hw : w.AtMostOne) :
    Thrifty w n 0 Parser.forFirst Parser.forFirst fun _ => 1 := by
  refine check_bind (fun token htoken => .advance_bind htoken fun _ => pure none le_rfl) ?_
  exact check_bind (fun token htoken => .map (variableDeclaration hw htoken))
    (map (expressionStatement hw))

theorem forClause (hw : w.AtMostOne) (mark : String) :
    Thrifty w n 0 (Parser.forClause mark) (Parser.forClause mark) fun _ => 1 := by
  refine skipNewlines_bind (check_bind (fun token _ => ?_) ?_)
  · exact (pure (d := fun _ => 0) none le_rfl).bind
      (fun clause => mark_bind (pure clause le_rfl)) token
  · exact (map (e := fun _ => 0) ((ofExpression hw).spare 0 le_rfl fun _ => by omega)).bind
      fun clause => mark_bind (pure clause le_rfl)

variable {β : Type} {e : β → Nat}

/-- The body of a `for`, in a block with the last clause, which follows it. -/
theorem forBody_bind (hw : w.AtMostOne) (keyword : Span) (body : StmtId)
    (last : Option StoredExpr) {f g : StmtId → Parser β}
    (h : ∀ id, Thrifty w n c (f id) (g id) e) :
    Thrifty w n (c + 2)
      (do
        let body ←
          match last with
          | none => Pure.pure body
          | some last => do
              let step ← Parser.addStmt (.expression last.id) last.span
              let both ← Parser.addStmts [body, step]
              Parser.addStmtFrom (.block both) keyword
        f body)
      (do
        let body ←
          match last with
          | none => Pure.pure body
          | some last => do
              let step ← Parser.addStmt (.expression last.id) last.span
              let both ← Parser.addStmts [body, step]
              Parser.addStmtFrom (.block both) keyword
        g body) e := by
  cases last with
  | none => exact (pure (d := fun _ => c) body (by omega)).bind h
  | some last =>
    unfold Weights.AtMostOne at hw
    refine (addStmt (d := c + 2 - w.stmts) _ _ (by omega)).bind fun step => ?_
    refine (addStmts (d := c + w.stmts) [body, step] ?_).bind fun both => ?_
    · show c + w.stmts + w.stmtLists * 2 ≤ c + 2 - w.stmts
      omega
    · exact (addStmtFrom (d := c) _ _ le_rfl).bind h

/-- The condition of a `for`, which is true if it is left out. -/
theorem forTest_bind (hw : w.AtMostOne) (keyword : Span) (cond : Option StoredExpr)
    {f g : StoredExpr → Parser β} (h : ∀ x, Thrifty w n c (f x) (g x) e) :
    Thrifty w n (c + 1)
      (do
        let cond ←
          match cond with
          | none => Parser.addExpr (.literal (.bool true)) keyword
          | some cond => Pure.pure cond
        f cond)
      (do
        let cond ←
          match cond with
          | none => Parser.addExpr (.literal (.bool true)) keyword
          | some cond => Pure.pure cond
        g cond) e := by
  unfold Weights.AtMostOne at hw
  cases cond with
  | none => exact (addExpr (d := c) _ _ (by omega)).bind h
  | some cond => exact (pure (d := fun _ => c) cond (by omega)).bind h

/-- The loop that a `for` stands for, in a block with the first clause. -/
theorem forWhole (hw : w.AtMostOne) (keyword : Span) (first : Option StmtId) (cond : ExprId)
    (body : StmtId) :
    Thrifty w n 3
      (do
        let loop ← Parser.addStmtFrom (.loop cond body) keyword
        match first with
        | none => return loop
        | some first =>
            let both ← Parser.addStmts [first, loop]
            Parser.addStmtFrom (.block both) keyword)
      (do
        let loop ← Parser.addStmtFrom (.loop cond body) keyword
        match first with
        | none => return loop
        | some first =>
            let both ← Parser.addStmts [first, loop]
            Parser.addStmtFrom (.block both) keyword) fun _ => 1 := by
  unfold Weights.AtMostOne at hw
  refine (addStmtFrom (d := 3 - w.stmts) _ _ (by omega)).bind fun loop => ?_
  cases first with
  | none => exact pure loop (by omega)
  | some first =>
    refine (addStmts (d := 1 + w.stmts) [first, loop] ?_).bind fun both => ?_
    · show 1 + w.stmts + w.stmtLists * 2 ≤ 3 - w.stmts
      omega
    · exact addStmtFrom _ _ le_rfl

/-- The marks of a `for` and its parts pay for the nodes of the `while` that it stands for. -/
theorem forStatement (hw : w.AtMostOne)
    (h : Thrifty w (n - 1) 0 statement statement' fun _ => 1) (htoken : token.isSolid = true) :
    ThriftyAt token w n 0 (Parser.forStatement statement) (Parser.forStatement statement')
      fun _ => 1 := by
  refine .advance_bind htoken fun keyword => mark_bind (skipNewlines_bind ?_)
  refine ((forFirst hw).after 2).bind fun first => ((forClause hw ";").after 3).bind fun cond => ?_
  refine ((forClause hw ")").after 4).bind fun last => (h.after 5).bind fun body => ?_
  refine forBody_bind hw (c := 4) keyword.span body last fun body => ?_
  exact forTest_bind hw (c := 3) keyword.span cond fun cond =>
    forWhole hw keyword.span first cond.id body

theorem functionDeclaration (hw : w.AtMostOne)
    (h : Thrifty w (n - 1) 0 statement statement' fun _ => 1) (htoken : token.isSolid = true) :
    ThriftyAt token w n 0 (Parser.functionDeclaration statement)
      (Parser.functionDeclaration statement') fun _ => 1 := by
  unfold Weights.AtMostOne at hw
  have hparam : Thrifty w (n - 1) 0 Parser.identifier Parser.identifier fun _ => w.params :=
    identifier.spare 0 le_rfl fun _ => by omega
  refine .advance_bind htoken fun keyword => identifier.bind fun name => mark_bind ?_
  refine ((items _ hparam).spare 3 (by omega) fun _ => le_rfl).bind fun params => ?_
  refine (addParams (d := 3) params (by omega)).bind fun slice => ?_
  refine skipNewlines_bind (expect_bind fun opening => ?_)
  exact (((blockBody hw h opening).mono (Nat.sub_le _ 1)).after 4).bind fun body =>
    addStmtFrom _ _ (by omega)

end Compound

/-! ## Statements -/

/-- A statement inside another one comes after a token of the outer one. -/
theorem statementAt (hw : w.AtMostOne) {depth depth' : Nat} (inFunction : Bool)
    (hn : n ≤ depth) (hn' : n ≤ depth') :
    Thrifty w n 0 (Parser.statementAt depth inFunction) (Parser.statementAt depth' inFunction)
      fun _ => 1 := by
  induction depth generalizing depth' inFunction n with
  | zero => exact of_le_zero hn
  | succ depth ih =>
    cases depth' with
    | zero => exact of_le_zero hn'
    | succ depth' =>
      have hinner : ∀ inFunction, Thrifty w (n - 1) 0 (Parser.statementAt depth inFunction)
          (Parser.statementAt depth' inFunction) fun _ => 1 :=
        fun inFunction => ih inFunction (by omega) (by omega)
      exact skipNewlines_bind (current_bind fun token =>
        .ite_is (branchStatement hw (hinner inFunction)) <|
        .ite_is (loopStatement hw (hinner inFunction)) <|
        .ite_is (forStatement hw (hinner inFunction)) <|
        .ite_is (functionDeclaration hw (hinner true)) <|
        .ite_is (returnStatement hw inFunction) <|
        .ite_is (blockStatement hw (hinner inFunction)) <|
        expressionStatement hw token)

theorem topStatement (hw : w.AtMostOne) :
    Thrifty w n 0 Parser.topStatement Parser.topStatement fun _ => 1 :=
  size_bind fun _ _ _ _ hk hk' => statementAt hw false hk hk'

end Thrifty

end Scriptorium
