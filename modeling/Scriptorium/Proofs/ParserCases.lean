import Scriptorium.Proofs.ParserRuns

/-!
# What each parser does

One lemma for each parser says what a successful run of it consists of.  The lemmas are
equivalences: read from left to right they take a run apart, read from right to left
they put one together.
-/

namespace Scriptorium.Parser

variable {α : Type} {s t : ParseState}

/-! ## Names and lists -/

theorem runs_identifier {name : NameId} :
    Runs identifier s name t ↔
      ∃ text, s.skipNewlines.current.word = .symbol text ∧
        Runs (intern text) s.skipNewlines.advance name t := by
  rcases h : s.skipNewlines.current with ⟨kind, lexeme, span, location⟩
  cases kind <;> simp [identifier, h, Token.word, Word.read, Word.symbol, eq_comm]

theorem runs_itemsFrom {tooMany : ParseFault} {item : Parser α} {fuel : Nat} {seen xs : List α} :
    Runs (itemsFrom tooMany item (fuel + 1) seen) s xs t ↔
      seen.length < maxItems ∧ ∃ a u, Runs item s.skipNewlines a u ∧
        if u.skipNewlines.current.is "," = true then
          Runs (itemsFrom tooMany item fuel (a :: seen)) u.skipNewlines.advance xs t
        else xs = seen.reverse ++ [a] ∧ t = u.skipNewlines := by
  by_cases hseen : maxItems ≤ seen.length
  · simp [itemsFrom, hseen, Nat.not_lt.2 hseen]
  · simp [itemsFrom, hseen, Nat.lt_of_not_le hseen]

theorem runs_items {tooMany : ParseFault} {item : Parser α} {xs : List α} :
    Runs (items tooMany item) s xs t ↔
      if s.skipNewlines.current.is ")" = true then xs = [] ∧ t = s.skipNewlines.advance
      else ∃ u, Runs (itemsFrom tooMany item s.skipNewlines.size []) s.skipNewlines xs u ∧
        u.current.is ")" = true ∧ t = u.advance := by
  by_cases hclose : s.skipNewlines.current.is ")" = true
  · simp [items, hclose, and_comm]
  · simp [items, hclose]

/-! ## Expressions -/

theorem runs_literal {value : Literal NameId} {x : StoredExpr} :
    Runs (literal value) s x t ↔ Runs (addExpr (.literal value) s.current.span) s.advance x t := by
  simp [literal]

/-- A literal, a variable or an expression in parentheses. -/
theorem runs_primary {expression : Parser StoredExpr} {x : StoredExpr} :
    Runs (primary expression) s x t ↔
      (∃ n, s.skipNewlines.current.word = ⟨.int n, ""⟩ ∧
        Runs (literal (.int n)) s.skipNewlines x t) ∨
      (∃ text name u, s.skipNewlines.current.word = ⟨.string, text⟩ ∧
        Runs (intern text) s.skipNewlines name u ∧ Runs (literal (.str name)) u x t) ∨
      (∃ b, s.skipNewlines.current.word = .keyword (if b then "true" else "false") ∧
        Runs (literal (.bool b)) s.skipNewlines x t) ∨
      (∃ text name u, s.skipNewlines.current.word = .symbol text ∧
        Runs (intern text) s.skipNewlines.advance name u ∧
        Runs (addExpr (.reference name) s.skipNewlines.current.span) u x t) ∨
      (∃ inner u span, s.skipNewlines.current.word = .punct "(" ∧
        Runs expression s.skipNewlines.advance inner u ∧
        u.skipNewlines.current.is ")" = true ∧
        Runs (spanFrom s.skipNewlines.current.span) u.skipNewlines.advance span
          u.skipNewlines.advance ∧
        Runs (addExpr (.group inner.id) span) u.skipNewlines.advance x t) := by
  generalize hu : s.skipNewlines = u
  rcases h : u.current with ⟨kind, lexeme, span, location⟩
  cases kind with
  | keyword =>
    by_cases ht : lexeme = "true"
    · simp [primary, hu, h, Token.word, Word.read, Word.symbol, Word.keyword, Word.punct, ht]
    by_cases hf : lexeme = "false"
    · simp [primary, hu, h, Token.word, Word.read, Word.symbol, Word.keyword, Word.punct, hf]
    · simp [primary, hu, h, Token.word, Word.read, Word.symbol, Word.keyword, Word.punct, ht, hf]
  | punct =>
    by_cases ho : lexeme = "("
    · simp [primary, hu, h, Token.word, Word.read, Word.symbol, Word.keyword, Word.punct, ho,
        runs_spanFrom]
    · simp [primary, hu, h, Token.word, Word.read, Word.symbol, Word.keyword, Word.punct, ho]
  | _ => simp [primary, hu, h, Token.word, Word.read, Word.symbol, Word.keyword, Word.punct]

theorem runs_callsFrom {expression : Parser StoredExpr} {fuel : Nat} {callee x : StoredExpr} :
    Runs (callsFrom expression (fuel + 1) callee) s x t ↔
      if s.current.is "(" = true then
        ∃ args u slice v called w, Runs (items .tooManyArguments expression) s.advance args u ∧
          Runs (addExprs (args.map StoredExpr.id)) u slice v ∧
          Runs (addExpr (.call callee.id slice) (callee.span.merge v.previous)) v called w ∧
          Runs (callsFrom expression fuel called) w x t
      else x = callee ∧ t = s := by
  by_cases hopen : s.current.is "(" = true
  · simp [callsFrom, hopen, runs_spanFrom]
  · simp [callsFrom, hopen]

theorem runs_calls {expression : Parser StoredExpr} {x : StoredExpr} :
    Runs (calls expression) s x t ↔
      ∃ callee u, Runs (primary expression) s callee u ∧
        Runs (callsFrom expression u.size callee) u x t := by
  simp [calls]

theorem runs_assignment {expression : Parser StoredExpr} {target x : StoredExpr} :
    Runs (assignment expression target) s x t ↔
      if s.current.is "=" = true then
        ∃ value u name, Runs expression s.advance value u ∧ target.node.kind = .reference name ∧
          Runs (addExpr (.assign name target.span value.id) (target.span.merge value.span)) u x t
      else x = target ∧ t = s := by
  by_cases hsign : s.current.is "=" = true
  · rcases target with ⟨id, kind, span⟩
    cases kind <;> simp [assignment, hsign]
  · simp [assignment, hsign]

theorem runs_expressionAt {depth : Nat} {x : StoredExpr} :
    Runs (expressionAt (depth + 1)) s x t ↔
      ∃ target u, Runs (operationAt depth 0) s target u ∧
        Runs (assignment (expressionAt depth) target) u x t := by
  simp [expressionAt]

theorem runs_operationAt {depth level : Nat} {x : StoredExpr} :
    Runs (operationAt (depth + 1) level) s x t ↔
      ∃ left u, Runs (signedAt depth) s left u ∧ Runs (operationsAt depth level left) u x t := by
  simp [operationAt]

/-- Either no operator at the level or a tighter one comes next, or the right operand of
one is read. -/
theorem runs_operationsAt {depth level : Nat} {left x : StoredExpr} :
    Runs (operationsAt (depth + 1) level left) s x t ↔
      (x = left ∧ t = s.skipNewlines ∧
        ∀ op, s.skipNewlines.current.word.connective? = some op → op.level < level) ∨
      ∃ op, s.skipNewlines.current.word.connective? = some op ∧ level ≤ op.level ∧
        ∃ right u both v, Runs (operationAt depth (op.level + 1)) s.skipNewlines.advance right u ∧
          Runs (addExpr (op.node left.id right.id) (left.span.merge right.span)) u both v ∧
          Runs (operationsAt depth level both) v x t := by
  rw [Token.connective?_word]
  cases h : Connective.ofToken? s.skipNewlines.current with
  | none => simp [operationsAt, h]
  | some op =>
    by_cases hlevel : level ≤ op.level
    · simp [operationsAt, h, hlevel, Nat.not_lt.2 hlevel]
    · simp [operationsAt, h, hlevel, Nat.lt_of_not_le hlevel]

theorem runs_signedAt {depth : Nat} {x : StoredExpr} :
    Runs (signedAt (depth + 1)) s x t ↔
      (s.skipNewlines.current.word.sign? = none ∧
        Runs (calls (expressionAt depth)) s.skipNewlines x t) ∨
      ∃ op, s.skipNewlines.current.word.sign? = some op ∧
        ∃ operand u, Runs (signedAt depth) s.skipNewlines.advance operand u ∧
          Runs (addExpr (.unary op operand.id)
            (s.skipNewlines.current.span.merge operand.span)) u x t := by
  rw [Token.sign?_word]
  cases h : UnaryOp.ofToken? s.skipNewlines.current with
  | none => simp [signedAt, h]
  | some op => simp [signedAt, h]

theorem runs_expression {x : StoredExpr} :
    Runs expression s x t ↔ Runs (expressionAt (3 * s.size)) s x t := by
  simp [expression]

/-! ## Simple statements -/

theorem runs_expressionStatement {id : StmtId} :
    Runs expressionStatement s id t ↔
      ∃ x u, Runs expression s x u ∧ u.skipNewlines.current.is ";" = true ∧
        Runs (addStmtFrom (.expression x.id) x.span) u.skipNewlines.advance id t := by
  simp [expressionStatement]

theorem runs_variableDeclaration {id : StmtId} :
    Runs variableDeclaration s id t ↔
      ∃ name u, Runs identifier s.advance name u ∧ ∃ init v,
        (if u.current.is "=" = true then ∃ x, Runs expression u.advance x v ∧ init = some x
          else init = none ∧ v = u) ∧
        v.skipNewlines.current.is ";" = true ∧
        Runs (addStmtFrom (.declare name (init.map StoredExpr.id)) s.current.span)
          v.skipNewlines.advance id t := by
  simp only [variableDeclaration, bind_map_left, Option.map_some, pure_bind, Option.map_none,
    runs_bind, runs_advance, runs_check, runs_ite, runs_skipNewlines, runs_expect, ↓existsAndEq,
    and_true, exists_and_right, exists_eq_left, exists_const]
  refine exists_congr fun name => exists_congr fun u => and_congr_right fun _ => ?_
  by_cases hsign : u.current.is "=" = true
  · simpa [hsign] using exists_comm
  · simp [hsign]

/-- The clause that a mark ends, absent if the mark comes first. -/
theorem runs_forClause {mark : String} {clause : Option StoredExpr} :
    Runs (forClause mark) s clause t ↔ ∃ u,
      (if s.skipNewlines.current.is mark = true then clause = none ∧ u = s.skipNewlines
        else ∃ x, Runs expression s.skipNewlines x u ∧ clause = some x) ∧
      u.skipNewlines.current.is mark = true ∧ t = u.skipNewlines.advance := by
  by_cases hmark : s.skipNewlines.current.is mark = true
  · simp [forClause, hmark, and_comm, and_assoc]
  · simp [forClause, hmark]
    grind

/-- A `return` reads what a clause of a loop does. -/
theorem runs_returnStatement {inFunction : Bool} {id : StmtId} :
    Runs (returnStatement inFunction) s id t ↔
      inFunction = true ∧ ∃ value u, Runs (forClause ";") s.advance value u ∧
        Runs (addStmtFrom (.ret (value.map StoredExpr.id)) s.current.span) u id t := by
  cases inFunction with
  | false => simp [returnStatement]
  | true =>
    by_cases hsemi : s.advance.skipNewlines.current.is ";" = true
    · simp [returnStatement, runs_forClause, hsemi]
    · simpa [returnStatement, runs_forClause, hsemi, and_assoc] using exists_comm

theorem runs_declaration {statement : Parser StmtId} {id : StmtId} :
    Runs (declaration statement) s id t ↔
      if s.skipNewlines.current.is "var" = true then Runs variableDeclaration s.skipNewlines id t
      else Runs statement s.skipNewlines id t := by
  simp [declaration]

/-! ## Blocks -/

theorem runs_declarationsFrom {opening : Token} {statement : Parser StmtId} {fuel : Nat}
    {seen ids : List StmtId} :
    Runs (declarationsFrom opening statement (fuel + 1) seen) s ids t ↔
      if s.skipNewlines.current.is "\x7d" = true then
        ids = seen.reverse ∧ t = s.skipNewlines.advance
      else s.skipNewlines.current.isEnd = false ∧
        ∃ id u, Runs (declaration statement) s.skipNewlines id u ∧
          Runs (declarationsFrom opening statement fuel (id :: seen)) u ids t := by
  by_cases hclose : s.skipNewlines.current.is "\x7d" = true
  · simp [declarationsFrom, hclose, and_comm]
  · by_cases hend : s.skipNewlines.current.isEnd = true <;>
      simp [declarationsFrom, hclose, hend]

theorem runs_blockBody {opening : Token} {statement : Parser StmtId} {slice : Slice StmtId} :
    Runs (blockBody opening statement) s slice t ↔
      ∃ ids u, Runs (declarationsFrom opening statement s.size []) s ids u ∧
        Runs (addStmts ids) u slice t := by
  simp [blockBody]

theorem runs_blockStatement {statement : Parser StmtId} {id : StmtId} :
    Runs (blockStatement statement) s id t ↔
      ∃ slice u, Runs (blockBody s.current statement) s.advance slice u ∧
        Runs (addStmtFrom (.block slice) s.current.span) u id t := by
  simp [blockStatement]

/-! ## Compound statements -/

theorem runs_condition {x : StoredExpr} :
    Runs condition s x t ↔
      s.skipNewlines.current.is "(" = true ∧ ∃ u, Runs expression s.skipNewlines.advance x u ∧
        u.skipNewlines.current.is ")" = true ∧ t = u.skipNewlines.advance := by
  simp [condition]

theorem runs_branchStatement {statement : Parser StmtId} {id : StmtId} :
    Runs (branchStatement statement) s id t ↔
      ∃ cond u, Runs condition s.advance cond u ∧ ∃ thenBranch v, Runs statement u thenBranch v ∧
        ∃ elseBranch w,
          (if v.skipNewlines.current.is "else" = true then
            ∃ other, Runs statement v.skipNewlines.advance other w ∧ elseBranch = some other
          else elseBranch = none ∧ w = v.skipNewlines) ∧
          Runs (addStmtFrom (.branch cond.id thenBranch elseBranch) s.current.span) w id t := by
  simp only [branchStatement, bind_map_left, pure_bind, runs_bind, runs_advance,
    runs_skipNewlines, runs_check, runs_ite, ↓existsAndEq, and_true, exists_eq_left, exists_const]
  refine exists_congr fun cond => exists_congr fun u => and_congr_right fun _ =>
    exists_congr fun thenBranch => exists_congr fun v => and_congr_right fun _ => ?_
  by_cases helse : v.skipNewlines.current.is "else" = true
  · simpa [helse] using exists_comm
  · simp [helse]

theorem runs_loopStatement {statement : Parser StmtId} {id : StmtId} :
    Runs (loopStatement statement) s id t ↔
      ∃ cond u, Runs condition s.advance cond u ∧ ∃ body v, Runs statement u body v ∧
        Runs (addStmtFrom (.loop cond.id body) s.current.span) v id t := by
  simp [loopStatement]

theorem runs_forFirst {first : Option StmtId} :
    Runs forFirst s first t ↔
      if s.current.is ";" = true then first = none ∧ t = s.advance
      else if s.current.is "var" = true then
        ∃ id, Runs variableDeclaration s id t ∧ first = some id
      else ∃ id, Runs expressionStatement s id t ∧ first = some id := by
  by_cases hsemi : s.current.is ";" = true
  · simp [forFirst, hsemi, and_comm]
  · by_cases hvar : s.current.is "var" = true <;> simp [forFirst, hsemi, hvar]

/-- What is stored for the body of a loop with its last clause. -/
def StoresBody (span : Span) (body : StmtId) :
    Option StoredExpr → ParseState → StmtId → ParseState → Prop
  | none, s, inner, t => inner = body ∧ t = s
  | some last, s, inner, t => ∃ step u both v,
      Runs (addStmt (.expression last.id) last.span) s step u ∧
      Runs (addStmts [body, step]) u both v ∧ Runs (addStmtFrom (.block both) span) v inner t

/-- What is stored for the condition of a loop with clauses. -/
def StoresTest (span : Span) : Option StoredExpr → ParseState → StoredExpr → ParseState → Prop
  | none, s, test, t => Runs (addExpr (.literal (.bool true)) span) s test t
  | some cond, s, test, t => test = cond ∧ t = s

/-- What is stored for a loop with its first clause. -/
def StoresWhole (span : Span) (loop : StmtId) :
    Option StmtId → ParseState → StmtId → ParseState → Prop
  | none, s, id, t => id = loop ∧ t = s
  | some first, s, id, t => ∃ both u, Runs (addStmts [first, loop]) s both u ∧
      Runs (addStmtFrom (.block both) span) u id t

/-- The clauses and the body are read first; the statements that the loop stands for are
stored after them, from the inside out. -/
theorem runs_forStatement {statement : Parser StmtId} {id : StmtId} :
    Runs (forStatement statement) s id t ↔
      s.advance.skipNewlines.current.is "(" = true ∧
      ∃ first u₁, Runs forFirst s.advance.skipNewlines.advance.skipNewlines first u₁ ∧
      ∃ cond u₂, Runs (forClause ";") u₁ cond u₂ ∧ ∃ last u₃, Runs (forClause ")") u₂ last u₃ ∧
      ∃ body u₄, Runs statement u₃ body u₄ ∧
      ∃ inner u₅, StoresBody s.current.span body last u₄ inner u₅ ∧
      ∃ test u₆, StoresTest s.current.span cond u₅ test u₆ ∧
      ∃ loop u₇, Runs (addStmtFrom (.loop test.id inner) s.current.span) u₆ loop u₇ ∧
        StoresWhole s.current.span loop first u₇ id t := by
  simp only [forStatement, pure_bind, runs_bind, runs_advance, runs_skipNewlines, runs_expect,
    exists_eq_left, exists_const, ↓existsAndEq, and_true, exists_and_right]
  refine and_congr_right fun _ => exists_congr fun first => exists_congr fun u₁ =>
    and_congr_right fun _ => exists_congr fun cond => exists_congr fun u₂ =>
    and_congr_right fun _ => exists_congr fun last => exists_congr fun u₃ =>
    and_congr_right fun _ => exists_congr fun body => exists_congr fun u₄ =>
    and_congr_right fun _ => ?_
  cases last with
  | none => cases cond <;> cases first <;> simp [StoresBody, StoresTest, StoresWhole]
  | some last =>
    cases cond <;> cases first <;> simp [StoresBody, StoresTest, StoresWhole] <;> constructor
    all_goals first
      | rintro ⟨step, v₁, hstep, both, v₂, hboth, inner, u₅, hinner, h⟩
        exact ⟨inner, u₅, ⟨step, v₁, hstep, both, v₂, hboth, hinner⟩, h⟩
      | rintro ⟨inner, u₅, ⟨step, v₁, hstep, both, v₂, hboth, hinner⟩, h⟩
        exact ⟨step, v₁, hstep, both, v₂, hboth, inner, u₅, hinner, h⟩

theorem runs_functionDeclaration {statement : Parser StmtId} {id : StmtId} :
    Runs (functionDeclaration statement) s id t ↔
      ∃ name u, Runs identifier s.advance name u ∧ u.skipNewlines.current.is "(" = true ∧
      ∃ params v, Runs (items .tooManyParameters identifier) u.skipNewlines.advance params v ∧
      ∃ slice w, Runs (addParams params) v slice w ∧ w.skipNewlines.current.is "\x7b" = true ∧
      ∃ body u', Runs (blockBody w.skipNewlines.current statement) w.skipNewlines.advance body u' ∧
        Runs (addStmtFrom (.function name slice body) s.current.span) u' id t := by
  simp [functionDeclaration]

/-! ## Statements -/

theorem runs_statementAt {depth : Nat} {inFunction : Bool} {id : StmtId} :
    Runs (statementAt (depth + 1) inFunction) s id t ↔
      if s.skipNewlines.current.is "if" = true then
        Runs (branchStatement (statementAt depth inFunction)) s.skipNewlines id t
      else if s.skipNewlines.current.is "while" = true then
        Runs (loopStatement (statementAt depth inFunction)) s.skipNewlines id t
      else if s.skipNewlines.current.is "for" = true then
        Runs (forStatement (statementAt depth inFunction)) s.skipNewlines id t
      else if s.skipNewlines.current.is "fun" = true then
        Runs (functionDeclaration (statementAt depth true)) s.skipNewlines id t
      else if s.skipNewlines.current.is "return" = true then
        Runs (returnStatement inFunction) s.skipNewlines id t
      else if s.skipNewlines.current.is "\x7b" = true then
        Runs (blockStatement (statementAt depth inFunction)) s.skipNewlines id t
      else Runs expressionStatement s.skipNewlines id t := by
  simp [statementAt]

theorem runs_topStatement {id : StmtId} :
    Runs topStatement s id t ↔ Runs (statementAt s.size false) s id t := by
  simp [topStatement]

end Scriptorium.Parser
