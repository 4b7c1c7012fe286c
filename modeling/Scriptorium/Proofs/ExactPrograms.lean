import Scriptorium.Proofs.ExactExpressions
import Scriptorium.Proofs.ProgramSoundness

/-!
# Programs and the tokens under the spans of their expressions

The parser of statements takes valid tokens only as well, and what it complains about is a
token before which all are valid.  So a text with an invalid token is not accepted, and no
error is after it.

* `Takes`, `TakesFrom` — the parsers of statements;
* `parseTokens_takes` — what is known of a text, whether it is accepted or not.
-/

namespace Scriptorium

open ParseState

variable {tokens : List Token}

/-- The same as `Takes` of a parser that starts with a certain token. -/
def TakesFrom (tokens : List Token) (n : Nat) (text : String) {α : Type} (p : Parser α) : Prop :=
  ∀ s : ParseState, s.Reading tokens → s.tokens.length ≤ n → s.current.is text = true →
    Meets (Fails tokens) s p fun _ t => t.Reading tokens ∧ t.tokens.length ≤ s.tokens.length

/-! ## Composed parsers -/

namespace Takes

variable {α β : Type} {n : Nat}

theorem pure (a : α) : Takes tokens n (Pure.pure a : Parser α) := fun _ hs _ =>
  Meets.pure ⟨hs, le_rfl⟩

theorem bind {p : Parser α} {f : α → Parser β} (hp : Takes tokens n p)
    (hf : ∀ a, Takes tokens n (f a)) : Takes tokens n (p >>= f) := fun s hs hn =>
  (hp s hs hn).bind fun a t ⟨ht, hle⟩ =>
    (hf a t ht (hle.trans hn)).imp fun _ _ ⟨hu, hle'⟩ => ⟨hu, hle'.trans hle⟩

theorem optional {p : Parser α} (h : Takes tokens n p) : Takes tokens n (some <$> p) :=
  fun s hs hn => Meets.map (h s hs hn)

theorem size_bind {f : Nat → Parser β} (h : ∀ size, Takes tokens n (f size)) :
    Takes tokens n (Parser.size >>= f) := fun s hs hn => Meets.size_bind (h s.size s hs hn)

theorem check_bind {text : String} {f : Bool → Parser β} (hyes : TakesFrom tokens n text (f true))
    (hno : Takes tokens n (f false)) : Takes tokens n (Parser.check text >>= f) := by
  intro s hs hn
  refine Meets.check_bind ?_
  cases his : s.current.is text with
  | true => exact hyes s hs hn his
  | false => exact hno s hs hn

theorem skipNewlines_bind {f : Unit → Parser β} (h : Takes tokens n (f ())) :
    Takes tokens n (Parser.skipNewlines >>= f) := by
  intro s hs hn
  obtain ⟨ht, hle, -⟩ := hs.skipNewlines
  exact Meets.skipNewlines_bind ((h _ ht (hle.trans hn)).imp fun _ _ ⟨hu, hle'⟩ =>
    ⟨hu, hle'.trans hle⟩)

end Takes

namespace TakesFrom

variable {α β : Type} {n : Nat} {text : String}

theorem of_takes {p : Parser α} (h : Takes tokens n p) : TakesFrom tokens n text p :=
  fun s hs hn _ => h s hs hn

/-- The token at the start is taken. -/
theorem advance_bind {f : Token → Parser β}
    (h : ∀ t, t.is text = true → ReachedToken tokens t → Takes tokens n (f t)) :
    TakesFrom tokens n text (Parser.advance >>= f) := by
  intro s hs hn his
  obtain ⟨ht, htokens, -⟩ := hs.advance_of_is his
  have hle : s.advance.tokens.length ≤ s.tokens.length := by
    rw [htokens, List.length_cons]
    exact Nat.le_succ _
  exact Meets.advance_bind ((h _ his hs.reached _ ht (hle.trans hn)).imp fun _ _ ⟨hu, hle'⟩ =>
    ⟨hu, hle'.trans hle⟩)

end TakesFrom

namespace Takes

variable {α β : Type} {n : Nat}

/-- The mark that has to come next. -/
theorem expect_bind {text : String} {f : Token → Parser β}
    (h : ∀ t, ReachedToken tokens t → Takes tokens n (f t)) :
    Takes tokens n (Parser.expect text >>= f) := by
  intro s hs hn
  refine Meets.expect_bind_of (hs.fails (by simp)) fun his => ?_
  exact TakesFrom.advance_bind (fun t _ ht => h t ht) s hs hn his

/-- The mark that has to come after line breaks. -/
theorem mark_bind {text : String} {p : Parser β} (h : Takes tokens n p) :
    Takes tokens n (do
      Parser.skipNewlines
      let _ ← Parser.expect text
      p) :=
  skipNewlines_bind (expect_bind fun _ _ => h)

/-! ### What is stored -/

theorem addStmt (kind : StmtKind) (span : Span) : Takes tokens n (Parser.addStmt kind span) :=
  fun _ hs _ => ⟨hs.store ⟨.refl _, .refl _, .push _ _, .refl _, .refl _, .refl _⟩ rfl, le_rfl⟩

theorem addStmtFrom (kind : StmtKind) (first : Span) :
    Takes tokens n (Parser.addStmtFrom kind first) := fun s hs hn =>
  Meets.spanFrom_bind (addStmt kind _ s hs hn)

theorem addStmts (ids : List StmtId) : Takes tokens n (Parser.addStmts ids) :=
  fun _ hs _ =>
    ⟨hs.store ⟨.refl _, .refl _, .refl _, .appendList _ _, .refl _, .refl _⟩ rfl, le_rfl⟩

theorem addParams (names : List NameId) : Takes tokens n (Parser.addParams names) :=
  fun _ hs _ =>
    ⟨hs.store ⟨.refl _, .refl _, .refl _, .refl _, .appendList _ _, .refl _⟩ rfl, le_rfl⟩

/-- The condition that is left out has the span of a `for`. -/
theorem addTrue {keyword : Token} (his : keyword.is "for" = true)
    (hkeyword : ReachedToken tokens keyword) :
    Takes tokens n (Parser.addExpr (.literal (.bool true)) keyword.span) := by
  obtain ⟨taken, rest, htokens, -⟩ := hkeyword
  have hmem : keyword ∈ tokens := by simp [htokens]
  exact fun _ hs _ => Meets.addExpr ⟨hs.addExpr (.inr ⟨rfl, keyword, hmem, his, rfl⟩), le_rfl⟩

/-! ### Names and simple statements -/

theorem identifier : Takes tokens n Parser.identifier := by
  refine skipNewlines_bind fun s hs hn => Meets.current_bind ?_
  split
  · next hkind =>
    have hend : s.current.isEnd = false := by simp [Token.isEnd, hkind]
    have ht := hs.advance hend (by simp [Token.isInvalid, hkind])
    refine Meets.advance_bind (Meets.intern ⟨ht.intern _, ?_⟩)
    show s.advance.tokens.length ≤ s.tokens.length
    rw [tokens_advance hs.ready hend, List.length_cons]
    exact Nat.le_succ _
  · exact Meets.fail (hs.fails (by simp))

theorem expression : Takes tokens n Parser.expression := (readsExpressions_expression n).takes

/-- The end of a simple statement. -/
theorem statementEnd (kind : StmtKind) (first : Span) :
    Takes tokens n (do
      Parser.skipNewlines
      let _ ← Parser.expect ";"
      Parser.addStmtFrom kind first) :=
  mark_bind (addStmtFrom kind first)

theorem expressionStatement : Takes tokens n Parser.expressionStatement :=
  expression.bind fun _ => statementEnd _ _

end Takes

namespace TakesFrom

open Takes

variable {n : Nat} {text : String}

theorem variableDeclaration : TakesFrom tokens n text Parser.variableDeclaration := by
  refine advance_bind fun _ _ _ => identifier.bind fun name => check_bind ?_ ?_
  · exact advance_bind fun _ _ _ => expression.optional.bind fun _ => statementEnd _ _
  · exact (pure none).bind fun _ => statementEnd _ _

theorem returnStatement (inFunction : Bool) :
    TakesFrom tokens n text (Parser.returnStatement inFunction) := by
  intro s hs hn his
  refine Meets.current_bind ?_
  split
  · exact Meets.fail (hs.fails (by simp))
  · refine advance_bind (fun _ _ _ => skipNewlines_bind (check_bind ?_ ?_)) s hs hn his
    · exact of_takes ((pure none).bind fun _ => statementEnd _ _)
    · exact expression.optional.bind fun _ => statementEnd _ _

end TakesFrom

/-! ## Compound statements -/

namespace Takes

variable {β : Type} {n : Nat} {statement : Parser StmtId}

theorem declaration (h : Takes tokens n statement) :
    Takes tokens n (Parser.declaration statement) :=
  skipNewlines_bind (check_bind .variableDeclaration h)

/-- An open block is blamed on its brace. -/
theorem declarationsFrom (h : Takes tokens n statement) {opening : Token}
    (hopening : ReachedToken tokens opening) (fuel : Nat) (seen : List StmtId) :
    Takes tokens n (Parser.declarationsFrom opening statement fuel seen) := by
  have hblame : ∀ s : ParseState, s.Reading tokens →
      Fails tokens (.atToken .unterminatedBlock opening) s := fun s hs =>
    ⟨⟨opening, _, hopening, by simp, rfl⟩, hs.told⟩
  induction fuel generalizing seen with
  | zero => exact fun s hs _ => Meets.fail (hblame s hs)
  | succ fuel ih =>
    refine skipNewlines_bind fun s hs hn => Meets.current_bind ?_
    split
    · next his =>
      exact TakesFrom.advance_bind (fun _ _ _ => pure seen.reverse) s hs hn his
    split
    · exact Meets.fail (hblame s hs)
    · exact (declaration h).bind (fun stmt => ih (stmt :: seen)) s hs hn

theorem blockBody (h : Takes tokens n statement) {opening : Token}
    (hopening : ReachedToken tokens opening) :
    Takes tokens n (Parser.blockBody opening statement) :=
  size_bind fun fuel => (declarationsFrom h hopening fuel []).bind fun stmts => addStmts stmts

theorem condition : Takes tokens n Parser.condition :=
  mark_bind (expression.bind fun cond => mark_bind (pure cond))

theorem forFirst : Takes tokens n Parser.forFirst := by
  refine check_bind (.advance_bind fun _ _ _ => pure none) (check_bind ?_ ?_)
  · exact fun s hs hn his => Meets.map (TakesFrom.variableDeclaration s hs hn his)
  · exact expressionStatement.optional

theorem forClause (mark : String) : Takes tokens n (Parser.forClause mark) := by
  refine skipNewlines_bind (check_bind (.of_takes ?_) ?_)
  · exact (pure none).bind fun clause => mark_bind (pure clause)
  · exact expression.optional.bind fun clause => mark_bind (pure clause)

/-- The loop that a `for` stands for, in a block with the first clause. -/
theorem forWhole (keyword : Span) (first : Option StmtId) (cond : ExprId) (body : StmtId) :
    Takes tokens n (do
      let loop ← Parser.addStmtFrom (.loop cond body) keyword
      match first with
      | none => return loop
      | some first =>
          let both ← Parser.addStmts [first, loop]
          Parser.addStmtFrom (.block both) keyword) := by
  refine (addStmtFrom _ _).bind fun loop => ?_
  cases first with
  | none => exact pure loop
  | some first => exact (addStmts _).bind fun both => addStmtFrom _ _

/-- The body of a `for`, in a block with the last clause, which follows it. -/
theorem forBody_bind (keyword : Span) (body : StmtId) (last : Option StoredExpr)
    {f : StmtId → Parser β} (h : ∀ id, Takes tokens n (f id)) :
    Takes tokens n (do
      let body ←
        match last with
        | none => Pure.pure body
        | some last => do
            let step ← Parser.addStmt (.expression last.id) last.span
            let both ← Parser.addStmts [body, step]
            Parser.addStmtFrom (.block both) keyword
      f body) := by
  cases last with
  | none => exact (pure body).bind h
  | some last =>
    exact (addStmt _ _).bind fun step => (addStmts _).bind fun both => (addStmtFrom _ _).bind h

end Takes

namespace TakesFrom

open Takes

variable {n : Nat} {text : String} {statement : Parser StmtId}

theorem blockStatement (h : Takes tokens n statement) :
    TakesFrom tokens n text (Parser.blockStatement statement) :=
  advance_bind fun _ _ hopening => (blockBody h hopening).bind fun _ => addStmtFrom _ _

theorem branchStatement (h : Takes tokens n statement) :
    TakesFrom tokens n text (Parser.branchStatement statement) := by
  refine advance_bind fun _ _ _ => condition.bind fun cond => h.bind fun thenBranch => ?_
  refine skipNewlines_bind (check_bind ?_ ?_)
  · exact advance_bind fun _ _ _ => h.optional.bind fun _ => addStmtFrom _ _
  · exact (pure none).bind fun _ => addStmtFrom _ _

theorem loopStatement (h : Takes tokens n statement) :
    TakesFrom tokens n text (Parser.loopStatement statement) :=
  advance_bind fun _ _ _ => condition.bind fun _ => h.bind fun _ => addStmtFrom _ _

theorem forStatement (h : Takes tokens n statement) :
    TakesFrom tokens n "for" (Parser.forStatement statement) := by
  refine advance_bind fun keyword his hkeyword => mark_bind (skipNewlines_bind ?_)
  refine forFirst.bind fun first => (forClause ";").bind fun cond => ?_
  refine (forClause ")").bind fun last => h.bind fun body => ?_
  -- nothing is read any more
  refine forBody_bind keyword.span body last fun body => ?_
  cases cond with
  | none => exact (addTrue his hkeyword).bind fun cond => forWhole keyword.span first cond.id body
  | some cond => exact (pure cond).bind fun cond => forWhole keyword.span first cond.id body

theorem functionDeclaration (h : Takes tokens n statement) :
    TakesFrom tokens n text (Parser.functionDeclaration statement) := by
  refine advance_bind fun _ _ _ => identifier.bind fun name => mark_bind ?_
  have hitems : Takes tokens n (Parser.items .tooManyParameters Parser.identifier) :=
    fun s hs hn => (items (by simp) identifier hs hn).imp fun _ _ hcloses => hcloses.reading
  refine hitems.bind fun params => (addParams params).bind fun params => ?_
  refine skipNewlines_bind (expect_bind fun _ hopening => ?_)
  exact (blockBody h hopening).bind fun body => addStmtFrom _ _

end TakesFrom

namespace Takes

variable {n : Nat}

theorem statementAt (depth : Nat) (inFunction : Bool) :
    Takes tokens n (Parser.statementAt depth inFunction) := by
  induction depth generalizing inFunction with
  | zero => exact fun s hs _ => Meets.expectedExpression_of (hs.fails (by simp))
  | succ depth ih =>
    refine skipNewlines_bind fun s hs hn => Meets.current_bind ?_
    split
    · next his => exact TakesFrom.branchStatement (ih inFunction) s hs hn his
    split
    · next his => exact TakesFrom.loopStatement (ih inFunction) s hs hn his
    split
    · next his => exact TakesFrom.forStatement (ih inFunction) s hs hn his
    split
    · next his => exact TakesFrom.functionDeclaration (ih true) s hs hn his
    split
    · next his => exact TakesFrom.returnStatement inFunction s hs hn his
    split
    · next his => exact TakesFrom.blockStatement (ih inFunction) s hs hn his
    · exact expressionStatement s hs hn

theorem topStatement : Takes tokens n Parser.topStatement :=
  size_bind fun size => statementAt size false

end Takes

/-! ## Texts -/

/-- What is known of a text that was read from the tokens. -/
structure Parsed.Takes (tokens : List Token) (p : Parsed) : Prop where
  told : p.code.Tells tokens
  earliest : ∀ e, p.failure = some e → e.Earliest tokens
  valid : p.failure = none → ∀ t ∈ tokens, t.isInvalid = false

/-- The last token of a text is its end. -/
theorem ParseState.tokens_of_isEnd {s : ParseState} (hs : s.Ready)
    (hend : s.current.isEnd = true) : s.tokens = [s.current] := by
  have hwords := congrArg List.length (hs.words_of_isEnd hend)
  rw [← length_tokens, tokens, List.length_cons, List.length_singleton] at hwords
  rw [tokens, List.length_eq_zero_iff.1 (Nat.succ.inj hwords)]

theorem ParseState.takes_parseFrom (fuel : Nat) (seen : List StmtId) {s : ParseState}
    (hs : s.Reading tokens) (hfuel : s.tokens.length ≤ fuel) :
    (s.parseFrom fuel seen).Takes tokens := by
  induction fuel generalizing s seen with
  | zero => exact absurd hfuel (Nat.not_succ_le_zero _)
  | succ fuel ih =>
    obtain ⟨hskip, hle, -⟩ := hs.skipNewlines
    have hread := Takes.topStatement.declaration _ hskip le_rfl
    unfold parseFrom
    dsimp only
    split
    · next hend =>
      refine ⟨hskip.told, by simp [finish], fun _ => ?_⟩
      obtain ⟨taken, htokens, hvalid, -⟩ := hskip.split
      rw [tokens_of_isEnd hskip.ready hend] at htokens
      rw [htokens]
      refine List.forall_mem_append.2 ⟨hvalid, List.forall_mem_singleton.2 ?_⟩
      unfold Token.isEnd at hend
      unfold Token.isInvalid
      split
      · next hkind => simp [hkind] at hend
      · rfl
    · unfold Meets at hread
      unfold EStateM.run
      split
      · next id t hrun =>
        rw [hrun] at hread
        have hn : s.skipNewlines.words.length ≤ fuel.succ := by
          rw [← length_tokens]
          exact hle.trans hfuel
        obtain ⟨b, hsound⟩ := sound_declaration (sound_topStatement fuel.succ) hskip.ready hn hrun
        have hlt := hsound.length_lt
        rw [← length_tokens, ← length_tokens] at hlt
        exact ih (id :: seen) hread.1 (by omega)
      · next e t hrun =>
        rw [hrun] at hread
        refine ⟨hread.2, ?_, by simp [finish]⟩
        rintro _ ⟨⟩
        exact hread.1

/-- At the start of a text all of its tokens are left. -/
theorem ParseState.reading_start (hclosed : Closed (tokens.map Token.word))
    (hordered : Ordered tokens) :
    (ParseState.start tokens).tokens = tokens ∧ (ParseState.start tokens).Reading tokens := by
  have hne : tokens ≠ [] := by
    rintro rfl
    exact hclosed
  have hstart : (ParseState.start tokens).tokens = tokens := by
    cases tokens with
    | nil => exact absurd rfl hne
    | cons t ts => rfl
  refine ⟨hstart, ⟨⟨[], by simp [hstart], by simp, by simp⟩, ready_start hclosed, hordered⟩, ?_⟩
  cases tokens with
  | nil => exact absurd rfl hne
  | cons t ts => exact Code.tells_empty _

/-- The tokens of a text, whether it is accepted or not. -/
theorem parseTokens_takes (hclosed : Closed (tokens.map Token.word)) (hordered : Ordered tokens) :
    (parseTokens tokens).Takes tokens := by
  obtain ⟨hstart, hreading⟩ := reading_start hclosed hordered
  exact takes_parseFrom _ [] hreading (by rw [hstart])

end Scriptorium
