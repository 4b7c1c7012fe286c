import Scriptorium.Proofs.Coverage
import Scriptorium.Proofs.ParserContracts
import Scriptorium.Proofs.TokenOrder

/-!
# Syntax errors stand at tokens

A parser blames the token it stands at, and it has skipped the line breaks before it.  The
one place where that could go wrong is the end of the fuel, so it is shown on the way that
the fuel lasts: every level of nesting and every item of a list takes a token.

* `ParseError.At` — the error is at one of the tokens, and at no line break;
* `ParseState.Left` — the tokens that are left in a state, and a bound on their number;
* `Blames` — with that many tokens left, the parser blames only tokens that are no line
  breaks;
* `failure_at` — the error of a text is at one of its tokens, and at no line break.
-/

namespace Scriptorium

/-- The error is at one of the tokens, which is no line break. -/
def ParseError.At (tokens : List Token) (e : ParseError) : Prop :=
  ∃ t ∈ tokens, t.isNewline = false ∧ e.span = t.span ∧ e.location = t.location

variable {tokens : List Token}

/-! ## What is left of the tokens -/

namespace ParseState

/-- Fewer than `n` of the tokens come after the next one, and the last one of them is the
end of the text. -/
structure Left (tokens : List Token) (n : Nat) (s : ParseState) : Prop where
  suffix : s.current :: s.rest <:+ tokens
  few : s.rest.length < n
  size : s.size = tokens.length
  ends : ∀ t ∈ tokens.getLast?, t.isEnd = true

variable {n m : Nat} {s t : ParseState}

theorem Left.mono (h : s.Left tokens n) (hnm : n ≤ m) : s.Left tokens m :=
  ⟨h.suffix, h.few.trans_le hnm, h.size, h.ends⟩

theorem not_left_zero (h : s.Left tokens 0) : False := Nat.not_lt_zero _ h.few

/-- There are no more tokens left than there are tokens. -/
theorem Left.total (h : s.Left tokens n) : s.Left tokens (min n tokens.length) := by
  refine ⟨h.suffix, lt_min h.few ?_, h.size, h.ends⟩
  have := h.suffix.length_le
  rw [List.length_cons] at this
  omega

theorem Left.at_current (h : s.Left tokens n) (hn : s.current.isNewline = false)
    (fault : ParseFault) : (ParseError.atToken fault s.current).At tokens :=
  ⟨s.current, h.suffix.subset List.mem_cons_self, hn, rfl, rfl⟩

/-- The last token is the end of the text. -/
theorem Left.isEnd (h : s.Left tokens n) (hrest : s.rest = []) : s.current.isEnd = true := by
  obtain ⟨before, htokens⟩ := h.suffix
  refine h.ends s.current ?_
  simp [← htokens, hrest]

/-- Before the end of the text, taking a token leaves fewer of them. -/
theorem Left.advance_of_not_isEnd (h : s.Left tokens (n + 1)) (hend : s.current.isEnd = false) :
    s.advance.Left tokens n := by
  cases hrest : s.rest with
  | nil =>
    rw [h.isEnd hrest] at hend
    cases hend
  | cons t rest =>
    have hadvance : s.advance = { s with current := t, rest, previous := s.current.span } := by
      simp [ParseState.advance, hrest]
    have hsuffix := h.suffix
    have hfew := h.few
    rw [hrest] at hsuffix hfew
    rw [hadvance]
    exact ⟨(List.suffix_cons _ _).trans hsuffix, by simpa using hfew, h.size, h.ends⟩

theorem Left.advance (h : s.Left tokens n) : s.advance.Left tokens n := by
  cases hrest : s.rest with
  | nil =>
    have hadvance : s.advance = { s with previous := s.current.span } := by
      simp [ParseState.advance, hrest]
    rw [hadvance]
    exact ⟨h.suffix, h.few, h.size, h.ends⟩
  | cons t rest =>
    have hadvance : s.advance = { s with current := t, rest, previous := s.current.span } := by
      simp [ParseState.advance, hrest]
    have hsuffix := h.suffix
    have hfew := h.few
    rw [hrest] at hsuffix hfew
    rw [List.length_cons] at hfew
    rw [hadvance]
    exact ⟨(List.suffix_cons _ _).trans hsuffix, Nat.lt_of_succ_lt hfew, h.size, h.ends⟩

theorem dropNewlines_suffix (current : Token) (previous : Span) (rest : List Token) :
    let r := dropNewlines current previous rest
    r.1 :: r.2.2 <:+ current :: rest ∧ (r.1.isNewline = true → r.2.2 = []) := by
  induction rest generalizing current previous with
  | nil => exact ⟨List.suffix_rfl, fun _ => rfl⟩
  | cons token rest ih =>
    unfold dropNewlines
    by_cases hn : current.isNewline = true
    · rw [if_pos hn]
      obtain ⟨hsuffix, hstop⟩ := ih token current.span
      exact ⟨hsuffix.trans (List.suffix_cons current _), hstop⟩
    · rw [if_neg hn]
      exact ⟨List.suffix_rfl, fun h => absurd h hn⟩

theorem Left.skipNewlines (h : s.Left tokens n) :
    s.skipNewlines.Left tokens n ∧ s.skipNewlines.current.isNewline = false := by
  obtain ⟨hsuffix, hstop⟩ := dropNewlines_suffix s.current s.previous s.rest
  have hlength := hsuffix.length_le
  simp only [List.length_cons] at hlength
  have hleft : s.skipNewlines.Left tokens n :=
    ⟨hsuffix.trans h.suffix, (Nat.le_of_succ_le_succ hlength).trans_lt h.few, h.size, h.ends⟩
  refine ⟨hleft, ?_⟩
  by_contra hn
  have hend := hleft.isEnd (hstop (Bool.not_eq_false _ ▸ hn))
  revert hn hend
  unfold Token.isNewline Token.isEnd
  cases s.skipNewlines.current.kind <;> simp

/-- Storing something takes no token. -/
theorem Left.store (h : s.Left tokens n) (arena : Arena) (names : NameTable) :
    ParseState.Left tokens n { s with arena, names } :=
  ⟨h.suffix, h.few, h.size, h.ends⟩

end ParseState

theorem Token.not_isEnd_of_is {t : Token} {text : String} (h : t.is text = true) :
    t.isEnd = false ∧ t.isNewline = false := by
  rw [← Token.is_word] at h
  simpa [and_comm] using Word.solid_of_is h

theorem Token.not_isEnd_of_connective {t : Token} {op : Connective}
    (h : Connective.ofToken? t = some op) : t.isEnd = false := by
  rw [← Token.connective?_word] at h
  simpa using (Word.solid_of_connective? h).2

theorem Token.not_isEnd_of_sign {t : Token} {op : UnaryOp} (h : UnaryOp.ofToken? t = some op) :
    t.isEnd = false := by
  rw [← Token.sign?_word] at h
  simpa using (Word.solid_of_sign? h).2

/-! ## Parsers that blame tokens -/

/-- The parser stops only at tokens that are no line breaks, as long as at most `n` tokens
are left; when it succeeds, no more of them are left than before. -/
def Blames (tokens : List Token) (n : Nat) {α : Type} (p : Parser α) : Prop :=
  ∀ m ≤ n, ∀ s : ParseState, s.Left tokens m →
    Meets (fun e _ => e.At tokens) s p fun _ t => t.Left tokens m

/-- The same of a parser that starts with a token that can be taken. -/
def BlamesFrom (tokens : List Token) (n : Nat) {α : Type} (p : Parser α) : Prop :=
  ∀ m ≤ n, ∀ s : ParseState, s.Left tokens (m + 1) → s.current.isNewline = false →
    s.current.isEnd = false →
    Meets (fun e _ => e.At tokens) s p fun _ t => t.Left tokens (m + 1)

namespace Blames

open ParseState

variable {α β : Type} {n m : Nat} {s : ParseState}

theorem mono {p : Parser α} (h : Blames tokens n p) (hmn : m ≤ n) : Blames tokens m p :=
  fun k hk => h k (hk.trans hmn)

/-- A parser for which the number of the tokens is enough works with any number left. -/
theorem of_length {p : Parser α} (h : Blames tokens tokens.length p) : Blames tokens n p := by
  intro m _ s hs
  refine (h _ (min_le_right m _) s hs.total).imp fun _ t ht => ?_
  exact ht.mono (min_le_left _ _)

theorem pure (a : α) : Blames tokens n (Pure.pure a : Parser α) := fun _ _ _ hs => Meets.pure hs

theorem bind {p : Parser α} {f : α → Parser β} (hp : Blames tokens n p)
    (hf : ∀ a, Blames tokens n (f a)) : Blames tokens n (p >>= f) := fun m hm s hs =>
  (hp m hm s hs).bind fun a t ht => hf a m hm t ht

theorem optional {p : Parser α} (h : Blames tokens n p) : Blames tokens n (some <$> p) :=
  fun m hm s hs => Meets.map (h m hm s hs)

/-! ### Tokens -/

theorem size_bind {f : Nat → Parser β} (h : ∀ size, Blames tokens n (f size)) :
    Blames tokens n (Parser.size >>= f) := fun m hm s hs =>
  Meets.size_bind (h s.size m hm s hs)

theorem check_bind {text : String} {f : Bool → Parser β} (h : ∀ b, Blames tokens n (f b)) :
    Blames tokens n (Parser.check text >>= f) := fun m hm s hs =>
  Meets.check_bind (h _ m hm s hs)

theorem advance_bind {f : Token → Parser β} (h : ∀ t, Blames tokens n (f t)) :
    Blames tokens n (Parser.advance >>= f) := fun m hm _ hs =>
  Meets.advance_bind (h _ m hm _ hs.advance)

theorem skipNewlines_bind {f : Unit → Parser β} (h : Blames tokens n (f ())) :
    Blames tokens n (Parser.skipNewlines >>= f) := fun m hm _ hs =>
  Meets.skipNewlines_bind (h m hm _ hs.skipNewlines.1)

/-- The mark that has to come after line breaks. -/
theorem mark_bind {text : String} {p : Parser β} (h : Blames tokens n p) :
    Blames tokens n (do
      Parser.skipNewlines
      let _ ← Parser.expect text
      p) := by
  intro m hm _ hs
  obtain ⟨ht, hn⟩ := hs.skipNewlines
  exact Meets.skipNewlines_bind (Meets.expect_bind (ht.at_current hn) fun _ => h m hm _ ht.advance)

/-- A token that is not the end of the text makes room for a level of nesting. -/
theorem room {p : Parser α} (h : Blames tokens n p) (hm : m ≤ n + 1) (hs : s.Left tokens m)
    (hend : s.current.isEnd = false) :
    Meets (fun e _ => e.At tokens) s.advance p fun _ t => t.Left tokens m := by
  cases m with
  | zero => exact absurd hs not_left_zero
  | succ m =>
    refine (h m (Nat.le_of_succ_le_succ hm) _ (hs.advance_of_not_isEnd hend)).imp ?_
    exact fun _ t ht => ht.mono (Nat.le_succ m)

/-! ### What is stored -/

theorem intern (text : String) : Blames tokens n (Parser.intern text) := fun _ _ _ hs =>
  Meets.intern (hs.store _ _)

theorem addExpr (kind : ExprKind) (span : Span) : Blames tokens n (Parser.addExpr kind span) :=
  fun _ _ _ hs => Meets.addExpr (hs.store _ _)

theorem addExprFrom (kind : ExprKind) (first : Span) :
    Blames tokens n (do Parser.addExpr kind (← Parser.spanFrom first)) := fun _ _ _ hs =>
  Meets.spanFrom_bind (Meets.addExpr (hs.store _ _))

theorem addStmt (kind : StmtKind) (span : Span) : Blames tokens n (Parser.addStmt kind span) :=
  fun _ _ _ hs => hs.store _ _

theorem addStmtFrom (kind : StmtKind) (first : Span) :
    Blames tokens n (Parser.addStmtFrom kind first) := fun _ _ _ hs =>
  Meets.addStmtFrom fun _ => hs.store _ _

theorem addExprs (ids : List ExprId) : Blames tokens n (Parser.addExprs ids) :=
  fun _ _ _ hs => hs.store _ _

theorem addStmts (ids : List StmtId) : Blames tokens n (Parser.addStmts ids) :=
  fun _ _ _ hs => hs.store _ _

theorem addParams (names : List NameId) : Blames tokens n (Parser.addParams names) :=
  fun _ _ _ hs => hs.store _ _

/-! ### Names and lists -/

theorem identifier : Blames tokens n Parser.identifier := by
  intro m hm s hs
  obtain ⟨ht, hn⟩ := hs.skipNewlines
  refine Meets.skipNewlines_bind (Meets.current_bind ?_)
  split
  · exact Meets.advance_bind (intern _ m hm _ ht.advance)
  · exact Meets.fail (ht.at_current hn _)

/-- With enough fuel a list of items ends at a token that is no line break. -/
theorem itemsFrom {tooMany : ParseFault} {item : Parser α} (h : Blames tokens n item)
    {fuel : Nat} (hm : m ≤ n) (hfuel : m ≤ fuel) (hs : s.Left tokens m) (seen : List α) :
    Meets (fun e _ => e.At tokens) s (Parser.itemsFrom tooMany item fuel seen) fun _ t =>
      t.Left tokens m ∧ t.current.isNewline = false := by
  induction fuel generalizing m s seen with
  | zero =>
    obtain rfl := Nat.le_zero.1 hfuel
    exact absurd hs not_left_zero
  | succ fuel ih =>
    obtain ⟨ht, hn⟩ := hs.skipNewlines
    refine Meets.skipNewlines_bind ?_
    split
    · exact Meets.current_bind (Meets.fail (ht.at_current hn _))
    · refine (h m hm _ ht).bind fun x u hu => ?_
      obtain ⟨hv, hn'⟩ := hu.skipNewlines
      refine Meets.skipNewlines_bind (Meets.check_bind ?_)
      split
      · next hcomma =>
        cases m with
        | zero => exact absurd hv not_left_zero
        | succ m =>
          have hw := hv.advance_of_not_isEnd (Token.not_isEnd_of_is hcomma).1
          refine Meets.advance_bind ((ih (by omega) (by omega) hw (x :: seen)).imp ?_)
          exact fun _ t ht => ⟨ht.1.mono (Nat.le_succ m), ht.2⟩
      · exact Meets.pure ⟨hv, hn'⟩

theorem items (tooMany : ParseFault) {item : Parser α} (h : Blames tokens n item) :
    Blames tokens n (Parser.items tooMany item) := by
  intro m hm s hs
  obtain ⟨ht, hn⟩ := hs.skipNewlines
  have hclose : ∀ (found : List α) (u : ParseState), u.Left tokens m →
      u.current.isNewline = false →
      Meets (fun e _ => e.At tokens) u (do
        let _ ← Parser.expect ")"
        return found) fun _ t => t.Left tokens m := by
    intro found u hu hn
    exact Meets.expect_bind (hu.at_current hn) fun _ => Meets.pure hu.advance
  refine Meets.skipNewlines_bind (Meets.check_bind ?_)
  split
  · exact Meets.pure_bind (hclose _ _ ht hn)
  · have hfuel : min m tokens.length ≤ s.skipNewlines.size := by
      rw [ht.size]
      exact min_le_right _ _
    refine Meets.size_bind ((itemsFrom h ((min_le_left _ _).trans hm) hfuel ht.total []).bind ?_)
    exact fun found u hu => hclose found u (hu.1.mono (min_le_left _ _)) hu.2

/-! ### Expressions -/

variable {expression : Parser StoredExpr}

theorem literal (value : Literal NameId) : Blames tokens n (Parser.literal value) :=
  advance_bind fun _ => addExpr _ _

theorem primary (h : Blames tokens n expression) :
    Blames tokens (n + 1) (Parser.primary expression) := by
  intro m hm s hs
  obtain ⟨ht, hn⟩ := hs.skipNewlines
  have hnone : Meets (fun e _ => e.At tokens) s.skipNewlines
      (Parser.expectedExpression : Parser StoredExpr) fun _ t => t.Left tokens m :=
    Meets.expectedExpression (ht.at_current hn)
  refine Meets.skipNewlines_bind (Meets.current_bind ?_)
  split
  · exact literal _ m hm _ ht
  · exact (intern _).bind (fun _ => literal _) m hm _ ht
  · exact advance_bind (fun _ => (intern _).bind fun _ => addExpr _ _) m hm _ ht
  · split
    · exact literal _ m hm _ ht
    split
    · exact literal _ m hm _ ht
    · exact hnone
  · next hpunct =>
    split
    · have hend : s.skipNewlines.current.isEnd = false := by simp [Token.isEnd, hpunct]
      exact Meets.advance_bind
        (room (h.bind fun inner => mark_bind (addExprFrom _ _)) hm ht hend)
    · exact hnone
  · exact hnone

theorem callsFrom (h : Blames tokens n expression) (fuel : Nat) (callee : StoredExpr) :
    Blames tokens (n + 1) (Parser.callsFrom expression fuel callee) := by
  induction fuel generalizing callee with
  | zero => exact pure callee
  | succ fuel ih =>
    intro m hm s hs
    refine Meets.check_bind ?_
    split
    · next hopen =>
      have hcall := room (items .tooManyArguments h) hm hs
        (Token.not_isEnd_of_is hopen).1
      refine Meets.advance_bind (hcall.bind fun args t ht => ?_)
      refine (addExprs _).bind (fun slice => ?_) m hm t ht
      exact (addExprFrom _ _).bind fun called => ih called
    · exact Meets.pure hs

theorem calls (h : Blames tokens n expression) :
    Blames tokens (n + 1) (Parser.calls expression) :=
  (primary h).bind fun callee => size_bind fun fuel => callsFrom h fuel callee

theorem assignment (h : Blames tokens n expression) (target : StoredExpr) :
    Blames tokens (n + 1) (Parser.assignment expression target) := by
  intro m hm s hs
  refine Meets.check_bind ?_
  split
  · next hsign =>
    obtain ⟨hend, hn⟩ := Token.not_isEnd_of_is hsign
    refine Meets.advance_bind ((room h hm hs hend).bind fun value t ht => ?_)
    split
    · exact addExpr _ _ m hm t ht
    · exact Meets.fail (hs.at_current hn _)
  · exact Meets.pure hs

/-- The four functions that call each other, with the number of tokens that their fuel is
enough for. -/
theorem expressionAt_and (depth : Nat) :
    (∀ n, 3 * n ≤ depth → Blames tokens n (Parser.expressionAt depth)) ∧
      (∀ n level, 3 * n ≤ depth + 1 → Blames tokens n (Parser.operationAt depth level)) ∧
      (∀ n level left, 3 * n ≤ depth + 3 →
        Blames tokens n (Parser.operationsAt depth level left)) ∧
      ∀ n, 3 * n ≤ depth + 2 → Blames tokens n (Parser.signedAt depth) := by
  induction depth with
  | zero =>
    have hnone : ∀ {n} {p : Parser StoredExpr}, 3 * n ≤ 2 → Blames tokens n p := by
      intro n p hn m hm s hs
      obtain rfl : m = 0 := by omega
      exact absurd hs not_left_zero
    exact ⟨fun n hn => hnone (by omega), fun n _ hn => hnone (by omega),
      fun _ _ left _ => pure left, fun n hn => hnone hn⟩
  | succ depth ih =>
    obtain ⟨hexpr, hoperation, hrest, hsigned⟩ := ih
    refine ⟨?_, ?_, ?_, ?_⟩
    · intro n hn
      refine (hoperation n 0 hn).bind fun target => ?_
      exact (assignment (hexpr (n - 1) (by omega)) target).mono (by omega)
    · intro n level hn
      exact (hsigned n hn).bind fun left => hrest n level left (by omega)
    · intro n level left hn m hm s hs
      obtain ⟨ht, -⟩ := hs.skipNewlines
      refine Meets.skipNewlines_bind (Meets.current_bind ?_)
      split
      · exact Meets.pure ht
      · next op hop =>
        split
        · have hright : Blames tokens (n - 1) (do
              let right ← Parser.operationAt depth (op.level + 1)
              let both ← Parser.addExpr (op.node left.id right.id) (left.span.merge right.span)
              Parser.operationsAt depth level both) :=
            (hoperation (n - 1) _ (by omega)).bind fun right =>
              (addExpr _ _).bind fun both => hrest (n - 1) level both (by omega)
          exact Meets.advance_bind
            (hright.room (by omega) ht (Token.not_isEnd_of_connective hop))
        · exact Meets.pure ht
    · intro n hn m hm s hs
      obtain ⟨ht, -⟩ := hs.skipNewlines
      refine Meets.skipNewlines_bind (Meets.current_bind ?_)
      split
      · exact calls (hexpr (n - 1) (by omega)) m (by omega) _ ht
      · next op hop =>
        have hoperand := (hsigned (n - 1) (by omega)).bind fun operand =>
          addExpr (.unary op operand.id) (s.skipNewlines.current.span.merge operand.span)
        exact Meets.advance_bind (hoperand.room (by omega) ht (Token.not_isEnd_of_sign hop))

theorem ofExpression : Blames tokens n Parser.expression := by
  refine of_length fun m hm s hs => Meets.size_bind ?_
  have hsize : 3 * tokens.length ≤ 3 * s.size := by rw [hs.size]
  exact (expressionAt_and _).1 tokens.length hsize m hm s hs

/-! ### Statements -/

/-- The end of a simple statement. -/
theorem statementEnd (kind : StmtKind) (first : Span) :
    Blames tokens n (do
      Parser.skipNewlines
      let _ ← Parser.expect ";"
      Parser.addStmtFrom kind first) :=
  mark_bind (addStmtFrom kind first)

theorem expressionStatement : Blames tokens n Parser.expressionStatement :=
  ofExpression.bind fun _ => statementEnd _ _

theorem variableDeclaration : Blames tokens n Parser.variableDeclaration := by
  refine advance_bind fun keyword => identifier.bind fun name => check_bind fun found => ?_
  split
  · exact advance_bind fun _ => (optional ofExpression).bind fun _ => statementEnd _ _
  · exact (pure _).bind fun _ => statementEnd _ _

theorem returnStatement (inFunction : Bool) :
    BlamesFrom tokens n (Parser.returnStatement inFunction) := by
  intro m hm s hs hn _
  refine Meets.current_bind ?_
  split
  · exact Meets.fail (hs.at_current hn _)
  · refine advance_bind (fun _ => ?_) (m + 1) le_rfl s hs
    refine skipNewlines_bind (check_bind fun found => ?_)
    split
    · exact (pure _).bind fun _ => statementEnd _ _
    · exact (optional ofExpression).bind fun _ => statementEnd _ _

variable {statement : Parser StmtId}

theorem declaration (h : Blames tokens n statement) :
    Blames tokens n (Parser.declaration statement) := by
  refine skipNewlines_bind (check_bind fun found => ?_)
  split
  · exact variableDeclaration
  · exact h

theorem declarationsFrom (h : Blames tokens n statement) {opening : Token}
    (hopening : ∀ fault, (ParseError.atToken fault opening).At tokens) (fuel : Nat)
    (seen : List StmtId) :
    Blames tokens n (Parser.declarationsFrom opening statement fuel seen) := by
  induction fuel generalizing seen with
  | zero => exact fun _ _ _ _ => Meets.fail (hopening _)
  | succ fuel ih =>
    intro m hm s hs
    obtain ⟨ht, -⟩ := hs.skipNewlines
    refine Meets.skipNewlines_bind (Meets.current_bind ?_)
    split
    · exact Meets.advance_bind (Meets.pure ht.advance)
    split
    · exact Meets.fail (hopening _)
    · exact (declaration h).bind (fun stmt => ih (stmt :: seen)) m hm _ ht

theorem blockBody (h : Blames tokens n statement) {opening : Token}
    (hopening : ∀ fault, (ParseError.atToken fault opening).At tokens) :
    Blames tokens n (Parser.blockBody opening statement) :=
  size_bind fun fuel => (declarationsFrom h hopening fuel []).bind fun stmts => addStmts stmts

theorem condition : Blames tokens n Parser.condition :=
  mark_bind (ofExpression.bind fun cond => mark_bind (pure cond))

theorem forFirst : Blames tokens n Parser.forFirst := by
  refine check_bind fun found => ?_
  split
  · exact advance_bind fun _ => pure none
  · refine check_bind fun found => ?_
    split
    · exact variableDeclaration.optional
    · exact expressionStatement.optional

theorem forClause (mark : String) : Blames tokens n (Parser.forClause mark) := by
  refine skipNewlines_bind (check_bind fun found => ?_)
  split
  · exact (pure none).bind fun clause => mark_bind (pure clause)
  · exact ofExpression.optional.bind fun clause => mark_bind (pure clause)

/-- The loop that a `for` stands for, in a block with the first clause. -/
theorem forWhole (keyword : Span) (first : Option StmtId) (cond : ExprId) (body : StmtId) :
    Blames tokens n (do
      let loop ← Parser.addStmtFrom (.loop cond body) keyword
      match first with
      | none => return loop
      | some first =>
          let both ← Parser.addStmts [first, loop]
          Parser.addStmtFrom (.block both) keyword) := by
  refine (addStmtFrom _ _).bind fun loop => ?_
  cases first with
  | none => exact pure loop
  | some first => exact (addStmts _).bind fun both => addStmtFrom _ _

/-- The condition of a `for`, which is true if it is left out. -/
theorem forTest_bind (keyword : Span) (cond : Option StoredExpr) {f : StoredExpr → Parser β}
    (h : ∀ x, Blames tokens n (f x)) :
    Blames tokens n (do
      let cond ←
        match cond with
        | none => Parser.addExpr (.literal (.bool true)) keyword
        | some cond => Pure.pure cond
      f cond) := by
  cases cond with
  | none => exact (addExpr _ _).bind h
  | some cond => exact (pure cond).bind h

/-- The body of a `for`, in a block with the last clause, which follows it. -/
theorem forBody_bind (keyword : Span) (body : StmtId) (last : Option StoredExpr)
    {f : StmtId → Parser β} (h : ∀ id, Blames tokens n (f id)) :
    Blames tokens n (do
      let body ←
        match last with
        | none => Pure.pure body
        | some last => do
            let step ← Parser.addStmt (.expression last.id) last.span
            let both ← Parser.addStmts [body, step]
            Parser.addStmtFrom (.block both) keyword
      f body) := by
  cases last with
  | none => exact (pure body).bind h
  | some last =>
    exact (addStmt _ _).bind fun step => (addStmts _).bind fun both => (addStmtFrom _ _).bind h

end Blames

namespace BlamesFrom

open ParseState Blames

variable {α : Type} {n : Nat} {statement : Parser StmtId}

/-- The token at the start makes room for a level of nesting. -/
theorem advance_bind {f : Token → Parser α} (h : ∀ t, Blames tokens n (f t)) :
    BlamesFrom tokens n (Parser.advance >>= f) := fun _ hm s hs _ hend =>
  Meets.advance_bind ((h s.current).room (Nat.succ_le_succ hm) hs hend)

theorem blockStatement (h : Blames tokens n statement) :
    BlamesFrom tokens n (Parser.blockStatement statement) := by
  intro m hm s hs hn hend
  have hbody : Blames tokens n (do
      let body ← Parser.blockBody s.current statement
      Parser.addStmtFrom (.block body) s.current.span) :=
    (blockBody h (hs.at_current hn)).bind fun body => addStmtFrom _ _
  exact Meets.advance_bind (hbody.room (Nat.succ_le_succ hm) hs hend)

theorem branchStatement (h : Blames tokens n statement) :
    BlamesFrom tokens n (Parser.branchStatement statement) := by
  refine advance_bind fun keyword => condition.bind fun cond => h.bind fun thenBranch => ?_
  refine skipNewlines_bind (check_bind fun found => ?_)
  split
  · exact Blames.advance_bind fun _ => h.optional.bind fun _ => addStmtFrom _ _
  · exact (Blames.pure none).bind fun _ => addStmtFrom _ _

theorem loopStatement (h : Blames tokens n statement) :
    BlamesFrom tokens n (Parser.loopStatement statement) :=
  advance_bind fun _ => condition.bind fun _ => h.bind fun _ => addStmtFrom _ _

theorem forStatement (h : Blames tokens n statement) :
    BlamesFrom tokens n (Parser.forStatement statement) := by
  refine advance_bind fun keyword => mark_bind (skipNewlines_bind ?_)
  refine forFirst.bind fun first => (forClause ";").bind fun cond => ?_
  refine (forClause ")").bind fun last => h.bind fun body => ?_
  -- nothing is read any more, and what is stored takes no token
  refine forBody_bind keyword.span body last fun body => ?_
  exact forTest_bind keyword.span cond fun cond => forWhole keyword.span first cond.id body

/-- A brace opens the body of a function. -/
theorem functionDeclaration (h : Blames tokens n statement) :
    BlamesFrom tokens n (Parser.functionDeclaration statement) := by
  refine advance_bind fun keyword => identifier.bind fun name => mark_bind ?_
  refine (items _ identifier).bind fun params => (addParams params).bind fun params => ?_
  intro m hm _ hs
  obtain ⟨ht, hn⟩ := hs.skipNewlines
  refine Meets.skipNewlines_bind (Meets.expect_bind (ht.at_current hn) fun _ => ?_)
  exact (blockBody h (ht.at_current hn)).bind (fun body => addStmtFrom _ _) m hm _ ht.advance

/-- A statement inside another one comes after a token of the outer one. -/
theorem statementAt {depth : Nat} (inFunction : Bool) {n : Nat} (hn : n ≤ depth) :
    Blames tokens n (Parser.statementAt depth inFunction) := by
  induction depth generalizing inFunction n with
  | zero =>
    intro m hm s hs
    obtain rfl : m = 0 := by omega
    exact absurd hs not_left_zero
  | succ depth ih =>
    intro m hm s hs
    obtain ⟨ht, hnew⟩ := hs.skipNewlines
    have hfrom : ∀ {text : String} {p : Parser StmtId}, BlamesFrom tokens (n - 1) p →
        s.skipNewlines.current.is text = true →
        Meets (fun e _ => e.At tokens) s.skipNewlines p fun _ t => t.Left tokens m := by
      intro text p hp his
      cases m with
      | zero => exact absurd hs not_left_zero
      | succ m => exact hp m (by omega) _ ht hnew (Token.not_isEnd_of_is his).1
    have hinner : ∀ inFunction, Blames tokens (n - 1) (Parser.statementAt depth inFunction) :=
      fun inFunction => ih inFunction (by omega)
    refine Meets.skipNewlines_bind (Meets.current_bind ?_)
    split
    · next his => exact hfrom (branchStatement (hinner inFunction)) his
    split
    · next his => exact hfrom (loopStatement (hinner inFunction)) his
    split
    · next his => exact hfrom (forStatement (hinner inFunction)) his
    split
    · next his => exact hfrom (functionDeclaration (hinner true)) his
    split
    · next his => exact hfrom (returnStatement inFunction) his
    split
    · next his => exact hfrom (blockStatement (hinner inFunction)) his
    · exact expressionStatement m hm _ ht

end BlamesFrom

theorem Blames.topStatement {n : Nat} : Blames tokens n Parser.topStatement := by
  refine of_length fun m hm s hs => Meets.size_bind ?_
  exact BlamesFrom.statementAt false hs.size.ge m hm s hs

/-! ## Texts -/

/-- With the tokens left that a state has, the error at which reading stops is at a token. -/
theorem ParseState.Left.failure_parseFrom {n : Nat} {s : ParseState} (hs : s.Left tokens n)
    {fuel : Nat} {seen : List StmtId} {e : ParseError}
    (h : (s.parseFrom fuel seen).failure = some e) : e.At tokens := by
  induction fuel generalizing s seen with
  | zero => cases h
  | succ fuel ih =>
    have ht := hs.skipNewlines.1
    have hstmt := (Blames.topStatement (n := n)).declaration n le_rfl _ ht
    rw [parseFrom] at h
    split at h
    · cases h
    · unfold Meets at hstmt
      unfold EStateM.run at h
      cases hrun : Parser.declaration Parser.topStatement s.skipNewlines with
      | ok stmt t =>
        rw [hrun] at hstmt h
        exact ih hstmt h
      | error e t =>
        rw [hrun] at hstmt h
        cases h
        exact hstmt

/-- The end token is the last one of a text. -/
theorem isEnd_getLast?_tokenize (tables : Tables) (source : String) :
    ∀ t ∈ (tokenize tables source).getLast?, t.isEnd = true := by
  obtain ⟨tokens, last, htokens, hcollects⟩ :=
    Scanner.exists_collects (Scanner.reads_start tables source) le_rfl []
  intro t ht
  rw [show tokenize tables source = tokens ++ [last] from htokens, List.getLast?_concat] at ht
  rw [← Option.mem_some_iff.1 ht]
  simp [Token.isEnd, hcollects.ends.1]

/-- At the start of a text all of its tokens are left. -/
theorem left_start (tables : Tables) (source : String) :
    (ParseState.start (tokenize tables source)).Left (tokenize tables source)
      (tokenize tables source).length := by
  have hends := isEnd_getLast?_tokenize tables source
  obtain ⟨t, ts, htokens, -⟩ :=
    Scanner.collect_inOrder (s := .start tables source) le_rfl []
  rw [show tokenize tables source = t :: ts from htokens] at hends ⊢
  exact ⟨List.suffix_rfl, Nat.lt_succ_self _, rfl, hends⟩

/-- The error of a text is at one of its tokens, and at no line break. -/
theorem failure_at {tables : Tables} {source : String} {e : ParseError}
    (h : (parseWith tables source).failure = some e) : e.At (tokenize tables source) :=
  (left_start tables source).failure_parseFrom h

end Scriptorium
