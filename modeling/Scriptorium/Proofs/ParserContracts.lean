import Scriptorium.Syntax.Parser

/-!
# Contracts of parsers

A parser either succeeds or stops at an error, and in both cases there is a state after it.
`Meets E s p Q` says what is known of the two: `Q` of the answer and the state after a
success, `E` of the error and the state after it.  A composed parser is taken apart by
`Meets.bind`; for each of the basic parsers there is a lemma that says where it goes on.
-/

namespace Scriptorium

/-- From the state `s` the parser comes to an answer and a state with the property `Q`, or
to an error and a state with the property `E`. -/
def Meets {α : Type} (E : ParseError → ParseState → Prop) (s : ParseState) (p : Parser α)
    (Q : α → ParseState → Prop) : Prop :=
  match p s with
  | .ok a t => Q a t
  | .error e t => E e t

namespace Meets

variable {α β : Type} {E : ParseError → ParseState → Prop} {s : ParseState}
  {Q : β → ParseState → Prop}

theorem bind {p : Parser α} {f : α → Parser β} {R : α → ParseState → Prop} (hp : Meets E s p R)
    (hf : ∀ a t, R a t → Meets E t (f a) Q) : Meets E s (p >>= f) Q := by
  unfold Meets at hp ⊢
  simp only [Bind.bind, EStateM.bind]
  cases hrun : p s with
  | ok a t =>
    rw [hrun] at hp
    exact hf a t hp
  | error e t =>
    rw [hrun] at hp
    exact hp

theorem imp {p : Parser β} {R : β → ParseState → Prop} (hp : Meets E s p R)
    (h : ∀ b t, R b t → Q b t) : Meets E s p Q := by
  unfold Meets at hp ⊢
  cases hrun : p s with
  | ok b t =>
    rw [hrun] at hp
    exact h b t hp
  | error e t =>
    rw [hrun] at hp
    exact hp

theorem pure {b : β} (h : Q b s) : Meets E s (Pure.pure b) Q := h

theorem pure_bind {a : α} {f : α → Parser β} (h : Meets E s (f a) Q) :
    Meets E s (Pure.pure a >>= f) Q :=
  h

theorem map {p : Parser α} {f : α → β} (hp : Meets E s p fun a t => Q (f a) t) :
    Meets E s (f <$> p) Q := by
  rw [map_eq_pure_bind]
  exact hp.bind fun a t h => pure h

/-! ### Errors -/

theorem fail {fault : ParseFault} {token : Token} (h : E (.atToken fault token) s) :
    Meets E s (Parser.fail fault token) Q :=
  h

theorem expectedExpression_of
    (h : E (.atToken (.expectedExpression s.current.describe) s.current) s) :
    Meets E s Parser.expectedExpression Q :=
  h

theorem expectedExpression (h : ∀ fault, E (.atToken fault s.current) s) :
    Meets E s Parser.expectedExpression Q :=
  expectedExpression_of (h _)

/-! ### Tokens -/

theorem current_bind {f : Token → Parser β} (h : Meets E s (f s.current) Q) :
    Meets E s (Parser.current >>= f) Q :=
  h

theorem size_bind {f : Nat → Parser β} (h : Meets E s (f s.size) Q) :
    Meets E s (Parser.size >>= f) Q :=
  h

theorem check_bind {text : String} {f : Bool → Parser β}
    (h : Meets E s (f (s.current.is text)) Q) : Meets E s (Parser.check text >>= f) Q :=
  h

theorem spanFrom_bind {first : Span} {f : Span → Parser β}
    (h : Meets E s (f (first.merge s.previous)) Q) : Meets E s (Parser.spanFrom first >>= f) Q :=
  h

theorem advance_bind {f : Token → Parser β} (h : Meets E s.advance (f s.current) Q) :
    Meets E s (Parser.advance >>= f) Q :=
  h

theorem skipNewlines_bind {f : Unit → Parser β} (h : Meets E s.skipNewlines (f ()) Q) :
    Meets E s (Parser.skipNewlines >>= f) Q :=
  h

theorem expect_bind_of {text : String} {f : Token → Parser β}
    (hfail : E (.atToken (.unexpectedToken text s.current.describe) s.current) s)
    (h : s.current.is text = true → Meets E s.advance (f s.current) Q) :
    Meets E s (Parser.expect text >>= f) Q := by
  have hexpect : Meets E s (Parser.expect text) fun token t =>
      s.current.is text = true ∧ token = s.current ∧ t = s.advance := by
    refine current_bind ?_
    by_cases his : s.current.is text = true
    · rw [if_pos his]
      exact ⟨his, rfl, rfl⟩
    · rw [if_neg his]
      exact fail hfail
  refine hexpect.bind ?_
  rintro _ _ ⟨his, rfl, rfl⟩
  exact h his

theorem expect_bind {text : String} {f : Token → Parser β}
    (hfail : ∀ fault, E (.atToken fault s.current) s)
    (h : s.current.is text = true → Meets E s.advance (f s.current) Q) :
    Meets E s (Parser.expect text >>= f) Q :=
  expect_bind_of (hfail _) h

/-! ### Names and nodes -/

theorem intern {text : String} {Q : NameId → ParseState → Prop}
    (h : Q (s.names.intern text).1 { s with names := (s.names.intern text).2 }) :
    Meets E s (Parser.intern text) Q :=
  h

theorem intern_bind {text : String} {f : NameId → Parser β}
    (h : Meets E { s with names := (s.names.intern text).2 } (f (s.names.intern text).1) Q) :
    Meets E s (Parser.intern text >>= f) Q :=
  h

theorem addExpr_bind {kind : ExprKind} {span : Span} {f : StoredExpr → Parser β}
    (h : Meets E { s with arena := (s.arena.addExpr ⟨kind, span⟩).2 }
      (f ⟨(s.arena.addExpr ⟨kind, span⟩).1, ⟨kind, span⟩⟩) Q) :
    Meets E s (Parser.addExpr kind span >>= f) Q :=
  h

theorem addExpr {kind : ExprKind} {span : Span} {Q : StoredExpr → ParseState → Prop}
    (h : Q ⟨(s.arena.addExpr ⟨kind, span⟩).1, ⟨kind, span⟩⟩
      { s with arena := (s.arena.addExpr ⟨kind, span⟩).2 }) :
    Meets E s (Parser.addExpr kind span) Q :=
  h

theorem addStmtFrom {kind : StmtKind} {first : Span} {Q : StmtId → ParseState → Prop}
    (h : ∀ span, Q (s.arena.addStmt ⟨kind, span⟩).1
      { s with arena := (s.arena.addStmt ⟨kind, span⟩).2 }) :
    Meets E s (Parser.addStmtFrom kind first) Q :=
  h _

theorem addExprs_bind {ids : List ExprId} {f : Slice ExprId → Parser β}
    (h : Meets E { s with arena := (s.arena.addExprs ids).2 } (f (s.arena.addExprs ids).1) Q) :
    Meets E s (Parser.addExprs ids >>= f) Q :=
  h

theorem addStmts {ids : List StmtId} {Q : Slice StmtId → ParseState → Prop}
    (h : Q (s.arena.addStmts ids).1 { s with arena := (s.arena.addStmts ids).2 }) :
    Meets E s (Parser.addStmts ids) Q :=
  h

end Meets

end Scriptorium
