import Scriptorium.Proofs.OutlineLines
import Scriptorium.Proofs.RoundTrip

/-!
# Outlines are faithful

The outline of a program tells its trees: where a node ends can be seen from the depth
of the line after it, and what a node is from its line.

* `Expr.outlinePieces_inj` — the lines of an expression tell where it ends, since a call
  says how many arguments it has;
* `Stmt.outlinePieces_inj` — so do those of a statement, if the line after them is no
  deeper than the first of them: a part that may be missing is one level deeper;
* `outline_eq_iff` — programs whose names are identifiers have the same outline only if
  they have the same trees.
-/

namespace Scriptorium

variable {α β : Type}

/-! ## The notes do not matter -/

mutual

theorem Expr.outlinePieces_map (f : α → β) :
    (e : Expr α) → (depth : Nat) → (rest : List Piece) →
      (e.map f).outlinePieces depth rest = e.outlinePieces depth rest
  | .literal .., _, _ => rfl
  | .unary _ operand _, _, _ => by
      simp [Expr.map, Expr.outlinePieces, operand.outlinePieces_map f]
  | .binary _ left right _, _, _ => by
      simp [Expr.map, Expr.outlinePieces, left.outlinePieces_map f, right.outlinePieces_map f]
  | .logical _ left right _, _, _ => by
      simp [Expr.map, Expr.outlinePieces, left.outlinePieces_map f, right.outlinePieces_map f]
  | .group inner _, _, _ => by simp [Expr.map, Expr.outlinePieces, inner.outlinePieces_map f]
  | .reference .., _, _ => rfl
  | .assign _ _ value _, _, _ => by
      simp [Expr.map, Expr.outlinePieces, value.outlinePieces_map f]
  | .call callee args _, _, _ => by
      have ih := Expr.outlineAll_mapAll f args
      rw [Expr.mapAll_eq_map] at ih
      simp [Expr.map, Expr.outlinePieces, callee.outlinePieces_map f, Expr.mapAll_eq_map, ih]

theorem Expr.outlineAll_mapAll (f : α → β) :
    (es : List (Expr α)) → (depth : Nat) → (rest : List Piece) →
      Expr.outlineAll (Expr.mapAll f es) depth rest = Expr.outlineAll es depth rest
  | [], _, _ => rfl
  | e :: es, _, _ => by
      simp [Expr.mapAll, Expr.outlineAll, e.outlinePieces_map f, Expr.outlineAll_mapAll f es]

end

mutual

theorem Stmt.outlinePieces_map (f : α → β) :
    (s : Stmt α) → (depth : Nat) → (rest : List Piece) →
      (s.map f).outlinePieces depth rest = s.outlinePieces depth rest
  | .expression .., _, _ => by simp [Stmt.map, Stmt.outlinePieces, Expr.outlinePieces_map f]
  | .declare _ none _, _, _ => rfl
  | .declare _ (some _) _, _, _ => by
      simp [Stmt.map, Stmt.outlinePieces, Expr.outlinePieces_map f]
  | .block body _, _, _ => by simp [Stmt.map, Stmt.outlinePieces, Stmt.outlineAll_mapAll f body]
  | .branch _ t none _, _, _ => by
      simp [Stmt.map, Stmt.mapOption, Stmt.outlinePieces, Expr.outlinePieces_map f,
        t.outlinePieces_map f]
  | .branch _ t (some e) _, _, _ => by
      simp [Stmt.map, Stmt.mapOption, Stmt.outlinePieces, Expr.outlinePieces_map f,
        t.outlinePieces_map f, e.outlinePieces_map f]
  | .loop _ b _, _, _ => by
      simp [Stmt.map, Stmt.outlinePieces, Expr.outlinePieces_map f, b.outlinePieces_map f]
  | .function _ _ body _, _, _ => by
      simp [Stmt.map, Stmt.outlinePieces, Stmt.outlineAll_mapAll f body]
  | .ret none _, _, _ => rfl
  | .ret (some _) _, _, _ => by simp [Stmt.map, Stmt.outlinePieces, Expr.outlinePieces_map f]

theorem Stmt.outlineAll_mapAll (f : α → β) :
    (ss : List (Stmt α)) → (depth : Nat) → (rest : List Piece) →
      Stmt.outlineAll (Stmt.mapAll f ss) depth rest = Stmt.outlineAll ss depth rest
  | [], _, _ => rfl
  | s :: ss, _, _ => by
      simp [Stmt.mapAll, Stmt.outlineAll, s.outlinePieces_map f, Stmt.outlineAll_mapAll f ss]

end

/-- The outline is that of the trees without their notes. -/
theorem outline_erase (program : List (Stmt α)) :
    outline (program.map Stmt.erase) = outline program := by
  have := Stmt.outlineAll_mapAll (fun _ : α => ()) program 0 []
  rw [Stmt.mapAll_eq_map] at this
  exact congrArg render this

/-! ## Trees with names -/

mutual

/-- The names in the expression are names. -/
def Expr.Named : Expr α → Prop
  | .literal .. => True
  | .unary _ operand _ => operand.Named
  | .binary _ left right _ | .logical _ left right _ => left.Named ∧ right.Named
  | .group inner _ => inner.Named
  | .reference name _ => IsName name
  | .assign name _ value _ => IsName name ∧ value.Named
  | .call callee args _ => callee.Named ∧ Expr.NamedAll args

/-- The names in the expressions are names. -/
def Expr.NamedAll : List (Expr α) → Prop
  | [] => True
  | e :: es => e.Named ∧ Expr.NamedAll es

end

mutual

/-- The names in the statement are names. -/
def Stmt.Named : Stmt α → Prop
  | .expression expr _ => expr.Named
  | .declare name init _ => IsName name ∧ ∀ e ∈ init, e.Named
  | .block body _ => Stmt.NamedAll body
  | .branch cond thenBranch none _ => cond.Named ∧ thenBranch.Named
  | .branch cond thenBranch (some elseBranch) _ =>
      cond.Named ∧ thenBranch.Named ∧ elseBranch.Named
  | .loop cond body _ => cond.Named ∧ body.Named
  | .function name params body _ =>
      IsName name ∧ (∀ p ∈ params, IsName p) ∧ Stmt.NamedAll body
  | .ret value _ => ∀ e ∈ value, e.Named

/-- The names in the statements are names. -/
def Stmt.NamedAll : List (Stmt α) → Prop
  | [] => True
  | s :: ss => s.Named ∧ Stmt.NamedAll ss

end

mutual

theorem Expr.lined_outlinePieces : (e : Expr α) → e.Named → {depth : Nat} →
    {rest : List Piece} → Lined rest → Lined (e.outlinePieces depth rest)
  | .literal v _, _, _, _, h => .line (.append (by decide) (by decide) v.unbroken_source) h
  | .unary op operand _, hn, _, _, h =>
      .line (.append (by decide) (by decide) (by cases op <;> decide))
        (operand.lined_outlinePieces hn h)
  | .binary op left right _, hn, _, _, h =>
      .line (.append (by decide) (by decide) (by cases op <;> decide))
        (left.lined_outlinePieces hn.1 (right.lined_outlinePieces hn.2 h))
  | .logical op left right _, hn, _, _, h =>
      .line (.append (by decide) (by decide) (by cases op <;> decide))
        (left.lined_outlinePieces hn.1 (right.lined_outlinePieces hn.2 h))
  | .group inner _, hn, _, _, h => .line (by decide) (inner.lined_outlinePieces hn h)
  | .reference name _, hn, _, _, h => .line (.append (by decide) (by decide) hn.unbroken) h
  | .assign name _ value _, hn, _, _, h =>
      .line (.append (by decide) (by decide) hn.1.unbroken) (value.lined_outlinePieces hn.2 h)
  | .call callee args _, hn, _, _, h => by
    refine .line ?_ (callee.lined_outlinePieces hn.1 (Expr.lined_outlineAll args hn.2 h))
    have hcount : '\n' ∉ (toString args.length).toList :=
      fun hmem => absurd (isDigit_of_mem_toString hmem) (by decide)
    rw [String.append_assoc]
    refine .append (by decide) (by decide) ?_
    rw [String.toList_append, List.mem_append, not_or]
    exact ⟨hcount, by decide⟩

theorem Expr.lined_outlineAll : (es : List (Expr α)) → Expr.NamedAll es → {depth : Nat} →
    {rest : List Piece} → Lined rest → Lined (Expr.outlineAll es depth rest)
  | [], _, _, _, h => h
  | e :: es, hn, _, _, h => e.lined_outlinePieces hn.1 (Expr.lined_outlineAll es hn.2 h)

end

mutual

theorem Stmt.lined_outlinePieces : (s : Stmt α) → s.Named → {depth : Nat} →
    {rest : List Piece} → Lined rest → Lined (s.outlinePieces depth rest)
  | .expression e _, hn, _, _, h => .line (by decide) (e.lined_outlinePieces hn h)
  | .declare name none _, hn, _, _, h =>
      .line (.append (by decide) (by decide) hn.1.unbroken) h
  | .declare name (some e) _, hn, _, _, h =>
      .line (.append (by decide) (by decide) hn.1.unbroken)
        (.line (by decide) (e.lined_outlinePieces (hn.2 e rfl) h))
  | .block body _, hn, _, _, h => .line (by decide) (Stmt.lined_outlineAll body hn h)
  | .branch c t none _, hn, _, _, h =>
      .line (by decide) (.line (by decide) (c.lined_outlinePieces hn.1
        (.line (by decide) (t.lined_outlinePieces hn.2 h))))
  | .branch c t (some e) _, hn, _, _, h =>
      .line (by decide) (.line (by decide) (c.lined_outlinePieces hn.1
        (.line (by decide) (t.lined_outlinePieces hn.2.1
          (.line (by decide) (e.lined_outlinePieces hn.2.2 h))))))
  | .loop c b _, hn, _, _, h =>
      .line (by decide) (.line (by decide) (c.lined_outlinePieces hn.1
        (.line (by decide) (b.lined_outlinePieces hn.2 h))))
  | .function name params body _, hn, _, _, h =>
      .line (.append (by decide) (by decide) hn.1.unbroken)
        (.line (isLine_parameterLine hn.2.1)
          (.line (by decide) (Stmt.lined_outlineAll body hn.2.2 h)))
  | .ret none _, _, _, _, h => .line (by decide) h
  | .ret (some e) _, hn, _, _, h => .line (by decide) (e.lined_outlinePieces (hn e rfl) h)

theorem Stmt.lined_outlineAll : (ss : List (Stmt α)) → Stmt.NamedAll ss → {depth : Nat} →
    {rest : List Piece} → Lined rest → Lined (Stmt.outlineAll ss depth rest)
  | [], _, _, _, h => h
  | s :: ss, hn, _, _, h => s.lined_outlinePieces hn.1 (Stmt.lined_outlineAll ss hn.2 h)

end

/-! ## Kinds of nodes -/

/-- What the line of an expression starts with. -/
def Expr.kind : Expr α → String
  | .literal .. => "Literal"
  | .unary .. => "Unary Expression"
  | .binary .. => "Binary Expression"
  | .logical .. => "Logical Expression"
  | .group .. => "Grouping Expression"
  | .reference .. => "Variable"
  | .assign .. => "Assignment"
  | .call .. => "Call Expression"

/-- What the first line of a statement starts with. -/
def Stmt.kind : Stmt α → String
  | .expression .. => "Expression Statement"
  | .declare .. => "Variable Declaration"
  | .block .. => "Block Statement"
  | .branch .. => "If Statement"
  | .loop .. => "While Statement"
  | .function .. => "Function Declaration"
  | .ret .. => "Return Statement"

/-- The first line of an expression is at its depth and says its kind. -/
theorem Expr.exists_outlineLine (e : Expr α) (depth : Nat) (rest : List Piece) :
    ∃ text more, e.outlinePieces depth rest = outlineLine depth text more ∧
      heading text = e.kind.toList := by
  cases e with
  | call callee args =>
    refine ⟨_, _, rfl, ?_⟩
    rw [String.append_assoc]
    exact heading_append (by decide) (by simp [heading, kind, toString])
  | group => exact ⟨_, _, rfl, by simp [heading, kind]⟩
  | _ =>
    refine ⟨_, _, rfl, heading_append ?_ ?_⟩
    · decide
    · simp [heading, kind]

/-- The first line of a statement is at its depth and says its kind. -/
theorem Stmt.exists_outlineLine (s : Stmt α) (depth : Nat) (rest : List Piece) :
    ∃ text more, s.outlinePieces depth rest = outlineLine depth text more ∧
      heading text = s.kind.toList := by
  cases s with
  | declare name init =>
    have hkind : heading ("Variable Declaration: " ++ name) = "Variable Declaration".toList :=
      heading_append (by decide) rfl
    cases init <;> exact ⟨_, _, rfl, hkind⟩
  | function name =>
    have hkind : heading ("Function Declaration: " ++ name) = "Function Declaration".toList :=
      heading_append (by decide) rfl
    exact ⟨_, _, rfl, hkind⟩
  | branch c t e => cases e <;> exact ⟨_, _, rfl, by simp [heading, kind]⟩
  | ret value => cases value <;> exact ⟨_, _, rfl, by simp [heading, kind]⟩
  | _ => exact ⟨_, _, rfl, by simp [heading, kind]⟩

theorem Expr.kind_eq {e : Expr α} {e' : Expr β} {depth : Nat} {rest rest' : List Piece}
    (h : e.outlinePieces depth rest = e'.outlinePieces depth rest') : e.kind = e'.kind := by
  obtain ⟨text, more, he, hkind⟩ := e.exists_outlineLine depth rest
  obtain ⟨text', more', he', hkind'⟩ := e'.exists_outlineLine depth rest'
  rw [he, he'] at h
  rw [← String.toList_inj, ← hkind, ← hkind', (outlineLine_inj h).2.1]

theorem Stmt.kind_eq {s : Stmt α} {s' : Stmt β} {depth : Nat} {rest rest' : List Piece}
    (h : s.outlinePieces depth rest = s'.outlinePieces depth rest') : s.kind = s'.kind := by
  obtain ⟨text, more, hs, hkind⟩ := s.exists_outlineLine depth rest
  obtain ⟨text', more', hs', hkind'⟩ := s'.exists_outlineLine depth rest'
  rw [hs, hs'] at h
  rw [← String.toList_inj, ← hkind, ← hkind', (outlineLine_inj h).2.1]

/-! ## Expressions -/

mutual

/-- The lines of an expression tell the expression and where they end. -/
theorem Expr.outlinePieces_inj : (e : Expr α) → (e' : Expr β) → {depth : Nat} →
    {rest rest' : List Piece} →
    e.outlinePieces depth rest = e'.outlinePieces depth rest' → e.erase = e'.erase ∧ rest = rest'
  | .literal v _, e', _, _, _, h => by
    have hkind := kind_eq h
    cases e' with
    | literal v' _ =>
      obtain ⟨-, htext, hrest⟩ := outlineLine_inj h
      rw [Literal.source_injective ((String.append_right_inj _).1 htext), hrest]
      exact ⟨rfl, rfl⟩
    | _ => simp [kind] at hkind
  | .unary op operand _, e', _, _, _, h => by
    have hkind := kind_eq h
    cases e' with
    | unary op' operand' _ =>
      obtain ⟨-, htext, hlines⟩ := outlineLine_inj h
      obtain ⟨hoperand, hrest⟩ := operand.outlinePieces_inj operand' hlines
      rw [erase_unary, erase_unary, hoperand,
        UnaryOp.symbol_injective ((String.append_right_inj _).1 htext)]
      exact ⟨rfl, hrest⟩
    | _ => simp [kind] at hkind
  | .binary op left right _, e', _, _, _, h => by
    have hkind := kind_eq h
    cases e' with
    | binary op' left' right' _ =>
      obtain ⟨-, htext, hlines⟩ := outlineLine_inj h
      obtain ⟨hleft, hlines⟩ := left.outlinePieces_inj left' hlines
      obtain ⟨hright, hrest⟩ := right.outlinePieces_inj right' hlines
      rw [erase_binary, erase_binary, hleft, hright,
        BinaryOp.symbol_injective ((String.append_right_inj _).1 htext)]
      exact ⟨rfl, hrest⟩
    | _ => simp [kind] at hkind
  | .logical op left right _, e', _, _, _, h => by
    have hkind := kind_eq h
    cases e' with
    | logical op' left' right' _ =>
      obtain ⟨-, htext, hlines⟩ := outlineLine_inj h
      obtain ⟨hleft, hlines⟩ := left.outlinePieces_inj left' hlines
      obtain ⟨hright, hrest⟩ := right.outlinePieces_inj right' hlines
      rw [erase_logical, erase_logical, hleft, hright,
        LogicalOp.symbol_injective ((String.append_right_inj _).1 htext)]
      exact ⟨rfl, hrest⟩
    | _ => simp [kind] at hkind
  | .group inner _, e', _, _, _, h => by
    have hkind := kind_eq h
    cases e' with
    | group inner' _ =>
      obtain ⟨-, -, hlines⟩ := outlineLine_inj h
      obtain ⟨hinner, hrest⟩ := inner.outlinePieces_inj inner' hlines
      rw [erase_group, erase_group, hinner]
      exact ⟨rfl, hrest⟩
    | _ => simp [kind] at hkind
  | .reference name _, e', _, _, _, h => by
    have hkind := kind_eq h
    cases e' with
    | reference name' _ =>
      obtain ⟨-, htext, hrest⟩ := outlineLine_inj h
      rw [(String.append_right_inj _).1 htext, hrest]
      exact ⟨rfl, rfl⟩
    | _ => simp [kind] at hkind
  | .assign name _ value _, e', _, _, _, h => by
    have hkind := kind_eq h
    cases e' with
    | assign name' _ value' _ =>
      obtain ⟨-, htext, hlines⟩ := outlineLine_inj h
      obtain ⟨hvalue, hrest⟩ := value.outlinePieces_inj value' hlines
      rw [erase_assign, erase_assign, hvalue, (String.append_right_inj _).1 htext]
      exact ⟨rfl, hrest⟩
    | _ => simp [kind] at hkind
  | .call callee args _, e', _, _, _, h => by
    have hkind := kind_eq h
    cases e' with
    | call callee' args' _ =>
      obtain ⟨-, htext, hlines⟩ := outlineLine_inj h
      obtain ⟨hcallee, hlines⟩ := callee.outlinePieces_inj callee' hlines
      have hlength : args.length = args'.length := by
        have := (String.append_right_inj _).1 ((String.append_left_inj _).1 htext)
        exact toString_nat_injective this
      obtain ⟨hargs, hrest⟩ := Expr.outlineAll_inj args args' hlength hlines
      rw [erase_call, erase_call, hcallee, hargs]
      exact ⟨rfl, hrest⟩
    | _ => simp [kind] at hkind

/-- The lines of as many expressions tell the expressions and where they end. -/
theorem Expr.outlineAll_inj : (es : List (Expr α)) → (es' : List (Expr β)) →
    es.length = es'.length → {depth : Nat} → {rest rest' : List Piece} →
    Expr.outlineAll es depth rest = Expr.outlineAll es' depth rest' →
    es.map erase = es'.map erase ∧ rest = rest'
  | [], [], _, _, _, _, h => ⟨rfl, h⟩
  | e :: es, e' :: es', hlength, _, _, _, h => by
    obtain ⟨he, hlines⟩ := e.outlinePieces_inj e' h
    obtain ⟨hes, hrest⟩ := Expr.outlineAll_inj es es' (Nat.succ.inj hlength) hlines
    exact ⟨by rw [List.map_cons, List.map_cons, he, hes], hrest⟩

end

/-! ## Statements -/

/-- The pieces start with a line at a smaller depth, if with any: they belong to no node
at the depth. -/
def Outside (depth : Nat) (pieces : List Piece) : Prop :=
  ∀ p ∈ pieces.head?, ∃ k < depth, p = .indent k 2

@[simp] theorem outside_nil (depth : Nat) : Outside depth [] := by simp [Outside]

@[simp] theorem outside_outlineLine {depth k : Nat} {text : String} {rest : List Piece} :
    Outside depth (outlineLine k text rest) ↔ k < depth := by
  simp [Outside, outlineLine]

theorem Outside.mono {m n : Nat} {pieces : List Piece} (h : Outside m pieces) (hmn : m ≤ n) :
    Outside n pieces := by
  intro p hp
  obtain ⟨k, hk, rfl⟩ := h p hp
  exact ⟨k, by omega, rfl⟩

theorem Expr.outside_outlinePieces (e : Expr α) {depth k : Nat} {rest : List Piece} :
    Outside depth (e.outlinePieces k rest) ↔ k < depth := by
  obtain ⟨text, more, he, -⟩ := e.exists_outlineLine k rest
  rw [he, outside_outlineLine]

theorem Stmt.outside_outlinePieces (s : Stmt α) {depth k : Nat} {rest : List Piece} :
    Outside depth (s.outlinePieces k rest) ↔ k < depth := by
  obtain ⟨text, more, hs, -⟩ := s.exists_outlineLine k rest
  rw [hs, outside_outlineLine]

theorem Stmt.outside_outlineAll {ss : List (Stmt α)} {depth : Nat} {rest : List Piece}
    (h : Outside depth rest) : Outside (depth + 1) (Stmt.outlineAll ss depth rest) := by
  cases ss with
  | nil => exact h.mono (by omega)
  | cons s ss => exact s.outside_outlinePieces.2 (by omega)

/-- The lines of the branch that is taken when the condition does not hold. -/
def Stmt.elsePieces : Option (Stmt α) → (depth : Nat) → (rest : List Piece) → List Piece
  | none, _, rest => rest
  | some other, depth, rest =>
      outlineLine (depth + 1) "Else Branch:" (other.outlinePieces (depth + 2) rest)

theorem Stmt.outlinePieces_branch (c : Expr α) (t : Stmt α) (e : Option (Stmt α)) (n : α)
    (depth : Nat) (rest : List Piece) :
    (branch c t e n).outlinePieces depth rest =
      outlineLine depth "If Statement:"
        (outlineLine (depth + 1) "Condition:" (c.outlinePieces (depth + 2)
          (outlineLine (depth + 1) "Then Branch:" (t.outlinePieces (depth + 2)
            (elsePieces e depth rest))))) := by
  cases e <;> rfl

theorem Stmt.outside_elsePieces {e : Option (Stmt α)} {depth : Nat} {rest : List Piece}
    (h : Outside (depth + 1) rest) : Outside (depth + 2) (elsePieces e depth rest) := by
  cases e with
  | none => exact h.mono (by omega)
  | some e => exact outside_outlineLine.2 (by omega)

mutual

/-- The lines of a statement tell the statement and where they end, if no deeper line
comes next. -/
theorem Stmt.outlinePieces_inj : (s : Stmt α) → (s' : Stmt β) → s.Named → s'.Named →
    {depth : Nat} → {rest rest' : List Piece} → Outside (depth + 1) rest →
    Outside (depth + 1) rest' →
    s.outlinePieces depth rest = s'.outlinePieces depth rest' → s.erase = s'.erase ∧ rest = rest'
  | .expression e _, s', _, _, _, _, _, _, _, h => by
    have hkind := kind_eq h
    cases s' with
    | expression e' _ =>
      obtain ⟨-, -, hlines⟩ := outlineLine_inj h
      obtain ⟨he, hrest⟩ := e.outlinePieces_inj e' hlines
      rw [erase_expression, erase_expression, he]
      exact ⟨rfl, hrest⟩
    | _ => simp [kind] at hkind
  | .declare name init _, s', _, _, _, _, _, hout, hout', h => by
    have hkind := kind_eq h
    cases s' with
    | declare name' init' _ =>
      cases init with
      | none =>
        cases init' with
        | none =>
          obtain ⟨-, htext, hrest⟩ := outlineLine_inj h
          rw [(String.append_right_inj _).1 htext]
          exact ⟨rfl, hrest⟩
        | some e' =>
          obtain ⟨-, -, hlines⟩ := outlineLine_inj h
          rw [hlines, outside_outlineLine] at hout
          omega
      | some e =>
        cases init' with
        | none =>
          obtain ⟨-, -, hlines⟩ := outlineLine_inj h
          rw [← hlines, outside_outlineLine] at hout'
          omega
        | some e' =>
          obtain ⟨-, htext, hlines⟩ := outlineLine_inj h
          obtain ⟨-, -, hlines⟩ := outlineLine_inj hlines
          obtain ⟨he, hrest⟩ := e.outlinePieces_inj e' hlines
          rw [erase_declare, erase_declare, Option.map_some, Option.map_some, he,
            (String.append_right_inj _).1 htext]
          exact ⟨rfl, hrest⟩
    | _ => simp [kind] at hkind
  | .block body _, s', hs, hs', _, _, _, hout, hout', h => by
    have hkind := kind_eq h
    cases s' with
    | block body' _ =>
      obtain ⟨-, -, hlines⟩ := outlineLine_inj h
      obtain ⟨hbody, hrest⟩ := Stmt.outlineAll_inj body body' hs hs' hout hout' hlines
      rw [erase_block, erase_block, hbody]
      exact ⟨rfl, hrest⟩
    | _ => simp [kind] at hkind
  | .branch c t e _, s', hs, hs', _, rest, rest', hout, hout', h => by
    have hkind := kind_eq h
    cases s' with
    | branch c' t' e' _ =>
      have ht : t.Named := by cases e with | none => exact hs.2 | some => exact hs.2.1
      have ht' : t'.Named := by cases e' with | none => exact hs'.2 | some => exact hs'.2.1
      rw [outlinePieces_branch, outlinePieces_branch] at h
      obtain ⟨-, -, hlines⟩ := outlineLine_inj h
      obtain ⟨-, -, hlines⟩ := outlineLine_inj hlines
      obtain ⟨hc, hlines⟩ := c.outlinePieces_inj c' hlines
      obtain ⟨-, -, hlines⟩ := outlineLine_inj hlines
      obtain ⟨ht, hlines⟩ := t.outlinePieces_inj t' ht ht'
        ((outside_elsePieces hout).mono (by omega)) ((outside_elsePieces hout').mono (by omega))
        hlines
      cases e with
      | none =>
        cases e' with
        | none =>
          rw [erase_branch_none, erase_branch_none, hc, ht]
          exact ⟨rfl, hlines⟩
        | some e' =>
          replace hlines : rest = outlineLine _ _ _ := hlines
          rw [hlines, outside_outlineLine] at hout
          omega
      | some e =>
        cases e' with
        | none =>
          replace hlines : outlineLine _ _ _ = rest' := hlines
          rw [← hlines, outside_outlineLine] at hout'
          omega
        | some e' =>
          obtain ⟨-, -, hlines⟩ := outlineLine_inj hlines
          obtain ⟨he, hrest⟩ := e.outlinePieces_inj e' hs.2.2 hs'.2.2 (hout.mono (by omega))
            (hout'.mono (by omega)) hlines
          rw [erase_branch_some, erase_branch_some, hc, ht, he]
          exact ⟨rfl, hrest⟩
    | _ => simp [kind] at hkind
  | .loop c b _, s', hs, hs', _, _, _, hout, hout', h => by
    have hkind := kind_eq h
    cases s' with
    | loop c' b' _ =>
      obtain ⟨-, -, hlines⟩ := outlineLine_inj h
      obtain ⟨-, -, hlines⟩ := outlineLine_inj hlines
      obtain ⟨hc, hlines⟩ := c.outlinePieces_inj c' hlines
      obtain ⟨-, -, hlines⟩ := outlineLine_inj hlines
      obtain ⟨hb, hrest⟩ := b.outlinePieces_inj b' hs.2 hs'.2 (hout.mono (by omega))
        (hout'.mono (by omega)) hlines
      rw [erase_loop, erase_loop, hc, hb]
      exact ⟨rfl, hrest⟩
    | _ => simp [kind] at hkind
  | .function name params body _, s', hs, hs', _, _, _, hout, hout', h => by
    have hkind := kind_eq h
    cases s' with
    | function name' params' body' _ =>
      obtain ⟨-, hname, hlines⟩ := outlineLine_inj h
      obtain ⟨-, hparams, hlines⟩ := outlineLine_inj hlines
      obtain ⟨-, -, hlines⟩ := outlineLine_inj hlines
      obtain ⟨hbody, hrest⟩ := Stmt.outlineAll_inj body body' hs.2.2 hs'.2.2
        (hout.mono (by omega)) (hout'.mono (by omega)) hlines
      rw [erase_function, erase_function, (String.append_right_inj _).1 hname,
        parameterLine_inj hs.2.1 hs'.2.1 hparams, hbody]
      exact ⟨rfl, hrest⟩
    | _ => simp [kind] at hkind
  | .ret value _, s', _, _, _, _, _, hout, hout', h => by
    have hkind := kind_eq h
    cases s' with
    | ret value' _ =>
      cases value with
      | none =>
        cases value' with
        | none => exact ⟨rfl, (outlineLine_inj h).2.2⟩
        | some e' =>
          obtain ⟨-, -, hlines⟩ := outlineLine_inj h
          rw [hlines, e'.outside_outlinePieces] at hout
          omega
      | some e =>
        cases value' with
        | none =>
          obtain ⟨-, -, hlines⟩ := outlineLine_inj h
          rw [← hlines, e.outside_outlinePieces] at hout'
          omega
        | some e' =>
          obtain ⟨-, -, hlines⟩ := outlineLine_inj h
          obtain ⟨he, hrest⟩ := e.outlinePieces_inj e' hlines
          rw [erase_ret, erase_ret, Option.map_some, Option.map_some, he]
          exact ⟨rfl, hrest⟩
    | _ => simp [kind] at hkind

/-- The lines of statements tell the statements and where they end, if a line at a smaller
depth comes next. -/
theorem Stmt.outlineAll_inj : (ss : List (Stmt α)) → (ss' : List (Stmt β)) →
    Stmt.NamedAll ss → Stmt.NamedAll ss' → {depth : Nat} → {rest rest' : List Piece} →
    Outside depth rest → Outside depth rest' →
    Stmt.outlineAll ss depth rest = Stmt.outlineAll ss' depth rest' →
    ss.map erase = ss'.map erase ∧ rest = rest'
  | [], [], _, _, _, _, _, _, _, h => ⟨rfl, h⟩
  | [], s' :: ss', _, _, _, rest, _, hout, _, h => by
    replace h : rest = s'.outlinePieces _ _ := h
    rw [h, s'.outside_outlinePieces] at hout
    omega
  | s :: ss, [], _, _, _, _, rest', _, hout', h => by
    replace h : s.outlinePieces _ _ = rest' := h
    rw [← h, s.outside_outlinePieces] at hout'
    omega
  | s :: ss, s' :: ss', hs, hs', _, _, _, hout, hout', h => by
    obtain ⟨he, hlines⟩ := s.outlinePieces_inj s' hs.1 hs'.1 (Stmt.outside_outlineAll hout)
      (Stmt.outside_outlineAll hout') h
    obtain ⟨hes, hrest⟩ := Stmt.outlineAll_inj ss ss' hs.2 hs'.2 hout hout' hlines
    exact ⟨by rw [List.map_cons, List.map_cons, he, hes], hrest⟩

end

/-! ## Programs -/

/-- Programs whose names are identifiers or keywords, from whatever arenas they come, have
the same outline if and only if they have the same trees, up to where the trees were read
and how the arenas number them. -/
theorem outline_eq_iff {c d : Code} {ids ids' : List StmtId} {program program' : List (Stmt Origin)}
    (htrees : ids.mapM c.stmtOf? = some program) (htrees' : ids'.mapM d.stmtOf? = some program')
    (hnamed : Stmt.NamedAll program) (hnamed' : Stmt.NamedAll program') :
    outline (c.stmtsOf ids) = outline (d.stmtsOf ids') ↔
      program.map Stmt.erase = program'.map Stmt.erase := by
  rw [stmtsOf_of_mapM htrees, stmtsOf_of_mapM htrees']
  constructor
  · intro h
    have hpieces := Lined.eq_of_chars_eq (Stmt.lined_outlineAll program hnamed .nil)
      (Stmt.lined_outlineAll program' hnamed' .nil) (congrArg String.toList h)
    exact (Stmt.outlineAll_inj program program' hnamed hnamed' (outside_nil 0) (outside_nil 0)
      hpieces).1
  · intro h
    rw [← outline_erase program, h, outline_erase]

/-- The code of `f(-7);`, in which the function is stored before its argument and has
another number than in `callCode`. -/
def callFirstCode : Code :=
  let (callee, arena) := Arena.empty.addExpr ⟨.reference ⟨2⟩, .empty⟩
  let (seven, arena) := arena.addExpr ⟨.literal (.int 7), .empty⟩
  let (argument, arena) := arena.addExpr ⟨.unary .neg seven, .empty⟩
  let (arguments, arena) := arena.addExprs [argument]
  let (call, arena) := arena.addExpr ⟨.call callee arguments, .empty⟩
  ⟨(arena.addStmt ⟨.expression call, .empty⟩).2, ⟨#["", "g", "f"]⟩⟩

theorem outline_eq_iff_call :
    ∃ program program', [⟨0⟩].mapM callCode.stmtOf? = some program ∧
      [⟨0⟩].mapM callFirstCode.stmtOf? = some program' ∧
      Stmt.NamedAll program ∧ Stmt.NamedAll program' ∧ program ≠ program' ∧
      (outline (callCode.stmtsOf [⟨0⟩]) = outline (callFirstCode.stmtsOf [⟨0⟩]) ↔
        program.map Stmt.erase = program'.map Stmt.erase) := by
  have hname : IsName "f" := ⟨'f', [], rfl, by decide, by simp⟩
  have hnamed (a b c d e : Origin) : Stmt.NamedAll
      [.expression (.call (.reference "f" a) [.unary .neg (.literal (.int 7) b) c] d) e] :=
    ⟨⟨hname, ⟨trivial, trivial⟩⟩, trivial⟩
  have hcall : [⟨0⟩].mapM callCode.stmtOf? = some [.expression (.call (.reference "f"
      ⟨2, .empty⟩) [.unary .neg (.literal (.int 7) ⟨0, .empty⟩) ⟨1, .empty⟩] ⟨3, .empty⟩)
      ⟨0, .empty⟩] := rfl
  have hfirst : [⟨0⟩].mapM callFirstCode.stmtOf? = some [.expression (.call (.reference "f"
      ⟨0, .empty⟩) [.unary .neg (.literal (.int 7) ⟨1, .empty⟩) ⟨2, .empty⟩] ⟨3, .empty⟩)
      ⟨0, .empty⟩] := rfl
  refine ⟨_, _, hcall, hfirst, hnamed .., hnamed .., by simp, ?_⟩
  exact outline_eq_iff hcall hfirst (hnamed ..) (hnamed ..)

end Scriptorium
