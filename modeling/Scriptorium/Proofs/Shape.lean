import Scriptorium.Layout.Source
import Scriptorium.Proofs.Words

/-!
# The shape of a tree

Not every tree can be read from a text.  Parentheses are nodes of their own, so an
operand has to bind at least as tightly as its place demands, and a statement has to
stand where the grammar lets it.

* `Expr.rank` — the step of the precedence ladder that an expression stands on, from
  0 for an assignment to 9 for a primary expression;
* `Expr.Shaped` — every operand is on the step that its place demands or on a
  tighter one;
* `Stmt.Shaped` — declarations of variables stand in lists only, a `return` stands in
  a function, and no `else` can be taken for that of an inner conditional;
* `Stops` — no operator at a step of the ladder or above it comes next;
* `Expr.Legible`, `Stmt.Legible` — the names are identifiers and the numbers are no
  larger than `maxLiteral`.

None of this depends on the notes of a tree, and it is defined on trees without
notes.
-/

namespace Scriptorium

/-! ## The ladder -/

/-- The step of an operator on the ladder. -/
def BinaryOp.rank : BinaryOp → Nat
  | .eq | .notEq => 3
  | .less | .lessEq | .greater | .greaterEq => 4
  | .add | .sub => 5
  | .mul | .div => 6

/-- The step of an operator on the ladder. -/
def LogicalOp.rank : LogicalOp → Nat
  | .or => 1
  | .and => 2

/-- The step of an expression with a sign on the ladder. -/
def unaryRank : Nat := 7

/-- The step of a call on the ladder. -/
def callRank : Nat := 8

/-- The step of a primary expression on the ladder. -/
def primaryRank : Nat := 9

/-- The step of an expression on the ladder: the higher, the tighter it binds. -/
def Expr.rank {α : Type} : Expr α → Nat
  | .assign .. => 0
  | .logical op .. => op.rank
  | .binary op .. => op.rank
  | .unary .. => unaryRank
  | .call .. => callRank
  | .literal .. | .group .. | .reference .. => primaryRank

/-! ## Expressions -/

mutual

/-- Every operand is on the step of the ladder that its place demands or on a tighter
one, and no call has too many arguments. -/
def Expr.Shaped : Expr Unit → Prop
  | .literal .. | .reference .. => True
  | .unary _ operand _ => unaryRank ≤ operand.rank ∧ operand.Shaped
  | .binary op left right _ =>
      op.rank ≤ left.rank ∧ op.rank < right.rank ∧ left.Shaped ∧ right.Shaped
  | .logical op left right _ =>
      op.rank ≤ left.rank ∧ op.rank < right.rank ∧ left.Shaped ∧ right.Shaped
  | .group inner _ => inner.Shaped
  | .assign _ _ value _ => value.Shaped
  | .call callee args _ =>
      callRank ≤ callee.rank ∧ args.length ≤ maxItems ∧ callee.Shaped ∧ Expr.ShapedAll args

/-- All of the expressions are shaped. -/
def Expr.ShapedAll : List (Expr Unit) → Prop
  | [] => True
  | e :: es => e.Shaped ∧ Expr.ShapedAll es

end

mutual

/-- Every name is an identifier and every number can be written as a literal. -/
def Expr.Legible : Expr Unit → Prop
  | .literal (.int value) _ => value ≤ maxLiteral
  | .literal .. => True
  | .unary _ operand _ => operand.Legible
  | .binary _ left right _ | .logical _ left right _ => left.Legible ∧ right.Legible
  | .group inner _ => inner.Legible
  | .reference name _ => IsIdentifier name
  | .assign name _ value _ => IsIdentifier name ∧ value.Legible
  | .call callee args _ => callee.Legible ∧ Expr.LegibleAll args

/-- All of the expressions are legible. -/
def Expr.LegibleAll : List (Expr Unit) → Prop
  | [] => True
  | e :: es => e.Legible ∧ Expr.LegibleAll es

end

/-! ## Statements -/

/-- Is the statement the declaration of a variable? -/
def Stmt.isVariable {α : Type} : Stmt α → Bool
  | .declare .. => true
  | _ => false

/-- Does the statement end in a conditional without `else`, so that an `else` after it
would be taken for that of the conditional? -/
def Stmt.endsOpen {α : Type} : Stmt α → Bool
  | .branch _ _ none _ => true
  | .branch _ _ (some elseBranch) _ => elseBranch.endsOpen
  | .loop _ body _ => body.endsOpen
  | _ => false

mutual

/-- The parts of the statement stand where the grammar lets them; `inFunction` tells
whether the statement stands in the body of a function. -/
def Stmt.Shaped (inFunction : Bool) : Stmt Unit → Prop
  | .expression expr _ => expr.Shaped
  | .declare _ init _ => ∀ e ∈ init, e.Shaped
  | .block body _ => Stmt.ShapedAll inFunction body
  | .branch cond thenBranch none _ =>
      cond.Shaped ∧ thenBranch.isVariable = false ∧ thenBranch.Shaped inFunction
  | .branch cond thenBranch (some elseBranch) _ =>
      cond.Shaped ∧ thenBranch.isVariable = false ∧ thenBranch.Shaped inFunction ∧
        thenBranch.endsOpen = false ∧ elseBranch.isVariable = false ∧
        elseBranch.Shaped inFunction
  | .loop cond body _ => cond.Shaped ∧ body.isVariable = false ∧ body.Shaped inFunction
  | .function _ params body _ => params.length ≤ maxItems ∧ Stmt.ShapedAll true body
  | .ret value _ => inFunction = true ∧ ∀ e ∈ value, e.Shaped

/-- All of the statements are shaped. -/
def Stmt.ShapedAll (inFunction : Bool) : List (Stmt Unit) → Prop
  | [] => True
  | s :: ss => s.Shaped inFunction ∧ Stmt.ShapedAll inFunction ss

end

mutual

/-- Every name is an identifier and every number can be written as a literal. -/
def Stmt.Legible : Stmt Unit → Prop
  | .expression expr _ => expr.Legible
  | .declare name init _ => IsIdentifier name ∧ ∀ e ∈ init, e.Legible
  | .block body _ => Stmt.LegibleAll body
  | .branch cond thenBranch none _ => cond.Legible ∧ thenBranch.Legible
  | .branch cond thenBranch (some elseBranch) _ =>
      cond.Legible ∧ thenBranch.Legible ∧ elseBranch.Legible
  | .loop cond body _ => cond.Legible ∧ body.Legible
  | .function name params body _ =>
      IsIdentifier name ∧ (∀ p ∈ params, IsIdentifier p) ∧ Stmt.LegibleAll body
  | .ret value _ => ∀ e ∈ value, e.Legible

/-- All of the statements are legible. -/
def Stmt.LegibleAll : List (Stmt Unit) → Prop
  | [] => True
  | s :: ss => s.Legible ∧ Stmt.LegibleAll ss

end

/-! ## Operations -/

/-- The tree of an operator between operands. -/
def Connective.tree (left right : Expr Unit) : Connective → Expr Unit
  | .binary op => .binary op left right ()
  | .logical op => .logical op left right ()

/-- The step of an operator on the ladder; `Connective.level` counts the steps of
operators only. -/
def Connective.rank (op : Connective) : Nat := op.level + 1

namespace Connective

theorem rank_binary (op : BinaryOp) : (binary op).rank = op.rank := by cases op <;> rfl

theorem rank_logical (op : LogicalOp) : (logical op).rank = op.rank := by cases op <;> rfl

theorem rank_lt_unary (op : Connective) : op.rank < unaryRank := by
  rcases op with op | op <;> cases op <;> decide

theorem rank_tree (op : Connective) (left right : Expr Unit) :
    (op.tree left right).rank = op.rank := by
  cases op with
  | binary op => exact (rank_binary op).symm
  | logical op => exact (rank_logical op).symm

theorem shaped_tree (op : Connective) (left right : Expr Unit) :
    (op.tree left right).Shaped ↔
      op.rank ≤ left.rank ∧ op.rank < right.rank ∧ left.Shaped ∧ right.Shaped := by
  cases op with
  | binary op => rw [rank_binary]; rfl
  | logical op => rw [rank_logical]; rfl

theorem legible_tree (op : Connective) (left right : Expr Unit) :
    (op.tree left right).Legible ↔ left.Legible ∧ right.Legible := by
  cases op <;> simp [tree, Expr.Legible]

end Connective

/-- The operator that comes next, if any, is below a step of the ladder: an expression
whose operators are on that step or above it ends here. -/
def Stops (level : Nat) (ws : List Word) : Prop :=
  ∀ w rest op, skipBlank ws = w :: rest → w.connective? = some op → op.level < level

theorem stops_of_unaryRank_le {n : Nat} (h : unaryRank ≤ n) (ws : List Word) : Stops n ws := by
  intro w rest op _ _
  have := op.rank_lt_unary
  unfold Connective.rank at this
  omega

theorem Stops.mono {m n : Nat} {ws : List Word} (h : Stops m ws) (hmn : m ≤ n) : Stops n ws :=
  fun w rest op hw hop => lt_of_lt_of_le (h w rest op hw hop) hmn

theorem stops_append {nls ws : List Word} (h : Blank nls) {level : Nat} :
    Stops level (nls ++ ws) ↔ Stops level ws := by
  unfold Stops
  rw [skipBlank_append h]

/-! ## Trees without notes -/

namespace Expr

variable {α : Type}

@[simp] theorem erase_literal (v : Literal String) (n : α) :
    (literal v n).erase = literal v () := rfl

@[simp] theorem erase_unary (op : UnaryOp) (e : Expr α) (n : α) :
    (unary op e n).erase = unary op e.erase () := rfl

@[simp] theorem erase_binary (op : BinaryOp) (l r : Expr α) (n : α) :
    (binary op l r n).erase = binary op l.erase r.erase () := rfl

@[simp] theorem erase_logical (op : LogicalOp) (l r : Expr α) (n : α) :
    (logical op l r n).erase = logical op l.erase r.erase () := rfl

@[simp] theorem erase_group (e : Expr α) (n : α) : (group e n).erase = group e.erase () := rfl

@[simp] theorem erase_reference (s : String) (n : α) :
    (reference s n).erase = reference s () := rfl

@[simp] theorem erase_assign (s : String) (m : α) (v : Expr α) (n : α) :
    (assign s m v n).erase = assign s () v.erase () := rfl

theorem mapAll_eq_map {β : Type} (f : α → β) (es : List (Expr α)) :
    mapAll f es = es.map (map f) := by
  induction es with
  | nil => rfl
  | cons e es ih => rw [mapAll, ih]; rfl

@[simp] theorem erase_call (e : Expr α) (es : List (Expr α)) (n : α) :
    (call e es n).erase = call e.erase (es.map erase) () := by
  show call _ (mapAll _ es) () = _
  rw [mapAll_eq_map]
  rfl

end Expr

namespace Stmt

variable {α : Type}

theorem mapAll_eq_map {β : Type} (f : α → β) (ss : List (Stmt α)) :
    mapAll f ss = ss.map (map f) := by
  induction ss with
  | nil => rfl
  | cons s ss ih => rw [mapAll, ih]; rfl

@[simp] theorem erase_expression (e : Expr α) (n : α) :
    (expression e n).erase = expression e.erase () := rfl

@[simp] theorem erase_declare (s : String) (e : Option (Expr α)) (n : α) :
    (declare s e n).erase = declare s (e.map Expr.erase) () := rfl

@[simp] theorem erase_block (ss : List (Stmt α)) (n : α) :
    (block ss n).erase = block (ss.map erase) () := by
  show block (mapAll _ ss) () = _
  rw [mapAll_eq_map]
  rfl

@[simp] theorem erase_branch_none (c : Expr α) (t : Stmt α) (n : α) :
    (branch c t none n).erase = branch c.erase t.erase none () := rfl

@[simp] theorem erase_branch_some (c : Expr α) (t e : Stmt α) (n : α) :
    (branch c t (some e) n).erase = branch c.erase t.erase (some e.erase) () := rfl

@[simp] theorem erase_loop (c : Expr α) (b : Stmt α) (n : α) :
    (loop c b n).erase = loop c.erase b.erase () := rfl

@[simp] theorem erase_function (s : String) (ps : List String) (ss : List (Stmt α)) (n : α) :
    (function s ps ss n).erase = function s ps (ss.map erase) () := by
  show function s ps (mapAll _ ss) () = _
  rw [mapAll_eq_map]
  rfl

@[simp] theorem erase_ret (e : Option (Expr α)) (n : α) :
    (ret e n).erase = ret (e.map Expr.erase) () := rfl

end Stmt

end Scriptorium
