import Scriptorium.Proofs.Shape

/-!
# The grammar

`Spells` and `SpellsStmt` say which words spell a tree.  They say nothing about
precedence: that is for `Expr.Shaped` and `Stmt.Shaped`, and a shaped tree together
with a spelling of it is what a reader has to find.  Line breaks may stand in front
of most words, but neither between a callee and the parenthesis of its arguments nor
between the name of a variable and the sign of its first value.

A `for` spells the statements that it stands for.  Its words can leave a conditional
open although its tree, a block, does not, so the words of a statement carry a flag of
their own, `opn`: do they end in a conditional that still lacks an `else`?

* `Separated` — items with commas between them;
* `Phrase`, `Spells` — expressions and lists of arguments;
* `StmtPhrase`, `SpellsStmt` — statements, the bodies of blocks and the first clauses
  of loops.
-/

namespace Scriptorium

/-! ## Lists -/

/-- Words for items, with commas between two of them. -/
inductive Separated {α : Type} (R : α → List Word → Prop) : List α → List Word → Prop where
  /-- No items. -/
  | none : Separated R [] []
  /-- One item. -/
  | one {x : α} {ws : List Word} : R x ws → Separated R [x] ws
  /-- Another item in front of some. -/
  | more {x y : α} {xs : List α} {ws nls vs : List Word} {comma : Word} :
      R x ws → Blank nls → comma.is "," = true → Separated R (y :: xs) vs →
      Separated R (x :: y :: xs) (ws ++ nls ++ comma :: vs)

theorem Separated.imp {α : Type} {R S : α → List Word → Prop} (h : ∀ x ws, R x ws → S x ws)
    {xs : List α} {ws : List Word} (hs : Separated R xs ws) : Separated S xs ws := by
  induction hs with
  | none => exact .none
  | one hx => exact .one (h _ _ hx)
  | more hx hnls hcomma _ ih => exact .more (h _ _ hx) hnls hcomma ih

/-! ## Expressions -/

/-- What a part of an expression can be. -/
inductive Phrase where
  /-- An expression. -/
  | expr (e : Expr Unit)
  /-- Arguments. -/
  | args (es : List (Expr Unit))

/-- The words spell the phrase. -/
inductive Spells : Phrase → List Word → Prop where
  /-- Line breaks may stand in front of an expression. -/
  | lead {e : Expr Unit} {nl : Word} {ws : List Word} :
      nl.isNewline = true → Spells (.expr e) ws → Spells (.expr e) (nl :: ws)
  /-- A number. -/
  | int (value : Nat) : Spells (.expr (.literal (.int value) ())) [⟨.int value, ""⟩]
  /-- A text. -/
  | str (text : String) : Spells (.expr (.literal (.str text) ())) [⟨.string, text⟩]
  /-- A truth value. -/
  | bool (b : Bool) :
      Spells (.expr (.literal (.bool b) ())) [.keyword (if b then "true" else "false")]
  /-- A variable. -/
  | reference (name : String) : Spells (.expr (.reference name ())) [.symbol name]
  /-- An expression in parentheses. -/
  | group {e : Expr Unit} {ws nls : List Word} {closing : Word} :
      Spells (.expr e) ws → Blank nls → closing.is ")" = true →
      Spells (.expr (.group e ())) (.punct "(" :: (ws ++ nls ++ [closing]))
  /-- A sign and its operand. -/
  | unary {op : UnaryOp} {e : Expr Unit} {sign : Word} {ws : List Word} :
      sign.sign? = some op → Spells (.expr e) ws → Spells (.expr (.unary op e ())) (sign :: ws)
  /-- An operator between its operands. -/
  | operation {op : Connective} {left right : Expr Unit} {ws nls vs : List Word} {w : Word} :
      Spells (.expr left) ws → Blank nls → w.connective? = some op → Spells (.expr right) vs →
      Spells (.expr (op.tree left right)) (ws ++ nls ++ w :: vs)
  /-- An assignment. -/
  | assign {name : String} {value : Expr Unit} {ws nls vs : List Word} {w : Word} :
      Spells (.expr (.reference name ())) ws → Blank nls → w.is "=" = true →
      Spells (.expr value) vs →
      Spells (.expr (.assign name () value ())) (ws ++ nls ++ w :: vs)
  /-- A call. -/
  | call {callee : Expr Unit} {es : List (Expr Unit)} {ws vs nls : List Word}
      {opening closing : Word} :
      Spells (.expr callee) ws → opening.is "(" = true → Spells (.args es) vs → Blank nls →
      closing.is ")" = true →
      Spells (.expr (.call callee es ())) (ws ++ opening :: (vs ++ nls ++ [closing]))
  /-- No arguments. -/
  | noArgs : Spells (.args []) []
  /-- One argument. -/
  | oneArg {e : Expr Unit} {ws : List Word} : Spells (.expr e) ws → Spells (.args [e]) ws
  /-- Another argument in front of some. -/
  | moreArgs {e e' : Expr Unit} {es : List (Expr Unit)} {ws nls vs : List Word} {comma : Word} :
      Spells (.expr e) ws → Blank nls → comma.is "," = true → Spells (.args (e' :: es)) vs →
      Spells (.args (e :: e' :: es)) (ws ++ nls ++ comma :: vs)

/-- Separated expressions spell a list of arguments. -/
theorem Spells.ofSeparated {es : List (Expr Unit)} {ws : List Word}
    (h : Separated (fun e ws => Spells (.expr e) ws) es ws) : Spells (.args es) ws := by
  induction h with
  | none => exact .noArgs
  | one h => exact .oneArg h
  | more h hnls hcomma _ ih => exact .moreArgs h hnls hcomma ih

theorem Spells.leads {e : Expr Unit} {nls ws : List Word} (hnls : Blank nls)
    (h : Spells (.expr e) ws) : Spells (.expr e) (nls ++ ws) := by
  induction nls with
  | nil => exact h
  | cons nl nls ih =>
    rw [blank_cons] at hnls
    exact .lead hnls.1 (ih hnls.2)

/-- A condition in parentheses. -/
inductive SpellsCondition : Expr Unit → List Word → Prop where
  /-- The parentheses and what they hold. -/
  | mk {e : Expr Unit} {nls₁ ws nls₂ : List Word} {opening closing : Word} :
      Blank nls₁ → opening.is "(" = true → Spells (.expr e) ws → Blank nls₂ →
      closing.is ")" = true →
      SpellsCondition e (nls₁ ++ opening :: (ws ++ nls₂ ++ [closing]))

/-- A clause of a loop, which may be absent, and the mark that ends it. -/
inductive SpellsClause (mark : String) : Option (Expr Unit) → List Word → Prop where
  /-- Only the mark. -/
  | none {nls : List Word} {w : Word} :
      Blank nls → w.is mark = true → SpellsClause mark none (nls ++ [w])
  /-- An expression and the mark. -/
  | some {e : Expr Unit} {ws nls : List Word} {w : Word} :
      Spells (.expr e) ws → Blank nls → w.is mark = true →
      SpellsClause mark (some e) (ws ++ nls ++ [w])

/-- A name, perhaps after line breaks. -/
inductive SpellsName : String → List Word → Prop where
  /-- The name. -/
  | mk {name : String} {nls : List Word} : Blank nls → SpellsName name (nls ++ [.symbol name])

theorem SpellsName.lead {name : String} {nls ws : List Word} (hnls : Blank nls)
    (h : SpellsName name ws) : SpellsName name (nls ++ ws) := by
  obtain ⟨hnls'⟩ := h
  rw [← List.append_assoc]
  exact .mk (blank_append.2 ⟨hnls, hnls'⟩)

/-! ## Loops with clauses -/

/-- The body of a loop with its last clause, if there is one. -/
def lowerBody (body : Stmt Unit) : Option (Expr Unit) → Stmt Unit
  | none => body
  | some last => .block [body, .expression last ()] ()

/-- The loop with its condition, which is `true` if it is absent. -/
def lowerLoop (cond last : Option (Expr Unit)) (body : Stmt Unit) : Stmt Unit :=
  .loop (cond.getD (.literal (.bool true) ())) (lowerBody body last) ()

/-- The statement that a loop with clauses stands for. -/
def lowerFor (first : Option (Stmt Unit)) (cond last : Option (Expr Unit)) (body : Stmt Unit) :
    Stmt Unit :=
  match first with
  | none => lowerLoop cond last body
  | some first => .block [first, lowerLoop cond last body] ()

/-- Can the statement be the first clause of a loop? -/
def Stmt.isSimple : Stmt Unit → Bool
  | .expression .. | .declare .. => true
  | _ => false

/-! ## Statements -/

/-- What a part of a program can be. -/
inductive StmtPhrase where
  /-- A statement; `opn` tells whether its words end in a conditional without `else`. -/
  | stmt (opn : Bool) (s : Stmt Unit)
  /-- The body of a block. -/
  | body (ss : List (Stmt Unit))
  /-- The first clause of a loop, with its semicolon. -/
  | first (s : Option (Stmt Unit))

/-- The words spell the phrase. -/
inductive SpellsStmt : StmtPhrase → List Word → Prop where
  /-- Line breaks may stand in front of a statement. -/
  | lead {o : Bool} {s : Stmt Unit} {nl : Word} {ws : List Word} :
      nl.isNewline = true → SpellsStmt (.stmt o s) ws → SpellsStmt (.stmt o s) (nl :: ws)
  /-- An expression. -/
  | expression {e : Expr Unit} {ws nls : List Word} {semi : Word} :
      Spells (.expr e) ws → Blank nls → semi.is ";" = true →
      SpellsStmt (.stmt false (.expression e ())) (ws ++ nls ++ [semi])
  /-- The declaration of a variable. -/
  | declare {name : String} {ns nls : List Word} {kw semi : Word} :
      kw.is "var" = true → SpellsName name ns → Blank nls → semi.is ";" = true →
      SpellsStmt (.stmt false (.declare name none ())) (kw :: (ns ++ nls ++ [semi]))
  /-- The declaration of a variable with a value. -/
  | initialise {name : String} {e : Expr Unit} {ns ws nls : List Word} {kw eq semi : Word} :
      kw.is "var" = true → SpellsName name ns → eq.is "=" = true → Spells (.expr e) ws →
      Blank nls → semi.is ";" = true →
      SpellsStmt (.stmt false (.declare name (some e) ()))
        (kw :: (ns ++ eq :: (ws ++ nls ++ [semi])))
  /-- A block. -/
  | block {ss : List (Stmt Unit)} {ws nls : List Word} {opening closing : Word} :
      opening.is "\x7b" = true → SpellsStmt (.body ss) ws → Blank nls →
      closing.is "\x7d" = true →
      SpellsStmt (.stmt false (.block ss ())) (opening :: (ws ++ nls ++ [closing]))
  /-- A conditional without `else`. -/
  | branch {o : Bool} {c : Expr Unit} {t : Stmt Unit} {cs ws : List Word} {kw : Word} :
      kw.is "if" = true → SpellsCondition c cs → SpellsStmt (.stmt o t) ws →
      t.isVariable = false →
      SpellsStmt (.stmt true (.branch c t none ())) (kw :: (cs ++ ws))
  /-- A conditional with `else`. -/
  | branchElse {o : Bool} {c : Expr Unit} {t e : Stmt Unit} {cs ws nls vs : List Word}
      {kw els : Word} :
      kw.is "if" = true → SpellsCondition c cs → SpellsStmt (.stmt false t) ws →
      t.isVariable = false → Blank nls → els.is "else" = true → SpellsStmt (.stmt o e) vs →
      e.isVariable = false →
      SpellsStmt (.stmt o (.branch c t (some e) ())) (kw :: (cs ++ ws ++ nls ++ els :: vs))
  /-- A loop. -/
  | loop {o : Bool} {c : Expr Unit} {b : Stmt Unit} {cs ws : List Word} {kw : Word} :
      kw.is "while" = true → SpellsCondition c cs → SpellsStmt (.stmt o b) ws →
      b.isVariable = false →
      SpellsStmt (.stmt o (.loop c b ())) (kw :: (cs ++ ws))
  /-- A loop with clauses. -/
  | forLoop {o : Bool} {first : Option (Stmt Unit)} {cond last : Option (Expr Unit)}
      {b : Stmt Unit} {nls fs cs ls ws : List Word} {kw opening : Word} :
      kw.is "for" = true → Blank nls → opening.is "(" = true → SpellsStmt (.first first) fs →
      SpellsClause ";" cond cs → SpellsClause ")" last ls → SpellsStmt (.stmt o b) ws →
      b.isVariable = false →
      SpellsStmt (.stmt o (lowerFor first cond last b))
        (kw :: (nls ++ opening :: (fs ++ cs ++ ls ++ ws)))
  /-- The declaration of a function. -/
  | function {name : String} {params : List String} {ss : List (Stmt Unit)}
      {ns nls₁ ps nls₂ nls₃ ws nls₄ : List Word} {kw opening closing lbrace rbrace : Word} :
      kw.is "fun" = true → SpellsName name ns → Blank nls₁ → opening.is "(" = true →
      Separated SpellsName params ps → Blank nls₂ → closing.is ")" = true → Blank nls₃ →
      lbrace.is "\x7b" = true → SpellsStmt (.body ss) ws → Blank nls₄ →
      rbrace.is "\x7d" = true →
      SpellsStmt (.stmt false (.function name params ss ()))
        (kw :: (ns ++ nls₁ ++ opening :: (ps ++ nls₂ ++ closing :: (nls₃ ++ lbrace ::
          (ws ++ nls₄ ++ [rbrace])))))
  /-- A `return`. -/
  | ret {value : Option (Expr Unit)} {ws : List Word} {kw : Word} :
      kw.is "return" = true → SpellsClause ";" value ws →
      SpellsStmt (.stmt false (.ret value ())) (kw :: ws)
  /-- An empty body. -/
  | nil : SpellsStmt (.body []) []
  /-- Another statement in front of a body. -/
  | cons {o : Bool} {s : Stmt Unit} {ss : List (Stmt Unit)} {ws vs : List Word} :
      SpellsStmt (.stmt o s) ws → SpellsStmt (.body ss) vs →
      SpellsStmt (.body (s :: ss)) (ws ++ vs)
  /-- No first clause. -/
  | noFirst {nls : List Word} {semi : Word} :
      Blank nls → semi.is ";" = true → SpellsStmt (.first none) (nls ++ [semi])
  /-- A first clause. -/
  | first {s : Stmt Unit} {ws : List Word} :
      SpellsStmt (.stmt false s) ws → s.isSimple = true → SpellsStmt (.first (some s)) ws

theorem SpellsStmt.leads {o : Bool} {s : Stmt Unit} {nls ws : List Word} (hnls : Blank nls)
    (h : SpellsStmt (.stmt o s) ws) : SpellsStmt (.stmt o s) (nls ++ ws) := by
  induction nls with
  | nil => exact h
  | cons nl nls ih =>
    rw [blank_cons] at hnls
    exact .lead hnls.1 (ih hnls.2)

theorem SpellsStmt.firstLeads {s : Option (Stmt Unit)} {nls ws : List Word} (hnls : Blank nls)
    (h : SpellsStmt (.first s) ws) : SpellsStmt (.first s) (nls ++ ws) := by
  cases h with
  | noFirst hnls' hsemi =>
    rw [← List.append_assoc]
    exact .noFirst (blank_append.2 ⟨hnls, hnls'⟩) hsemi
  | first hs hsimple => exact .first (hs.leads hnls) hsimple

end Scriptorium
