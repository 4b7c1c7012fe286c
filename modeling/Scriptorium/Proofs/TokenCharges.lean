import Scriptorium.Proofs.ArenaGrowth
import Scriptorium.Proofs.ErrorTokens
import Scriptorium.Proofs.ParserRuns

/-!
# What parsers store is paid by tokens

A parser is *thrifty*: the tokens that it takes pay for what it stores.  A token that is no line
break and not the end of the text is worth one, and so is each entry of the table of the arena
that is looked at.  What is not spent is credit for what is stored later.

The same tokens bound how often and how deep the parsers call each other.  So it is said at once
that the bounds on this never matter: two parsers, which differ in these bounds, do the same on
states that differ in the bound they hold.

* `Token.isSolid`, `ParseState.solid` — the tokens that pay;
* `Weights` — which tables are looked at, and `Weights.total` — the number of their entries;
* `Follows` — a state comes from another one, with a credit before and a credit after;
* `Thrifty` — the contract, and `Thrifty.bind`, `ThriftyAt.take_bind`, `Thrifty.addExpr`,
  `Thrifty.addExprs` — how credit is passed on, earned and spent.
-/

namespace Scriptorium

/-! ## Tokens and states -/

/-- Is the token neither a line break nor the end of the text? -/
def Token.isSolid (t : Token) : Bool := !t.isNewline && !t.isEnd

theorem Token.isSolid_of_is {t : Token} {text : String} (h : t.is text = true) :
    t.isSolid = true := by
  obtain ⟨hend, hnewline⟩ := not_isEnd_of_is h
  rw [isSolid, hend, hnewline]
  rfl

theorem Token.isEnd_of_isSolid {t : Token} (h : t.isSolid = true) : t.isEnd = false := by
  simp only [isSolid, Bool.and_eq_true, Bool.not_eq_true'] at h
  exact h.2

namespace ParseState

/-- The number of the tokens left that are neither line breaks nor the end of the text. -/
def solid (s : ParseState) : Nat := (s.current :: s.rest).countP Token.isSolid

/-- The last of the tokens left is the end of the text. -/
def Ended (s : ParseState) : Prop := ∀ t ∈ (s.current :: s.rest).getLast?, t.isEnd = true

/-- The state with another bound on nesting and repetition. -/
def resize (s : ParseState) (size : Nat) : ParseState := { s with size }

variable {s : ParseState}

theorem resize_advance (s : ParseState) (size : Nat) :
    (s.resize size).advance = s.advance.resize size := by
  unfold advance resize
  cases s.rest <;> rfl

theorem resize_skipNewlines (s : ParseState) (size : Nat) :
    (s.resize size).skipNewlines = s.skipNewlines.resize size := rfl

theorem arena_advance (s : ParseState) : s.advance.arena = s.arena :=
  congrArg Code.arena s.code_advance

/-- Before the end of the text there is a further token. -/
theorem Ended.advance_eq (h : s.Ended) (hend : s.current.isEnd = false) :
    s.rest = s.advance.current :: s.advance.rest := by
  cases hrest : s.rest with
  | nil =>
    have hlast := h s.current (by rw [hrest]; rfl)
    rw [hend] at hlast
    cases hlast
  | cons t rest => simp [advance, hrest]

theorem Ended.advance (h : s.Ended) (hend : s.current.isEnd = false) : s.advance.Ended := by
  intro t ht
  refine h t ?_
  rw [h.advance_eq hend, List.getLast?_cons_cons]
  exact ht

/-- A token that is taken is no longer left. -/
theorem Ended.solid_advance (h : s.Ended) (hsolid : s.current.isSolid = true) :
    s.advance.solid + 1 = s.solid := by
  unfold solid
  rw [h.advance_eq (Token.isEnd_of_isSolid hsolid), List.countP_cons_of_pos hsolid]

/-- Line breaks are taken without loss. -/
theorem dropNewlines_spec (current : Token) (previous : Span) (rest : List Token) :
    let r := dropNewlines current previous rest
    (r.1 :: r.2.2).countP Token.isSolid = (current :: rest).countP Token.isSolid ∧
      (r.1 :: r.2.2).getLast? = (current :: rest).getLast? := by
  induction rest generalizing current previous with
  | nil => exact ⟨rfl, rfl⟩
  | cons token rest ih =>
    unfold dropNewlines
    by_cases hn : current.isNewline = true
    · rw [if_pos hn]
      obtain ⟨hcount, hlast⟩ := ih token current.span
      refine ⟨?_, by rw [hlast, List.getLast?_cons_cons]⟩
      rw [hcount, List.countP_cons_of_neg (a := current)]
      simp [Token.isSolid, hn]
    · rw [if_neg hn]
      exact ⟨rfl, rfl⟩

theorem solid_skipNewlines (s : ParseState) : s.skipNewlines.solid = s.solid :=
  (dropNewlines_spec s.current s.previous s.rest).1

theorem Ended.skipNewlines (h : s.Ended) : s.skipNewlines.Ended := by
  intro t ht
  refine h t ?_
  rwa [← (dropNewlines_spec s.current s.previous s.rest).2]

end ParseState

/-! ## Weights -/

/-- What an entry of each table of an arena counts. -/
structure Weights where
  /-- An expression. -/
  exprs : Nat
  /-- An entry of a list of arguments. -/
  exprLists : Nat
  /-- A statement. -/
  stmts : Nat
  /-- An entry of a list of statements. -/
  stmtLists : Nat
  /-- A parameter. -/
  params : Nat

theorem size_appendList {ι : Type} (table : Array ι) (l : List ι) :
    (table.appendList l).size = table.size + l.length := by
  rw [← Array.length_toList, ← Array.length_toList, ← List.length_append]
  exact congrArg List.length (by simp)

namespace Weights

variable (w : Weights)

/-- The entries of at most one table count, and each of them one. -/
def AtMostOne : Prop := w.exprs + w.exprLists + w.stmts + w.stmtLists + w.params ≤ 1

/-- What the entries of an arena count together. -/
def total (a : Arena) : Nat :=
  w.exprs * a.exprs.size + w.exprLists * a.exprLists.size + w.stmts * a.stmts.size +
    w.stmtLists * a.stmtLists.size + w.params * a.params.size

/-- The entries of the arena and the tokens that are left. -/
def cost (s : ParseState) : Nat := w.total s.arena + s.solid

@[simp]
theorem total_addExpr (a : Arena) (node : ExprNode) :
    w.total (a.addExpr node).2 = w.total a + w.exprs := by
  simp only [total, Arena.addExpr, Array.size_push, Nat.mul_add_one]
  omega

@[simp]
theorem total_addStmt (a : Arena) (node : StmtNode) :
    w.total (a.addStmt node).2 = w.total a + w.stmts := by
  simp only [total, Arena.addStmt, Array.size_push, Nat.mul_add_one]
  omega

@[simp]
theorem total_addExprs (a : Arena) (ids : List ExprId) :
    w.total (a.addExprs ids).2 = w.total a + w.exprLists * ids.length := by
  simp only [total, Arena.addExprs, size_appendList, Nat.mul_add]
  omega

@[simp]
theorem total_addStmts (a : Arena) (ids : List StmtId) :
    w.total (a.addStmts ids).2 = w.total a + w.stmtLists * ids.length := by
  simp only [total, Arena.addStmts, size_appendList, Nat.mul_add]
  omega

@[simp]
theorem total_addParams (a : Arena) (names : List NameId) :
    w.total (a.addParams names).2 = w.total a + w.params * names.length := by
  simp only [total, Arena.addParams, size_appendList, Nat.mul_add]
  omega

end Weights

/-! ## The contract -/

/-- The state `t` comes after `s`: tokens were taken and entries added, and the credit `c`
before and the tokens have paid for the entries and the credit `d` after. -/
structure Follows (w : Weights) (c d : Nat) (s t : ParseState) : Prop where
  ended : t.Ended
  size : t.size = s.size
  solid : t.solid ≤ s.solid
  grown : w.total s.arena ≤ w.total t.arena
  paid : w.cost t + d ≤ w.cost s + c

/-- Fewer than `n` of the tokens left count, and the bounds on nesting and repetition, which is
`size` in another run, are larger than their number. -/
structure ParseState.Roomy (n size : Nat) (s : ParseState) : Prop where
  ended : s.Ended
  few : s.solid < n
  here : s.solid < s.size
  there : s.solid < size

variable {w : Weights} {n m c d : Nat} {α β : Type}

theorem Follows.trans {e : Nat} {s t u : ParseState} (h : Follows w c d s t)
    (h' : Follows w d e t u) : Follows w c e s u :=
  ⟨h'.ended, h'.size.trans h.size, h'.solid.trans h.solid, h.grown.trans h'.grown, by
    have := h.paid
    have := h'.paid
    omega⟩

/-- If there is more credit after than before, a token was taken. -/
theorem Follows.solid_lt {s t : ParseState} (h : Follows w c d s t) (hcd : c < d) :
    t.solid < s.solid := by
  have hpaid := h.paid
  have hgrown := h.grown
  unfold Weights.cost at hpaid
  omega

theorem ParseState.Ended.follows_skipNewlines {s : ParseState} (h : s.Ended) :
    Follows w c c s s.skipNewlines := by
  refine ⟨h.skipNewlines, rfl, s.solid_skipNewlines.le, le_rfl, ?_⟩
  rw [Weights.cost, Weights.cost, s.solid_skipNewlines]
  exact le_rfl

theorem Follows.roomy {size : Nat} {s t : ParseState} (h : Follows w c d s t)
    (hs : s.Roomy n size) : t.Roomy n size :=
  ⟨h.ended, h.solid.trans_lt hs.few, h.size ▸ h.solid.trans_lt hs.here, h.solid.trans_lt hs.there⟩

/-- The run from `s` and the run from `s` with the bound `size` end in the same way, and thriftily:
with the credit `d` after a success, if there was the credit `c` before. -/
inductive Balanced (w : Weights) (size c : Nat) (s : ParseState) (d : α → Nat) :
    EStateM.Result ParseError ParseState α → EStateM.Result ParseError ParseState α → Prop where
  /-- Both succeed. -/
  | ok {a : α} {t : ParseState} :
      Follows w c (d a) s t → Balanced w size c s d (.ok a t) (.ok a (t.resize size))
  /-- Both fail. -/
  | error {e : ParseError} {t : ParseState} :
      w.cost t ≤ w.cost s + c → Balanced w size c s d (.error e t) (.error e (t.resize size))

/-- With fewer than `n` tokens left that count, of which `token` is the first, the parsers do the
same, whatever bound the state holds, and what they store is paid for by the credit before and
the tokens they take. -/
def ThriftyAt (token : Token) (w : Weights) (n c : Nat) (p q : Parser α) (d : α → Nat) : Prop :=
  ∀ s size, s.Roomy n size → s.current = token → Balanced w size c s d (p s) (q (s.resize size))

/-- The same with any token. -/
def Thrifty (w : Weights) (n c : Nat) (p q : Parser α) (d : α → Nat) : Prop :=
  ∀ token, ThriftyAt token w n c p q d

/-- What follows in a state that comes after another one. -/
theorem Follows.balanced {size : Nat} {s t : ParseState} {e : β → Nat}
    {x y : EStateM.Result ParseError ParseState β} (h : Follows w c d s t)
    (h' : Balanced w size d t e x y) : Balanced w size c s e x y := by
  have hpaid := h.paid
  cases h' with
  | ok hfollows => exact .ok (h.trans hfollows)
  | error hcost => exact .error (by omega)

namespace ThriftyAt

variable {token : Token} {p q : Parser α} {f g : α → Parser β} {d : α → Nat} {e : β → Nat}

/-- What works with more tokens left works with fewer. -/
theorem mono (h : ThriftyAt token w n c p q d) (hmn : m ≤ n) : ThriftyAt token w m c p q d :=
  fun s size hs => h s size ⟨hs.ended, hs.few.trans_le hmn, hs.here, hs.there⟩

/-- Credit that is not needed is left over. -/
theorem spare {c' : Nat} {d' : α → Nat} (h : ThriftyAt token w n c p q d) (k : Nat)
    (hc : c + k ≤ c') (hd : ∀ a, d' a ≤ d a + k) : ThriftyAt token w n c' p q d' := by
  intro s size hs htoken
  have hends := h s size hs htoken
  revert hends
  generalize p s = x
  generalize q (s.resize size) = y
  rintro (@⟨a, t, h⟩ | @⟨e, t, h⟩)
  · have hpaid := h.paid
    have := hd a
    exact .ok ⟨h.ended, h.size, h.solid, h.grown, by omega⟩
  · exact .error (by omega)

/-- The second parser starts in a state that comes after one with room for the first. -/
theorem bind_follows (hp : ThriftyAt token w n c p q d)
    (hf : ∀ a s t size, s.Roomy n size → Follows w c (d a) s t →
      Balanced w size (d a) t e (f a t) (g a (t.resize size))) :
    ThriftyAt token w n c (p >>= f) (q >>= g) e := by
  intro s size hs htoken
  have hends := hp s size hs htoken
  show Balanced w size c s e (EStateM.bind p f s) (EStateM.bind q g (s.resize size))
  unfold EStateM.bind
  revert hends
  generalize p s = x
  generalize q (s.resize size) = y
  rintro (@⟨a, t, h⟩ | h)
  · exact h.balanced (hf a s t size hs h)
  · exact .error h

theorem bind (hp : ThriftyAt token w n c p q d)
    (hf : ∀ a, Thrifty w n (d a) (f a) (g a) e) :
    ThriftyAt token w n c (p >>= f) (q >>= g) e :=
  hp.bind_follows fun a _ t size hs h => hf a t.current t size (h.roomy hs) rfl

/-- A parser that leaves more credit than there was before has taken a token, which makes room
for a level of nesting. -/
theorem bind_room (hp : ThriftyAt token w n c p q d) (hd : ∀ a, c < d a)
    (hf : ∀ a, Thrifty w (n - 1) (d a) (f a) (g a) e) :
    ThriftyAt token w n c (p >>= f) (q >>= g) e := by
  refine hp.bind_follows fun a s t size hs h => ?_
  have hroomy := h.roomy hs
  have hfewer : t.solid < n - 1 := by
    have := h.solid_lt (hd a)
    have := hs.few
    omega
  exact hf a t.current t size ⟨hroomy.ended, hfewer, hroomy.here, hroomy.there⟩ rfl

theorem pure (a : α) (h : d a ≤ c) :
    ThriftyAt token w n c (Pure.pure a) (Pure.pure a) d := fun _ _ hs _ =>
  .ok ⟨hs.ended, rfl, le_rfl, le_rfl, Nat.add_le_add_left h _⟩

theorem map {h : α → β} (hp : ThriftyAt token w n c p q fun a => e (h a)) :
    ThriftyAt token w n c (h <$> p) (h <$> q) e := by
  rw [map_eq_pure_bind, map_eq_pure_bind]
  exact hp.bind fun a token => pure (h a) le_rfl

/-- A token that is taken is worth one. -/
theorem advance (htoken : token.isSolid = true) :
    ThriftyAt token w n c Parser.advance Parser.advance fun _ => c + 1 := by
  rintro s size hs rfl
  have hsolid := hs.ended.solid_advance htoken
  have hfollows : Follows w c (c + 1) s s.advance := by
    refine ⟨hs.ended.advance (Token.isEnd_of_isSolid htoken), s.size_advance, by omega,
      by rw [s.arena_advance], ?_⟩
    rw [Weights.cost, Weights.cost, s.arena_advance]
    omega
  show Balanced w size c s _ (.ok s.current s.advance) (.ok s.current (s.resize size).advance)
  rw [s.resize_advance]
  exact .ok hfollows

theorem advance_bind {f g : Token → Parser β} (htoken : token.isSolid = true)
    (h : ∀ t, Thrifty w (n - 1) (c + 1) (f t) (g t) e) :
    ThriftyAt token w n c (Parser.advance >>= f) (Parser.advance >>= g) e :=
  (advance htoken).bind_room (fun _ => Nat.lt_succ_self c) h

theorem ite {P : Prop} [Decidable P] {p' q' : Parser α} (hp : ThriftyAt token w n c p q d)
    (hq : ThriftyAt token w n c p' q' d) :
    ThriftyAt token w n c (if P then p else p') (if P then q else q') d := by
  split
  · exact hp
  · exact hq

/-- A token that is a mark counts. -/
theorem ite_is {text : String} {p' q' : Parser α}
    (hp : token.isSolid = true → ThriftyAt token w n c p q d)
    (hq : ThriftyAt token w n c p' q' d) :
    ThriftyAt token w n c (if token.is text then p else p') (if token.is text then q else q') d := by
  split
  · next his => exact hp (Token.isSolid_of_is his)
  · exact hq

theorem current_bind {f g : Token → Parser β}
    (h : ThriftyAt token w n c (f token) (g token) e) :
    ThriftyAt token w n c (Parser.current >>= f) (Parser.current >>= g) e := by
  rintro s size hs rfl
  exact h s size hs rfl

/-- The next token stays where it is while a name is looked up. -/
theorem intern_bind {text : String} {f g : NameId → Parser β}
    (h : ∀ name, ThriftyAt token w n c (f name) (g name) e) :
    ThriftyAt token w n c (Parser.intern text >>= f) (Parser.intern text >>= g) e := by
  intro s size hs htoken
  have hfollows : Follows w c c s { s with names := (s.names.intern text).2 } :=
    ⟨hs.ended, rfl, le_rfl, le_rfl, le_rfl⟩
  exact hfollows.balanced (h (s.names.intern text).1 _ size (hfollows.roomy hs) htoken)

end ThriftyAt

namespace Thrifty

variable {p q : Parser α} {f g : α → Parser β} {d : α → Nat} {e : β → Nat}

theorem mono (h : Thrifty w n c p q d) (hmn : m ≤ n) : Thrifty w m c p q d :=
  fun token => (h token).mono hmn

theorem spare {c' : Nat} {d' : α → Nat} (h : Thrifty w n c p q d) (k : Nat) (hc : c + k ≤ c')
    (hd : ∀ a, d' a ≤ d a + k) : Thrifty w n c' p q d' :=
  fun token => (h token).spare k hc hd

theorem bind (hp : Thrifty w n c p q d) (hf : ∀ a, Thrifty w n (d a) (f a) (g a) e) :
    Thrifty w n c (p >>= f) (q >>= g) e :=
  fun token => (hp token).bind hf

theorem bind_room (hp : Thrifty w n c p q d) (hd : ∀ a, c < d a)
    (hf : ∀ a, Thrifty w (n - 1) (d a) (f a) (g a) e) : Thrifty w n c (p >>= f) (q >>= g) e :=
  fun token => (hp token).bind_room hd hf

/-- The credit that a parser leaves is added to the credit before it. -/
theorem after (h : Thrifty w n 0 p q d) (c : Nat) : Thrifty w n c p q fun a => c + d a :=
  h.spare c (Nat.zero_add c).le fun _ => (Nat.add_comm _ _).le

/-- Some token is always left. -/
theorem of_le_zero (hn : n ≤ 0) : Thrifty w n c p q d :=
  fun _ _ _ hs _ => absurd (hs.few.trans_le hn) (Nat.not_lt_zero _)

theorem ite {P : Prop} [Decidable P] {p' q' : Parser α} (hp : Thrifty w n c p q d)
    (hq : Thrifty w n c p' q' d) : Thrifty w n c (if P then p else p') (if P then q else q') d :=
  fun token => (hp token).ite (hq token)

theorem pure (a : α) (h : d a ≤ c) : Thrifty w n c (Pure.pure a) (Pure.pure a) d :=
  fun _ => .pure a h

theorem map {h : α → β} (hp : Thrifty w n c p q fun a => e (h a)) :
    Thrifty w n c (h <$> p) (h <$> q) e :=
  fun token => (hp token).map

/-! ### Errors -/

theorem fail (fault : ParseFault) (token : Token) :
    Thrifty w n c (Parser.fail fault token) (Parser.fail fault token) d :=
  fun _ _ _ _ _ => .error (Nat.le_add_right _ _)

/-- Nothing follows an error. -/
theorem fail_bind {f g : α → Parser β} (fault : ParseFault) (token : Token) :
    Thrifty w n c (Parser.fail fault token >>= f) (Parser.fail fault token >>= g) e :=
  fun _ _ _ _ _ => .error (Nat.le_add_right _ _)

theorem expectedExpression :
    Thrifty w n c Parser.expectedExpression Parser.expectedExpression d :=
  fun _ _ _ _ _ => .error (Nat.le_add_right _ _)

/-! ### Tokens -/

theorem current_bind {f g : Token → Parser β}
    (h : ∀ token, ThriftyAt token w n c (f token) (g token) e) :
    Thrifty w n c (Parser.current >>= f) (Parser.current >>= g) e :=
  fun _ s size hs _ => h s.current s size hs rfl

theorem skipNewlines : Thrifty w n c Parser.skipNewlines Parser.skipNewlines fun _ => c :=
  fun _ _ _ hs _ => .ok hs.ended.follows_skipNewlines

theorem skipNewlines_bind {f g : Unit → Parser β} (h : Thrifty w n c (f ()) (g ()) e) :
    Thrifty w n c (Parser.skipNewlines >>= f) (Parser.skipNewlines >>= g) e :=
  skipNewlines.bind fun _ => h

/-- A mark that was found is there to be taken. -/
theorem check_bind {text : String} {f g : Bool → Parser β}
    (htrue : ∀ token, token.isSolid = true → ThriftyAt token w n c (f true) (g true) e)
    (hfalse : Thrifty w n c (f false) (g false) e) :
    Thrifty w n c (Parser.check text >>= f) (Parser.check text >>= g) e := by
  intro _ s size hs _
  show Balanced w size c s e (f (s.current.is text) s) (g (s.current.is text) (s.resize size))
  cases hcheck : s.current.is text with
  | true => exact htrue _ (Token.isSolid_of_is hcheck) s size hs rfl
  | false => exact hfalse _ s size hs rfl

theorem expect (text : String) :
    Thrifty w n c (Parser.expect text) (Parser.expect text) fun _ => c + 1 :=
  current_bind fun token => .ite_is .advance (fail _ token token)

/-- A mark that has to come next is worth one. -/
theorem expect_bind {text : String} {f g : Token → Parser β}
    (h : ∀ t, Thrifty w (n - 1) (c + 1) (f t) (g t) e) :
    Thrifty w n c (Parser.expect text >>= f) (Parser.expect text >>= g) e :=
  (expect text).bind_room (fun _ => Nat.lt_succ_self c) h

/-- The bound that the state holds is enough for the tokens that are left. -/
theorem size_bind {f g : Nat → Parser β}
    (h : ∀ m ≤ n, ∀ k k', m ≤ k → m ≤ k' → Thrifty w m c (f k) (g k') e) :
    Thrifty w n c (Parser.size >>= f) (Parser.size >>= g) e := fun _ s size hs _ =>
  h (s.solid + 1) hs.few s.size size hs.here hs.there s.current s size
    ⟨hs.ended, Nat.lt_succ_self _, hs.here, hs.there⟩ rfl

theorem spanFrom_bind {first : Span} {f g : Span → Parser β}
    (h : ∀ span, Thrifty w n c (f span) (g span) e) :
    Thrifty w n c (Parser.spanFrom first >>= f) (Parser.spanFrom first >>= g) e :=
  fun _ s size hs _ => h (first.merge s.previous) s.current s size hs rfl

/-! ### What is stored -/

/-- Entries are paid for with credit. -/
theorem store {p : Parser α} (r : ParseState → α × Arena × NameTable) {c d k : Nat}
    (hrun : ∀ s : ParseState, p s = .ok (r s).1 { s with arena := (r s).2.1, names := (r s).2.2 })
    (hsize : ∀ (s : ParseState) size, r (s.resize size) = r s)
    (htotal : ∀ s, w.total (r s).2.1 = w.total s.arena + k) (h : d + k ≤ c) :
    Thrifty w n c p p fun _ => d := by
  intro _ s size hs _
  rw [hrun s, hrun (s.resize size), hsize]
  refine .ok ⟨hs.ended, rfl, le_rfl, (Nat.le_add_right _ k).trans_eq (htotal s).symm, ?_⟩
  show w.total (r s).2.1 + s.solid + d ≤ w.total s.arena + s.solid + c
  rw [htotal]
  omega

theorem intern (text : String) :
    Thrifty w n c (Parser.intern text) (Parser.intern text) fun _ => c :=
  store (k := 0) (fun s => ((s.names.intern text).1, s.arena, (s.names.intern text).2))
    (fun _ => rfl) (fun _ _ => rfl) (fun _ => rfl) le_rfl

theorem addExpr {d : Nat} (kind : ExprKind) (span : Span) (h : d + w.exprs ≤ c) :
    Thrifty w n c (Parser.addExpr kind span) (Parser.addExpr kind span) fun _ => d :=
  store (fun s => (⟨(s.arena.addExpr ⟨kind, span⟩).1, ⟨kind, span⟩⟩,
      (s.arena.addExpr ⟨kind, span⟩).2, s.names)) (fun _ => rfl) (fun _ _ => rfl)
    (fun s => w.total_addExpr s.arena ⟨kind, span⟩) h

theorem addStmt {d : Nat} (kind : StmtKind) (span : Span) (h : d + w.stmts ≤ c) :
    Thrifty w n c (Parser.addStmt kind span) (Parser.addStmt kind span) fun _ => d :=
  store (fun s => ((s.arena.addStmt ⟨kind, span⟩).1, (s.arena.addStmt ⟨kind, span⟩).2, s.names))
    (fun _ => rfl) (fun _ _ => rfl) (fun s => w.total_addStmt s.arena ⟨kind, span⟩) h

theorem addStmtFrom {d : Nat} (kind : StmtKind) (first : Span) (h : d + w.stmts ≤ c) :
    Thrifty w n c (Parser.addStmtFrom kind first) (Parser.addStmtFrom kind first) fun _ => d :=
  spanFrom_bind fun span => addStmt kind span h

theorem addExprs {d : Nat} (ids : List ExprId) (h : d + w.exprLists * ids.length ≤ c) :
    Thrifty w n c (Parser.addExprs ids) (Parser.addExprs ids) fun _ => d :=
  store (fun s => ((s.arena.addExprs ids).1, (s.arena.addExprs ids).2, s.names)) (fun _ => rfl)
    (fun _ _ => rfl) (fun s => w.total_addExprs s.arena ids) h

theorem addStmts {d : Nat} (ids : List StmtId) (h : d + w.stmtLists * ids.length ≤ c) :
    Thrifty w n c (Parser.addStmts ids) (Parser.addStmts ids) fun _ => d :=
  store (fun s => ((s.arena.addStmts ids).1, (s.arena.addStmts ids).2, s.names)) (fun _ => rfl)
    (fun _ _ => rfl) (fun s => w.total_addStmts s.arena ids) h

theorem addParams {d : Nat} (names : List NameId) (h : d + w.params * names.length ≤ c) :
    Thrifty w n c (Parser.addParams names) (Parser.addParams names) fun _ => d :=
  store (fun s => ((s.arena.addParams names).1, (s.arena.addParams names).2, s.names))
    (fun _ => rfl) (fun _ _ => rfl) (fun s => w.total_addParams s.arena names) h

end Thrifty

end Scriptorium
