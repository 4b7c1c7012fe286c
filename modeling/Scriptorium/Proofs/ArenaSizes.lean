import Scriptorium.Proofs.ProgramCompleteness
import Scriptorium.Proofs.ThriftyParsing

/-!
# Parsing ends and stays small

Whatever is read successfully takes a token, so the loops and recursions of the parser end:
the bounds that they count down are never used up, and larger ones change nothing.  Each table
of the arena has fewer entries than the text has tokens that are no line breaks, also when an
error ends the reading, so the numbers of its entries are as small as the text.

* `length_tokenize_le` — there is at most one token more than there are characters;
* `notCalled_of_runs_callsFrom`, `stops_of_runs_operationsAt`, `ends_of_runs_expressionAt`,
  `ParseState.Roomy.exists_readsStatements` — where the loops end;
* `ParseState.Roomy.parseFrom` — reading a text with any bounds that are large enough;
* `parsing_bounded` — every text is read within the bounds, and into a small arena.
-/

namespace Scriptorium

/-- No table of the arena has as many as `bound` entries. -/
structure Arena.Below (a : Arena) (bound : Nat) : Prop where
  exprs : a.exprs.size < bound
  exprLists : a.exprLists.size < bound
  stmts : a.stmts.size < bound
  stmtLists : a.stmtLists.size < bound
  params : a.params.size < bound

theorem Arena.Below.mono {a : Arena} {m n : Nat} (h : a.Below m) (hmn : m ≤ n) : a.Below n :=
  ⟨h.exprs.trans_le hmn, h.exprLists.trans_le hmn, h.stmts.trans_le hmn,
    h.stmtLists.trans_le hmn, h.params.trans_le hmn⟩

/-- To count the entries of all tables, it is enough to count those of one of them at a time. -/
theorem Arena.below_of_total {a : Arena} {bound : Nat}
    (h : ∀ w : Weights, w.AtMostOne → w.total a < bound) : a.Below bound := by
  refine ⟨?_, ?_, ?_, ?_, ?_⟩
  · simpa [Weights.total] using h ⟨1, 0, 0, 0, 0⟩ (Nat.le_refl 1)
  · simpa [Weights.total] using h ⟨0, 1, 0, 0, 0⟩ (Nat.le_refl 1)
  · simpa [Weights.total] using h ⟨0, 0, 1, 0, 0⟩ (Nat.le_refl 1)
  · simpa [Weights.total] using h ⟨0, 0, 0, 1, 0⟩ (Nat.le_refl 1)
  · simpa [Weights.total] using h ⟨0, 0, 0, 0, 1⟩ (Nat.le_refl 1)

/-! ## Numbers of tokens -/

/-- The end of the text is one token more. -/
theorem ParseState.Ended.solid_lt {s : ParseState} (h : s.Ended) :
    s.solid < (s.current :: s.rest).countP fun t => !t.isNewline := by
  unfold solid Ended at *
  generalize hlist : s.current :: s.rest = ts at h ⊢
  have hne : ts ≠ [] := hlist ▸ List.cons_ne_nil _ _
  have hlast := h _ (List.getLast?_eq_some_getLast hne)
  have hnewline : (ts.getLast hne).isNewline = false := by
    revert hlast
    unfold Token.isEnd Token.isNewline
    cases (ts.getLast hne).kind <;> simp
  have hfront : ts.dropLast.countP Token.isSolid ≤ ts.dropLast.countP fun t => !t.isNewline :=
    List.countP_mono_left fun t _ ht => (Bool.and_eq_true_iff.1 ht).1
  rw [← List.dropLast_append_getLast hne, List.countP_append, List.countP_append,
    List.countP_singleton, List.countP_singleton]
  simp only [Token.isSolid, hlast, hnewline]
  exact Nat.lt_succ_of_le hfront

/-- A state in which some of the tokens of a text are left holds a bound that is large enough. -/
theorem ParseState.Left.roomy {tokens : List Token} {n m size : Nat} {s : ParseState}
    (h : s.Left tokens n) (hm : s.solid < m) (hsize : tokens.length ≤ size) :
    s.Roomy m size := by
  have hended : s.Ended := by
    intro t ht
    obtain ⟨before, htokens⟩ := h.suffix
    refine h.ends t ?_
    rw [← htokens, List.getLast?_append, Option.mem_def.1 ht]
    rfl
  have hfew : s.solid < tokens.length :=
    (hended.solid_lt.trans_le List.countP_le_length).trans_le h.suffix.length_le
  exact ⟨hended, hm, h.size ▸ hfew, hfew.trans_le hsize⟩

theorem length_collect_le (fuel : Nat) (s : Scanner) (seen : List Token) :
    (s.collect fuel seen).length ≤ seen.length + fuel + 1 := by
  induction fuel generalizing s seen with
  | zero => simp [Scanner.collect]
  | succ fuel ih =>
    cases hend : s.next.1.isEnd with
    | true =>
      rw [Scanner.collect_of_isEnd hend, List.length_reverse, List.length_cons]
      omega
    | false =>
      rw [Scanner.collect_succ hend]
      refine (ih s.next.2 (s.next.1 :: seen)).trans ?_
      rw [List.length_cons]
      omega

/-- There is at most one token more than there are characters. -/
theorem length_tokenize_le (tables : Tables) (source : String) :
    (tokenize tables source).length ≤ source.length + 1 :=
  (length_collect_le source.length (.start tables source) []).trans (by simp)

/-! ## Bounds that are not used up

A loop that ends because its bound is used up answers like one that has read everything.  So it
is shown where the loops end: in front of nothing that they would go on with. -/

variable {w : Weights} {n size : Nat} {s t : ParseState} {x : StoredExpr}

section Loops

open Scriptorium.Parser

theorem Thrifty.follows {α : Type} {p : Parser α} {c : Nat} {d : α → Nat} {a : α}
    (h : Thrifty w n c p p d) (hs : s.Roomy n size) (hrun : Runs p s a t) :
    Follows w c (d a) s t := by
  have hends := h s.current s size hs rfl
  rw [show p s = .ok a t from hrun] at hends
  generalize p (s.resize size) = y at hends
  cases hends with
  | ok hfollows => exact hfollows

/-- Room that there was is left. -/
theorem Thrifty.roomy {α : Type} {p : Parser α} {c : Nat} {d : α → Nat} {a : α}
    (h : Thrifty w n c p p d) (hs : s.Roomy n size) (hrun : Runs p s a t) : t.Roomy n size :=
  (h.follows hs hrun).roomy hs

theorem ParseState.Roomy.advance (hs : s.Roomy n size) (hsolid : s.current.isSolid = true) :
    s.advance.Roomy (n - 1) size := by
  obtain ⟨hended, hfew, hhere, hthere⟩ := hs
  have htaken := hended.solid_advance hsolid
  refine ⟨hended.advance (Token.isEnd_of_isSolid hsolid), by omega, ?_, by omega⟩
  rw [s.size_advance]
  omega

theorem ParseState.Roomy.skipNewlines (hs : s.Roomy n size) : s.skipNewlines.Roomy n size :=
  (Follows.roomy (w := ⟨0, 0, 0, 0, 0⟩) (c := 0) hs.ended.follows_skipNewlines hs)

/-- What is stored takes no room. -/
theorem ParseState.Roomy.store (hs : s.Roomy n size) (arena : Arena) :
    ({ s with arena } : ParseState).Roomy n size :=
  ⟨hs.ended, hs.few, hs.here, hs.there⟩

/-- The loop over argument lists does not end in front of one. -/
theorem notCalled_of_runs_callsFrom {expression : Parser StoredExpr}
    (h : Thrifty w (n - 1) 0 expression expression fun _ => 0) {fuel : Nat}
    (hfuel : n ≤ fuel) {callee : StoredExpr} (hs : s.Roomy n size)
    (hrun : Runs (callsFrom expression fuel callee) s x t) : t.current.is "(" = false := by
  induction fuel generalizing n s callee with
  | zero => exact absurd hs.few (by omega)
  | succ fuel ih =>
    rw [runs_callsFrom] at hrun
    split at hrun
    · next hopen =>
      obtain ⟨args, u, slice, v, called, w', hitems, hslice, hcall, hrest⟩ := hrun
      have hu := (Thrifty.items _ h).roomy (hs.advance (Token.isSolid_of_is hopen)) hitems
      obtain ⟨-, rfl⟩ := runs_addExprs.1 hslice
      obtain ⟨-, rfl⟩ := runs_addExpr.1 hcall
      exact ih (h.mono (Nat.sub_le _ 1)) (by omega) (hu.store _) hrest
    · next hopen =>
      obtain ⟨-, rfl⟩ := hrun
      rwa [Bool.not_eq_true] at hopen

/-- The loop over operators does not end in front of one at its level or a tighter one. -/
theorem stops_of_runs_operationsAt (hw : w.AtMostOne) {depth level : Nat} {left : StoredExpr}
    (hdepth : 3 * n ≤ depth + 2) (hs : s.Roomy n size)
    (hrun : Runs (operationsAt depth level left) s x t) :
    ∀ op ∈ Connective.ofToken? t.current, op.level < level := by
  induction depth generalizing n s left with
  | zero => exact absurd hs.few (by omega)
  | succ depth ih =>
    rcases runs_operationsAt.1 hrun with ⟨-, rfl, hstops⟩ | ⟨op, hop, -, hrun⟩
    · intro op hop
      exact hstops op (by rwa [Token.connective?_word])
    · obtain ⟨right, u, both, v, hright, hboth, hrest⟩ := hrun
      rw [Token.connective?_word] at hop
      have hadvance := hs.skipNewlines.advance (Token.isSolid_of_connective hop)
      have hoperation := (Thrifty.expressionAt_and hw depth depth).2.1 (n - 1) (op.level + 1)
        (by omega) (by omega)
      have hu := hoperation.roomy hadvance hright
      obtain ⟨-, rfl⟩ := runs_addExpr.1 hboth
      exact ih (by omega) (hu.store _) hrest

/-- Neither an operator nor the sign of an assignment comes next after an expression. -/
theorem ends_of_runs_expressionAt (hw : w.AtMostOne) {depth : Nat} (hdepth : 3 * n ≤ depth)
    (hs : s.Roomy n size) (hrun : Runs (expressionAt depth) s x t) :
    Connective.ofToken? t.current = none ∧ t.current.is "=" = false := by
  induction depth generalizing n s x t with
  | zero => exact absurd hs.few (by omega)
  | succ depth ih =>
    obtain ⟨target, u, htarget, hassign⟩ := runs_expressionAt.1 hrun
    have hthrifty := Thrifty.expressionAt_and hw depth depth
    have hu := (hthrifty.2.1 n 0 (by omega) (by omega)).roomy hs htarget
    rw [runs_assignment] at hassign
    split at hassign
    · next hsign =>
      obtain ⟨value, v, name, hvalue, -, hadd⟩ := hassign
      obtain ⟨-, rfl⟩ := runs_addExpr.1 hadd
      have hends : Connective.ofToken? v.current = none ∧ v.current.is "=" = false :=
        ih (by omega) (hu.advance (Token.isSolid_of_is hsign)) hvalue
      exact hends
    · next hsign =>
      obtain ⟨-, rfl⟩ := hassign
      rw [Bool.not_eq_true] at hsign
      refine ⟨?_, hsign⟩
      have hfew := hs.few
      obtain ⟨depth, rfl⟩ : ∃ k, depth = k + 1 := ⟨depth - 1, by omega⟩
      obtain ⟨left, v, hleft, hrest⟩ := runs_operationAt.1 htarget
      have hsigned := (Thrifty.expressionAt_and hw depth depth).2.2.2 n (by omega) (by omega)
      have hstops := stops_of_runs_operationsAt hw (by omega) (hsigned.roomy hs hleft) hrest
      exact Option.eq_none_iff_forall_not_mem.2 fun op hop => Nat.not_lt_zero _ (hstops op hop)

/-- Reading a text ends at its end or with an error. -/
theorem ParseState.Roomy.exists_readsStatements (hw : w.AtMostOne) (hs : s.Roomy n size)
    {fuel : Nat} (hfuel : n ≤ fuel) (seen : List StmtId) :
    ∃ ids t, ReadsStatements s ids t ∧
      (t.skipNewlines.current.isEnd = true ∧
          s.parseFrom fuel seen = t.skipNewlines.finish (ids.reverse ++ seen) none ∨
        ∃ e u, (declaration topStatement).run t.skipNewlines = .error e u ∧
          s.parseFrom fuel seen = u.finish (ids.reverse ++ seen) (some e)) := by
  induction fuel generalizing n s seen with
  | zero => exact absurd hs.few (by omega)
  | succ fuel ih =>
    by_cases hend : s.skipNewlines.current.isEnd = true
    · exact ⟨[], s, .start, .inl ⟨hend, parseFrom_of_isEnd hend fuel seen⟩⟩
    rw [Bool.not_eq_true] at hend
    cases hrun : declaration topStatement s.skipNewlines with
    | error e u => exact ⟨[], s, .start, .inr ⟨e, u, hrun, parseFrom_of_error hend hrun fuel seen⟩⟩
    | ok id u =>
      -- a statement takes a token, and there are as many rounds left as tokens
      have hstmt := Thrifty.declaration hw (Thrifty.topStatement (n := n) hw)
      have hfewer := (hstmt.follows hs.skipNewlines hrun).solid_lt Nat.zero_lt_one
      have hu := hstmt.roomy hs.skipNewlines hrun
      have hfew := hs.skipNewlines.few
      obtain ⟨ids, t, hreads, hends⟩ := ih (n := n - 1) ⟨hu.ended, by omega, hu.here, hu.there⟩
        (by omega) (id :: seen)
      refine ⟨id :: ids, t, .step hend hrun hreads, ?_⟩
      rwa [parseFrom_of_runs hend hrun, List.reverse_cons, List.append_assoc, List.singleton_append]

end Loops

/-! ## Texts -/

/-- Reading a text, with any bounds that are enough for the tokens that are left. -/
theorem ParseState.Roomy.parseFrom {n size : Nat} {s : ParseState} (hw : w.AtMostOne)
    (hs : s.Roomy n size) {fuel fuel' : Nat} (hfuel : n ≤ fuel) (hfuel' : n ≤ fuel')
    (seen : List StmtId) :
    (s.resize size).parseFrom fuel' seen = s.parseFrom fuel seen ∧
      w.total (s.parseFrom fuel seen).code.arena ≤ w.cost s := by
  induction fuel generalizing n s fuel' seen with
  | zero => exact absurd hs.few (by omega)
  | succ fuel ih =>
    cases fuel' with
    | zero => exact absurd hs.few (by omega)
    | succ fuel' =>
      have hu : Follows w 0 0 s s.skipNewlines := hs.ended.follows_skipNewlines
      have hroomy := hu.roomy hs
      have hstmt := Thrifty.declaration hw (Thrifty.topStatement hw) s.skipNewlines.current
        s.skipNewlines size hroomy rfl
      rw [ParseState.parseFrom, ParseState.parseFrom, s.resize_skipNewlines,
        show (s.skipNewlines.resize size).current = s.skipNewlines.current from rfl]
      split
      · exact ⟨rfl, (Nat.le_add_right _ _).trans hu.paid⟩
      · unfold EStateM.run
        revert hstmt
        generalize Parser.declaration Parser.topStatement s.skipNewlines = x
        generalize Parser.declaration Parser.topStatement (s.skipNewlines.resize size) = y
        rintro (@⟨stmt, t, h⟩ | @⟨e, t, h⟩)
        · -- a statement takes a token, and there are as many rounds left as tokens
          have hfewer := h.solid_lt Nat.zero_lt_one
          have ht := h.roomy hroomy
          have hfew := hroomy.few
          obtain ⟨hsame, htotal⟩ := ih (n := n - 1) ⟨ht.ended, by omega, ht.here, ht.there⟩
            (Nat.sub_le_of_le_add hfuel) (Nat.sub_le_of_le_add hfuel') (stmt :: seen)
          have hcost : w.cost t ≤ w.cost s.skipNewlines := (Nat.le_succ _).trans h.paid
          exact ⟨hsame, htotal.trans (hcost.trans hu.paid)⟩
        · exact ⟨rfl, (Nat.le_add_right _ _).trans (h.trans hu.paid)⟩

/-- No entry counts: what is left is that tokens are taken. -/
theorem Thrifty.takes {α : Type} {p : Parser α} {tokens : List Token} {a : α}
    (h : Thrifty ⟨0, 0, 0, 0, 0⟩ n 0 p p fun _ => 1) (hs : s.Left tokens tokens.length)
    (hn : s.solid < n) (hrun : p.run s = .ok a t) : t.solid < s.solid :=
  (h.follows (hs.roomy hn le_rfl) hrun).solid_lt Nat.zero_lt_one

/-- Every text is read within its bounds and into a small arena.

1. An expression, a statement and a declaration that is read takes a token that is no line break
   and not the end of the text, wherever in the text the reading starts.  For a statement, more
   levels of nesting are allowed than such tokens are left.
2. So no loop ends because its bound is used up.  After an expression, neither an operator nor the
   sign of an assignment comes next; after the operators at a level, none at the level or a tighter
   one; and after argument lists, no other one.  Reading a text ends at its end, or with an error.
3. Larger bounds on nesting and repetition change nothing.
4. Each table of the arena has fewer entries than there are tokens that are no line breaks,
   also when an error ended the reading.
5. The entries of a text of fewer than `2 ^ 32` bytes can be numbered with 32 bits. -/
theorem parsing_bounded (tables : Tables) (source : String) :
    let tokens := tokenize tables source
    let arena := (parseWith tables source).code.arena
    (∀ s t : ParseState, s.Left tokens tokens.length →
      (∀ x, Parser.expression.run s = .ok x t → t.solid < s.solid) ∧
      ∀ depth inFunction id, s.solid < depth →
        ((Parser.statementAt depth inFunction).run s = .ok id t → t.solid < s.solid) ∧
        ((Parser.declaration (Parser.statementAt depth inFunction)).run s = .ok id t →
          t.solid < s.solid)) ∧
    (∀ (s t : ParseState) (x : StoredExpr), s.Left tokens tokens.length →
      (Parser.expression.run s = .ok x t →
        Connective.ofToken? t.current = none ∧ t.current.is "=" = false) ∧
      (∀ depth level left, 3 * s.solid < depth →
        (Parser.operationsAt depth level left).run s = .ok x t →
        ∀ op ∈ Connective.ofToken? t.current, op.level < level) ∧
      ∀ depth callee, 3 * s.solid ≤ depth →
        (Parser.callsFrom (Parser.expressionAt depth) s.size callee).run s = .ok x t →
        t.current.is "(" = false) ∧
    (∃ ids t, ReadsStatements (.start tokens) ids t ∧
      (t.skipNewlines.current.isEnd = true ∧
          parseWith tables source = t.skipNewlines.finish ids.reverse none ∨
        ∃ e u, (Parser.declaration Parser.topStatement).run t.skipNewlines = .error e u ∧
          parseWith tables source = u.finish ids.reverse (some e))) ∧
    (∀ size fuel, tokens.length ≤ size → tokens.length ≤ fuel →
      ((ParseState.start tokens).resize size).parseFrom fuel [] = parseWith tables source) ∧
    arena.Below (tokens.countP fun t => !t.isNewline) ∧
    (byteLength source.toList < 2 ^ 32 → arena.Below (2 ^ 32)) := by
  intro tokens arena
  have hzero : (⟨0, 0, 0, 0, 0⟩ : Weights).AtMostOne := Nat.zero_le 1
  have hleft : (ParseState.start tokens).Left tokens tokens.length := left_start tables source
  have hroomy : ∀ size, tokens.length ≤ size →
      (ParseState.start tokens).Roomy ((ParseState.start tokens).solid + 1) size :=
    fun size => hleft.roomy (Nat.lt_succ_self _)
  have hfew := (hroomy tokens.length le_rfl).there
  have hbelow : arena.Below (tokens.countP fun t => !t.isNewline) := by
    refine Arena.below_of_total fun w hw => ?_
    have htotal := ((hroomy tokens.length le_rfl).parseFrom hw hfew hfew []).2
    have hcost : w.cost (ParseState.start tokens) = (ParseState.start tokens).solid := by
      have harena : (ParseState.start tokens).arena = .empty := by cases tokens <;> rfl
      simp [Weights.cost, harena, Weights.total, Arena.empty]
    refine (htotal.trans_eq hcost).trans_lt ?_
    exact (hroomy tokens.length le_rfl).ended.solid_lt.trans_le hleft.suffix.sublist.countP_le
  refine ⟨?_, ?_, ?_, ?_, hbelow, ?_⟩
  · intro s t hs
    refine ⟨fun x => (Thrifty.ofExpression hzero).takes hs (Nat.lt_succ_self _), ?_⟩
    intro depth inFunction id hdepth
    have hstmt := Thrifty.statementAt hzero inFunction (Nat.le_refl depth) (Nat.le_refl depth)
    exact ⟨hstmt.takes hs hdepth, (Thrifty.declaration hzero hstmt).takes hs hdepth⟩
  · intro s t x hs
    have hroom : s.Roomy (s.solid + 1) tokens.length := hs.roomy (Nat.lt_succ_self _) le_rfl
    have hhere := hroom.here
    refine ⟨fun hrun => ?_, fun depth level left hdepth hrun => ?_,
      fun depth callee hdepth hrun => ?_⟩
    · exact ends_of_runs_expressionAt hzero (by omega) hroom (Parser.runs_expression.1 hrun)
    · exact stops_of_runs_operationsAt hzero (by omega) hroom hrun
    · have hexpr := (Thrifty.expressionAt_and hzero depth depth).1 s.solid hdepth hdepth
      exact notCalled_of_runs_callsFrom (hexpr.spare 0 le_rfl fun _ => Nat.zero_le _) hhere hroom
        hrun
  · have hends := (hroomy tokens.length le_rfl).exists_readsStatements hzero hfew []
    have hparse : parseWith tables source =
        (ParseState.start tokens).parseFrom tokens.length [] := rfl
    simpa only [hparse, List.append_nil] using hends
  · intro size fuel hsize hfuel
    exact ((hroomy size hsize).parseFrom hzero hfew (hfew.trans_le hfuel) []).1
  · intro hbytes
    have hlength : tokens.length ≤ source.length + 1 := length_tokenize_le tables source
    have hchars := length_le_byteLength source.toList
    rw [String.length_toList] at hchars
    exact hbelow.mono (List.countP_le_length.trans (by omega))

/-- A `for` of 17 tokens and the end, which stands for six statements. -/
example :
    let source := "for (var i = 0; ; i = f(i)) \x7b \x7d"
    let arena := (parse source).code.arena
    (tokenize .quill source).length = 18 ∧ arena.exprs.size = 7 ∧ arena.exprLists.size = 1 ∧
      arena.stmts.size = 6 ∧ arena.stmtLists.size = 4 ∧ arena.params.size = 0 := by
  decide +kernel

end Scriptorium
