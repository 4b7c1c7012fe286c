import Scriptorium.Proofs.ListCompleteness
import Scriptorium.Proofs.TreeWords

/-!
# Expressions that a parser has to read

A shaped expression that is spelled is read, whatever comes after it, as long as that
ends an expression.  The operators of an expression group to the left, and the parser
reads them in a loop; so what is said of an operation is that, with its words taken,
the loop goes on after it.

* `Completes` — what the four functions that call each other do with an expression;
* `Spells.completes` — they do so with every shaped expression that is spelled;
* `complete_expression` — the statement about the parser of expressions.
-/

namespace Scriptorium

open Scriptorium.Parser

/-! ## How expressions begin and end -/

/-- An expression can begin with the word. -/
structure Word.Starts (w : Word) : Prop where
  solid : w.isNewline = false ∧ w.isEnd = false
  mark : ∀ text, w.is text = true → text ∈ ["(", "-", "!", "true", "false"]

/-- The first word of an expression, and that it is no sign where no operand with a sign
can stand. -/
theorem Spells.first {p : Phrase} {ws : List Word} (h : Spells p ws) :
    ∀ e, p = .expr e → ∃ w vs, skipBlank ws = w :: vs ∧ w.Starts ∧
      (e.Shaped → callRank ≤ e.rank → w.sign? = none) := by
  induction h with
  | lead hnl _ ih =>
    rintro e ⟨⟩
    obtain ⟨w, vs, hw, hstart⟩ := ih _ rfl
    exact ⟨w, vs, by rw [← hw, ← List.singleton_append, skipBlank_append (by simpa using hnl)],
      hstart⟩
  | int n =>
    rintro e ⟨⟩
    exact ⟨_, _, rfl, ⟨⟨rfl, rfl⟩, by simp [Word.is_iff]⟩, fun _ _ => rfl⟩
  | str text =>
    rintro e ⟨⟩
    exact ⟨_, _, rfl, ⟨⟨rfl, rfl⟩, by simp [Word.is_iff]⟩, fun _ _ => rfl⟩
  | bool b =>
    rintro e ⟨⟩
    exact ⟨_, _, rfl, ⟨⟨rfl, rfl⟩, by cases b <;> simp [Word.is_iff, Word.keyword]⟩,
      fun _ _ => by cases b <;> rfl⟩
  | reference name =>
    rintro e ⟨⟩
    exact ⟨_, _, rfl, ⟨⟨rfl, rfl⟩, by simp [Word.is_iff, Word.symbol]⟩, fun _ _ => rfl⟩
  | group _ _ _ _ =>
    rintro e ⟨⟩
    exact ⟨_, _, skipBlank_cons rfl, ⟨⟨rfl, rfl⟩, by simp [Word.is_iff, Word.punct]⟩,
      fun _ _ => by decide⟩
  | @unary op e sign ws hsign _ _ =>
    rintro e ⟨⟩
    refine ⟨_, _, skipBlank_cons (Word.solid_of_sign? hsign).1,
      ⟨Word.solid_of_sign? hsign, ?_⟩, fun _ h => ?_⟩
    · intro text htext
      rw [(Word.eq_sign hsign).1, Word.is_iff] at htext
      rw [← htext.2]
      cases op <;> decide
    · exact absurd (show callRank ≤ unaryRank from h) (by decide)
  | @operation op left right _ _ _ _ _ _ _ _ ihl _ =>
    rintro e ⟨⟩
    obtain ⟨w, vs, hw, hstart, -⟩ := ihl _ rfl
    refine ⟨w, _, by rw [List.append_assoc]; exact skipBlank_append_of_cons hw _, hstart,
      fun _ h => ?_⟩
    have hlt := op.rank_lt_unary
    rw [op.rank_tree] at h
    exact absurd (lt_of_le_of_lt h hlt) (by decide)
  | assign _ _ _ _ ihn _ =>
    rintro e ⟨⟩
    obtain ⟨w, vs, hw, hstart, -⟩ := ihn _ rfl
    exact ⟨w, _, by rw [List.append_assoc]; exact skipBlank_append_of_cons hw _, hstart,
      fun _ h => absurd (show callRank ≤ 0 from h) (by decide)⟩
  | call _ _ _ _ _ ihf _ =>
    rintro e ⟨⟩
    obtain ⟨w, vs, hw, hstart, hsign⟩ := ihf _ rfl
    exact ⟨w, _, skipBlank_append_of_cons hw _, hstart, fun h _ => hsign h.2.2.1 h.1⟩
  | noArgs | oneArg | moreArgs => rintro e ⟨⟩

theorem Spells.not_faces {e : Expr Unit} {ws : List Word} (h : Spells (.expr e) ws)
    {text : String} (htext : text ∉ ["(", "-", "!", "true", "false"]) (rest : List Word) :
    ¬ Faces text (ws ++ rest) := by
  obtain ⟨w, vs, hw, hstart, -⟩ := h.first _ rfl
  rintro ⟨v, us, hv, hmark⟩
  rw [skipBlank_append_of_cons hw] at hv
  cases hv
  exact htext (hstart.mark text hmark)

/-- Less is left after an expression. -/
theorem Spells.length_lt {e : Expr Unit} {ws rest : List Word} (h : Spells (.expr e) ws)
    {s : ParseState} (hsees : s.Sees (ws ++ rest)) : rest.length < s.words.length := by
  obtain ⟨w, vs, hw, -, -⟩ := h.first _ rfl
  have hle : (skipBlank s.words).length ≤ s.words.length := List.length_dropWhile_le ..
  rw [show skipBlank s.words = _ from hsees, skipBlank_append_of_cons hw] at hle
  simp only [List.length_cons, List.length_append] at hle
  omega

/-- No argument list comes next. -/
def NotCalled (ws : List Word) : Prop := ∀ w vs, ws = w :: vs → w.is "(" = false

theorem notCalled_of_faces {ws : List Word} {text : String} (h : Faces text ws)
    (htext : text ≠ "(") : NotCalled ws := by
  rintro w vs rfl
  by_contra hopen
  rw [Bool.not_eq_false] at hopen
  exact htext (h.eq (faces_cons hopen))

theorem notCalled_append {nls ws : List Word} (hnls : Blank nls) (h : NotCalled ws) :
    NotCalled (nls ++ ws) := by
  cases nls with
  | nil => exact h
  | cons nl nls =>
    rintro w vs ⟨⟩
    by_contra hopen
    rw [Bool.not_eq_false] at hopen
    have := (Word.solid_of_is hopen).1
    rw [(blank_cons.1 hnls).1] at this
    exact absurd this (by simp)

theorem Ends.notCalled {ws : List Word} (h : Ends ws) : NotCalled ws := by
  rcases h with h | h | h <;> exact notCalled_of_faces h (by decide)

/-- A word that is an operator is no other mark. -/
theorem Word.not_is_of_connective? {w : Word} {op : Connective} (h : w.connective? = some op)
    {text : String} (htext : text ∉ ["or", "and"])
    (hsymbol : BinaryOp.ofSymbol? text = none) : w.is text = false := by
  by_contra hw
  rw [Bool.not_eq_false] at hw
  simp only [connective?, Connective.ofToken?] at h
  split at h
  · next hor => exact htext (by rw [eq_of_is hw hor]; decide)
  split at h
  · next hand => exact htext (by rw [eq_of_is hw hand]; decide)
  split at h
  · rw [show w.token.lexeme = text from (is_iff.1 hw).2, hsymbol] at h
    exact absurd h (by simp)
  · exact absurd h (by simp)

theorem Faces.stops {ws : List Word} {text : String} (h : Faces text ws)
    (htext : text ∉ ["or", "and"]) (hsymbol : BinaryOp.ofSymbol? text = none) (level : Nat) :
    Stops level ws := by
  intro w rest op hw hop
  obtain ⟨v, vs, hv, hmark⟩ := h
  rw [hw] at hv
  cases hv
  rw [Word.not_is_of_connective? hop htext hsymbol] at hmark
  exact absurd hmark (by simp)

theorem Ends.stops {ws : List Word} (h : Ends ws) (level : Nat) : Stops level ws := by
  rcases h with h | h | h <;> exact h.stops (by decide) (by decide) level

theorem Ends.not_faces {ws : List Word} (h : Ends ws) {text : String}
    (htext : text ∉ [";", ")", ","]) : ¬ Faces text ws := by
  intro hfaces
  rcases h with h | h | h <;> exact htext (by rw [hfaces.eq h]; decide)

/-! ## What the parsers do -/

/-- The primary expression and the argument lists of `e` are read, and the parser goes on
with further argument lists. -/
def CompletesCalls (e : Expr Unit) (ws : List Word) : Prop :=
  ∀ depth s rest, s.Ready → s.Sees (ws ++ rest) → 3 * s.words.length ≤ depth + 3 →
    ∃ x u fuel, (∀ y t, Runs (callsFrom (expressionAt depth) fuel x) u y t →
        Runs (calls (expressionAt depth)) s y t) ∧
      Later s u ∧ u.words = rest ∧ u.words.length ≤ fuel ∧ u.code.Holds x e

/-- The expression is read as an operand, unless an argument list follows. -/
def CompletesSigned (e : Expr Unit) (ws : List Word) : Prop :=
  ∀ depth s rest, s.Ready → s.Sees (ws ++ rest) → NotCalled rest →
    3 * s.words.length ≤ depth + 2 →
    ∃ x t, Runs (signedAt depth) s x t ∧ Later s t ∧ t.words = rest ∧ t.code.Holds x e

/-- The operators of the expression are read, and the parser goes on with further
operators. -/
def CompletesOperation (e : Expr Unit) (ws : List Word) : Prop :=
  ∀ level depth s rest, level < e.rank → s.Ready → s.Sees (ws ++ rest) → NotCalled rest →
    Stops e.rank rest → 3 * s.words.length ≤ depth + 1 →
    ∃ x u depth', (∀ y t, Runs (operationsAt depth' level x) u y t →
        Runs (operationAt depth level) s y t) ∧
      Later s u ∧ u.Sees rest ∧ 3 * u.words.length + 1 ≤ depth' ∧ u.code.Holds x e

/-- The expression is read where it ends. -/
def CompletesExpression (e : Expr Unit) (ws : List Word) : Prop :=
  ∀ depth s rest, s.Ready → s.Sees (ws ++ rest) → Ends rest → 3 * s.words.length ≤ depth →
    ∃ x t, Runs (expressionAt depth) s x t ∧ Later s t ∧ t.Sees rest ∧ t.code.Holds x e

/-- What the functions that call each other do with an expression, each if it is tight
enough. -/
structure Completes (e : Expr Unit) (ws : List Word) : Prop where
  calls : callRank ≤ e.rank → CompletesCalls e ws
  signed : unaryRank ≤ e.rank → CompletesSigned e ws
  operation : CompletesOperation e ws
  expression : CompletesExpression e ws

variable {e : Expr Unit} {ws : List Word}

/-- Where an argument list does not come next, the loop over them ends. -/
theorem runs_callsFrom_of_notCalled (expression : Parser StoredExpr) {s : ParseState}
    (h : NotCalled s.words) (fuel : Nat) (x : StoredExpr) :
    Runs (callsFrom expression fuel x) s x s := by
  cases fuel with
  | zero => exact runs_pure.2 ⟨rfl, rfl⟩
  | succ fuel =>
    have hopen := h s.current.word _ rfl
    rw [Token.is_word] at hopen
    rw [runs_callsFrom, if_neg (by simp [hopen])]
    exact ⟨rfl, rfl⟩

/-- Where no operator at the level or a tighter one comes next, the loop over them ends. -/
theorem runs_operationsAt_of_stops {s : ParseState} (hs : s.Ready) {level depth : Nat}
    (h : Stops level s.words) (hdepth : 0 < depth) (x : StoredExpr) :
    Runs (operationsAt depth level x) s x s.skipNewlines := by
  obtain ⟨depth, rfl⟩ : ∃ k, depth = k + 1 := ⟨depth - 1, by omega⟩
  exact runs_operationsAt.2 (.inl ⟨rfl, rfl, (stops_skipNewlines hs).1 h⟩)

theorem CompletesCalls.signed (h : CompletesCalls e ws) (hspells : Spells (.expr e) ws)
    (hshaped : e.Shaped) (hrank : callRank ≤ e.rank) : CompletesSigned e ws := by
  intro depth s rest hs hsees hnot hdepth
  have hpos := hs.pos
  obtain ⟨depth, rfl⟩ : ∃ k, depth = k + 1 := ⟨depth - 1, by omega⟩
  obtain ⟨w, vs, hw, hstart, hsign⟩ := hspells.first _ rfl
  have hskip := ParseState.later_skipNewlines hs
  have hsign' : s.skipNewlines.current.word.sign? = none := by
    have hwords := ParseState.words_skipNewlines hs.closed
    rw [show skipBlank s.words = _ from hsees, skipBlank_append_of_cons hw] at hwords
    rw [show s.skipNewlines.current.word = w from (List.cons.inj hwords).1]
    exact hsign hshaped hrank
  have hshorter := hskip.shorter
  obtain ⟨x, u, fuel, hcalls, hlater, hwords, -, hholds⟩ :=
    h depth s.skipNewlines rest hskip.ready (hsees.skipNewlines hs) (by omega)
  have hend := runs_callsFrom_of_notCalled (expressionAt depth) (by rwa [hwords]) fuel x
  exact ⟨x, u, runs_signedAt.2 (.inl ⟨hsign', hcalls _ _ hend⟩), hskip.trans hlater, hwords, hholds⟩

theorem CompletesSigned.operation (h : CompletesSigned e ws) (hspells : Spells (.expr e) ws) :
    CompletesOperation e ws := by
  intro level depth s rest hlevel hs hsees hnot hstops hdepth
  have hpos := hs.pos
  obtain ⟨depth, rfl⟩ : ∃ k, depth = k + 1 := ⟨depth - 1, by omega⟩
  obtain ⟨x, t, hrun, hlater, hwords, hholds⟩ := h depth s rest hs hsees hnot (by omega)
  have hlt : t.words.length < s.words.length := by
    rw [hwords]
    exact hspells.length_lt hsees
  exact ⟨x, t, depth, fun y u hu => runs_operationAt.2 ⟨x, t, hrun, hu⟩, hlater, .ofWords hwords,
    by omega, hholds⟩

theorem CompletesOperation.expression (h : CompletesOperation e ws) (hrank : 0 < e.rank) :
    CompletesExpression e ws := by
  intro depth s rest hs hsees hends hdepth
  have hpos := hs.pos
  obtain ⟨depth, rfl⟩ : ∃ k, depth = k + 1 := ⟨depth - 1, by omega⟩
  obtain ⟨x, u, depth', hoperation, hlater, hrest, hdepth', hholds⟩ :=
    h 0 depth s rest hrank hs hsees hends.notCalled (hends.stops _) (by omega)
  have hend := runs_operationsAt_of_stops hlater.ready (hrest.stops.2 (hends.stops 0))
    (by omega : 0 < depth') x
  have hskip := ParseState.later_skipNewlines hlater.ready
  have hsign : ¬ u.skipNewlines.current.is "=" = true := by
    rw [← faces_words hlater.ready, hrest.faces]
    exact hends.not_faces (by decide)
  refine ⟨x, u.skipNewlines, runs_expressionAt.2 ⟨x, _, hoperation _ _ hend, ?_⟩,
    hlater.trans hskip, hrest.skipNewlines hlater.ready, hholds.mono hskip.code⟩
  rw [runs_assignment, if_neg hsign]
  exact ⟨rfl, rfl⟩

/-! ## Each form of expression -/

/-- Line breaks in front change nothing. -/
theorem Completes.lead {nl : Word} (hnl : nl.isNewline = true) (h : Completes e ws) :
    Completes e (nl :: ws) := by
  have hblank : Blank [nl] := by simpa using hnl
  have hsees : ∀ {s : ParseState} {rest}, s.Sees (nl :: ws ++ rest) → s.Sees (ws ++ rest) :=
    fun hsees => ParseState.Sees.lead hblank hsees
  exact ⟨fun hrank depth s rest hs h' => h.calls hrank depth s rest hs (hsees h'),
    fun hrank depth s rest hs h' => h.signed hrank depth s rest hs (hsees h'),
    fun level depth s rest hlevel hs h' => h.operation level depth s rest hlevel hs (hsees h'),
    fun depth s rest hs h' => h.expression depth s rest hs (hsees h')⟩

theorem Completes.ofExpression (hrank : e.rank = 0) (h : CompletesExpression e ws) :
    Completes e ws where
  calls hcall := absurd (hrank ▸ hcall) (by decide)
  signed hunary := absurd (hrank ▸ hunary) (by decide)
  operation _ _ _ _ hlevel := absurd (hrank ▸ hlevel) (by omega)
  expression := h

theorem Completes.ofOperation (hrank : 0 < e.rank) (hlt : e.rank < unaryRank)
    (h : CompletesOperation e ws) : Completes e ws where
  calls hcall := absurd (lt_of_le_of_lt hcall hlt) (by decide)
  signed hunary := absurd hunary (by omega)
  operation := h
  expression := h.expression hrank

theorem Completes.ofSigned (hspells : Spells (.expr e) ws) (hrank : e.rank = unaryRank)
    (h : CompletesSigned e ws) : Completes e ws where
  calls hcall := absurd (hrank ▸ hcall) (by decide)
  signed _ := h
  operation := h.operation hspells
  expression := (h.operation hspells).expression (by rw [hrank]; decide)

theorem Completes.ofCalls (hspells : Spells (.expr e) ws) (hshaped : e.Shaped)
    (hrank : callRank ≤ e.rank) (h : CompletesCalls e ws) : Completes e ws where
  calls _ := h
  signed _ := h.signed hspells hshaped hrank
  operation := (h.signed hspells hshaped hrank).operation hspells
  expression := ((h.signed hspells hshaped hrank).operation hspells).expression
    (lt_of_lt_of_le (by decide) hrank)

theorem Completes.ofPrimary (hspells : Spells (.expr e) ws) (hshaped : e.Shaped)
    (hrank : e.rank = primaryRank)
    (h : ∀ depth s rest, s.Ready → s.Sees (ws ++ rest) → 3 * s.words.length ≤ depth + 3 →
      ∃ x u, Runs (primary (expressionAt depth)) s x u ∧ Later s u ∧ u.words = rest ∧
        u.code.Holds x e) : Completes e ws := by
  refine .ofCalls hspells hshaped (by rw [hrank]; decide) fun depth s rest hs hsees hdepth => ?_
  obtain ⟨x, u, hprimary, hlater, hwords, hholds⟩ := h depth s rest hs hsees hdepth
  exact ⟨x, u, u.size, fun y t hy => runs_calls.2 ⟨x, u, hprimary, hy⟩, hlater, hwords,
    hlater.ready.bounded, hholds⟩

theorem Completes.literal {w : Word} {value : Literal NameId} (hspells : Spells (.expr e) [w])
    (hshaped : e.Shaped) (hrank : e.rank = primaryRank) (hw : w.isNewline = false ∧ w.isEnd = false)
    (hbuild : ∀ c : Code, c.BuildsExpr (.literal value) e)
    (hprimary : ∀ expression s x t, s.skipNewlines.current.word = w →
      Runs (Parser.literal value) s.skipNewlines x t → Runs (primary expression) s x t) :
    Completes e [w] := by
  refine .ofPrimary hspells hshaped hrank fun depth s rest hs hsees _ => ?_
  obtain ⟨hword, hwords⟩ := hsees.word hs hw.1
  have hskip := ParseState.later_skipNewlines hs
  obtain ⟨htake, hrest⟩ := ParseState.take_word hskip.ready hwords hw.2
  obtain ⟨x, u, hrun, hlater, hu, hholds, -⟩ :=
    exists_addExpr htake.ready s.skipNewlines.current.span (hbuild _)
  exact ⟨x, u, hprimary _ _ _ _ hword (runs_literal.2 hrun), (hskip.trans htake).trans hlater,
    hu.trans hrest, hholds⟩

/-- An expression that is spelled is an item of a list. -/
theorem Completes.item (h : Completes e ws) (hspells : Spells (.expr e) ws) {n depth : Nat}
    (hn : 3 * n ≤ depth) : CompleteItem Code.Holds n (expressionAt depth) e ws where
  runs s rest hs hlen hsees hends := h.expression depth s rest hs hsees hends (by omega)
  first rest := hspells.not_faces (by decide) rest

theorem completes_int (n : Nat) : Completes (.literal (.int n) ()) [⟨.int n, ""⟩] :=
  .literal (.int n) trivial rfl ⟨rfl, rfl⟩ (.int · n)
    fun _ _ _ _ hword hrun => runs_primary.2 (.inl ⟨n, hword, hrun⟩)

theorem completes_bool (b : Bool) :
    Completes (.literal (.bool b) ()) [.keyword (if b then "true" else "false")] :=
  .literal (.bool b) trivial rfl ⟨rfl, rfl⟩ (.bool · b)
    fun _ _ _ _ hword hrun => runs_primary.2 (.inr (.inr (.inl ⟨b, hword, hrun⟩)))

theorem completes_str (text : String) : Completes (.literal (.str text) ()) [⟨.string, text⟩] := by
  refine .ofPrimary (.str text) trivial rfl fun depth s rest hs hsees _ => ?_
  obtain ⟨hword, hwords⟩ := hsees.word hs rfl
  have hskip := ParseState.later_skipNewlines hs
  obtain ⟨name, u, hintern, hlater, hu, -, htext⟩ := exists_intern hskip.ready text
  obtain ⟨htake, hrest⟩ := ParseState.take_word hlater.ready (hu.trans hwords) rfl
  obtain ⟨x, t, hrun, hlater', ht, hholds, -⟩ := exists_addExpr htake.ready u.current.span
    (.str (htake.code.text?_eq htext))
  exact ⟨x, t, runs_primary.2 (.inr (.inl ⟨text, name, u, hword, hintern, runs_literal.2 hrun⟩)),
    ((hskip.trans hlater).trans htake).trans hlater', ht.trans hrest, hholds⟩

theorem completes_reference (name : String) :
    Completes (.reference name ()) [.symbol name] := by
  refine .ofPrimary (.reference name) trivial rfl fun depth s rest hs hsees _ => ?_
  obtain ⟨hword, hwords⟩ := hsees.word hs rfl
  have hskip := ParseState.later_skipNewlines hs
  obtain ⟨htake, hrest⟩ := ParseState.take_word hskip.ready hwords rfl
  obtain ⟨id, u, hintern, hlater, hu, -, htext⟩ := exists_intern htake.ready name
  obtain ⟨x, t, hrun, hlater', ht, hholds, -⟩ := exists_addExpr hlater.ready
    s.skipNewlines.current.span (.reference htext)
  exact ⟨x, t, runs_primary.2 (.inr (.inr (.inr (.inl ⟨name, id, u, hword, hintern, hrun⟩)))),
    ((hskip.trans htake).trans hlater).trans hlater', (ht.trans hu).trans hrest, hholds⟩

theorem completes_group {nls : List Word} {closing : Word} (hspells : Spells (.expr e) ws)
    (hshaped : e.Shaped) (h : Completes e ws) (hnls : Blank nls)
    (hclosing : closing.is ")" = true) :
    Completes (.group e ()) (.punct "(" :: (ws ++ nls ++ [closing])) := by
  refine .ofPrimary (.group hspells hnls hclosing) hshaped rfl
    fun depth s rest hs hsees hdepth => ?_
  obtain ⟨hword, hwords⟩ := ParseState.Sees.word hs rfl hsees
  have hskip := ParseState.later_skipNewlines hs
  obtain ⟨htake, hrest⟩ := ParseState.take_word hskip.ready hwords rfl
  have hshorter := hskip.shorter
  rw [hwords, List.length_cons, ← hrest] at hshorter
  have hsees' : s.skipNewlines.advance.Sees (ws ++ (nls ++ closing :: rest)) :=
    .ofWords (by simpa using hrest)
  obtain ⟨x, u, hinner, hlater, hafter, hholds⟩ := h.expression depth _ _ htake.ready hsees'
    (.inr (.inl ((faces_append hnls).2 (faces_cons hclosing)))) (by omega)
  obtain ⟨hmark, htake', hend⟩ := hafter.mark hlater.ready hnls hclosing
  obtain ⟨y, t, hrun, hlater', ht, hgroup, -⟩ := exists_addExpr htake'.ready
    (s.skipNewlines.current.span.merge u.skipNewlines.advance.previous)
    (.group (hholds.mono htake'.code).tree)
  exact ⟨y, t, runs_primary.2 (.inr (.inr (.inr (.inr ⟨x, u, _, hword, hinner, hmark,
      runs_spanFrom.2 ⟨rfl, rfl⟩, hrun⟩)))),
    (((hskip.trans htake).trans hlater).trans htake').trans hlater', ht.trans hend, hgroup⟩

theorem completes_unary {op : UnaryOp} {sign : Word} (hspells : Spells (.expr e) ws)
    (hrank : unaryRank ≤ e.rank) (h : Completes e ws) (hsign : sign.sign? = some op) :
    Completes (.unary op e ()) (sign :: ws) := by
  refine .ofSigned (.unary hsign hspells) rfl fun depth s rest hs hsees hnot hdepth => ?_
  have hpos := hs.pos
  obtain ⟨depth, rfl⟩ : ∃ k, depth = k + 1 := ⟨depth - 1, by omega⟩
  obtain ⟨hnl, hend⟩ := Word.solid_of_sign? hsign
  obtain ⟨hword, hwords⟩ := ParseState.Sees.word hs hnl hsees
  have hskip := ParseState.later_skipNewlines hs
  obtain ⟨htake, hrest⟩ := ParseState.take_word hskip.ready hwords hend
  have hshorter := hskip.shorter
  rw [hwords, List.length_cons, ← hrest] at hshorter
  obtain ⟨x, u, hoperand, hlater, hafter, hholds⟩ := h.signed hrank depth _ rest htake.ready
    (.ofWords hrest) hnot (by omega)
  obtain ⟨y, t, hrun, hlater', ht, hunary, -⟩ := exists_addExpr hlater.ready
    (s.skipNewlines.current.span.merge x.span) (.unary hholds.tree)
  exact ⟨y, t, runs_signedAt.2 (.inr ⟨op, hword ▸ hsign, x, u, hoperand, hrun⟩),
    ((hskip.trans htake).trans hlater).trans hlater', ht.trans hafter, hunary⟩

/-- An operation is read in two rounds: the loop comes to the operator behind the left
operand, and after the right operand it is where it was. -/
theorem completes_operation {op : Connective} {left right : Expr Unit} {ls nls rs : List Word}
    {w : Word} (hl : Completes left ls) (hr : Completes right rs) (hnls : Blank nls)
    (hop : w.connective? = some op) (hleft : op.rank ≤ left.rank) (hright : op.rank < right.rank) :
    Completes (op.tree left right) (ls ++ nls ++ w :: rs) := by
  refine .ofOperation (by rw [op.rank_tree]; exact Nat.succ_pos _)
    (by rw [op.rank_tree]; exact op.rank_lt_unary) ?_
  intro level depth s rest hlevel hs hsees hnot hstops hdepth
  rw [op.rank_tree] at hlevel hstops
  obtain ⟨hnl, hend⟩ := Word.solid_of_connective? hop
  have hsees' : s.Sees (ls ++ (nls ++ w :: (rs ++ rest))) := by simpa using hsees
  have hnotw : NotCalled (nls ++ w :: (rs ++ rest)) := by
    refine notCalled_append hnls ?_
    rintro v vs ⟨⟩
    exact Word.not_is_of_connective? hop (by decide) (by decide)
  have hstopsw : Stops left.rank (nls ++ w :: (rs ++ rest)) := by
    rw [stops_append hnls]
    intro v vs op' hv hop'
    rw [skipBlank_cons hnl] at hv
    cases hv
    rw [hop] at hop'
    cases hop'
    exact hleft
  obtain ⟨x, u, depth₁, hfirst, hlater, hu, hdepth₁, hholds⟩ := hl.operation level depth s _
    (lt_of_lt_of_le hlevel hleft) hs hsees' hnotw hstopsw hdepth
  obtain ⟨depth₁, rfl⟩ : ∃ k, depth₁ = k + 1 := ⟨depth₁ - 1, by omega⟩
  obtain ⟨hword, hwords⟩ := (hu.lead hnls).word hlater.ready hnl
  have hskip := ParseState.later_skipNewlines hlater.ready
  obtain ⟨htake, hrest⟩ := ParseState.take_word hskip.ready hwords hend
  have hshorter := hskip.shorter
  rw [hwords, List.length_cons, ← hrest] at hshorter
  obtain ⟨y, v, depth₂, hsecond, hlaterr, hv, hdepth₂, hholdsr⟩ := hr.operation op.rank depth₁ _
    rest hright htake.ready (.ofWords hrest) hnot (hstops.mono hright.le) (by omega)
  have hdone := runs_operationsAt_of_stops hlaterr.ready (hv.stops.2 hstops)
    (by omega : 0 < depth₂) y
  have hskip' := ParseState.later_skipNewlines hlaterr.ready
  have hall := ((hskip.trans htake).trans hlaterr).trans hskip'
  obtain ⟨both, z, hrun, hlater', hz, hboth, -⟩ := exists_addExpr hskip'.ready
    (x.span.merge y.span)
    (.connective (hholds.mono hall.code).tree (hholdsr.mono hskip'.code).tree)
  have hlength : z.words.length ≤ u.skipNewlines.advance.words.length := by
    rw [hz]
    exact hskip'.shorter.trans hlaterr.shorter
  refine ⟨both, z, depth₁, fun a t ha => hfirst _ _ (runs_operationsAt.2 (.inr ⟨op, hword ▸ hop,
    Nat.le_of_lt_succ hlevel, y, _, both, z, hsecond _ _ hdone, hrun, ha⟩)),
    (hlater.trans hall).trans hlater', ?_, by omega, hboth⟩
  exact (congrArg skipBlank hz).trans (hv.skipNewlines hlaterr.ready)

theorem completes_assign {name : String} {value : Expr Unit} {ns nls vs : List Word} {w : Word}
    (hn : Completes (.reference name ()) ns) (hv : Completes value vs) (hnls : Blank nls)
    (hsign : w.is "=" = true) :
    Completes (.assign name () value ()) (ns ++ nls ++ w :: vs) := by
  refine .ofExpression rfl fun depth s rest hs hsees hends hdepth => ?_
  have hpos := hs.pos
  obtain ⟨depth, rfl⟩ : ∃ k, depth = k + 1 := ⟨depth - 1, by omega⟩
  have hsees' : s.Sees (ns ++ (nls ++ w :: (vs ++ rest))) := by simpa using hsees
  have hfaces : Faces "=" (nls ++ w :: (vs ++ rest)) := (faces_append hnls).2 (faces_cons hsign)
  have hstops := hfaces.stops (by decide) (by decide)
  obtain ⟨x, u, depth', hfirst, hlater, hu, hdepth', hholds⟩ := hn.operation 0 depth s _
    (Nat.succ_pos _) hs hsees' (notCalled_of_faces hfaces (by decide)) (hstops _) (by omega)
  have hdone := runs_operationsAt_of_stops hlater.ready (hu.stops.2 (hstops 0))
    (by omega : 0 < depth') x
  obtain ⟨hmark, htake, hrest⟩ := hu.mark hlater.ready hnls hsign
  have hshorter := hlater.shorter
  have hlt : (vs ++ rest).length < u.words.length := hu.length_lt (Word.solid_of_is hsign).1
  obtain ⟨y, v, hvalue, hlaterv, hv', hholdsv⟩ := hv.expression depth _ rest htake.ready
    (.ofWords hrest) hends (by rw [hrest]; omega)
  obtain ⟨id, hkind, htext⟩ := hholds.kind_eq_reference
  obtain ⟨a, t, hrun, hlater', ht, hassign, -⟩ := exists_addExpr hlaterv.ready
    (x.span.merge y.span) (.assign ((htake.trans hlaterv).code.text?_eq htext) hholdsv.tree)
  refine ⟨a, t, runs_expressionAt.2 ⟨x, _, hfirst _ _ hdone, ?_⟩,
    ((hlater.trans htake).trans hlaterv).trans hlater', (congrArg skipBlank ht).trans hv', hassign⟩
  rw [runs_assignment, if_pos hmark]
  exact ⟨y, v, id, hvalue, hkind, hrun⟩

theorem completes_call {callee : Expr Unit} {es : List (Expr Unit)} {cs vs nls : List Word}
    {opening closing : Word}
    (hspells : Spells (.expr (.call callee es ())) (cs ++ opening :: (vs ++ nls ++ [closing])))
    (hshaped : (Expr.call callee es ()).Shaped) (hf : Completes callee cs)
    (hargs : Separated (fun e ws => Spells (.expr e) ws ∧ Completes e ws) es vs) (hnls : Blank nls)
    (hopening : opening.is "(" = true) (hclosing : closing.is ")" = true) :
    Completes (.call callee es ()) (cs ++ opening :: (vs ++ nls ++ [closing])) := by
  refine .ofCalls hspells hshaped le_rfl fun depth s rest hs hsees hdepth => ?_
  have hsees' : s.Sees (cs ++ opening :: (vs ++ nls ++ closing :: rest)) := by simpa using hsees
  obtain ⟨x, u, fuel, hfirst, hlater, hu, hfuel, hholds⟩ :=
    hf.calls hshaped.1 depth s _ hs hsees' hdepth
  have hshorter := hlater.shorter
  obtain ⟨fuel, rfl⟩ : ∃ k, fuel = k + 1 := ⟨fuel - 1, by rw [hu] at hfuel; simp at hfuel; omega⟩
  obtain ⟨htake, hrest⟩ := ParseState.take_word hlater.ready hu (Word.solid_of_is hopening).2
  have hmark : u.current.is "(" = true := by
    rw [← Token.is_word, (List.cons.inj hu).1, hopening]
  have hlength := ParseState.length_advance hu hrest
  have hitems : Separated
      (CompleteItem Code.Holds u.advance.words.length (expressionAt depth)) es vs :=
    hargs.imp fun e ws h => h.2.item h.1 (by omega)
  have hmono : ∀ (c d : Code) x e, c.Extends d → c.Holds x e → d.Holds x e :=
    fun _ _ _ _ hcd hx => hx.mono hcd
  obtain ⟨args, v, hrunargs, hlaterv, hv, hholdsv⟩ := complete_items .tooManyArguments hmono
    hitems hshaped.2.1 hnls hclosing htake.ready le_rfl (.ofWords hrest)
  obtain ⟨slice, v', hslice, hlater', hv', hlist⟩ :=
    exists_addExprs hlaterv.ready (args.map StoredExpr.id)
  have hargs' : List.Forall₂ v'.code.HasExpr (args.map StoredExpr.id) es :=
    List.forall₂_map_left_iff.2 (hholdsv.imp fun _ _ hk => (hk.mono hlater'.code).tree)
  have hall := (htake.trans hlaterv).trans hlater'
  obtain ⟨called, z, hrun, hlaterz, hz, hcalled, -⟩ := exists_addExpr hlater'.ready
    (x.span.merge v'.previous) (.call (hholds.mono hall.code).tree hlist hargs')
  have hwords := (hz.trans hv').trans hv
  refine ⟨called, z, fuel, fun y t hy => hfirst _ _ (runs_callsFrom.2 ?_),
    (hlater.trans hall).trans hlaterz, hwords, ?_, hcalled⟩
  · rw [if_pos hmark]
    exact ⟨args, v, slice, v', called, z, hrunargs, hslice, hrun, hy⟩
  · have hless := ((hlaterv.trans hlater').trans hlaterz).shorter
    omega

/-- What is known of a phrase that is spelled. -/
def Phrase.Completes : Phrase → List Word → Prop
  | .expr e, ws => e.Shaped → Scriptorium.Completes e ws
  | .args es, ws => Expr.ShapedAll es →
      Separated (fun e ws => Spells (.expr e) ws ∧ Scriptorium.Completes e ws) es ws

/-- Every shaped expression that is spelled is read. -/
theorem Spells.completes {p : Phrase} {ws : List Word} (h : Spells p ws) : p.Completes ws := by
  induction h with
  | lead hnl _ ih => exact fun hshaped => (ih hshaped).lead hnl
  | int n => exact fun _ => completes_int n
  | str text => exact fun _ => completes_str text
  | bool b => exact fun _ => completes_bool b
  | reference name => exact fun _ => completes_reference name
  | group hspells hnls hclosing ih =>
    exact fun hshaped => completes_group hspells hshaped (ih hshaped) hnls hclosing
  | unary hsign hspells ih =>
    exact fun hshaped => completes_unary hspells hshaped.1 (ih hshaped.2) hsign
  | @operation op left right _ _ _ _ _ hnls hop _ ihl ihr =>
    intro hshaped
    obtain ⟨hleft, hright, hl, hr⟩ := (op.shaped_tree left right).1 hshaped
    exact completes_operation (ihl hl) (ihr hr) hnls hop hleft hright
  | assign _ hnls hsign _ ihn ihv =>
    exact fun hshaped => completes_assign (ihn trivial) (ihv hshaped) hnls hsign
  | call hf hopening hargs hnls hclosing ihf ihargs =>
    intro hshaped
    exact completes_call (.call hf hopening hargs hnls hclosing) hshaped (ihf hshaped.2.2.1)
      (ihargs hshaped.2.2.2) hnls hopening hclosing
  | noArgs => exact fun _ => .none
  | oneArg hspells ih => exact fun hshaped => .one ⟨hspells, ih hshaped.1⟩
  | moreArgs hspells hnls hcomma _ ih ihs =>
    exact fun hshaped => .more ⟨hspells, ih hshaped.1⟩ hnls hcomma (ihs hshaped.2)

/-- A shaped expression that is spelled is read where it ends. -/
theorem complete_expression {rest : List Word} (h : Spells (.expr e) ws) (hshaped : e.Shaped)
    {s : ParseState} (hs : s.Ready) (hsees : s.Sees (ws ++ rest)) (hends : Ends rest) :
    ∃ x t, Runs Parser.expression s x t ∧ Later s t ∧ t.Sees rest ∧ t.code.Holds x e := by
  have hbound := hs.bounded
  obtain ⟨x, t, hrun, ht⟩ :=
    (h.completes hshaped).expression (3 * s.size) s rest hs hsees hends (by omega)
  exact ⟨x, t, runs_expression.2 hrun, ht⟩

end Scriptorium
