import Scriptorium.Proofs.ErrorTokens
import Scriptorium.Proofs.JoinedTexts
import Scriptorium.Proofs.StatementSoundness

/-!
# Parsing further on in a text

What a parser does depends on which tokens come next, and not on where they stand or on what
was read before them.  So at the same tokens further on in a longer text it succeeds when it
succeeds here, and otherwise stops at the same error, further on.

The bounds on nesting and repetition are larger in the longer text.  That they do not matter
is shown on the way: every level of nesting and every item of a list takes a token.

* `ParseState.Shifted` — a state at the same tokens as another one, further on;
* `Agree` — two runs that both succeed, or both stop at the same error;
* `Tracks` — two parsers that agree at the same tokens;
* `Tracks.topStatement` — the parser of statements agrees with itself.
-/

namespace Scriptorium

/-- The same error so many bytes and rows further on. -/
def ParseError.shift (bytes rows : Nat) (e : ParseError) : ParseError :=
  { e with span := e.span.shift bytes, location := e.location.shift rows }

variable {bytes rows : Nat}

theorem Connective.ofToken?_shift (t : Token) : ofToken? (t.shift bytes rows) = ofToken? t := rfl

theorem UnaryOp.ofToken?_shift (t : Token) : ofToken? (t.shift bytes rows) = ofToken? t := rfl

theorem ParseError.atToken_shift (fault : ParseFault) (t : Token) :
    atToken fault (t.shift bytes rows) = (atToken fault t).shift bytes rows := rfl

namespace ParseState

/-- The state `s'` is at the same tokens as `s`, further on in a text that is no shorter. -/
structure Shifted (bytes rows : Nat) (s s' : ParseState) : Prop where
  current : s'.current = s.current.shift bytes rows
  rest : s'.rest = s.rest.map (Token.shift bytes rows)
  ready : s.Ready
  size : s.size ≤ s'.size

variable {s s' : ParseState}

theorem Shifted.words (h : s.Shifted bytes rows s') : s'.words = s.words := by
  rw [ParseState.words, h.current, h.rest, List.map_map]
  rfl

theorem Shifted.ready_right (h : s.Shifted bytes rows s') : s'.Ready := by
  have hwords := h.words
  refine ⟨?_, ?_⟩
  · rw [hwords]
    exact h.ready.closed
  · rw [hwords]
    exact h.ready.bounded.trans h.size

theorem Shifted.is (h : s.Shifted bytes rows s') (text : String) :
    s'.current.is text = s.current.is text := by
  rw [h.current, Token.is_shift]

/-- Storing something makes no difference. -/
theorem Shifted.store (h : s.Shifted bytes rows s') (arena arena' : Arena)
    (names names' : NameTable) :
    ({ s with arena, names } : ParseState).Shifted bytes rows
      { s' with arena := arena', names := names' } :=
  ⟨h.current, h.rest, ⟨h.ready.closed, h.ready.bounded⟩, h.size⟩

theorem words_advance_le (s : ParseState) : s.advance.words.length ≤ s.words.length := by
  unfold advance ParseState.words
  split <;> simp [*]

theorem Ready.advance (hs : s.Ready) : s.advance.Ready := by
  by_cases hend : s.current.isEnd = true
  · have hrest : s.rest = [] := by
      have := hs.words_of_isEnd hend
      simpa [ParseState.words] using this
    have hadvance : s.advance = { s with previous := s.current.span } := by
      simp [ParseState.advance, hrest]
    rw [hadvance]
    exact ⟨hs.closed, hs.bounded⟩
  · rw [Bool.not_eq_true] at hend
    exact (moves_advance hs hend).ready

theorem Shifted.advance (h : s.Shifted bytes rows s') :
    s.advance.Shifted bytes rows s'.advance := by
  have hready := h.ready.advance
  have hsize : s.advance.size ≤ s'.advance.size := by
    rw [size_advance, size_advance]
    exact h.size
  cases hrest : s.rest with
  | nil =>
    have hrest' : s'.rest = [] := by rw [h.rest, hrest, List.map_nil]
    refine ⟨?_, ?_, hready, hsize⟩ <;> simp [ParseState.advance, hrest, hrest', h.current]
  | cons t rest =>
    have hrest' : s'.rest = t.shift bytes rows :: rest.map (Token.shift bytes rows) := by
      rw [h.rest, hrest, List.map_cons]
    refine ⟨?_, ?_, hready, hsize⟩ <;> simp [ParseState.advance, hrest, hrest']

theorem dropNewlines_shift (bytes rows : Nat) (current : Token) (previous previous' : Span)
    (rest : List Token) :
    let r := dropNewlines current previous rest
    let r' := dropNewlines (current.shift bytes rows) previous'
      (rest.map (Token.shift bytes rows))
    r'.1 = r.1.shift bytes rows ∧ r'.2.2 = r.2.2.map (Token.shift bytes rows) := by
  induction rest generalizing current previous previous' with
  | nil => exact ⟨rfl, rfl⟩
  | cons t rest ih =>
    simp only [List.map_cons]
    unfold dropNewlines
    by_cases hn : current.isNewline = true
    · rw [if_pos hn, if_pos (by simpa using hn)]
      exact ih t _ _
    · rw [if_neg hn, if_neg (by simpa using hn)]
      exact ⟨rfl, rfl⟩

theorem words_skipNewlines_le (hs : s.Ready) : s.skipNewlines.words.length ≤ s.words.length := by
  obtain ⟨nls, -, hskip⟩ := moves_skipNewlines hs
  exact hskip.shorter

theorem Shifted.skipNewlines (h : s.Shifted bytes rows s') :
    s.skipNewlines.Shifted bytes rows s'.skipNewlines := by
  obtain ⟨nls, -, hskip⟩ := moves_skipNewlines h.ready
  obtain ⟨hcurrent, hrest⟩ := dropNewlines_shift bytes rows
    s.current s.previous s'.previous s.rest
  rw [← h.current, ← h.rest] at hcurrent hrest
  exact ⟨hcurrent, hrest, hskip.ready, h.size⟩

end ParseState

/-! ## Two runs -/

/-- The parsers `p` and `p'`, started in `s` and in `s'`, both succeed, with related answers
and at the same tokens, of which no more than `n` are left; or both stop at the same error. -/
def Agree (bytes rows n : Nat) {α : Type} (R : α → α → Prop) (s s' : ParseState)
    (p p' : Parser α) : Prop :=
  match p s, p' s' with
  | .ok a t, .ok a' t' => R a a' ∧ t.Shifted bytes rows t' ∧ t.words.length ≤ n
  | .error e _, .error e' _ => e' = e.shift bytes rows
  | _, _ => False

namespace Agree

variable {α β : Type} {n : Nat} {R : α → α → Prop} {S : β → β → Prop} {s s' : ParseState}

theorem bind {p p' : Parser α} {f f' : α → Parser β} (hp : Agree bytes rows n R s s' p p')
    (hf : ∀ a a' t t', R a a' → t.Shifted bytes rows t' → t.words.length ≤ n →
      Agree bytes rows n S t t' (f a) (f' a')) :
    Agree bytes rows n S s s' (p >>= f) (p' >>= f') := by
  unfold Agree at hp
  split at hp
  · next a t a' t' hrun hrun' =>
    obtain ⟨ha, ht, hn⟩ := hp
    have hrest := hf a a' t t' ha ht hn
    unfold Agree at hrest ⊢
    simpa only [Bind.bind, EStateM.bind, hrun, hrun'] using hrest
  · next e t e' t' hrun hrun' =>
    unfold Agree
    simpa only [Bind.bind, EStateM.bind, hrun, hrun'] using hp
  · exact hp.elim

theorem imp {m : Nat} {T : α → α → Prop} {p p' : Parser α} (hp : Agree bytes rows n R s s' p p')
    (h : ∀ a a', R a a' → T a a') (hnm : n ≤ m) : Agree bytes rows m T s s' p p' := by
  unfold Agree at hp ⊢
  split at hp
  · next a t a' t' hrun hrun' =>
    obtain ⟨ha, ht, hn⟩ := hp
    exact ⟨h a a' ha, ht, hn.trans hnm⟩
  · exact hp
  · exact hp.elim

/-- What the first run leaves bounds what both leave. -/
theorem leaves {m : Nat} {p p' : Parser α} (hp : Agree bytes rows n R s s' p p')
    (h : ∀ a t, Runs p s a t → t.words.length ≤ m) : Agree bytes rows m R s s' p p' := by
  unfold Agree at hp ⊢
  split at hp
  · next a t a' t' hrun hrun' => exact ⟨hp.1, hp.2.1, h a t hrun⟩
  · exact hp
  · exact hp.elim

theorem pure {a a' : α} (ha : R a a') (hs : s.Shifted bytes rows s') (hn : s.words.length ≤ n) :
    Agree bytes rows n R s s' (Pure.pure a) (Pure.pure a') :=
  ⟨ha, hs, hn⟩

theorem ite {c : Prop} [Decidable c] {p p' q q' : Parser α}
    (hp : c → Agree bytes rows n R s s' p p') (hq : ¬ c → Agree bytes rows n R s s' q q') :
    Agree bytes rows n R s s' (if c then p else q) (if c then p' else q') := by
  by_cases hc : c
  · rw [if_pos hc, if_pos hc]
    exact hp hc
  · rw [if_neg hc, if_neg hc]
    exact hq hc

/-- Both stop at the same token. -/
theorem fail {t t' : Token} (ht : t' = t.shift bytes rows) (fault : ParseFault) :
    Agree bytes rows n R s s' (Parser.fail fault t) (Parser.fail fault t') := by
  subst ht
  exact ParseError.atToken_shift fault t

theorem current_bind {f f' : Token → Parser β} (hs : s.Shifted bytes rows s')
    (h : Agree bytes rows n S s s' (f s.current) (f' (s.current.shift bytes rows))) :
    Agree bytes rows n S s s' (Parser.current >>= f) (Parser.current >>= f') := by
  rw [← hs.current] at h
  exact h

theorem expectedExpression (hs : s.Shifted bytes rows s') :
    Agree bytes rows n R s s' Parser.expectedExpression Parser.expectedExpression :=
  current_bind hs (fail rfl _)

theorem advance_bind {f f' : Token → Parser β} (hs : s.Shifted bytes rows s')
    (h : Agree bytes rows n S s.advance s'.advance (f s.current)
      (f' (s.current.shift bytes rows))) :
    Agree bytes rows n S s s' (Parser.advance >>= f) (Parser.advance >>= f') := by
  rw [← hs.current] at h
  exact h

theorem skipNewlines_bind {f f' : Unit → Parser β}
    (h : Agree bytes rows n S s.skipNewlines s'.skipNewlines (f ()) (f' ())) :
    Agree bytes rows n S s s' (Parser.skipNewlines >>= f) (Parser.skipNewlines >>= f') :=
  h

theorem check_bind {text : String} {f f' : Bool → Parser β} (hs : s.Shifted bytes rows s')
    (h : Agree bytes rows n S s s' (f (s.current.is text)) (f' (s.current.is text))) :
    Agree bytes rows n S s s' (Parser.check text >>= f) (Parser.check text >>= f') := by
  nth_rewrite 2 [← hs.is text] at h
  exact h

end Agree

/-! ## Parsers that store -/

/-- The parser stores something and reads nothing. -/
def Stores {α : Type} (p : Parser α) : Prop :=
  ∀ s, ∃ a arena names, p s = .ok a { s with arena, names }

namespace Stores

variable {α β : Type}

theorem pure (a : α) : Stores (Pure.pure a) := fun s => ⟨a, s.arena, s.names, rfl⟩

theorem bind {p : Parser α} {f : α → Parser β} (hp : Stores p) (hf : ∀ a, Stores (f a)) :
    Stores (p >>= f) := by
  intro s
  obtain ⟨a, arena, names, hrun⟩ := hp s
  obtain ⟨b, arena', names', hrest⟩ := hf a { s with arena, names }
  refine ⟨b, arena', names', ?_⟩
  simp only [Bind.bind, EStateM.bind, hrun, hrest]

theorem spanFrom (first : Span) : Stores (Parser.spanFrom first) :=
  fun s => ⟨_, s.arena, s.names, rfl⟩

theorem intern (text : String) : Stores (Parser.intern text) := fun s => ⟨_, s.arena, _, rfl⟩

theorem addExpr (kind : ExprKind) (span : Span) : Stores (Parser.addExpr kind span) :=
  fun s => ⟨_, _, s.names, rfl⟩

theorem addStmt (kind : StmtKind) (span : Span) : Stores (Parser.addStmt kind span) :=
  fun s => ⟨_, _, s.names, rfl⟩

theorem addStmtFrom (kind : StmtKind) (first : Span) : Stores (Parser.addStmtFrom kind first) :=
  (spanFrom first).bind fun span => addStmt kind span

theorem addExprs (ids : List ExprId) : Stores (Parser.addExprs ids) :=
  fun s => ⟨_, _, s.names, rfl⟩

theorem addStmts (ids : List StmtId) : Stores (Parser.addStmts ids) :=
  fun s => ⟨_, _, s.names, rfl⟩

theorem addParams (names : List NameId) : Stores (Parser.addParams names) :=
  fun s => ⟨_, _, s.names, rfl⟩

theorem forWhole (keyword : Span) (first : Option StmtId) (cond : ExprId) (body : StmtId) :
    Stores (do
      let loop ← Parser.addStmtFrom (.loop cond body) keyword
      match first with
      | none => return loop
      | some first =>
          let both ← Parser.addStmts [first, loop]
          Parser.addStmtFrom (.block both) keyword) := by
  refine (addStmtFrom _ _).bind fun loop => ?_
  cases first with
  | none => exact pure loop
  | some first => exact (addStmts _).bind fun both => addStmtFrom _ _

/-- The condition of a `for`, which is true if it is left out. -/
theorem forTest_bind (keyword : Span) (cond : Option StoredExpr) {f : StoredExpr → Parser β}
    (h : ∀ x, Stores (f x)) :
    Stores (do
      let cond ←
        match cond with
        | none => Parser.addExpr (.literal (.bool true)) keyword
        | some cond => Pure.pure cond
      f cond) := by
  cases cond with
  | none => exact (addExpr _ _).bind h
  | some cond => exact (pure cond).bind h

/-- The body of a `for`, in a block with the last clause, which follows it. -/
theorem forBody_bind (keyword : Span) (body : StmtId) (last : Option StoredExpr)
    {f : StmtId → Parser β} (h : ∀ id, Stores (f id)) :
    Stores (do
      let body ←
        match last with
        | none => Pure.pure body
        | some last => do
            let step ← Parser.addStmt (.expression last.id) last.span
            let both ← Parser.addStmts [body, step]
            Parser.addStmtFrom (.block both) keyword
      f body) := by
  cases last with
  | none => exact (pure body).bind h
  | some last =>
    exact (addStmt _ _).bind fun step => (addStmts _).bind fun both => (addStmtFrom _ _).bind h

end Stores

/-! ## Parsers that agree -/

/-- The parsers agree, with related answers, at the same tokens, as long as there are at most
`n` of them. -/
def Tracks (bytes rows n : Nat) {α : Type} (R : α → α → Prop) (p p' : Parser α) : Prop :=
  ∀ m ≤ n, ∀ s s' : ParseState, s.Shifted bytes rows s' → s.words.length ≤ m →
    Agree bytes rows m R s s' p p'

/-- Nothing is asked of two answers. -/
def Unrelated {α : Type} (_ _ : α) : Prop := True

/-- Either both are variables, or neither is. -/
def SameTarget (x x' : StoredExpr) : Prop :=
  (∃ name, x.node.kind = .reference name) ↔ ∃ name, x'.node.kind = .reference name

namespace Tracks

open ParseState

variable {α β : Type} {n m : Nat} {R T : α → α → Prop} {S : β → β → Prop} {s s' : ParseState}

theorem mono {p p' : Parser α} (h : Tracks bytes rows n R p p') (hmn : m ≤ n) :
    Tracks bytes rows m R p p' :=
  fun k hk => h k (hk.trans hmn)

/-- There is always a token left, the end of the text. -/
theorem zero {p p' : Parser α} : Tracks bytes rows 0 R p p' := by
  intro m hm s s' hs hn
  have := hs.ready.pos
  omega

theorem pure {a a' : α} (ha : R a a') : Tracks bytes rows n R (Pure.pure a) (Pure.pure a') :=
  fun _ _ _ _ hs hn => Agree.pure ha hs hn

theorem bind {p p' : Parser α} {f f' : α → Parser β} (hp : Tracks bytes rows n R p p')
    (hf : ∀ a a', R a a' → Tracks bytes rows n S (f a) (f' a')) :
    Tracks bytes rows n S (p >>= f) (p' >>= f') :=
  fun m hm s s' hs hn => (hp m hm s s' hs hn).bind fun a a' t t' ha ht => hf a a' ha m hm t t' ht

theorem optional {p p' : Parser α} (h : Tracks bytes rows n R p p') :
    Tracks bytes rows n Unrelated (some <$> p) (some <$> p') := by
  rw [map_eq_pure_bind, map_eq_pure_bind]
  exact h.bind fun _ _ _ => pure trivial

/-! ### Tokens -/

/-- The bounds that a parser takes from its state are enough for the tokens that are left. -/
theorem size_bind {f f' : Nat → Parser β}
    (h : ∀ m ≤ n, ∀ k k', m ≤ k → m ≤ k' → Tracks bytes rows m S (f k) (f' k')) :
    Tracks bytes rows n S (Parser.size >>= f) (Parser.size >>= f') := by
  intro m hm s s' hs hn
  have hsize := hs.ready.bounded
  have hrun := h s.words.length (hn.trans hm) s.size s'.size hsize (hsize.trans hs.size)
    s.words.length le_rfl s s' hs le_rfl
  exact Agree.imp (show Agree bytes rows s.words.length S s s' (Parser.size >>= f)
    (Parser.size >>= f') from hrun) (fun _ _ h => h) hn

theorem check_bind {text : String} {f f' : Bool → Parser β}
    (h : ∀ b, Tracks bytes rows n S (f b) (f' b)) :
    Tracks bytes rows n S (Parser.check text >>= f) (Parser.check text >>= f') :=
  fun m hm s s' hs hn => Agree.check_bind hs (h _ m hm s s' hs hn)

theorem advance_bind {f f' : Token → Parser β}
    (h : ∀ t, Tracks bytes rows n S (f t) (f' (t.shift bytes rows))) :
    Tracks bytes rows n S (Parser.advance >>= f) (Parser.advance >>= f') :=
  fun m hm s _ hs hn => Agree.advance_bind hs
    (h s.current m hm _ _ hs.advance (s.words_advance_le.trans hn))

theorem skipNewlines_bind {f f' : Unit → Parser β} (h : Tracks bytes rows n S (f ()) (f' ())) :
    Tracks bytes rows n S (Parser.skipNewlines >>= f) (Parser.skipNewlines >>= f') :=
  fun m hm _ _ hs hn => Agree.skipNewlines_bind
    (h m hm _ _ hs.skipNewlines ((words_skipNewlines_le hs.ready).trans hn))

theorem expect_bind {text : String} {f f' : Token → Parser β}
    (h : ∀ t, Tracks bytes rows n S (f t) (f' (t.shift bytes rows))) :
    Tracks bytes rows n S (Parser.expect text >>= f) (Parser.expect text >>= f') := by
  have hexpect : Tracks bytes rows n (fun t t' => t' = t.shift bytes rows) (Parser.expect text)
      (Parser.expect text) := by
    intro m hm s s' hs hn
    refine Agree.current_bind hs ?_
    rw [Token.is_shift]
    refine Agree.ite (fun _ => ?_) fun _ => Agree.fail rfl _
    exact ⟨hs.current, hs.advance, s.words_advance_le.trans hn⟩
  refine hexpect.bind ?_
  rintro t _ rfl
  exact h t

/-- The mark that has to come after line breaks. -/
theorem mark_bind {text : String} {p p' : Parser β} (h : Tracks bytes rows n S p p') :
    Tracks bytes rows n S
      (do
        Parser.skipNewlines
        let _ ← Parser.expect text
        p)
      (do
        Parser.skipNewlines
        let _ ← Parser.expect text
        p') :=
  skipNewlines_bind (expect_bind fun _ => h)

/-- A token that is not the end of the text makes room for a level of nesting. -/
theorem room {p p' : Parser α} (h : Tracks bytes rows n R p p') (hm : m ≤ n + 1)
    (hs : s.Shifted bytes rows s') (hn : s.words.length ≤ m) (hend : s.current.isEnd = false) :
    Agree bytes rows m R s.advance s'.advance p p' := by
  have hlength := (moves_advance hs.ready hend).length
  rw [List.length_singleton] at hlength
  have hrun := h (m - 1) (by omega) s.advance s'.advance hs.advance (by omega)
  exact hrun.imp (fun _ _ h => h) (by omega)

/-! ### What is stored -/

theorem stores {p p' : Parser α} (hp : Stores p) (hp' : Stores p') :
    Tracks bytes rows n Unrelated p p' := by
  intro m hm s s' hs hn
  obtain ⟨a, arena, names, hrun⟩ := hp s
  obtain ⟨a', arena', names', hrun'⟩ := hp' s'
  unfold Agree
  rw [hrun, hrun']
  exact ⟨trivial, hs.store arena arena' names names', hn⟩

/-- Two expressions of the same form, one of which is a variable only if the other is. -/
theorem addExpr {kind kind' : ExprKind}
    (hkind : (∃ name, kind = .reference name) ↔ ∃ name, kind' = .reference name)
    (span span' : Span) :
    Tracks bytes rows n SameTarget (Parser.addExpr kind span) (Parser.addExpr kind' span') :=
  fun _ _ _ _ hs hn => ⟨hkind, hs.store _ _ _ _, hn⟩

theorem addExprFrom {kind kind' : ExprKind}
    (hkind : (∃ name, kind = .reference name) ↔ ∃ name, kind' = .reference name)
    (first first' : Span) :
    Tracks bytes rows n SameTarget (do Parser.addExpr kind (← Parser.spanFrom first))
      (do Parser.addExpr kind' (← Parser.spanFrom first')) :=
  (stores (.spanFrom first) (.spanFrom first')).bind fun _ _ _ => addExpr hkind _ _

/-! ### Names and lists -/

theorem identifier :
    Tracks bytes rows n Unrelated Parser.identifier Parser.identifier := by
  refine skipNewlines_bind ?_
  intro m hm s s' hs hn
  refine Agree.current_bind hs ?_
  rw [Token.kind_shift]
  refine Agree.ite (fun _ => ?_) fun _ => Agree.fail rfl _
  exact advance_bind (fun t => stores (.intern _) (.intern _)) m hm s s' hs hn

/-- The fuel of a list of items is enough, since a comma comes between two of them. -/
theorem itemsFrom {tooMany : ParseFault} {item item' : Parser α}
    (h : Tracks bytes rows n R item item') {fuel fuel' : Nat} (hm : m ≤ n) (hfuel : m ≤ fuel)
    (hfuel' : m ≤ fuel') {seen seen' : List α} (hseen : seen.length = seen'.length) :
    Tracks bytes rows m Unrelated (Parser.itemsFrom tooMany item fuel seen)
      (Parser.itemsFrom tooMany item' fuel' seen') := by
  induction fuel generalizing fuel' m seen seen' with
  | zero =>
    obtain rfl := Nat.le_zero.1 hfuel
    exact zero
  | succ fuel ih =>
    cases fuel' with
    | zero =>
      obtain rfl := Nat.le_zero.1 hfuel'
      exact zero
    | succ fuel' =>
      refine skipNewlines_bind ?_
      intro k hk s s' hs hn
      rw [hseen]
      refine Agree.ite (fun _ => Agree.current_bind hs (Agree.fail rfl _)) fun _ => ?_
      refine (h.mono hm).bind (fun x x' _ => skipNewlines_bind ?_) k hk s s' hs hn
      intro k hk s s' hs hn
      refine Agree.check_bind hs ?_
      refine Agree.ite (fun hcomma => ?_) fun _ => Agree.pure trivial hs hn
      have hpos := hs.ready.pos
      have hm' : k ≤ m - 1 + 1 := by omega
      refine Agree.advance_bind hs (room ?_ hm' hs hn (Token.not_isEnd_of_is hcomma).1)
      exact ih (by omega) (by omega) (by omega) (by simp [hseen])

theorem items (tooMany : ParseFault) {item item' : Parser α}
    (h : Tracks bytes rows n R item item') :
    Tracks bytes rows n Unrelated (Parser.items tooMany item) (Parser.items tooMany item') := by
  have hclose : ∀ found found' : List α, Tracks bytes rows n Unrelated
      (do
        let _ ← Parser.expect ")"
        return found)
      (do
        let _ ← Parser.expect ")"
        return found') :=
    fun found found' => expect_bind fun _ => pure trivial
  refine skipNewlines_bind (check_bind fun closed => ?_)
  cases closed with
  | true => exact hclose [] []
  | false =>
    refine size_bind fun m hm k k' hk hk' => ?_
    exact (itemsFrom h hm hk hk' rfl).bind fun found found' _ => (hclose found found').mono hm

/-! ### Expressions -/

section Expressions

variable {expression expression' : Parser StoredExpr}

theorem literal (value value' : Literal NameId) :
    Tracks bytes rows n SameTarget (Parser.literal value) (Parser.literal value') :=
  advance_bind fun _ => addExpr (by simp) _ _

theorem primary (h : Tracks bytes rows n SameTarget expression expression') :
    Tracks bytes rows (n + 1) SameTarget (Parser.primary expression)
      (Parser.primary expression') := by
  refine skipNewlines_bind ?_
  intro m hm s s' hs hn
  refine Agree.current_bind hs ?_
  rw [Token.kind_shift]
  split
  · exact literal _ _ m hm s s' hs hn
  · exact (stores (.intern _) (.intern _)).bind (fun _ _ _ => literal _ _) m hm s s' hs hn
  · exact advance_bind (fun _ => (stores (.intern _) (.intern _)).bind fun _ _ _ =>
      addExpr (by simp) _ _) m hm s s' hs hn
  · refine Agree.ite (fun _ => literal _ _ m hm s s' hs hn) fun _ => ?_
    exact Agree.ite (fun _ => literal _ _ m hm s s' hs hn) fun _ => Agree.expectedExpression hs
  · next hpunct =>
    refine Agree.ite (fun _ => ?_) fun _ => Agree.expectedExpression hs
    have hend : s.current.isEnd = false := by simp [Token.isEnd, hpunct]
    refine Agree.advance_bind hs (room ?_ hm hs hn hend)
    exact h.bind fun inner inner' _ => mark_bind (addExprFrom (by simp) _ _)
  · exact Agree.expectedExpression hs

/-- The fuel of the argument lists is enough, since each starts with a parenthesis. -/
theorem callsFrom (h : Tracks bytes rows n SameTarget expression expression') {fuel fuel' : Nat}
    (hm : m ≤ n + 1) (hfuel : m ≤ fuel) (hfuel' : m ≤ fuel') {callee callee' : StoredExpr}
    (hcallee : SameTarget callee callee') :
    Tracks bytes rows m SameTarget (Parser.callsFrom expression fuel callee)
      (Parser.callsFrom expression' fuel' callee') := by
  induction fuel generalizing fuel' m callee callee' with
  | zero =>
    obtain rfl := Nat.le_zero.1 hfuel
    exact zero
  | succ fuel ih =>
    cases fuel' with
    | zero =>
      obtain rfl := Nat.le_zero.1 hfuel'
      exact zero
    | succ fuel' =>
      intro k hk s s' hs hn
      refine Agree.check_bind hs ?_
      refine Agree.ite (fun hopen => ?_) fun _ => Agree.pure hcallee hs hn
      have hpos := hs.ready.pos
      have hm' : k ≤ m - 1 + 1 := by omega
      refine Agree.advance_bind hs (room ?_ hm' hs hn (Token.not_isEnd_of_is hopen).1)
      refine (items _ (h.mono (by omega))).bind fun args args' _ => ?_
      refine (stores (.addExprs _) (.addExprs _)).bind fun slice slice' _ => ?_
      refine (stores (.spanFrom _) (.spanFrom _)).bind fun span span' _ => ?_
      refine (addExpr (by simp) _ _).bind fun called called' hcalled => ?_
      exact ih (by omega) (by omega) (by omega) hcalled

theorem calls (h : Tracks bytes rows n SameTarget expression expression') :
    Tracks bytes rows (n + 1) SameTarget (Parser.calls expression) (Parser.calls expression') :=
  (primary h).bind fun _ _ hcallee => size_bind fun _ hm _ _ hk hk' =>
    callsFrom h hm hk hk' hcallee

theorem assignment (h : Tracks bytes rows n SameTarget expression expression')
    {target target' : StoredExpr} (htarget : SameTarget target target') :
    Tracks bytes rows (n + 1) SameTarget (Parser.assignment expression target)
      (Parser.assignment expression' target') := by
  intro m hm s s' hs hn
  refine Agree.check_bind hs ?_
  refine Agree.ite (fun hsign => ?_) fun _ => Agree.pure htarget hs hn
  refine Agree.advance_bind hs (room ?_ hm hs hn (Token.not_isEnd_of_is hsign).1)
  refine h.bind fun value value' _ => ?_
  by_cases hname : ∃ name, target.node.kind = .reference name
  · obtain ⟨name', hname'⟩ := htarget.1 hname
    obtain ⟨name, hname⟩ := hname
    rw [hname, hname']
    exact addExpr (by simp) _ _
  · have hname' := mt htarget.2 hname
    split
    · next name hkind => exact absurd ⟨name, hkind⟩ hname
    split
    · next name hkind => exact absurd ⟨name, hkind⟩ hname'
    · exact fun _ _ _ _ _ _ => Agree.fail rfl _

/-- The connective makes room for a level of nesting. -/
theorem operationsAt {depth depth' level : Nat} {left left' : StoredExpr}
    (hoperation : ∀ level, Tracks bytes rows n SameTarget (Parser.operationAt depth level)
      (Parser.operationAt depth' level))
    (hrest : ∀ left left', SameTarget left left' → Tracks bytes rows n SameTarget
      (Parser.operationsAt depth level left) (Parser.operationsAt depth' level left'))
    (hleft : SameTarget left left') :
    Tracks bytes rows (n + 1) SameTarget (Parser.operationsAt (depth + 1) level left)
      (Parser.operationsAt (depth' + 1) level left') := by
  refine skipNewlines_bind ?_
  intro m hm s s' hs hn
  refine Agree.current_bind hs ?_
  rw [Connective.ofToken?_shift]
  split
  · exact Agree.pure hleft hs hn
  · next op hop =>
    refine Agree.ite (fun _ => ?_) fun _ => Agree.pure hleft hs hn
    refine Agree.advance_bind hs (room ?_ hm hs hn (Token.not_isEnd_of_connective hop))
    refine (hoperation _).bind fun right right' _ => ?_
    refine (addExpr (by cases op <;> simp [Connective.node]) _ _).bind fun both both' hboth => ?_
    exact hrest both both' hboth

/-- So does a sign. -/
theorem signedAt {depth depth' : Nat}
    (hexpr : Tracks bytes rows n SameTarget (Parser.expressionAt depth)
      (Parser.expressionAt depth'))
    (hsigned : Tracks bytes rows n SameTarget (Parser.signedAt depth) (Parser.signedAt depth')) :
    Tracks bytes rows (n + 1) SameTarget (Parser.signedAt (depth + 1))
      (Parser.signedAt (depth' + 1)) := by
  refine skipNewlines_bind ?_
  intro m hm s s' hs hn
  refine Agree.current_bind hs ?_
  rw [UnaryOp.ofToken?_shift]
  split
  · exact calls hexpr m hm s s' hs hn
  · next op hop =>
    refine Agree.advance_bind hs (room ?_ hm hs hn (Token.not_isEnd_of_sign hop))
    exact hsigned.bind fun operand operand' _ => addExpr (by simp) _ _

/-- The four functions that call each other, with the number of tokens that their fuel is
enough for. -/
theorem expressionAt_and (depth : Nat) :
    ∀ depth' : Nat,
      (∀ n, 3 * n ≤ depth → 3 * n ≤ depth' →
        Tracks bytes rows n SameTarget (Parser.expressionAt depth) (Parser.expressionAt depth')) ∧
      (∀ n level, 3 * n ≤ depth + 1 → 3 * n ≤ depth' + 1 →
        Tracks bytes rows n SameTarget (Parser.operationAt depth level)
          (Parser.operationAt depth' level)) ∧
      (∀ n level left left', 3 * n ≤ depth + 2 → 3 * n ≤ depth' + 2 → SameTarget left left' →
        Tracks bytes rows n SameTarget (Parser.operationsAt depth level left)
          (Parser.operationsAt depth' level left')) ∧
      ∀ n, 3 * n ≤ depth + 2 → 3 * n ≤ depth' + 2 →
        Tracks bytes rows n SameTarget (Parser.signedAt depth) (Parser.signedAt depth') := by
  have hnone : ∀ {n k : Nat} {p p' : Parser StoredExpr}, 3 * n ≤ k → k ≤ 2 →
      Tracks bytes rows n SameTarget p p' := by
    intro n k p p' hn hk
    obtain rfl : n = 0 := by omega
    exact zero
  induction depth with
  | zero =>
    exact fun _ => ⟨fun n hn _ => hnone hn (by simp), fun n _ hn _ => hnone hn (by simp),
      fun n _ _ _ hn _ _ => hnone hn (by simp), fun n hn _ => hnone hn (by simp)⟩
  | succ depth ih =>
    intro depth'
    cases depth' with
    | zero =>
      exact ⟨fun n _ hn => hnone hn (by simp), fun n _ _ hn => hnone hn (by simp),
        fun n _ _ _ _ hn _ => hnone hn (by simp), fun n _ hn => hnone hn (by simp)⟩
    | succ depth' =>
      obtain ⟨hexpr, hoperation, hrest, hsigned⟩ := ih depth'
      refine ⟨?_, ?_, ?_, ?_⟩
      · intro n hn hn'
        refine (hoperation n 0 hn hn').bind fun target target' htarget => ?_
        exact (assignment (hexpr (n - 1) (by omega) (by omega)) htarget).mono (by omega)
      · intro n level hn hn'
        refine (hsigned n hn hn').bind fun left left' hleft => ?_
        exact hrest n level left left' (by omega) (by omega) hleft
      · intro n level left left' hn hn' hleft
        refine (operationsAt (n := n - 1) (fun level => ?_) (fun both both' hboth => ?_)
          hleft).mono (by omega)
        · exact hoperation (n - 1) level (by omega) (by omega)
        · exact hrest (n - 1) level both both' (by omega) (by omega) hboth
      · intro n hn hn'
        have hexpr := hexpr (n - 1) (by omega) (by omega)
        exact (signedAt hexpr (hsigned (n - 1) (by omega) (by omega))).mono (by omega)

theorem ofExpression :
    Tracks bytes rows n SameTarget Parser.expression Parser.expression :=
  size_bind fun m _ k k' hk hk' =>
    (expressionAt_and (3 * k) (3 * k')).1 m (by omega) (by omega)

end Expressions

/-! ### Statements -/

theorem statementEnd (kind kind' : StmtKind) (first first' : Span) :
    Tracks bytes rows n Unrelated
      (do
        Parser.skipNewlines
        let _ ← Parser.expect ";"
        Parser.addStmtFrom kind first)
      (do
        Parser.skipNewlines
        let _ ← Parser.expect ";"
        Parser.addStmtFrom kind' first') :=
  mark_bind (stores (.addStmtFrom _ _) (.addStmtFrom _ _))

theorem expressionStatement :
    Tracks bytes rows n Unrelated Parser.expressionStatement Parser.expressionStatement :=
  ofExpression.bind fun _ _ _ => statementEnd _ _ _ _

theorem variableDeclaration :
    Tracks bytes rows n Unrelated Parser.variableDeclaration Parser.variableDeclaration := by
  refine advance_bind fun keyword => identifier.bind fun name name' _ => check_bind fun sign => ?_
  cases sign with
  | true => exact advance_bind fun _ => ofExpression.optional.bind fun _ _ _ => statementEnd _ _ _ _
  | false => exact statementEnd _ _ _ _

theorem returnStatement (inFunction : Bool) :
    Tracks bytes rows n Unrelated (Parser.returnStatement inFunction)
      (Parser.returnStatement inFunction) := by
  intro m hm s s' hs hn
  refine Agree.current_bind hs ?_
  cases inFunction with
  | false => exact Agree.fail rfl _
  | true =>
    refine advance_bind (fun _ => skipNewlines_bind (check_bind fun found => ?_)) m hm s s' hs hn
    cases found with
    | true => exact statementEnd _ _ _ _
    | false => exact ofExpression.optional.bind fun _ _ _ => statementEnd _ _ _ _

theorem condition : Tracks bytes rows n Unrelated Parser.condition Parser.condition :=
  mark_bind (ofExpression.bind fun _ _ _ => mark_bind (pure trivial))

theorem forFirst : Tracks bytes rows n Unrelated Parser.forFirst Parser.forFirst := by
  refine check_bind fun absent => ?_
  cases absent with
  | true => exact advance_bind fun _ => pure trivial
  | false =>
    refine check_bind fun found => ?_
    cases found with
    | true => exact variableDeclaration.optional
    | false => exact expressionStatement.optional

theorem forClause (mark : String) :
    Tracks bytes rows n Unrelated (Parser.forClause mark) (Parser.forClause mark) := by
  refine skipNewlines_bind (check_bind fun absent => ?_)
  cases absent with
  | true => exact mark_bind (pure trivial)
  | false => exact ofExpression.optional.bind fun _ _ _ => mark_bind (pure trivial)

section Nested

variable {statement statement' : Parser StmtId}

theorem declaration (h : Tracks bytes rows n Unrelated statement statement') :
    Tracks bytes rows n Unrelated (Parser.declaration statement)
      (Parser.declaration statement') := by
  refine skipNewlines_bind (check_bind fun found => ?_)
  cases found with
  | true => exact variableDeclaration
  | false => exact h

/-- The fuel of a block is enough, since each of its statements takes a token. -/
theorem declarationsFrom {inFunction : Bool}
    (h : Tracks bytes rows n Unrelated statement statement')
    (hsound : SoundStatement inFunction n statement) {fuel fuel' : Nat} (hm : m ≤ n)
    (hfuel : m ≤ fuel) (hfuel' : m ≤ fuel') (opening : Token) (seen seen' : List StmtId) :
    Tracks bytes rows m Unrelated (Parser.declarationsFrom opening statement fuel seen)
      (Parser.declarationsFrom (opening.shift bytes rows) statement' fuel' seen') := by
  induction fuel generalizing fuel' m seen seen' with
  | zero =>
    obtain rfl := Nat.le_zero.1 hfuel
    exact zero
  | succ fuel ih =>
    cases fuel' with
    | zero =>
      obtain rfl := Nat.le_zero.1 hfuel'
      exact zero
    | succ fuel' =>
      refine skipNewlines_bind ?_
      intro k hk s s' hs hn
      refine Agree.current_bind hs ?_
      rw [Token.is_shift, Token.isEnd_shift]
      refine Agree.ite (fun _ => ?_) fun _ => ?_
      · exact Agree.advance_bind hs
          (Agree.pure trivial hs.advance (s.words_advance_le.trans hn))
      refine Agree.ite (fun _ => Agree.fail rfl _) fun _ => ?_
      have hpos := hs.ready.pos
      have hdecl := (declaration h k (hk.trans hm) s s' hs hn).leaves fun id t hrun => by
        obtain ⟨b, hread⟩ := sound_declaration hsound hs.ready (by omega) hrun
        exact Nat.le_pred_of_lt (hread.length_lt.trans_le hn)
      have hrest : Agree bytes rows (k - 1) Unrelated s s'
          (do
            let stmt ← Parser.declaration statement
            Parser.declarationsFrom opening statement fuel (stmt :: seen))
          (do
            let stmt ← Parser.declaration statement'
            Parser.declarationsFrom (opening.shift bytes rows) statement' fuel'
              (stmt :: seen')) :=
        hdecl.bind fun stmt stmt' t t' _ ht hlength =>
          ih (by omega) (by omega) (by omega) _ _ (k - 1) le_rfl t t' ht hlength
      exact hrest.imp (fun _ _ h => h) (Nat.pred_le k)

theorem blockBody {inFunction : Bool} (h : Tracks bytes rows n Unrelated statement statement')
    (hsound : SoundStatement inFunction n statement) (opening : Token) :
    Tracks bytes rows n Unrelated (Parser.blockBody opening statement)
      (Parser.blockBody (opening.shift bytes rows) statement') :=
  size_bind fun _ hm _ _ hk hk' =>
    (declarationsFrom h hsound hm hk hk' opening [] []).bind fun _ _ _ =>
      stores (.addStmts _) (.addStmts _)

end Nested

end Tracks

/-- The same of parsers that start with a token that is not the end of the text. -/
def TracksFrom (bytes rows n : Nat) {α : Type} (R : α → α → Prop) (p p' : Parser α) : Prop :=
  ∀ m ≤ n, ∀ s s' : ParseState, s.Shifted bytes rows s' → s.words.length ≤ m + 1 →
    s.current.isEnd = false → Agree bytes rows (m + 1) R s s' p p'

namespace TracksFrom

open ParseState Tracks

variable {α : Type} {n : Nat} {R : α → α → Prop} {statement statement' : Parser StmtId}

/-- The token at the start makes room for a level of nesting. -/
theorem advance_bind {f f' : Token → Parser α}
    (h : ∀ t, Tracks bytes rows n R (f t) (f' (t.shift bytes rows))) :
    TracksFrom bytes rows n R (Parser.advance >>= f) (Parser.advance >>= f') :=
  fun _ hm s _ hs hn hend => Agree.advance_bind hs
    ((h s.current).room (Nat.succ_le_succ hm) hs hn hend)

theorem blockStatement {inFunction : Bool}
    (h : Tracks bytes rows n Unrelated statement statement')
    (hsound : SoundStatement inFunction n statement) :
    TracksFrom bytes rows n Unrelated (Parser.blockStatement statement)
      (Parser.blockStatement statement') :=
  advance_bind fun opening => (blockBody h hsound opening).bind fun _ _ _ =>
    stores (.addStmtFrom _ _) (.addStmtFrom _ _)

theorem branchStatement (h : Tracks bytes rows n Unrelated statement statement') :
    TracksFrom bytes rows n Unrelated (Parser.branchStatement statement)
      (Parser.branchStatement statement') := by
  refine advance_bind fun keyword => condition.bind fun _ _ _ => h.bind fun _ _ _ => ?_
  refine skipNewlines_bind (check_bind fun found => ?_)
  cases found with
  | true =>
    exact Tracks.advance_bind fun _ => h.optional.bind fun _ _ _ =>
      stores (.addStmtFrom _ _) (.addStmtFrom _ _)
  | false => exact stores (.addStmtFrom _ _) (.addStmtFrom _ _)

theorem loopStatement (h : Tracks bytes rows n Unrelated statement statement') :
    TracksFrom bytes rows n Unrelated (Parser.loopStatement statement)
      (Parser.loopStatement statement') :=
  advance_bind fun _ => condition.bind fun _ _ _ => h.bind fun _ _ _ =>
    stores (.addStmtFrom _ _) (.addStmtFrom _ _)

theorem forStatement (h : Tracks bytes rows n Unrelated statement statement') :
    TracksFrom bytes rows n Unrelated (Parser.forStatement statement)
      (Parser.forStatement statement') := by
  refine advance_bind fun keyword => mark_bind (skipNewlines_bind ?_)
  refine forFirst.bind fun first first' _ => (forClause ";").bind fun cond cond' _ => ?_
  refine (forClause ")").bind fun last last' _ => h.bind fun body body' _ => ?_
  -- nothing is read any more
  refine stores (.forBody_bind _ body last fun body => ?_)
    (.forBody_bind _ body' last' fun body => ?_)
  · exact .forTest_bind _ cond fun test => .forWhole _ first test.id body
  · exact .forTest_bind _ cond' fun test => .forWhole _ first' test.id body

theorem functionDeclaration {inFunction : Bool}
    (h : Tracks bytes rows n Unrelated statement statement')
    (hsound : SoundStatement inFunction n statement) :
    TracksFrom bytes rows n Unrelated (Parser.functionDeclaration statement)
      (Parser.functionDeclaration statement') := by
  refine advance_bind fun keyword => identifier.bind fun name name' _ => mark_bind ?_
  refine (items _ identifier).bind fun params params' _ => ?_
  refine (stores (.addParams _) (.addParams _)).bind fun slice slice' _ => ?_
  refine skipNewlines_bind (expect_bind fun opening => ?_)
  exact (blockBody h hsound opening).bind fun _ _ _ =>
    stores (.addStmtFrom _ _) (.addStmtFrom _ _)

/-- A statement inside another one comes after a token of the outer one. -/
theorem statementAt {depth depth' : Nat} (inFunction : Bool) {n : Nat} (hn : n ≤ depth)
    (hn' : n ≤ depth') :
    Tracks bytes rows n Unrelated (Parser.statementAt depth inFunction)
      (Parser.statementAt depth' inFunction) := by
  induction depth generalizing depth' inFunction n with
  | zero =>
    obtain rfl := Nat.le_zero.1 hn
    exact zero
  | succ depth ih =>
    cases depth' with
    | zero =>
      obtain rfl := Nat.le_zero.1 hn'
      exact zero
    | succ depth' =>
      have hinner : ∀ inFunction, Tracks bytes rows (n - 1) Unrelated
          (Parser.statementAt depth inFunction) (Parser.statementAt depth' inFunction) :=
        fun inFunction => ih inFunction (by omega) (by omega)
      have hsound : ∀ inFunction,
          SoundStatement inFunction (n - 1) (Parser.statementAt depth inFunction) :=
        fun inFunction s id t hs hlength =>
          sound_statementAt depth inFunction s id t hs (by omega)
      refine skipNewlines_bind ?_
      intro m hm s s' hs hlength
      have hfrom : ∀ {text : String} {p p' : Parser StmtId},
          TracksFrom bytes rows (n - 1) Unrelated p p' → s.current.is text = true →
          Agree bytes rows m Unrelated s s' p p' := by
        intro text p p' hp his
        have hpos := hs.ready.pos
        obtain ⟨m, rfl⟩ : ∃ k, m = k + 1 := ⟨m - 1, by omega⟩
        exact hp m (by omega) s s' hs hlength (Token.not_isEnd_of_is his).1
      refine Agree.current_bind hs ?_
      simp only [Token.is_shift]
      refine Agree.ite (hfrom (branchStatement (hinner inFunction))) fun _ => ?_
      refine Agree.ite (hfrom (loopStatement (hinner inFunction))) fun _ => ?_
      refine Agree.ite (hfrom (forStatement (hinner inFunction))) fun _ => ?_
      refine Agree.ite (hfrom (functionDeclaration (hinner true) (hsound true))) fun _ => ?_
      refine Agree.ite (fun _ => returnStatement inFunction m hm s s' hs hlength) fun _ => ?_
      refine Agree.ite (hfrom (blockStatement (hinner inFunction) (hsound inFunction))) fun _ => ?_
      exact expressionStatement m hm s s' hs hlength

end TracksFrom

theorem Tracks.topStatement {n : Nat} :
    Tracks bytes rows n Unrelated Parser.topStatement Parser.topStatement :=
  size_bind fun _ _ _ _ hk hk' => TracksFrom.statementAt false hk hk'

end Scriptorium
