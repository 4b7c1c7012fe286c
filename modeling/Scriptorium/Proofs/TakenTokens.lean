import Scriptorium.Program.Command
import Scriptorium.Proofs.ExpressionSoundness
import Scriptorium.Proofs.ParserContracts
import Scriptorium.Proofs.TokenOrder

/-!
# The tokens that a parser takes

A parser takes the tokens of a text one after the other, and never one that is invalid; what
it complains about is therefore no later than the first invalid token.  The span of an
expression goes from the first of the tokens that it was read from to the last of them, and
these spell it.

* `Bounds` — the span from the first token to the last one;
* `Code.Tells` — every stored expression is spelled by the tokens under its span;
* `ParseState.Taken`, `ParseState.Reading` — what was taken is valid, and what is left are
  the other tokens;
* `ParseError.Earliest` — an error at a token with only valid tokens before it;
* `ReadsExpr` — an expression was read between two states, exactly from its span.
-/

namespace Scriptorium

open Scriptorium.Parser

/-! ## Tokens in order -/

namespace Token

theorem isInvalid_iff {t : Token} : t.isInvalid = true ↔ ∃ r, t.kind = .invalid r := by
  unfold isInvalid
  cases t.kind <;> simp

theorem isInvalid_of_is {t : Token} {text : String} (h : t.is text = true) :
    t.isInvalid = false := by
  unfold Token.is at h
  unfold isInvalid
  split
  · next hkind => simp [hkind] at h
  · rfl

theorem isInvalid_of_connective {t : Token} {op : Connective}
    (h : Connective.ofToken? t = some op) : t.isInvalid = false := by
  unfold isInvalid
  split
  · next hkind => simp [Connective.ofToken?, Token.is, hkind] at h
  · rfl

theorem isInvalid_of_sign {t : Token} {op : UnaryOp} (h : UnaryOp.ofToken? t = some op) :
    t.isInvalid = false := by
  unfold isInvalid
  split
  · next hkind => simp [UnaryOp.ofToken?, hkind] at h
  · rfl

end Token

/-- Each of the tokens ends where the next one begins or before. -/
structure Ordered (ts : List Token) : Prop where
  forward : ∀ t ∈ ts, t.span.start ≤ t.span.stop
  apart : ts.Pairwise fun a b => a.span.stop ≤ b.span.start

theorem InOrder.after {offset : Nat} {ts : List Token} (h : InOrder offset ts) :
    ∀ t ∈ ts, offset ≤ t.span.start := by
  induction ts generalizing offset with
  | nil => simp
  | cons t ts ih =>
    obtain ⟨hafter, hforward, -, hrest⟩ := h
    intro u hu
    rcases List.mem_cons.1 hu with rfl | hu
    · exact hafter
    · exact (hafter.trans hforward).trans (ih hrest u hu)

theorem InOrder.ordered {offset : Nat} {ts : List Token} (h : InOrder offset ts) : Ordered ts := by
  induction ts generalizing offset with
  | nil => exact ⟨by simp, .nil⟩
  | cons t ts ih =>
    obtain ⟨-, hforward, -, hrest⟩ := h
    obtain ⟨hforwards, hapart⟩ := ih hrest
    exact ⟨List.forall_mem_cons.2 ⟨hforward, hforwards⟩, .cons hrest.after hapart⟩

theorem Ordered.of_infix {ts us : List Token} (h : Ordered us) (hpart : ts <:+: us) :
    Ordered ts :=
  ⟨fun t ht => h.forward t (hpart.subset ht), h.apart.sublist hpart.sublist⟩

/-- The span goes from the start of the first token to the end of the last one.  Neither is a
line break. -/
structure Bounds (ts : List Token) (span : Span) : Prop where
  first : ∃ t, ts.head? = some t ∧ t.isNewline = false ∧ span.start = t.span.start
  last : ∃ t, ts.getLast? = some t ∧ t.isNewline = false ∧ span.stop = t.span.stop

namespace Bounds

theorem single {t : Token} (h : t.isNewline = false) : Bounds [t] t.span :=
  ⟨⟨t, rfl, h, rfl⟩, ⟨t, rfl, h, rfl⟩⟩

/-- The spans of two parts are merged to the span of the whole. -/
theorem merge {as mid bs : List Token} {a b : Span} (ha : Bounds as a) (hb : Bounds bs b)
    (h : Ordered (as ++ (mid ++ bs))) : Bounds (as ++ (mid ++ bs)) (a.merge b) := by
  obtain ⟨⟨t, htfirst, ht, htstart⟩, ⟨u, hulast, hu, hustop⟩⟩ := ha
  obtain ⟨⟨v, hvfirst, hv, hvstart⟩, ⟨w, hwlast, hw, hwstop⟩⟩ := hb
  have hacross := (List.pairwise_append.1 h.apart).2.2
  have htv := hacross t (List.mem_of_mem_head? htfirst) v
    (List.mem_append_right _ (List.mem_of_mem_head? hvfirst))
  have huw := hacross u (List.mem_of_mem_getLast? hulast) w
    (List.mem_append_right _ (List.mem_of_mem_getLast? hwlast))
  have htt := h.forward t (List.mem_append_left _ (List.mem_of_mem_head? htfirst))
  have hww := h.forward w (List.mem_append_right _
    (List.mem_append_right _ (List.mem_of_mem_getLast? hwlast)))
  refine ⟨⟨t, by simp [List.head?_append, htfirst], ht, ?_⟩,
    ⟨w, by simp [List.getLast?_append, hwlast], hw, ?_⟩⟩
  · show min a.start b.start = t.span.start
    omega
  · show max a.stop b.stop = w.span.stop
    omega

end Bounds

/-! ## Spellings without line breaks around them -/

/-- There are words, and neither the first nor the last one is a line break. -/
structure Trimmed (ws : List Word) : Prop where
  first : ∃ w, ws.head? = some w ∧ w.isNewline = false
  last : ∃ w, ws.getLast? = some w ∧ w.isNewline = false

namespace Trimmed

theorem single {w : Word} (h : w.isNewline = false) : Trimmed [w] := ⟨⟨w, rfl, h⟩, ⟨w, rfl, h⟩⟩

theorem append {as bs : List Word} (ha : Trimmed as) (mid : List Word) (hb : Trimmed bs) :
    Trimmed (as ++ (mid ++ bs)) := by
  obtain ⟨w, hw, hwn⟩ := ha.first
  obtain ⟨v, hv, hvn⟩ := hb.last
  exact ⟨⟨w, by simp [List.head?_append, hw], hwn⟩, ⟨v, by simp [List.getLast?_append, hv], hvn⟩⟩

/-- Among line breaks there is only one place for such words. -/
theorem unique {lead core trail nls vs nls' : List Word} (hcore : Trimmed core) (hvs : Trimmed vs)
    (hlead : Blank lead) (htrail : Blank trail) (hnls : Blank nls) (hnls' : Blank nls')
    (h : lead ++ (core ++ trail) = nls ++ (vs ++ nls')) : core = vs := by
  -- the line breaks in front are dropped on both sides
  have hskip : ∀ {ws : List Word} (us : List Word),
      Trimmed ws → skipBlank (ws ++ us) = ws ++ us := by
    rintro ws us ⟨⟨w, hw, hwn⟩, -⟩
    obtain ⟨rest, rfl⟩ := List.head?_eq_some_iff.1 hw
    exact skipBlank_cons hwn
  have hsame : core ++ trail = vs ++ nls' := by
    have h := congrArg skipBlank h
    rwa [skipBlank_append hlead, skipBlank_append hnls, hskip _ hcore, hskip _ hvs] at h
  -- of two ends the longer one would end in a line break
  have hnone : ∀ {ws as : List Word}, Trimmed (ws ++ as) → Blank as → as = [] := by
    intro ws as h has
    rcases List.eq_nil_or_concat as with rfl | ⟨init, a, rfl⟩
    · rfl
    · obtain ⟨w, hw, hwn⟩ := h.last
      have ha : a.isNewline = true := has a (by simp)
      simp only [List.concat_eq_append, ← List.append_assoc, List.getLast?_concat,
        Option.some.injEq] at hw
      rw [hw, hwn] at ha
      cases ha
  rcases List.append_eq_append_iff.1 hsame with ⟨as, rfl, rfl⟩ | ⟨as, rfl, rfl⟩
  · rw [hnone hvs (blank_append.1 htrail).1, List.append_nil]
  · rw [hnone hcore (blank_append.1 hnls').1, List.append_nil]

end Trimmed

theorem Bounds.trimmed {ts : List Token} {span : Span} (h : Bounds ts span) :
    Trimmed (ts.map Token.word) := by
  obtain ⟨⟨t, hfirst, ht, -⟩, ⟨u, hlast, hu, -⟩⟩ := h
  exact ⟨⟨t.word, by simp [hfirst], by rw [Token.isNewline_word, ht]⟩,
    ⟨u.word, by simp [hlast], by rw [Token.isNewline_word, hu]⟩⟩

/-- Line breaks in front apart, the words of an expression are trimmed. -/
theorem Spells.exists_trimmed {e : Expr Unit} {ws : List Word} (h : Spells (.expr e) ws) :
    ∃ nls vs, ws = nls ++ vs ∧ Blank nls ∧ Trimmed vs ∧ Spells (.expr e) vs := by
  generalize hp : Phrase.expr e = p at h
  induction h generalizing e with
  | lead hnl _ ih =>
    obtain ⟨nls, vs, rfl, hnls, hrest⟩ := ih rfl
    cases hp
    exact ⟨_ :: nls, vs, rfl, blank_cons.2 ⟨hnl, hnls⟩, hrest⟩
  | int value => cases hp; exact ⟨[], _, rfl, blank_nil, .single rfl, .int value⟩
  | str text => cases hp; exact ⟨[], _, rfl, blank_nil, .single rfl, .str text⟩
  | bool b => cases hp; exact ⟨[], _, rfl, blank_nil, .single rfl, .bool b⟩
  | reference name => cases hp; exact ⟨[], _, rfl, blank_nil, .single rfl, .reference name⟩
  | @group e ws nls closing hinner hnls hclose _ =>
    cases hp
    have htrimmed := (Trimmed.single (w := .punct "(") rfl).append (ws ++ nls)
      (.single (Word.solid_of_is hclose).1)
    exact ⟨[], _, rfl, blank_nil, htrimmed, .group hinner hnls hclose⟩
  | unary hsign hoperand ih =>
    obtain ⟨nls, vs, rfl, -, hvs, -⟩ := ih rfl
    cases hp
    exact ⟨[], _, rfl, blank_nil, (Trimmed.single (Word.solid_of_sign? hsign).1).append nls hvs,
      .unary hsign hoperand⟩
  | @operation op l r ws nls vs w hleft hnls hop hright ihl ihr =>
    obtain ⟨lead, us, rfl, hlead, hus, hspells⟩ := ihl rfl
    obtain ⟨lead', us', rfl, -, hus', -⟩ := ihr rfl
    cases hp
    have htrimmed := hus.append (nls ++ w :: lead') hus'
    exact ⟨lead, _, by simp, hlead, by simpa using htrimmed, .operation hspells hnls hop hright⟩
  | @assign name value ws nls vs w hname hnls hsign hvalue ihl ihr =>
    obtain ⟨lead, us, rfl, hlead, hus, hspells⟩ := ihl rfl
    obtain ⟨lead', us', rfl, -, hus', -⟩ := ihr rfl
    cases hp
    have htrimmed := hus.append (nls ++ w :: lead') hus'
    exact ⟨lead, _, by simp, hlead, by simpa using htrimmed, .assign hspells hnls hsign hvalue⟩
  | @call callee es ws vs nls opening closing hcallee hopen hargs hnls hclose ihc _ =>
    obtain ⟨lead, us, rfl, hlead, hus, hspells⟩ := ihc rfl
    cases hp
    have htrimmed := hus.append (opening :: (vs ++ nls)) (.single (Word.solid_of_is hclose).1)
    exact ⟨lead, _, by simp, hlead, by simpa using htrimmed,
      .call hspells hopen hargs hnls hclose⟩
  | noArgs | oneArg | moreArgs => cases hp

/-! ## Expressions under their spans -/

/-- Some of the tokens, none of them invalid, spell the expression under the number, and the
span goes from the first to the last of these. -/
def Code.TellsExpr (tokens : List Token) (c : Code) (id : ExprId) (span : Span) : Prop :=
  ∃ before core after e, tokens = before ++ (core ++ after) ∧
    (∀ t ∈ core, t.isInvalid = false) ∧ Bounds core span ∧
    Spells (.expr e) (core.map Token.word) ∧ e.Shaped ∧ c.HasExpr id e

/-- The node stands for a condition that is left out: it has the span of a `for`. -/
def ExprNode.Implicit (tokens : List Token) (node : ExprNode) : Prop :=
  node.kind = .literal (.bool true) ∧ ∃ t ∈ tokens, t.is "for" = true ∧ node.span = t.span

/-- Every expression of the code is spelled by the tokens under its span, but for the
conditions that are left out. -/
def Code.Tells (tokens : List Token) (c : Code) : Prop :=
  ∀ id node, c.arena.expr? id = some node →
    c.TellsExpr tokens id node.span ∨ node.Implicit tokens

namespace Code

variable {tokens : List Token} {c d : Code}

theorem TellsExpr.mono {id : ExprId} {span : Span} (h : c.TellsExpr tokens id span)
    (hd : c.Extends d) : d.TellsExpr tokens id span := by
  obtain ⟨before, core, after, e, htokens, hvalid, hbounds, hspells, hshaped, hstored⟩ := h
  exact ⟨before, core, after, e, htokens, hvalid, hbounds, hspells, hshaped, hstored.mono hd⟩

theorem tells_empty (tokens : List Token) : Code.empty.Tells tokens := by
  intro id node hnode
  cases hnode

/-- What is stored besides expressions changes nothing. -/
theorem Tells.of_extends (h : c.Tells tokens) (hd : c.Extends d)
    (hexprs : d.arena.exprs = c.arena.exprs) : d.Tells tokens := by
  intro id node hnode
  have hold : c.arena.expr? id = some node := by
    unfold Arena.expr? at hnode ⊢
    rwa [← hexprs]
  exact (h id node hold).imp_left fun h => h.mono hd

/-- An expression is stored that the tokens spell, or a condition that is left out. -/
theorem Tells.addExpr {arena : Arena} {names : NameTable} {node : ExprNode}
    (h : Code.Tells tokens ⟨arena, names⟩)
    (hnew : Code.TellsExpr tokens ⟨(arena.addExpr node).2, names⟩ (arena.addExpr node).1 node.span ∨
      node.Implicit tokens) : Code.Tells tokens ⟨(arena.addExpr node).2, names⟩ := by
  have hd : Code.Extends ⟨arena, names⟩ ⟨(arena.addExpr node).2, names⟩ :=
    ⟨.push _ _, .refl _, .refl _, .refl _, .refl _, .refl _⟩
  intro id other hother
  have hpush : (arena.exprs.push node)[id.index]? = some other := hother
  rw [Array.getElem?_push] at hpush
  split at hpush
  · next hid =>
    cases hpush
    obtain ⟨i⟩ := id
    subst hid
    exact hnew
  · exact (h id other hpush).imp_left fun h => h.mono hd

end Code

/-! ## States -/

namespace ParseState

/-- The tokens that are left. -/
def tokens (s : ParseState) : List Token := s.current :: s.rest

/-- The tokens that are left are those after some valid ones, and the last of these was taken
last. -/
structure Taken (tokens : List Token) (s : ParseState) : Prop where
  split : ∃ taken, tokens = taken ++ s.tokens ∧ (∀ t ∈ taken, t.isInvalid = false) ∧
    ∀ t ∈ taken.getLast?, s.previous = t.span
  ready : s.Ready
  ordered : Ordered tokens

/-- The expressions stored so far are spelled by the tokens as well. -/
structure Reading (tokens : List Token) (s : ParseState) : Prop extends Taken tokens s where
  told : s.code.Tells tokens

end ParseState

/-- One of the tokens, before which all are valid. -/
def ReachedToken (tokens : List Token) (t : Token) : Prop :=
  ∃ taken rest, tokens = taken ++ t :: rest ∧ ∀ u ∈ taken, u.isInvalid = false

/-- The error is at a token before which all are valid, and its fault is that of the token, if
this is invalid. -/
def ParseError.Earliest (tokens : List Token) (e : ParseError) : Prop :=
  ∃ t fault, ReachedToken tokens t ∧ (∀ r, fault ≠ .lex r) ∧ e = .atToken fault t

namespace ParseState

variable {tokens : List Token} {s t : ParseState}

theorem map_tokens (s : ParseState) : s.tokens.map Token.word = s.words := rfl

theorem Taken.ordered_tokens (h : s.Taken tokens) : Ordered s.tokens := by
  obtain ⟨taken, htokens, -, -⟩ := h.split
  exact h.ordered.of_infix ⟨taken, [], by simp [htokens]⟩

theorem Taken.reached (h : s.Taken tokens) : ReachedToken tokens s.current := by
  obtain ⟨taken, htokens, hvalid, -⟩ := h.split
  exact ⟨taken, s.rest, htokens, hvalid⟩

/-! ### Steps from one state to the next -/

/-- A valid token is taken, unless it is the end of the text. -/
theorem tokens_advance (hs : s.Ready) (hend : s.current.isEnd = false) :
    s.tokens = s.current :: s.advance.tokens := by
  cases hrest : s.rest with
  | nil =>
    have hclosed := hs.closed
    rw [words, hrest] at hclosed
    have hlast : s.current.word.isEnd = true := hclosed
    rw [Token.isEnd_word, hend] at hlast
    cases hlast
  | cons t rest => simp [tokens, advance, hrest]

theorem previous_advance (s : ParseState) : s.advance.previous = s.current.span := by
  unfold advance
  split <;> rfl

theorem Taken.advance (h : s.Taken tokens) (hend : s.current.isEnd = false)
    (hvalid : s.current.isInvalid = false) : s.advance.Taken tokens := by
  obtain ⟨taken, htokens, htaken, -⟩ := h.split
  refine ⟨⟨taken ++ [s.current], ?_, ?_, ?_⟩, (moves_advance h.ready hend).ready, h.ordered⟩
  · rw [htokens, tokens_advance h.ready hend, List.append_assoc, List.singleton_append]
  · exact List.forall_mem_append.2 ⟨htaken, by simpa using hvalid⟩
  · intro t ht
    rw [List.getLast?_concat, Option.mem_some_iff] at ht
    rw [previous_advance, ht]

theorem Taken.of_dropNewlines {current : Token} {rest : List Token} {taken : List Token}
    {previous : Span} (htokens : tokens = taken ++ current :: rest)
    (htaken : ∀ t ∈ taken, t.isInvalid = false)
    (hlast : ∀ t ∈ taken.getLast?, previous = t.span) :
    let r := dropNewlines current previous rest
    ∃ nls, (∀ t ∈ nls, t.isNewline = true) ∧ current :: rest = nls ++ r.1 :: r.2.2 ∧
      (∀ t ∈ taken ++ nls, t.isInvalid = false) ∧
      ∀ t ∈ (taken ++ nls).getLast?, r.2.1 = t.span := by
  induction rest generalizing current previous taken with
  | nil => exact ⟨[], by simp, rfl, by simpa using htaken, by simpa [dropNewlines] using hlast⟩
  | cons token rest ih =>
    unfold dropNewlines
    by_cases hn : current.isNewline = true
    · rw [if_pos hn]
      have hvalid : current.isInvalid = false := by
        unfold Token.isNewline at hn
        unfold Token.isInvalid
        split
        · next hkind => simp [hkind] at hn
        · rfl
      have htaken₁ : ∀ t ∈ taken ++ [current], t.isInvalid = false :=
        List.forall_mem_append.2 ⟨htaken, by simpa using hvalid⟩
      have hlast₁ : ∀ t ∈ (taken ++ [current]).getLast?, current.span = t.span := by simp
      obtain ⟨nls, hnls, hrest, htaken', hlast'⟩ := ih (by simpa using htokens) htaken₁ hlast₁
      refine ⟨current :: nls, by simpa [hn] using hnls, by rw [hrest, List.cons_append], ?_, ?_⟩
      · simpa using htaken'
      · simpa using hlast'
    · rw [if_neg hn]
      exact ⟨[], by simp, rfl, by simpa using htaken, by simpa using hlast⟩

theorem Taken.skipNewlines (h : s.Taken tokens) :
    s.skipNewlines.Taken tokens ∧
      ∃ nls, (∀ t ∈ nls, t.isNewline = true) ∧ s.tokens = nls ++ s.skipNewlines.tokens := by
  obtain ⟨taken, htokens, htaken, hlast⟩ := h.split
  obtain ⟨nls, hnls, hrest, hvalid, hprevious⟩ := Taken.of_dropNewlines htokens htaken hlast
  obtain ⟨_, _, hmove⟩ := moves_skipNewlines h.ready
  have hskip : s.tokens = nls ++ s.skipNewlines.tokens := hrest
  refine ⟨⟨⟨taken ++ nls, ?_, hvalid, hprevious⟩, hmove.ready, h.ordered⟩, nls, hnls, hskip⟩
  rw [htokens, hskip, List.append_assoc]

/-- Storing something takes no token. -/
theorem Taken.store (h : s.Taken tokens) (arena : Arena) (names : NameTable) :
    Taken tokens { s with arena, names } :=
  ⟨h.split, ⟨h.ready.closed, h.ready.bounded⟩, h.ordered⟩

/-- The tokens between two states are valid. -/
theorem Taken.between (hs : s.Taken tokens) (ht : t.Taken tokens) (mid : List Token)
    (hmid : s.tokens = mid ++ t.tokens) : ∀ u ∈ mid, u.isInvalid = false := by
  obtain ⟨taken, htokens, -, -⟩ := hs.split
  obtain ⟨taken', htokens', hvalid, -⟩ := ht.split
  rw [htokens, hmid, ← List.append_assoc] at htokens'
  rw [← List.append_cancel_right htokens'] at hvalid
  exact fun u hu => hvalid u (List.mem_append_right _ hu)

theorem length_tokens (s : ParseState) : s.tokens.length = s.words.length := by
  simp [tokens, words]

/-- The tokens that are taken from one state to a later one. -/
theorem Taken.exists_between (hs : s.Taken tokens) (ht : t.Taken tokens)
    (hle : t.tokens.length ≤ s.tokens.length) : ∃ mid, s.tokens = mid ++ t.tokens := by
  obtain ⟨taken, htokens, -, -⟩ := hs.split
  obtain ⟨taken', htokens', -, -⟩ := ht.split
  obtain ⟨mid, hmid⟩ := List.suffix_of_suffix_length_le ⟨taken', htokens'.symm⟩
    ⟨taken, htokens.symm⟩ hle
  exact ⟨mid, hmid.symm⟩

/-! ### Spans between two states -/

/-- The span goes over the tokens that are taken from one state to the other, line breaks at
the start and at the end apart. -/
def Spans (s t : ParseState) (span : Span) : Prop :=
  ∃ lead core trail, s.tokens = lead ++ (core ++ (trail ++ t.tokens)) ∧
    (∀ u ∈ lead, u.isNewline = true) ∧ (∀ u ∈ trail, u.isNewline = true) ∧ Bounds core span

namespace Spans

variable {u v : ParseState} {a b span : Span}

theorem length_lt (h : s.Spans t span) : t.tokens.length < s.tokens.length := by
  obtain ⟨lead, core, trail, htokens, -, -, ⟨⟨c, hc, -⟩, -⟩⟩ := h
  have hpos := List.length_pos_of_mem (List.mem_of_mem_head? hc)
  rw [htokens]
  simp only [List.length_append]
  omega

theorem single {c : Token} (h : s.tokens = c :: t.tokens) (hc : c.isNewline = false) :
    s.Spans t c.span :=
  ⟨[], [c], [], h, by simp, by simp, .single hc⟩

theorem lead {nls : List Token} (h : u.Spans t span) (hnls : ∀ t ∈ nls, t.isNewline = true)
    (hs : s.tokens = nls ++ u.tokens) : s.Spans t span := by
  obtain ⟨lead, core, trail, htokens, hlead, htrail, hbounds⟩ := h
  exact ⟨nls ++ lead, core, trail, by rw [hs, htokens, List.append_assoc],
    List.forall_mem_append.2 ⟨hnls, hlead⟩, htrail, hbounds⟩

theorem trail {nls : List Token} (h : s.Spans u span) (hnls : ∀ t ∈ nls, t.isNewline = true)
    (hu : u.tokens = nls ++ t.tokens) : s.Spans t span := by
  obtain ⟨lead, core, trail, htokens, hlead, htrail, hbounds⟩ := h
  exact ⟨lead, core, trail ++ nls, by rw [htokens, hu, List.append_assoc], hlead,
    List.forall_mem_append.2 ⟨htrail, hnls⟩, hbounds⟩

/-- The spans of two parts, whatever stands between them. -/
theorem merge (mid : List Token) (ha : s.Spans u a) (hmid : u.tokens = mid ++ v.tokens)
    (hb : v.Spans t b) (hs : Ordered s.tokens) : s.Spans t (a.merge b) := by
  obtain ⟨lead, core, trail, htokens, hlead, -, hcore⟩ := ha
  obtain ⟨lead', core', trail', htokens', -, htrail', hcore'⟩ := hb
  have hall : s.tokens =
      lead ++ ((core ++ ((trail ++ (mid ++ lead')) ++ core')) ++ (trail' ++ t.tokens)) := by
    rw [htokens, hmid, htokens']
    simp only [List.append_assoc]
  rw [hall] at hs
  exact ⟨lead, _, trail', hall, hlead, htrail',
    hcore.merge hcore' (hs.of_infix ⟨lead, trail' ++ t.tokens, by simp⟩)⟩

end Spans

end ParseState

/-! ## Expressions between two states -/

/-- The expression was read between the two states and is stored; its span goes over the
tokens that it was read from. -/
structure ReadsExpr (s t : ParseState) (x : StoredExpr) (e : Expr Unit) : Prop where
  spans : s.Spans t x.span
  spelled : ∃ ws, Moves s ws t ∧ SpellsLoosely e ws
  keeps : t.code.Keeps x e

/-- An expression that was read is spelled by the tokens under its span. -/
theorem ReadsExpr.tells {tokens : List Token} {s t : ParseState} {x : StoredExpr} {e : Expr Unit}
    (h : ReadsExpr s t x e) (hs : s.Taken tokens) (ht : t.Taken tokens) :
    t.code.TellsExpr tokens x.id x.span := by
  obtain ⟨lead, core, trail, htokens, hlead, htrail, hbounds⟩ := h.spans
  obtain ⟨_, hmove, vs, nls, rfl, hnls, hspells⟩ := h.spelled
  obtain ⟨nls', us, rfl, hnls', htrimmed, hspells⟩ := hspells.exists_trimmed
  obtain ⟨taken, hsplit, -, -⟩ := hs.split
  have hblank {ts : List Token} (hts : ∀ u ∈ ts, u.isNewline = true) :
      Blank (ts.map Token.word) := by
    intro w hw
    obtain ⟨u, hu, rfl⟩ := List.mem_map.1 hw
    rw [Token.isNewline_word, hts u hu]
  have hwords : lead.map Token.word ++ (core.map Token.word ++ trail.map Token.word) =
      nls' ++ (us ++ nls) := by
    have hsame := hmove.words
    rw [← ParseState.map_tokens, htokens, ← ParseState.map_tokens] at hsame
    simp only [List.map_append, ← List.append_assoc] at hsame ⊢
    exact List.append_cancel_right hsame
  have hcore := hbounds.trimmed.unique htrimmed (hblank hlead) (hblank htrail) hnls' hnls hwords
  refine ⟨taken ++ lead, core, trail ++ t.tokens, e, ?_, ?_, hbounds, by rwa [hcore],
    h.keeps.shaped, h.keeps.tree⟩
  · rw [hsplit, htokens, List.append_assoc]
  · intro u hu
    exact hs.between ht (lead ++ (core ++ trail)) (by rw [htokens]; simp) u (by simp [hu])

end Scriptorium
