import Scriptorium.Proofs.Coverage
import Scriptorium.Proofs.ExactPrograms
import Scriptorium.Proofs.RoundTrip

/-!
# Invalid tokens are reported

A text with an invalid token is not accepted.  The error that is reported is that of the first
invalid token, with the reason of this token, or it stands at a token before it.

* `ReachedToken.find?_of_isInvalid`, `ReachedToken.isBefore` — the token of an error and the first
  invalid one;
* `parseWith_lexical` — the error of a text, for all tables.
-/

namespace Scriptorium

variable {tokens : List Token} {t bad : Token} {e : ParseError}

/-! ## The first invalid token -/

/-- The token is among those before the other one. -/
def Token.IsBefore (tokens : List Token) (t u : Token) : Prop :=
  ∃ before after, tokens = before ++ u :: after ∧ t ∈ before

theorem ReachedToken.find?_of_isInvalid (h : ReachedToken tokens t) (ht : t.isInvalid = true) :
    tokens.find? Token.isInvalid = some t := by
  obtain ⟨taken, rest, rfl, hvalid⟩ := h
  have hnone : taken.find? Token.isInvalid = none := by
    simpa [List.find?_eq_none] using hvalid
  rw [List.find?_append, hnone, Option.none_or, List.find?_cons_of_pos ht]

theorem ReachedToken.isBefore (h : ReachedToken tokens t) (ht : t.isInvalid = false)
    (hbad : tokens.find? Token.isInvalid = some bad) : t.IsBefore tokens bad := by
  obtain ⟨taken, rest, rfl, hvalid⟩ := h
  obtain ⟨hinvalid, before, after, hsplit, -⟩ := List.find?_eq_some_iff_append.1 hbad
  have hnot : bad ∉ taken ++ [t] := by
    intro hmem
    rcases List.mem_append.1 hmem with hmem | hmem
    · rw [hvalid bad hmem] at hinvalid
      cases hinvalid
    · rw [List.mem_singleton.1 hmem, ht] at hinvalid
      cases hinvalid
  rw [List.append_cons] at hsplit ⊢
  -- the token would be the first invalid one or come after it
  rcases List.append_eq_append_iff.1 hsplit with ⟨mid, rfl, hrest⟩ | ⟨mid, htaken, hrest⟩
  · exact ⟨taken ++ [t] ++ mid, after, by rw [hrest, ← List.append_assoc], by simp⟩
  · cases mid with
    | nil =>
      rw [List.append_nil] at htaken
      exact ⟨before, after, hsplit, by simp [← htaken]⟩
    | cons u mid =>
      rw [List.cons_append] at hrest
      obtain ⟨rfl, -⟩ := List.cons.inj hrest
      exact absurd (by rw [htaken]; simp) hnot

/-- The fault of an error at a token: that of the token, if this is invalid. -/
theorem ParseError.Earliest.cases (h : e.Earliest tokens) :
    ∃ t, ReachedToken tokens t ∧ e.span = t.span ∧ e.location = t.location ∧
      ((∃ r, t.kind = .invalid r ∧ e.fault = .lex r) ∨
        t.isInvalid = false ∧ ∀ r, e.fault ≠ .lex r) := by
  obtain ⟨t, fault, hreached, hfault, rfl⟩ := h
  refine ⟨t, hreached, rfl, rfl, ?_⟩
  by_cases ht : ∃ r, t.kind = .invalid r
  · obtain ⟨r, hkind⟩ := ht
    exact .inl ⟨r, hkind, by simp [ParseError.atToken, hkind]⟩
  · refine .inr ⟨?_, fun r => ?_⟩
    · rw [← Bool.not_eq_true, Token.isInvalid_iff]
      exact ht
    · unfold ParseError.atToken
      dsimp only
      split
      · next hkind => exact absurd ⟨_, hkind⟩ ht
      · exact hfault r

/-! ## Places of tokens -/

/-- A token of a text covers some of it, unless it is the end or starts where spans do not
reach. -/
theorem span_nonempty (tables : Tables) (source : String) :
    ∀ t ∈ tokenize tables source, t.isEnd = false → t.span.start < Span.maxOffset →
      t.span.start < t.span.stop := by
  refine forall_tokenize fun s before hs hend hlow => ?_
  obtain ⟨kind, gap, word, h⟩ := s.exists_takesOff
  have hword : kind ≠ .endOfInput := by
    rintro rfl
    rw [h.token] at hend
    cases hend
  have hpos := byteLength_pos (h.takes hword)
  rw [h.start hs] at hlow ⊢
  rw [h.stop hs]
  simp only [byteLength_append] at hlow ⊢
  omega

/-- A token that comes before another one stands before it in the text. -/
theorem Token.IsBefore.span {tables : Tables} {source : String} {t u : Token}
    (h : t.IsBefore (tokenize tables source) u) :
    t.span.start ≤ t.span.stop ∧ t.span.stop ≤ u.span.start ∧
      (t.span.start < Span.maxOffset → t.span.start < u.span.start) := by
  obtain ⟨before, after, htokens, ht⟩ := h
  have hordered := (inOrder_tokenize tables source).ordered
  rw [htokens] at hordered
  have hforward := hordered.forward t (List.mem_append_left _ ht)
  have hle := (List.pairwise_append.1 hordered.apart).2.2 t ht u List.mem_cons_self
  -- the end of the text is the last token, so the earlier one is not the end
  have hend : t.isEnd = false := by
    have hclosed := closed_tokenize tables source
    rw [htokens, List.map_append] at hclosed
    rw [← Token.isEnd_word]
    exact hclosed.isEnd_of_append (by simp) _ (List.mem_map_of_mem ht)
  have hlt := span_nonempty tables source t (by simp [htokens, ht]) hend
  exact ⟨hforward, hle, fun hlow => (hlt hlow).trans_le hle⟩

/-! ## The error of a text -/

/-- What is read of a text, for all tables. -/
theorem parseWith_takes (tables : Tables) (source : String) :
    (parseWith tables source).Takes (tokenize tables source) :=
  parseTokens_takes (closed_tokenize tables source) (inOrder_tokenize tables source).ordered

/-- A text with an invalid token is rejected with an error that starts at the first invalid
token or before it.  An error of the scanner is that of the first invalid token, with its
reason; every other error is at a token that comes before this one.  So it ends where the
invalid token starts, or before, and it starts before, unless this is where spans do not reach. -/
theorem parseWith_lexical (tables : Tables) (source : String) :
    (∀ bad, (tokenize tables source).find? Token.isInvalid = some bad →
      ∃ e, (parseWith tables source).failure = some e ∧ e.span.start ≤ bad.span.start) ∧
    ∀ e, (parseWith tables source).failure = some e →
      (∀ r, e.fault = .lex r →
        ∃ bad, (tokenize tables source).find? Token.isInvalid = some bad ∧
          bad.kind = .invalid r ∧ e.span = bad.span ∧ e.location = bad.location) ∧
      ((∀ r, e.fault ≠ .lex r) →
        ∀ bad, (tokenize tables source).find? Token.isInvalid = some bad →
          (∃ t : Token, t.IsBefore (tokenize tables source) bad ∧ e.span = t.span ∧
            e.location = t.location) ∧
          e.span.stop ≤ bad.span.start ∧
          (e.span.start < Span.maxOffset → e.span.start < bad.span.start)) := by
  have htakes := parseWith_takes tables source
  refine ⟨fun bad hbad => ?_, fun e he => ?_⟩
  · cases hfailure : (parseWith tables source).failure with
    | none =>
      have hvalid := htakes.valid hfailure bad (List.mem_of_find?_eq_some hbad)
      rw [List.find?_some hbad] at hvalid
      cases hvalid
    | some e =>
      obtain ⟨t, hreached, hspan, -, ⟨r, hkind, -⟩ | ⟨hvalid, -⟩⟩ :=
        (htakes.earliest e hfailure).cases
      · have hfirst := hreached.find?_of_isInvalid (Token.isInvalid_iff.2 ⟨r, hkind⟩)
        obtain rfl : t = bad := Option.some.inj (hfirst.symm.trans hbad)
        exact ⟨e, rfl, by rw [hspan]⟩
      · obtain ⟨hforward, hle, -⟩ := (hreached.isBefore hvalid hbad).span
        exact ⟨e, rfl, by rw [hspan]; exact hforward.trans hle⟩
  · obtain ⟨t, hreached, hspan, hlocation, ⟨r, hkind, hfault⟩ | ⟨hvalid, hfault⟩⟩ :=
      (htakes.earliest e he).cases
    · refine ⟨fun r' hr' => ?_, fun hnone => absurd hfault (hnone r)⟩
      obtain rfl : r = r' := ParseFault.lex.inj (hfault.symm.trans hr')
      exact ⟨t, hreached.find?_of_isInvalid (Token.isInvalid_iff.2 ⟨r, hkind⟩), hkind, hspan,
        hlocation⟩
    · refine ⟨fun r hr => absurd hr (hfault r), fun _ bad hbad => ?_⟩
      have hbefore := hreached.isBefore hvalid hbad
      refine ⟨⟨t, hbefore, hspan, hlocation⟩, ?_⟩
      rw [hspan]
      exact hbefore.span.2

-- a target that cannot be assigned to is blamed before the invalid token is reached
example : (parse "1 = 2 @").failure.map ParseError.span = some ⟨2, 3⟩ ∧
    ((tokenize .quill "1 = 2 @").find? Token.isInvalid).map Token.span = some ⟨6, 7⟩ := by
  decide +kernel

end Scriptorium
