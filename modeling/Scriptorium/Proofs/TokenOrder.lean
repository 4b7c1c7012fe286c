import Scriptorium.Proofs.Scanning
import Mathlib.Order.MinMax

/-!
# Tokens stand in order

The tokens of a text follow each other in the text: each begins where the one before it
has ended or later, and the one at the end of the text is empty.

* `InOrder` — tokens that stand after an offset, one after the other;
* `Scanner.next_inOrder` — what a step of the scanner does to the offset;
* `inOrder_tokenize` — the tokens of a text are in order.
-/

namespace Scriptorium

/-- The tokens follow each other from the offset on, and the last one is empty. -/
def InOrder : Nat → List Token → Prop
  | _, [] => True
  | offset, t :: ts =>
      offset ≤ t.span.start ∧ t.span.start ≤ t.span.stop ∧
        (ts = [] → t.span.stop = t.span.start) ∧ InOrder t.span.stop ts

namespace Place

theorem offset_le_step (p : Place) (c : Char) : p.offset ≤ (p.step c).offset :=
  Nat.le_add_right _ _

theorem offset_le_advance (p : Place) (cs : List Char) : p.offset ≤ (p.advance cs).offset := by
  unfold advance
  induction cs generalizing p with
  | nil => exact le_rfl
  | cons c cs ih => exact (p.offset_le_step c).trans (ih (p.step c))

end Place

namespace Scanner

/-- The next token stands after the place that was reached, and the text goes on after it.
Only the token at the end of the text takes no character of it, and it is empty. A place
beyond the last offset of a span is told by that offset. -/
structure Advances (s : Scanner) (t : Token) (s' : Scanner) : Prop where
  after : min s.place.offset Span.maxOffset ≤ t.span.start
  forward : t.span.start ≤ t.span.stop
  place : min s'.place.offset Span.maxOffset = t.span.stop
  ends : t.isEnd = true → t.span.stop = t.span.start
  shorter : t.isEnd = false → s'.text.length < s.text.length

theorem next_inOrder (s : Scanner) : s.Advances s.next.1 s.next.2 := by
  rcases hgap : gap s.tables s.size s.text with ⟨length, unclosed⟩
  have hskip : min s.place.offset Span.maxOffset ≤
      min (s.place.advance (s.text.take length)).offset Span.maxOffset :=
    min_le_min_right _ (s.place.offset_le_advance _)
  have hdrop : (s.text.drop length).length ≤ s.text.length := by simp
  cases unclosed with
  | true =>
    have hne := List.length_pos_iff.2 (ne_nil_of_gap_unclosed hgap)
    have hnext : s.next = (s.skip length).take (.invalid .unterminatedComment)
        (s.skip length).text.length := by simp only [next, hgap, if_true]
    rw [hnext]
    refine ⟨hskip, min_le_min_right _ (Place.offset_le_advance _ _), rfl, fun h => ?_,
      fun _ => ?_⟩
    · cases h
    · simp only [take, skip, List.drop_length, List.length_nil]
      omega
  | false =>
    rcases hclass : classify s.tables (s.text.drop length) with ⟨kind, taken⟩
    have hnext : s.next = (((s.skip length).take kind taken).1,
        { (s.skip length).skip taken with
          finished := s.finished || ((s.skip length).take kind taken).1.isEnd }) := by
      simp [next, hgap, hclass, take, skip]
    rw [hnext]
    refine ⟨hskip, min_le_min_right _ (Place.offset_le_advance _ _), rfl, fun h => ?_,
      fun h => ?_⟩
    · have hkind : kind = .endOfInput := by simpa [take, Token.isEnd] using h
      have hnil : s.text.drop length = [] := by
        by_contra hne
        exact (classify_ne_nil hne hclass).1 hkind
      rw [hnil] at hclass
      cases hclass
      rfl
    · have hne : s.text.drop length ≠ [] := by
        intro hnil
        rw [hnil] at hclass
        cases hclass
        cases h
      have htaken := (classify_ne_nil hne hclass).2
      have hpos := List.length_pos_iff.2 hne
      show (((s.text.drop length)).drop taken).length < s.text.length
      rw [List.length_drop]
      omega

/-- A scanner with enough fuel collects tokens that are in order from its place on. -/
theorem collect_inOrder {fuel : Nat} {s : Scanner} (hfuel : s.text.length ≤ fuel)
    (seen : List Token) :
    ∃ t ts, s.collect fuel seen = seen.reverse ++ t :: ts ∧
      InOrder (min s.place.offset Span.maxOffset) (t :: ts) := by
  have hnext := s.next_inOrder
  induction fuel generalizing s seen with
  | zero =>
    have hend : s.next.1.isEnd = true := by
      by_contra h
      have := hnext.shorter (Bool.not_eq_true _ ▸ h)
      omega
    refine ⟨s.next.1, [], by simp [collect], hnext.after, hnext.forward, fun _ => ?_, trivial⟩
    exact hnext.ends hend
  | succ fuel ih =>
    cases hend : s.next.1.isEnd with
    | true =>
      rw [collect_of_isEnd hend]
      refine ⟨s.next.1, [], by simp, hnext.after, hnext.forward, fun _ => ?_, trivial⟩
      exact hnext.ends hend
    | false =>
      rw [collect_succ hend]
      have hshorter := hnext.shorter hend
      obtain ⟨t, ts, hcollect, horder⟩ :=
        ih (s := s.next.2) (by omega) (s.next.1 :: seen) s.next.2.next_inOrder
      refine ⟨s.next.1, t :: ts, by simpa using hcollect, hnext.after, hnext.forward,
        fun h => (by cases h), ?_⟩
      rwa [← hnext.place]

end Scanner

/-- The tokens of a text are in order. -/
theorem inOrder_tokenize (tables : Tables) (source : String) :
    InOrder 0 (tokenize tables source) := by
  have hfuel : (Scanner.start tables source).text.length ≤ source.length := le_rfl
  obtain ⟨t, ts, htokens, horder⟩ := Scanner.collect_inOrder hfuel []
  rw [show tokenize tables source = t :: ts from htokens]
  exact horder

end Scriptorium
