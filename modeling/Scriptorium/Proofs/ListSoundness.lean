import Scriptorium.Proofs.Grammar
import Scriptorium.Proofs.ParserCases

/-!
# Lists that a parser reads

Arguments and parameters are read by the same parser, which is given one for the
items.  What an item stands for is a relation `Q` between the code, what the parser of
items answers and the thing itself; how it is spelled is a relation `R`.

* `SoundItem` — what is known of the parser of items;
* `SoundItem.itemsFrom`, `SoundItem.items` — what follows for lists.
-/

namespace Scriptorium

open Scriptorium.Parser

variable {α β : Type} {Q : Code → α → β → Prop} {R : β → List Word → Prop}

/-- On at most `n` words, the parser answers for things that the words spell, followed
by line breaks. -/
def SoundItem (Q : Code → α → β → Prop) (R : β → List Word → Prop) (n : Nat)
    (item : Parser α) : Prop :=
  ∀ s a t, s.Ready → s.words.length ≤ n → Runs item s a t →
    ∃ b ws nls, Moves s (ws ++ nls) t ∧ Blank nls ∧ R b ws ∧ Q t.code a b

/-- The words of a list that follows the items in `seen`: at least one more item. -/
theorem SoundItem.itemsFrom {n : Nat} {item : Parser α} {tooMany : ParseFault}
    (h : SoundItem Q R n item)
    (hQ : ∀ c d a b, c.Extends d → Q c a b → Q d a b)
    (hR : ∀ b nls ws, Blank nls → R b ws → R b (nls ++ ws)) :
    ∀ fuel seen s xs t, s.Ready → s.words.length ≤ n → s.words.length ≤ fuel →
      Runs (itemsFrom tooMany item fuel seen) s xs t →
      ∃ as b bs ws nls, xs = seen.reverse ++ as ∧ List.Forall₂ (Q t.code) as (b :: bs) ∧
        Separated R (b :: bs) ws ∧ seen.length + as.length ≤ maxItems ∧
        Moves s (ws ++ nls) t ∧ Blank nls := by
  intro fuel
  induction fuel with
  | zero =>
    intro seen s xs t hs _ hfuel _
    exact absurd (List.eq_nil_of_length_eq_zero (Nat.le_zero.1 hfuel)) hs.closed.ne_nil
  | succ fuel ih =>
    intro seen s xs t hs hn hfuel hrun
    obtain ⟨hseen, a, u, hitem, hrest⟩ := runs_itemsFrom.1 hrun
    obtain ⟨nls₀, hnls₀, hskip⟩ := ParseState.moves_skipNewlines hs
    have hlen₀ := hskip.length
    obtain ⟨b, ws, nls₁, hmove, hnls₁, hb, hab⟩ := h _ _ _ hskip.ready (by omega) hitem
    obtain ⟨nls₂, hnls₂, hskip'⟩ := ParseState.moves_skipNewlines hmove.ready
    have hto := (hskip.trans hmove).trans hskip'
    have hb' : R b (nls₀ ++ ws) := hR _ _ _ hnls₀ hb
    split at hrest
    · next hcomma =>
      obtain ⟨hcomma, htake⟩ := ParseState.moves_of_is hskip'.ready hcomma
      have hall := hto.trans htake
      have hlen := hall.length
      simp only [List.length_append, List.length_singleton] at hlen
      obtain ⟨as, b', bs, vs, nls, rfl, hQs, hsep, hcount, hmoves, hnls⟩ :=
        ih (a :: seen) _ xs t htake.ready (by omega) (by omega) hrest
      refine ⟨a :: as, b, b' :: bs, _, nls, by simp,
        .cons (hQ _ _ _ _ ((hskip'.trans htake).code.trans hmoves.code) hab) hQs,
        .more hb' (blank_append.2 ⟨hnls₁, hnls₂⟩) hcomma hsep,
        by simp only [List.length_cons] at hcount ⊢; omega, ?_, hnls⟩
      simpa using hall.trans hmoves
    · obtain ⟨rfl, rfl⟩ := hrest
      refine ⟨[a], b, [], nls₀ ++ ws, nls₁ ++ nls₂, by simp,
        .cons (hQ _ _ _ _ hskip'.code hab) .nil, .one hb',
        by simp only [List.length_singleton]; omega, ?_, blank_append.2 ⟨hnls₁, hnls₂⟩⟩
      simpa using hto

/-- The words of a list up to and including the closing parenthesis. -/
theorem SoundItem.items {n : Nat} {item : Parser α} {tooMany : ParseFault}
    (h : SoundItem Q R n item)
    (hQ : ∀ c d a b, c.Extends d → Q c a b → Q d a b)
    (hR : ∀ b nls ws, Blank nls → R b ws → R b (nls ++ ws))
    {s t : ParseState} {xs : List α} (hs : s.Ready) (hn : s.words.length ≤ n)
    (hrun : Runs (items tooMany item) s xs t) :
    ∃ bs ws nls closing, List.Forall₂ (Q t.code) xs bs ∧ Separated R bs ws ∧
      bs.length ≤ maxItems ∧ Blank nls ∧ closing.is ")" = true ∧
      Moves s (ws ++ nls ++ [closing]) t := by
  rw [runs_items] at hrun
  obtain ⟨nls₀, hnls₀, hskip⟩ := ParseState.moves_skipNewlines hs
  have hlen₀ := hskip.length
  split at hrun
  · next hclose =>
    obtain ⟨rfl, rfl⟩ := hrun
    obtain ⟨hclose, htake⟩ := ParseState.moves_of_is hskip.ready hclose
    exact ⟨[], [], nls₀, _, .nil, .none, by simp, hnls₀, hclose, by simpa using hskip.trans htake⟩
  · obtain ⟨u, hfrom, hclose, rfl⟩ := hrun
    have hsize := hskip.ready.bounded
    obtain ⟨as, b, bs, ws, nls, rfl, hQs, hsep, hcount, hmoves, hnls⟩ :=
      h.itemsFrom hQ hR _ _ _ _ _ hskip.ready (by omega) hsize hfrom
    obtain ⟨hclose, htake⟩ := ParseState.moves_of_is hmoves.ready hclose
    have hsep' : Separated R (b :: bs) (nls₀ ++ ws) := by
      cases hsep with
      | one hb => exact .one (hR _ _ _ hnls₀ hb)
      | more hb hnls' hcomma hrest =>
        have := Separated.more (hR _ _ _ hnls₀ hb) hnls' hcomma hrest
        simpa using this
    refine ⟨b :: bs, nls₀ ++ ws, nls, _, ?_, hsep', ?_, hnls, hclose, ?_⟩
    · simpa using hQs.imp fun a b => hQ _ _ a b htake.code
    · rw [← hQs.length_eq]
      simpa using hcount
    · simpa using (hskip.trans hmoves).trans htake

/-! ## Names -/

theorem sound_identifier {s t : ParseState} {name : NameId} (hs : s.Ready)
    (hrun : Runs identifier s name t) :
    ∃ text ws, Moves s ws t ∧ SpellsName text ws ∧ t.code.names.text? name = some text := by
  obtain ⟨text, hword, hintern⟩ := runs_identifier.1 hrun
  obtain ⟨nls, hnls, hskip⟩ := ParseState.moves_skipNewlines hs
  have htake := hskip.trans (ParseState.moves_word hskip.ready hword rfl)
  obtain ⟨hmove, htext⟩ := hintern.intern htake.ready
  exact ⟨text, nls ++ [.symbol text], by simpa using htake.trans hmove, .mk hnls, htext⟩

/-- The parser of names reads names. -/
theorem soundItem_identifier (n : Nat) :
    SoundItem (fun c name text => c.names.text? name = some text) SpellsName n identifier := by
  intro s a t hs _ hrun
  obtain ⟨text, ws, hmove, hspells, htext⟩ := sound_identifier hs hrun
  exact ⟨text, ws, [], by simpa using hmove, blank_nil, hspells, htext⟩

end Scriptorium
