import Scriptorium.Proofs.Coverage
import Mathlib.Data.List.GetD

/-!
# A scanner that is asked step by step

A scanner can be asked for the next token in two ways, and whether there is one; the two ways
differ only behind the end of the text.  In whatever order it is asked, the tokens that it
hands out are those of the text, one after the other, and then the token at the end again and
again.

* `Scanner.after`, `Scanner.nth` — the scanner after so many tokens, and the token that comes
  next; `Scanner.nth_eq`: which one this is;
* `Call`, `Answer`, `Scanner.answers` — what is asked and what is answered;
* `Scanner.answer_after`, `Scanner.exists_after` — what one call does, and what all do;
* `Scanner.answers_eq_due` — every answer, told by the tokens that were handed out before it.
-/

namespace Scriptorium

namespace Scanner

/-! ## One token after the other -/

/-- The scanner after so many tokens. -/
def after (s : Scanner) : Nat → Scanner
  | 0 => s
  | n + 1 => (s.after n).next.2

/-- The token that comes after so many tokens. -/
def nth (s : Scanner) (n : Nat) : Token := (s.after n).next.1

/-- The tokens that come first. -/
def firstTokens (s : Scanner) (n : Nat) : List Token := (List.range n).map s.nth

@[simp] theorem length_firstTokens (s : Scanner) (n : Nat) : (s.firstTokens n).length = n := by
  simp [firstTokens]

theorem firstTokens_succ (s : Scanner) (n : Nat) :
    s.firstTokens (n + 1) = s.firstTokens n ++ [s.nth n] := by
  simp [firstTokens, List.range_succ]

theorem after_eq_iterate (s : Scanner) (n : Nat) : s.after n = (fun s => s.next.2)^[n] s := by
  induction n with
  | zero => rfl
  | succ n ih => rw [after, ih, Function.iterate_succ_apply']

theorem firstTokens_eq_map_iterate (s : Scanner) (n : Nat) :
    s.firstTokens n = (List.iterate (fun s => s.next.2) s n).map fun s => s.next.1 := by
  rw [← List.range_map_iterate, List.map_map]
  refine List.map_congr_left fun k _ => ?_
  rw [nth, after_eq_iterate]
  rfl

/-- Behind the end of the text the same token comes again. -/
theorem next_again {s : Scanner} (h : s.next.1.isEnd = true) : s.next.2.next.1 = s.next.1 := by
  obtain ⟨kind, gap, word, htakes⟩ := s.exists_takesOff
  obtain ⟨kind', gap', word', htakes'⟩ := s.next.2.exists_takesOff
  rw [htakes.token] at h
  obtain rfl : kind = .endOfInput := by simpa [Token.isEnd, Place.token] using h
  obtain ⟨rfl, hnil⟩ := htakes.ends rfl
  -- nothing is left for another step to take off
  have hrest := htakes'.text
  rw [hnil, eq_comm, List.append_eq_nil_iff, List.append_eq_nil_iff] at hrest
  obtain ⟨rfl, rfl, -⟩ := hrest
  obtain rfl : kind' = .endOfInput := by
    by_contra hkind
    exact htakes'.takes hkind rfl
  rw [htakes'.token, htakes.token, htakes.place]
  simp only [Place.token, List.append_nil]
  rfl

theorem nth_again {s : Scanner} {n : Nat} (h : (s.nth n).isEnd = true) (k : Nat) :
    s.nth (n + k) = s.nth n := by
  induction k with
  | zero => rfl
  | succ k ih =>
    rw [← ih] at h ⊢
    exact next_again h

/-- A scanner remembers that it handed the end token out. -/
theorem finished_next (s : Scanner) :
    s.next.2.finished = (s.finished || s.next.1.isEnd) := by
  unfold next
  dsimp only
  split
  · simp [take, skip, Token.isEnd]
  · rfl

theorem finished_after {s : Scanner} (hs : s.finished = false) (n : Nat) :
    (s.after n).finished = (s.firstTokens n).any Token.isEnd := by
  induction n with
  | zero => exact hs
  | succ n ih => simp [after, finished_next, ih, firstTokens_succ, nth]

/-! ## Calls -/

end Scanner

/-- What can be asked of a scanner. -/
inductive Call where
  /-- The next token. -/
  | next
  /-- The next token, unless the end token was handed out before. -/
  | next?
  /-- Is there a token that was not handed out? -/
  | hasMore
  deriving DecidableEq, Repr

/-- What a scanner answers. -/
inductive Answer where
  /-- It hands a token out. -/
  | token (t : Token)
  /-- There is none. -/
  | nothing
  /-- Whether there is one. -/
  | more (b : Bool)
  deriving DecidableEq, Repr

/-- The token that is handed out, if any. -/
def Answer.token? : Answer → Option Token
  | .token t => some t
  | _ => none

/-- The tokens that are handed out. -/
def handedOut (answers : List Answer) : List Token := answers.filterMap Answer.token?

namespace Scanner

/-- The answer to a call, and the scanner after it. -/
def answer (s : Scanner) : Call → Answer × Scanner
  | .next => (.token s.next.1, s.next.2)
  | .next? =>
      match s.next? with
      | some (t, s) => (.token t, s)
      | none => (.nothing, s)
  | .hasMore => (.more s.hasMore, s)

/-- The answers to calls that are made one after the other. -/
def answers : Scanner → List Call → List Answer
  | _, [] => []
  | s, call :: calls => (s.answer call).1 :: (s.answer call).2.answers calls

/-- The scanner after the calls. -/
def afterCalls (s : Scanner) (calls : List Call) : Scanner :=
  calls.foldl (fun s call => (s.answer call).2) s

theorem answers_append (s : Scanner) (calls more : List Call) :
    s.answers (calls ++ more) = s.answers calls ++ (s.afterCalls calls).answers more := by
  induction calls generalizing s with
  | nil => rfl
  | cons call calls ih => simp [answers, afterCalls, ih]

/-- One call hands the next token out and goes on behind it, or leaves the scanner as it is. -/
theorem answer_after (s : Scanner) (n : Nat) (call : Call) :
    (((s.after n).answer call).1.token? = some (s.nth n) ∧
        ((s.after n).answer call).2 = s.after (n + 1)) ∨
      (((s.after n).answer call).1.token? = none ∧ ((s.after n).answer call).2 = s.after n) := by
  cases call with
  | next => exact .inl ⟨rfl, rfl⟩
  | hasMore => exact .inr ⟨rfl, rfl⟩
  | next? =>
    simp only [answer, next?]
    by_cases h : (s.after n).finished = true
    · rw [if_pos h]
      exact .inr ⟨rfl, rfl⟩
    · rw [if_neg h]
      exact .inl ⟨rfl, rfl⟩

/-- However a scanner was asked, it is where it stands after some tokens, and these are the ones
that it handed out. -/
theorem exists_after (s : Scanner) (calls : List Call) :
    ∃ n, s.afterCalls calls = s.after n ∧ handedOut (s.answers calls) = s.firstTokens n := by
  induction calls using List.reverseRecOn with
  | nil => exact ⟨0, rfl, rfl⟩
  | append_singleton calls call ih =>
    obtain ⟨n, hafter, hhanded⟩ := ih
    have hcalls : s.afterCalls (calls ++ [call]) = ((s.after n).answer call).2 := by
      rw [← hafter, afterCalls, List.foldl_append]
      rfl
    have hanswers : handedOut (s.answers (calls ++ [call])) =
        s.firstTokens n ++ ((s.after n).answer call).1.token?.toList := by
      rw [answers_append, handedOut, List.filterMap_append, ← handedOut, hhanded, hafter, answers,
        answers]
      cases htoken : ((s.after n).answer call).1.token? <;> simp [htoken]
    rcases s.answer_after n call with ⟨htoken, hnext⟩ | ⟨htoken, hnext⟩
    · refine ⟨n + 1, by rw [hcalls, hnext], ?_⟩
      rw [hanswers, htoken, firstTokens_succ]
      rfl
    · refine ⟨n, by rw [hcalls, hnext], ?_⟩
      rw [hanswers, htoken]
      exact List.append_nil _

/-! ## The tokens of a text -/

/-- The tokens of a text come one after the other, and then the last one again and again. -/
theorem exists_nth (tables : Tables) (source : String) :
    ∃ tokens last, tokenize tables source = tokens ++ [last] ∧ last.isEnd = true ∧
      (∀ t ∈ tokens, t.isEnd = false) ∧
      ∀ n, (start tables source).nth n = tokens.getD n last := by
  obtain ⟨tokens, last, htokens, hcollects⟩ := exists_collects (reads_start tables source) le_rfl []
  generalize start tables source = s at hcollects
  have hsteps := hcollects.steps
  rw [← firstTokens_eq_map_iterate, firstTokens_succ] at hsteps
  obtain ⟨hfirst, hlast⟩ := List.append_inj' hsteps rfl
  obtain rfl := List.singleton_inj.1 hlast
  have hend : (s.nth tokens.length).isEnd = true := beq_iff_eq.2 hcollects.ends.1
  refine ⟨tokens, s.nth tokens.length, htokens, hend, ?_, fun n => ?_⟩
  · exact fun t ht => beq_false_of_ne (hcollects.words t ht).1
  · rcases Nat.lt_or_ge n tokens.length with hn | hn
    · rw [List.getD_eq_getElem _ _ hn, ← List.getElem_of_eq hfirst.symm (by simpa using hn)]
      simp [firstTokens]
    · obtain ⟨k, rfl⟩ := Nat.exists_eq_add_of_le hn
      rw [List.getD_eq_default _ _ hn, nth_again hend]

end Scanner

/-- The answer to a call after the tokens `before` were handed out, of a text with these tokens
and this one at its end. -/
def Answer.due (tokens : List Token) (last : Token) (before : List Token) : Call → Answer
  | .next => .token (if before.any Token.isEnd then last else tokens.getD before.length last)
  | .next? =>
      if before.any Token.isEnd then .nothing else .token (tokens.getD before.length last)
  | .hasMore => .more !before.any Token.isEnd

section Due

variable {s : Scanner} {tokens : List Token} {last : Token}
  (hs : s.finished = false) (htokens : ∀ t ∈ tokens, t.isEnd = false)
  (hnth : ∀ n, s.nth n = tokens.getD n last)

include hnth

theorem Scanner.firstTokens_isPrefix (n : Nat) :
    s.firstTokens n <+: tokens ++ List.replicate n last := by
  refine List.prefix_iff_eq_take.2 (List.ext_getElem (by simp) fun k hk _ => ?_)
  rw [length_firstTokens] at hk
  simp only [firstTokens, List.getElem_map, List.getElem_range, hnth, List.getElem_take]
  rcases Nat.lt_or_ge k tokens.length with hlt | hge
  · rw [List.getD_eq_getElem _ _ hlt, List.getElem_append_left hlt]
  · rw [List.getD_eq_default _ _ hge, List.getElem_append_right hge, List.getElem_replicate]

include htokens

/-- Once the end token was handed out, it comes again. -/
theorem Scanner.nth_of_ended {n : Nat} (h : (s.firstTokens n).any Token.isEnd = true) :
    s.nth n = last := by
  obtain ⟨t, ht, hend⟩ := List.any_eq_true.1 h
  obtain ⟨k, hk, rfl⟩ := List.mem_map.1 ht
  rw [List.mem_range] at hk
  have hlong : tokens.length ≤ k := by
    by_contra hshort
    rw [Nat.not_le] at hshort
    rw [hnth, List.getD_eq_getElem _ _ hshort, htokens _ (List.getElem_mem hshort)] at hend
    cases hend
  rw [hnth, List.getD_eq_default _ _ (by omega)]

include hs

theorem Scanner.answer_eq_due (n : Nat) (call : Call) :
    ((s.after n).answer call).1 = .due tokens last (s.firstTokens n) call := by
  have hfinished := finished_after hs n
  have hnext : (s.after n).next.1 = tokens.getD n last := hnth n
  cases call with
  | next =>
    rw [Answer.due, length_firstTokens, ← hnth]
    split
    · next hended => exact congrArg Answer.token (nth_of_ended htokens hnth hended)
    · rfl
  | next? =>
    rw [Answer.due, length_firstTokens, ← hfinished, answer, next?]
    by_cases hended : (s.after n).finished = true
    · rw [if_pos hended, if_pos hended]
    · rw [if_neg hended, if_neg hended]
      exact congrArg Answer.token hnext
  | hasMore =>
    rw [Answer.due, answer, Scanner.hasMore, hfinished]

end Due

/-- In whatever order a scanner is asked, it hands out the tokens of the text in order, and then
the end token again and again; until it has handed that one out, there is a token for both
ways of asking, and after it only for one of them. -/
theorem answers_eq_due (tables : Tables) (source : String) :
    ∃ tokens last, tokenize tables source = tokens ++ [last] ∧ last.isEnd = true ∧
      (∀ t ∈ tokens, t.isEnd = false) ∧
      ∀ calls call,
        let s := Scanner.start tables source
        let before := handedOut (s.answers calls)
        before <+: tokens ++ List.replicate before.length last ∧
          s.answers (calls ++ [call]) = s.answers calls ++ [.due tokens last before call] := by
  obtain ⟨tokens, last, htokenize, hlast, htokens, hnth⟩ := Scanner.exists_nth tables source
  refine ⟨tokens, last, htokenize, hlast, htokens, ?_⟩
  intro calls call s before
  obtain ⟨n, hafter, hhanded⟩ := s.exists_after calls
  have hbefore : before = s.firstTokens n := hhanded
  rw [hbefore]
  constructor
  · rw [Scanner.length_firstTokens]
    exact Scanner.firstTokens_isPrefix hnth n
  · rw [Scanner.answers_append, hafter, Scanner.answers, Scanner.answers,
      Scanner.answer_eq_due rfl htokens hnth n call]

/-- The end token is handed out in both ways, but twice in one of them only. -/
example : (Scanner.start .quill "a").answers [.next?, .hasMore, .next, .hasMore, .next?, .next] =
    [.token ⟨.symbol, "a", ⟨0, 1⟩, ⟨1, 1⟩⟩, .more true, .token ⟨.endOfInput, "", ⟨1, 1⟩, ⟨1, 2⟩⟩,
      .more false, .nothing, .token ⟨.endOfInput, "", ⟨1, 1⟩, ⟨1, 2⟩⟩] := by
  decide +kernel

end Scriptorium
