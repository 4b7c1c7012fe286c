import Scriptorium.Proofs.TokenRules
import Scriptorium.Proofs.Words

/-!
# Scanning a text

Tokens carry places, and the scanner carries fuel, but which words it finds depends on
neither.  `Scans` says so: it relates a text to the words in it, the one at its end
included, and has a case for everything that the scanner can meet.

* `map_tokenize`, `tokenize_scans` — the words of the tokens of a text are those that
  scanning it gives;
* `Scans.closed` — the end of the text is the last of them, and no other;
* `Scans.legible` — given the tables of the language, all of them are words of the
  language.
-/

namespace Scriptorium

variable {tables : Tables} {size : Nat}

/-! ## The word at the start of a text -/

theorem Word.isEnd_read {kind : TokenKind} (h : kind ≠ .endOfInput) (lexeme : String) :
    (Word.read kind lexeme).isEnd = false := by
  cases kind with
  | endOfInput => exact absurd rfl h
  | _ => rfl

/-- Given the tables of the language, what stands at the start of a text is a word of the
language. -/
theorem TokenRule.legible {kind : TokenKind} {word rest : List Char}
    (h : TokenRule .quill kind word rest) : (Word.read kind (String.ofList word)).Legible := by
  cases h with
  | punct _ hmark =>
    rw [String.ofList_toList]
    exact hmark.mem
  | int _ _ hvalue => exact ⟨hvalue, rfl⟩
  | keyword _ _ hmem => exact hmem
  | symbol _ hword hmem =>
    obtain ⟨c, cs, rfl, hstart⟩ := hword.exists_cons
    have hchars := (List.forall_mem_cons.1 hword.char).2
    exact ⟨⟨c, cs, String.toList_ofList, hstart, hchars⟩, hmem⟩
  | _ => trivial

/-! ## Scanning -/

/-- Scanning the text gives the words, the one at its end included.  `size` bounds the
comments of a gap. -/
inductive Scans (tables : Tables) (size : Nat) : List Char → List Word → Prop where
  /-- Nothing is left after the gap. -/
  | ends {text : List Char} {length : Nat} :
      gap tables size text = ⟨length, false⟩ → text.drop length = [] →
      Scans tables size text [.endOfInput]
  /-- A comment is not closed. -/
  | unclosed {text : List Char} {length : Nat} {w : Word} {ws : List Word} :
      gap tables size text = ⟨length, true⟩ → text.drop length ≠ [] →
      w = .read (.invalid .unterminatedComment) (String.ofList (text.drop length)) →
      Scans tables size [] ws → Scans tables size text (w :: ws)
  /-- A word comes after the gap. -/
  | word {text found : List Char} {length taken : Nat} {kind : TokenKind} {w : Word}
      {ws : List Word} :
      gap tables size text = ⟨length, false⟩ → text.drop length = found → found ≠ [] →
      classify tables found = (kind, taken) → w = .read kind (String.ofList (found.take taken)) →
      Scans tables size (found.drop taken) ws → Scans tables size text (w :: ws)

/-- The words end at the end of the text. -/
theorem Scans.closed {text : List Char} {ws : List Word} (h : Scans tables size text ws) :
    Closed ws := by
  induction h with
  | ends => rfl
  | unclosed _ _ hw _ ih =>
    rw [hw]
    exact (closed_cons rfl).2 ih
  | word _ _ hne hc hw _ ih =>
    rw [hw]
    exact (closed_cons (Word.isEnd_read (classify_ne_nil hne hc).1 _)).2 ih

/-- Given the tables of the language, all of the words are words of the language. -/
theorem Scans.legible {text : List Char} {ws : List Word} (h : Scans .quill size text ws) :
    AllLegible ws := by
  induction h with
  | ends =>
    intro w hw
    rw [List.mem_singleton.1 hw]
    rfl
  | unclosed _ _ hw _ ih =>
    rw [allLegible_cons, hw]
    exact ⟨trivial, ih⟩
  | word _ _ hne hc hw _ ih =>
    obtain ⟨word, rest, rfl, rfl, hrule⟩ := exists_rule_of_classify hne hc
    rw [allLegible_cons, hw, List.take_left]
    exact ⟨hrule.legible, ih⟩

theorem matchBlockComment?_some {text : List Char} {opener closer : String}
    (h : tables.matchBlockComment? text = some (opener, closer)) :
    opener ≠ "" ∧ ∃ rest, text = opener.toList ++ rest :=
  startsWithMark_iff.1
    (List.find?_some (p := fun marks : String × String => startsWithMark marks.1 text) h)

/-- The gap before an open comment leaves the mark that opens it. -/
theorem exists_of_gapFrom_unclosed {fuel count n : Nat} {text : List Char}
    (h : gapFrom tables fuel count text = ⟨n, true⟩) :
    ∃ k, n = count + k ∧ text.drop k ≠ [] := by
  induction fuel generalizing count text with
  | zero => simp [gapFrom] at h
  | succ fuel ih =>
    simp only [gapFrom] at h
    split at h
    · obtain ⟨k, rfl, hk⟩ := ih h
      rw [List.drop_drop, List.drop_drop] at hk
      exact ⟨_, by omega, hk⟩
    split at h
    · simp at h
    · next opener closer hm =>
      split at h
      · cases h
        obtain ⟨hmark, rest, htext⟩ := matchBlockComment?_some hm
        refine ⟨_, rfl, ?_⟩
        rw [htext]
        simp [hmark]
      · obtain ⟨k, rfl, hk⟩ := ih h
        rw [List.drop_drop, List.drop_drop] at hk
        exact ⟨_, by omega, hk⟩

theorem ne_nil_of_gap_unclosed {n : Nat} {text : List Char}
    (h : gap tables size text = ⟨n, true⟩) : text.drop n ≠ [] := by
  obtain ⟨k, rfl, hk⟩ := exists_of_gapFrom_unclosed h
  rwa [Nat.zero_add]

/-- Every text can be scanned. -/
theorem exists_scans (text : List Char) : ∃ ws, Scans tables size text ws := by
  induction h : text.length using Nat.strong_induction_on generalizing text with
  | _ n ih =>
    subst h
    rcases hg : gap tables size text with ⟨length, unclosed⟩
    have hle := List.length_drop (i := length) (l := text)
    cases unclosed with
    | true =>
      have hne := ne_nil_of_gap_unclosed hg
      have hpos := List.length_pos_iff.2 hne
      obtain ⟨ws, hws⟩ := ih 0 (by omega) [] rfl
      exact ⟨_, .unclosed hg hne rfl hws⟩
    | false =>
      by_cases hne : text.drop length = []
      · exact ⟨_, .ends hg hne⟩
      · rcases hc : classify tables (text.drop length) with ⟨kind, taken⟩
        have hpos := List.length_pos_iff.2 hne
        have htaken := (classify_ne_nil hne hc).2
        obtain ⟨ws, hws⟩ := ih _ (by simp only [List.length_drop] at *; omega)
          ((text.drop length).drop taken) rfl
        exact ⟨_, .word hg rfl hne hc rfl hws⟩

/-! ## The scanner -/

namespace Scanner

/-- The scanner takes an open comment off up to the end of the text. -/
theorem next_of_unclosed {s : Scanner} {length : Nat}
    (hg : gap s.tables s.size s.text = ⟨length, true⟩) :
    s.next.1.word = .read (.invalid .unterminatedComment) (String.ofList (s.text.drop length)) ∧
      s.next.2.tables = s.tables ∧ s.next.2.size = s.size ∧ s.next.2.text = [] := by
  simp only [next, hg, if_true, take, skip, Token.word, List.take_length, List.drop_length,
    and_self]

/-- The scanner takes off what stands after the gap. -/
theorem next_of_classify {s : Scanner} {length taken : Nat} {kind : TokenKind}
    (hg : gap s.tables s.size s.text = ⟨length, false⟩)
    (hc : classify s.tables (s.text.drop length) = (kind, taken)) :
    s.next.1.word = .read kind (String.ofList ((s.text.drop length).take taken)) ∧
      s.next.2.tables = s.tables ∧ s.next.2.size = s.size ∧
      s.next.2.text = (s.text.drop length).drop taken := by
  simp [next, hg, hc, take, skip, Token.word]

theorem collect_of_isEnd {s : Scanner} (h : s.next.1.isEnd = true) (fuel : Nat)
    (seen : List Token) : s.collect fuel seen = (s.next.1 :: seen).reverse := by
  cases fuel with
  | zero => rfl
  | succ fuel => simp [collect, h]

theorem collect_succ {s : Scanner} (h : s.next.1.isEnd = false) (fuel : Nat)
    (seen : List Token) : s.collect (fuel + 1) seen = s.next.2.collect fuel (s.next.1 :: seen) := by
  simp [collect, h]

end Scanner

private theorem exists_fuel {text : List Char} {length fuel : Nat} (hne : text.drop length ≠ [])
    (hfuel : text.length ≤ fuel) : ∃ f, fuel = f + 1 := by
  have := List.length_pos_iff.2 hne
  rw [List.length_drop] at this
  exact ⟨fuel - 1, by omega⟩

/-- The scanner finds the words that scanning its text gives. -/
theorem Scans.map_collect {text : List Char} {ws : List Word} (h : Scans tables size text ws)
    {s : Scanner} (htables : s.tables = tables) (hsize : s.size = size) (htext : s.text = text)
    {fuel : Nat} (hfuel : text.length ≤ fuel) (seen : List Token) :
    (s.collect fuel seen).map Token.word = seen.reverse.map Token.word ++ ws := by
  induction h generalizing s fuel seen with
  | ends hg hnil =>
    subst htables hsize htext
    have hc : classify s.tables [] = (.endOfInput, 0) := rfl
    rw [← hnil] at hc
    obtain ⟨hword, -⟩ := Scanner.next_of_classify hg hc
    have hend : s.next.1.isEnd = true := by
      rw [← Token.isEnd_word, hword]
      rfl
    rw [Scanner.collect_of_isEnd hend]
    simp [hword, Word.read, Word.endOfInput]
  | unclosed hg hne hw _ ih =>
    subst htables hsize htext
    obtain ⟨hword, ht, hs, hx⟩ := Scanner.next_of_unclosed hg
    have hend : s.next.1.isEnd = false := by
      rw [← Token.isEnd_word, hword]
      exact Word.isEnd_read (by simp) _
    obtain ⟨fuel, rfl⟩ := exists_fuel hne hfuel
    rw [Scanner.collect_succ hend, ih ht hs hx (by simp)]
    simp [hword, hw]
  | word hg hfound hne hc hw _ ih =>
    subst htables hsize htext hfound
    obtain ⟨hword, ht, hs, hx⟩ := Scanner.next_of_classify hg hc
    obtain ⟨hkind, htaken⟩ := classify_ne_nil hne hc
    have hend : s.next.1.isEnd = false := by
      rw [← Token.isEnd_word, hword]
      exact Word.isEnd_read hkind _
    obtain ⟨fuel, rfl⟩ := exists_fuel hne hfuel
    rw [Scanner.collect_succ hend, ih ht hs hx (by simp only [List.length_drop]; omega)]
    simp [hword, hw]

/-- The words of the tokens of a text are those that scanning it gives. -/
theorem map_tokenize {source : String} {ws : List Word}
    (h : Scans tables source.length source.toList ws) :
    (tokenize tables source).map Token.word = ws :=
  h.map_collect (s := Scanner.start tables source) rfl rfl rfl (le_refl _) []

theorem tokenize_scans (tables : Tables) (source : String) :
    Scans tables source.length source.toList ((tokenize tables source).map Token.word) := by
  obtain ⟨ws, hws⟩ : ∃ ws, Scans tables source.length source.toList ws := exists_scans _
  rw [map_tokenize hws]
  exact hws

end Scriptorium
