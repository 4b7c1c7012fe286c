import Scriptorium.Proofs.Coverage

/-!
# Tokens follow the rules

Blanks and comments are passed until there are no more, and then a token is taken off by the
rules for the text there, if every comment takes a character.

* `GapEnd`, `gapEnd_of_gapFrom` — where the blanks and comments end;
* `Scanner.TakesOff.cases`, `Scanner.TakesOff.gapEnd` — what a step of the scanner takes off;
* `tokenize_covers` — the tokens of a text and the gaps in front of them make up the text;
* `tokenize_follows_rules` — every token of a text follows the rules.
-/

namespace Scriptorium

variable {tables : Tables}

/-! ## Where a gap ends -/

namespace Tables

/-- A comment starts here. -/
def OpensComment (tables : Tables) (text : List Char) : Prop :=
  (∃ mark ∈ tables.lineComments, mark ≠ "" ∧ mark.toList <+: text) ∨
    ∃ marks ∈ tables.blockComments, marks.1 ≠ "" ∧ marks.1.toList <+: text

/-- No mark of a line comment starts with a line break, where such a comment ends: so every
comment takes a character. -/
def CommentsAdvance (tables : Tables) : Prop :=
  ∀ mark ∈ tables.lineComments, mark.toList.head? ≠ some '\n'

instance (tables : Tables) : Decidable tables.CommentsAdvance :=
  inferInstanceAs (Decidable (∀ mark ∈ tables.lineComments, _))

theorem commentsAdvance_quill : quill.CommentsAdvance := by decide +kernel

theorem not_opensComment_iff {text : List Char} :
    ¬ tables.OpensComment text ↔
      tables.startsLineComment text = false ∧ tables.matchBlockComment? text = none := by
  simp only [OpensComment, not_or, not_exists, not_and, startsLineComment, List.any_eq_false,
    matchBlockComment?, List.find?_eq_none, startsWithMark_eq_true_iff]

/-- A line comment takes a character. -/
theorem CommentsAdvance.lineComment_pos (h : tables.CommentsAdvance) {text : List Char}
    (hline : tables.startsLineComment text = true) :
    0 < (text.takeWhile (· != '\n')).length := by
  obtain ⟨mark, hmem, hstarts⟩ := List.any_eq_true.1 hline
  obtain ⟨hne, rest, rfl⟩ := startsWithMark_iff.1 hstarts
  obtain ⟨c, cs, hcs⟩ := List.exists_cons_of_ne_nil (mt String.toList_eq_nil_iff.1 hne)
  have hc : c ≠ '\n' := by
    have hhead := h mark hmem
    rw [hcs] at hhead
    simpa using hhead
  rw [hcs, List.cons_append, List.takeWhile_cons_of_pos (by simpa using hc)]
  exact Nat.succ_pos _

/-- A block comment takes the characters of the mark that opens it, and more. -/
theorem blockComment_pos {text : List Char} {opener closer : String} {comment : Nat}
    (hblock : tables.matchBlockComment? text = some (opener, closer))
    (hclosed : pastFirst? closer.toList opener.length (text.drop opener.length) = some comment) :
    0 < comment := by
  obtain ⟨body, after, -, rfl, -⟩ := endsFirst_of_pastFirst? hclosed
  have hne := (matchBlockComment?_some hblock).1
  have hpos := Nat.pos_of_ne_zero (mt String.length_eq_zero_iff.1 hne)
  omega

end Tables

/-- Neither a blank nor a comment starts here; but a block comment does, which is not closed,
if the gap is `unclosed`. -/
structure GapEnd (tables : Tables) (unclosed : Bool) (text : List Char) : Prop where
  blanks : text.takeWhile isBlank = []
  line : tables.startsLineComment text = false
  closed : unclosed = false → tables.matchBlockComment? text = none
  opened : unclosed = true → ∃ opener closer,
    tables.matchBlockComment? text = some (opener, closer) ∧
      pastFirst? closer.toList opener.length (text.drop opener.length) = none

theorem gapEnd_nil : GapEnd tables false [] := by
  have hnone : ∀ mark, startsWithMark mark [] = false := by
    intro mark
    rw [← Bool.not_eq_true, startsWithMark_eq_true_iff, List.prefix_nil, String.toList_eq_nil_iff]
    exact fun h => h.1 h.2
  refine ⟨rfl, ?_, fun _ => ?_, by simp⟩
  · simp [Tables.startsLineComment, hnone]
  · simp [Tables.matchBlockComment?, hnone]

/-- If every comment takes a character, the gap is passed up to its end. -/
theorem gapEnd_of_gapFrom (htables : tables.CommentsAdvance) {fuel count n : Nat}
    {text : List Char} {unclosed : Bool} (hfuel : text.length ≤ fuel)
    (h : gapFrom tables fuel count text = ⟨count + n, unclosed⟩) :
    GapEnd tables unclosed (text.drop n) := by
  induction fuel generalizing count text n with
  | zero =>
    rw [List.length_eq_zero_iff.1 (Nat.le_zero.1 hfuel)] at h ⊢
    cases unclosed with
    | true => simp [gapFrom] at h
    | false =>
      rw [List.drop_nil]
      exact gapEnd_nil
  | succ fuel ih =>
    simp only [gapFrom] at h
    have hlength := List.length_drop (i := (text.takeWhile isBlank).length) (l := text)
    have hstop : (text.drop (text.takeWhile isBlank).length).takeWhile isBlank = [] := by
      rw [drop_length_takeWhile, List.takeWhile_eq_nil_iff]
      exact fun hpos => by simpa using List.dropWhile_get_zero_not isBlank text hpos
    -- a comment takes a character, so there is fuel enough for what comes after it
    have hcomment : ∀ comment, 0 < comment →
        gapFrom tables fuel (count + (text.takeWhile isBlank).length + comment)
          ((text.drop (text.takeWhile isBlank).length).drop comment) = ⟨count + n, unclosed⟩ →
        GapEnd tables unclosed (text.drop n) := by
      intro comment hpos hrest
      obtain ⟨gap, after, -, hn, -⟩ := trivia_of_gapFrom hrest
      rw [hn] at hrest
      have hend := ih (by simp only [List.length_drop] at *; omega) hrest
      rwa [List.drop_drop, List.drop_drop,
        show (text.takeWhile isBlank).length + (comment + gap.length) = n by omega] at hend
    -- where no comment is passed, the gap ends behind the blanks
    have hhere : ∀ {b : Bool}, (⟨count + (text.takeWhile isBlank).length, b⟩ : Gap) =
        ⟨count + n, unclosed⟩ → (text.takeWhile isBlank).length = n ∧ b = unclosed := by
      intro b hb
      rw [Gap.mk.injEq] at hb
      exact ⟨by omega, hb.2⟩
    split at h
    · next hline => exact hcomment _ (htables.lineComment_pos hline) h
    · next hline =>
      rw [Bool.not_eq_true] at hline
      split at h
      · next hblock =>
        obtain ⟨rfl, rfl⟩ := hhere h
        exact ⟨hstop, hline, fun _ => hblock, by simp⟩
      · next opener closer hblock =>
        split at h
        · next hopen =>
          obtain ⟨rfl, rfl⟩ := hhere h
          exact ⟨hstop, hline, by simp, fun _ => ⟨opener, closer, hblock, hopen⟩⟩
        · next comment hclosed => exact hcomment _ (Tables.blockComment_pos hblock hclosed) h

/-! ## What a step of the scanner takes off -/

namespace Scanner

variable {s : Scanner} {kind : TokenKind} {gap word : List Char}

/-- A step takes off an open comment, which goes on to the end of the text, or what is found
after the gap. -/
theorem TakesOff.cases (h : s.TakesOff kind gap word) :
    (kind = .invalid .unterminatedComment ∧ s.next.2.text = [] ∧
        Scriptorium.gap s.tables s.size s.text = ⟨gap.length, true⟩) ∨
      (Scriptorium.gap s.tables s.size s.text = ⟨gap.length, false⟩ ∧
        classify s.tables (word ++ s.next.2.text) = (kind, word.length)) := by
  rcases hgap : Scriptorium.gap s.tables s.size s.text with ⟨length, unclosed⟩
  obtain ⟨gap', after, htext, hlength, -⟩ := trivia_of_gapFrom hgap
  rw [Nat.zero_add] at hlength
  subst hlength
  have htoken := h.token
  have hsplit := h.text
  -- the same word before the same text leaves the same gap
  cases unclosed with
  | true =>
    have hnext := next_open htext hgap
    rw [hnext] at htoken hsplit ⊢
    obtain ⟨rfl, hlexeme, -, -⟩ := Token.mk.inj htoken
    obtain rfl := String.ofList_injective hlexeme
    rw [htext, List.append_nil] at hsplit
    obtain rfl := List.append_cancel_right hsplit
    exact .inl ⟨rfl, rfl, rfl⟩
  | false =>
    rcases hclass : classify s.tables after with ⟨kind', taken⟩
    have hnext := next_found htext hgap hclass
    rw [hnext] at htoken hsplit ⊢
    obtain ⟨rfl, hlexeme, -, -⟩ := Token.mk.inj htoken
    obtain rfl := String.ofList_injective hlexeme
    rw [htext] at hsplit
    simp only [List.take_append_drop] at hsplit ⊢
    obtain rfl := List.append_cancel_right hsplit
    refine .inr ⟨rfl, ?_⟩
    rw [hclass, List.length_take, min_eq_left (classify_length_le hclass)]

/-- Where the gap ends, nothing starts that belongs to a gap. -/
theorem TakesOff.gapEnd {unclosed : Bool} (h : s.TakesOff kind gap word)
    (htables : s.tables.CommentsAdvance) (hsize : s.text.length ≤ s.size)
    (hgap : Scriptorium.gap s.tables s.size s.text = ⟨gap.length, unclosed⟩) :
    GapEnd s.tables unclosed (word ++ s.next.2.text) := by
  have hpassed : gapFrom s.tables s.size 0 s.text = ⟨0 + gap.length, unclosed⟩ := by
    rw [Nat.zero_add]
    exact hgap
  have hend := gapEnd_of_gapFrom htables hsize hpassed
  rwa [h.text, List.drop_left] at hend

/-- In front of a token, the gap goes on as far as there are blanks and comments. -/
theorem TakesOff.gapEnd_kind (h : s.TakesOff kind gap word) (htables : s.tables.CommentsAdvance)
    (hsize : s.text.length ≤ s.size) :
    GapEnd s.tables (s.next.1.kind == .invalid .unterminatedComment) (word ++ s.next.2.text) := by
  have hkind : s.next.1.kind = kind := by
    rw [h.token]
    rfl
  rw [hkind]
  rcases h.cases with ⟨rfl, -, hgap⟩ | ⟨hgap, hclass⟩
  · exact h.gapEnd htables hsize hgap
  · -- no rule gives a comment that is not closed
    have hfound : (kind == .invalid .unterminatedComment) = false := by
      rw [beq_eq_false_iff_ne]
      rintro rfl
      cases tokenRule_iff.2 ⟨h.takes (by simp), hclass⟩
    rw [hfound]
    exact h.gapEnd htables hsize hgap

/-- What is found follows the rules. -/
theorem rule_next (hend : s.next.1.kind ≠ .endOfInput)
    (hopen : s.next.1.kind ≠ .invalid .unterminatedComment) :
    TokenRule s.tables s.next.1.kind s.next.1.lexeme.toList s.next.2.text := by
  obtain ⟨kind, gap, word, h⟩ := s.exists_takesOff
  rw [h.token] at hend hopen ⊢
  rw [Place.token, String.toList_ofList]
  rcases h.cases with ⟨rfl, -⟩ | ⟨-, hclass⟩
  · exact absurd rfl hopen
  · exact tokenRule_iff.2 ⟨h.takes hend, hclass⟩

end Scanner

/-! ## The tokens of a text -/

/-- If every comment takes a character, the tokens of a text of less than 4 GiB end with the one at
its end, which is empty.  The others are not, they stand in order with their text under their
spans, and what stands between them are blanks and comments, as many as there are: a token starts
where neither a blank nor a comment does, but for a comment that is not closed. -/
theorem tokenize_covers {source : String} (htables : tables.CommentsAdvance)
    (hsize : byteLength source.toList < 2 ^ 32) :
    ∃ tokens last, tokenize tables source = tokens ++ [last] ∧
      (Scanner.start tables source).Collects source.toList tokens last ∧
      last.span = ⟨byteLength source.toList, byteLength source.toList⟩ ∧
      Covers tables source.toList 0 (tokens ++ [last]) ∧
      ∀ t ∈ tokens ++ [last], ∃ after, dropBytes? t.span.start source.toList = some after ∧
        GapEnd tables (t.kind == .invalid .unterminatedComment) after := by
  have hstart := Scanner.reads_start tables source
  obtain ⟨tokens, last, htokens, hcollects⟩ := Scanner.exists_collects hstart le_rfl []
  refine ⟨tokens, last, htokens, hcollects, ?_, ?_, ?_⟩
  · rw [hcollects.ends.2.2.1, Span.ofOffsets, Span.min_byteLength List.prefix_rfl hsize]
  · rw [hcollects.steps]
    exact hstart.covers hsize _
  · rw [← show tokenize tables source = tokens ++ [last] from htokens]
    refine forall_tokenize_of_tables fun s before hreads hs hfuel => ?_
    obtain ⟨kind, gap, word, h⟩ := s.exists_takesOff
    have hsource : source.toList = (before ++ gap) ++ (word ++ s.next.2.text) := by
      rw [hreads.source, h.text, List.append_assoc]
    refine ⟨word ++ s.next.2.text, ?_, hs ▸ h.gapEnd_kind (hs ▸ htables) hfuel⟩
    rw [h.span hreads hsize, hsource]
    exact dropBytes?_append _ _

/-- A line comment with a letter of two bytes, and a block comment that is not closed. -/
theorem tokenize_covers_comments :
    let tables : Tables := ⟨["+"], [], ["#"], [("/*", "*/")]⟩
    let source := " a#é\n+/*"
    tables.CommentsAdvance ∧ byteLength source.toList < 2 ^ 32 ∧
      ∃ tokens last, tokenize tables source = tokens ++ [last] ∧
        last.span = ⟨byteLength source.toList, byteLength source.toList⟩ ∧
        Covers tables source.toList 0 (tokens ++ [last]) := by
  intro tables source
  have htables : tables.CommentsAdvance := by decide +kernel
  have hsize : byteLength source.toList < 2 ^ 32 := by decide
  obtain ⟨tokens, last, htokens, -, hlast, hcovers, -⟩ := tokenize_covers htables hsize
  exact ⟨htables, hsize, tokens, last, htokens, hlast, hcovers⟩

/-- The token stands in the source text between `before` and `rest` and follows the rules. -/
structure Token.FollowsRules (tables : Tables) (source before rest : List Char) (t : Token) :
    Prop where
  text : source = before ++ (t.lexeme.toList ++ rest)
  span : t.span = .ofOffsets (byteLength before) (byteLength (before ++ t.lexeme.toList))
  /-- Comments come before all tokens. -/
  comment : ¬ tables.OpensComment (t.lexeme.toList ++ rest)
  /-- Line breaks come before everything else. -/
  newline : t.kind = .newline ↔ (t.lexeme.toList ++ rest).head? = some '\n'
  /-- It follows the rule for the text there. -/
  rule : TokenRule tables t.kind t.lexeme.toList rest
  /-- No rule gives another token. -/
  only : ∀ kind word after, TokenRule tables kind word after →
    t.lexeme.toList ++ rest = word ++ after → kind = t.kind ∧ word = t.lexeme.toList
  /-- Of the punctuation it is the longest entry, if the table lists longer entries first. -/
  longest : t.kind = .punct → LongestFirst tables.puncts →
    ∀ mark ∈ tables.puncts, mark.toList <+: t.lexeme.toList ++ rest →
      mark.length ≤ t.lexeme.length

/-- If every comment takes a character, every token of a text follows the rules, unless it is
the end of the text or a comment that is not closed. -/
theorem tokenize_follows_rules {source : String} (htables : tables.CommentsAdvance) :
    ∀ t ∈ tokenize tables source, t.kind ≠ .endOfInput →
      t.kind ≠ .invalid .unterminatedComment →
      ∃ before rest, t.FollowsRules tables source.toList before rest := by
  refine forall_tokenize_of_tables fun s before hreads hs hsize hend hopen => ?_
  obtain ⟨kind, gap, word, h⟩ := s.exists_takesOff
  have hrule := s.rule_next hend hopen
  have hword : s.next.1.lexeme.toList = word := by
    rw [h.token]
    exact String.toList_ofList
  have hgap : GapEnd s.tables false (word ++ s.next.2.text) := by
    rcases h.cases with ⟨rfl, -⟩ | ⟨hgap, -⟩
    · rw [h.token] at hopen
      exact absurd rfl hopen
    · exact h.gapEnd (hs ▸ htables) hsize hgap
  rw [hs] at hrule hgap
  refine ⟨before ++ gap, s.next.2.text, ?_, ?_, ?_, hrule.newline_iff, hrule, ?_, ?_⟩
  · rw [hword, hreads.source, h.text, List.append_assoc]
  · rw [hword, List.append_assoc, Span.ofOffsets, ← h.start hreads, ← h.stop hreads]
  · rw [hword]
    exact Tables.not_opensComment_iff.2 ⟨hgap.line, hgap.closed rfl⟩
  · intro kind' word' after hother htext
    obtain ⟨hkind, hword, -⟩ := hother.unique hrule htext.symm
    exact ⟨hkind, hword⟩
  · intro hkind hmarks
    rw [hkind] at hrule
    rw [← String.length_toList (s := s.next.1.lexeme)]
    exact hrule.longest hmarks

/-- Entries that look like numbers, comments and quotes: `=*` opens a comment, so `==*` starts
with the mark `==`, and the quotes of `"=` are a mark. -/
theorem tokenize_follows_rules_collisions :
    let tables : Tables := ⟨["12", "==", "=", "\"="], ["let"], ["#"], [("=*", "*=")]⟩
    let source := "=*x*=123==*\"=\"\\\"\" let #"
    let t : Token := ⟨.punct, "==", ⟨8, 10⟩, ⟨1, 9⟩⟩
    tables.CommentsAdvance ∧ t ∈ tokenize tables source ∧ t.kind ≠ .endOfInput ∧
      t.kind ≠ .invalid .unterminatedComment ∧
      ∃ before rest, t.FollowsRules tables source.toList before rest := by
  intro tables source t
  have htables : tables.CommentsAdvance := by decide +kernel
  have ht : t ∈ tokenize tables source := by decide +kernel
  exact ⟨htables, ht, by decide, by decide,
    tokenize_follows_rules htables t ht (by decide) (by decide)⟩

end Scriptorium
