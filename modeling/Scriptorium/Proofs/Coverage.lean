import Scriptorium.Proofs.Offsets
import Scriptorium.Proofs.Scanning
import Mathlib.Data.List.Iterate

/-!
# Nothing of a text is lost

Every character of a text belongs to one of its tokens or stands between two of them, where
only blanks and comments may stand.

* `Trivia` — what may stand between two tokens;
* `trivia_of_gapFrom` — the scanner skips nothing else;
* `Scanner.TakesOff` — what a step of the scanner takes off its text;
* `Scanner.exists_collects` — the tokens of a text end with the one token at its end;
* `Covers`, `Scanner.Reads.covers` — tokens and what stands between them make up a text.
-/

namespace Scriptorium

variable {tables : Tables}

/-! ## What stands between tokens -/

/-- The text ends with the mark, which occurs nowhere before in it. -/
def EndsFirst (mark text : List Char) : Prop :=
  mark <:+ text ∧ ∀ before after, text = before ++ (mark ++ after) → after = []

/-- Blanks and comments, one after the other, before the text `after`. -/
inductive Trivia (tables : Tables) (after : List Char) : List Char → Prop where
  /-- Nothing has to stand there. -/
  | nil : Trivia tables after []
  /-- A space, a tab or a carriage return. -/
  | blank {c : Char} {gap : List Char} :
      isBlank c = true → Trivia tables after gap → Trivia tables after (c :: gap)
  /-- A line comment goes on up to the next line break, or to the end of the text. -/
  | lineComment {mark : String} {comment gap : List Char} :
      mark ∈ tables.lineComments → mark ≠ "" → mark.toList <+: comment ++ (gap ++ after) →
      '\n' ∉ comment → (∀ c ∈ (gap ++ after).head?, c = '\n') →
      Trivia tables after gap → Trivia tables after (comment ++ gap)
  /-- A block comment goes on up to the first mark that closes it. -/
  | blockComment {opener closer : String} {body gap : List Char} :
      (opener, closer) ∈ tables.blockComments → opener ≠ "" → EndsFirst closer.toList body →
      Trivia tables after gap → Trivia tables after (opener.toList ++ (body ++ gap))

theorem Trivia.blanks {after blanks gap : List Char} (hblanks : ∀ c ∈ blanks, isBlank c = true)
    (h : Trivia tables after gap) : Trivia tables after (blanks ++ gap) := by
  induction blanks with
  | nil => exact h
  | cons c blanks ih =>
    have hrest : ∀ d ∈ blanks, isBlank d = true := by
      intro d hd
      exact hblanks d (List.mem_cons_of_mem c hd)
    exact .blank (hblanks c List.mem_cons_self) (ih hrest)

theorem endsFirst_self (mark : List Char) : EndsFirst mark mark := by
  refine ⟨List.suffix_refl mark, ?_⟩
  intro before after h
  have hlength := congrArg List.length h
  simp only [List.length_append] at hlength
  exact List.length_eq_zero_iff.1 (by omega)

theorem EndsFirst.cons {mark text : List Char} {c : Char} (h : EndsFirst mark text)
    (hc : ¬ mark <+: c :: text) : EndsFirst mark (c :: text) := by
  obtain ⟨hsuffix, hfirst⟩ := h
  refine ⟨hsuffix.trans (List.suffix_cons c text), ?_⟩
  intro before after hsplit
  cases before with
  | nil => exact absurd ⟨after, hsplit.symm⟩ hc
  | cons d before =>
    simp only [List.cons_append, List.cons.injEq] at hsplit
    exact hfirst before after hsplit.2

/-- The text up to the end of the first occurrence of a mark. -/
theorem endsFirst_of_pastFirst? {mark text : List Char} {count n : Nat}
    (h : pastFirst? mark count text = some n) :
    ∃ body after, text = body ++ after ∧ n = count + body.length ∧ EndsFirst mark body := by
  induction text generalizing count with
  | nil =>
    have hmark : mark = [] ∧ count = n := by simpa [pastFirst?] using h
    obtain ⟨rfl, rfl⟩ := hmark
    exact ⟨[], [], rfl, rfl, endsFirst_self []⟩
  | cons c text ih =>
    rw [pastFirst?] at h
    by_cases hmark : mark.isPrefixOf (c :: text) = true
    · rw [if_pos hmark] at h
      obtain ⟨after, hafter⟩ := List.isPrefixOf_iff_prefix.1 hmark
      exact ⟨mark, after, hafter.symm, (Option.some.inj h).symm, endsFirst_self mark⟩
    · rw [if_neg hmark] at h
      obtain ⟨body, after, rfl, rfl, hbody⟩ := ih h
      refine ⟨c :: body, after, rfl, by simp only [List.length_cons]; omega, hbody.cons ?_⟩
      intro hstarts
      rw [List.isPrefixOf_iff_prefix] at hmark
      exact hmark (hstarts.trans (List.prefix_append (c :: body) after))

theorem drop_length_takeWhile (p : Char → Bool) (text : List Char) :
    text.drop (text.takeWhile p).length = text.dropWhile p := by
  refine (List.append_right_inj (text.takeWhile p)).1 ?_
  rw [List.takeWhile_append_dropWhile]
  exact List.prefix_iff_eq_append.1 (List.takeWhile_prefix p)

/-- A line comment stands where one of its marks does. -/
theorem Trivia.ofLine {text gap after : List Char} (hmark : tables.startsLineComment text = true)
    (hrest : text.dropWhile (· != '\n') = gap ++ after) (h : Trivia tables after gap) :
    Trivia tables after (text.takeWhile (· != '\n') ++ gap) := by
  obtain ⟨mark, hmem, hstarts⟩ := List.any_eq_true.1 hmark
  obtain ⟨hne, rest, htext⟩ := startsWithMark_iff.1 hstarts
  refine .lineComment hmem hne ?_ ?_ ?_ h
  · rw [← hrest, List.takeWhile_append_dropWhile]
    exact ⟨rest, htext.symm⟩
  · intro hbreak
    simpa using List.mem_takeWhile_imp hbreak
  · intro c hc
    rw [← hrest] at hc
    have hstop := List.head?_dropWhile_not (· != '\n') text
    rw [hc] at hstop
    simpa using hstop

/-- Blanks and comments are all that the scanner counts as a gap. -/
theorem trivia_of_gapFrom {fuel count n : Nat} {text : List Char} {unclosed : Bool}
    (h : gapFrom tables fuel count text = ⟨n, unclosed⟩) :
    ∃ gap after, text = gap ++ after ∧ n = count + gap.length ∧ Trivia tables after gap := by
  induction fuel generalizing count text with
  | zero =>
    cases h
    exact ⟨[], text, rfl, rfl, .nil⟩
  | succ fuel ih =>
    -- after the blanks it is enough to find the comments that come next
    suffices hcomments : ∃ gap after, text.dropWhile isBlank = gap ++ after ∧
        n = count + (text.takeWhile isBlank).length + gap.length ∧ Trivia tables after gap by
      obtain ⟨gap, after, hrest, hn, hgap⟩ := hcomments
      refine ⟨text.takeWhile isBlank ++ gap, after, ?_, ?_, ?_⟩
      · rw [List.append_assoc, ← hrest, List.takeWhile_append_dropWhile]
      · rw [hn, List.length_append, Nat.add_assoc]
      · exact hgap.blanks fun c hc => List.mem_takeWhile_imp hc
    simp only [gapFrom, drop_length_takeWhile] at h
    generalize text.dropWhile isBlank = rest at h ⊢
    by_cases hline : tables.startsLineComment rest = true
    · rw [if_pos hline] at h
      obtain ⟨gap, after, hrest, hn, hgap⟩ := ih h
      refine ⟨rest.takeWhile (· != '\n') ++ gap, after, ?_, ?_, hgap.ofLine hline hrest⟩
      · rw [List.append_assoc, ← hrest, List.takeWhile_append_dropWhile]
      · rw [hn, List.length_append, Nat.add_assoc]
    · rw [if_neg hline] at h
      split at h
      · cases h
        exact ⟨[], rest, rfl, rfl, .nil⟩
      · next opener closer hmarks =>
        obtain ⟨hne, inner, hrest⟩ := matchBlockComment?_some hmarks
        rw [hrest, ← String.length_toList, List.drop_left] at h
        split at h
        · cases h
          exact ⟨[], rest, rfl, rfl, .nil⟩
        · next comment hclosed =>
          obtain ⟨body, later, rfl, rfl, hbody⟩ := endsFirst_of_pastFirst? hclosed
          rw [← List.append_assoc, ← List.length_append, List.drop_left] at h
          obtain ⟨gap, after, rfl, hn, hgap⟩ := ih h
          have hmem : (opener, closer) ∈ tables.blockComments := List.mem_of_find?_eq_some hmarks
          refine ⟨opener.toList ++ (body ++ gap), after, ?_, ?_, .blockComment hmem hne hbody hgap⟩
          · simp only [hrest, List.append_assoc]
          · simp only [hn, List.length_append, Nat.add_assoc]

/-! ## What a step of the scanner takes off -/

/-- The token of a word that stands after a gap. -/
def Place.token (p : Place) (kind : TokenKind) (gap word : List Char) : Token where
  kind := kind
  lexeme := String.ofList word
  span := .ofOffsets (p.advance gap).offset (p.advance (gap ++ word)).offset
  location := (p.advance gap).location

namespace Scanner

/-- A step of the scanner passes a gap and takes the word after it off as a token. -/
structure TakesOff (s : Scanner) (kind : TokenKind) (gap word : List Char) : Prop where
  token : s.next.1 = s.place.token kind gap word
  text : s.text = gap ++ (word ++ s.next.2.text)
  trivia : Trivia s.tables (word ++ s.next.2.text) gap
  place : s.next.2.place = s.place.advance (gap ++ word)
  tables : s.next.2.tables = s.tables
  ends : kind = .endOfInput → word = [] ∧ s.next.2.text = []
  takes : kind ≠ .endOfInput → word ≠ []

/-- An open comment is taken off up to the end of the text. -/
theorem next_open {s : Scanner} {gap after : List Char} (htext : s.text = gap ++ after)
    (hgap : Scriptorium.gap s.tables s.size s.text = ⟨gap.length, true⟩) :
    s.next = (s.place.token (.invalid .unterminatedComment) gap after,
      { s with text := [], place := s.place.advance (gap ++ after) }) := by
  have hskip : s.skip gap.length = { s with text := after, place := s.place.advance gap } := by
    rw [skip, htext, List.drop_left, List.take_left]
  simp only [next, hgap, hskip, if_true]
  simp [take, skip, Place.token]

/-- Otherwise what stands after the gap is taken off. -/
theorem next_found {s : Scanner} {gap after : List Char} {kind : TokenKind} {taken : Nat}
    (htext : s.text = gap ++ after)
    (hgap : Scriptorium.gap s.tables s.size s.text = ⟨gap.length, false⟩)
    (hclass : classify s.tables after = (kind, taken)) :
    s.next = (s.place.token kind gap (after.take taken),
      { s with
        text := after.drop taken
        place := s.place.advance (gap ++ after.take taken)
        finished := s.finished || kind == .endOfInput }) := by
  have hskip : s.skip gap.length = { s with text := after, place := s.place.advance gap } := by
    rw [skip, htext, List.drop_left, List.take_left]
  simp only [next, hgap, hskip, hclass]
  simp [take, skip, Place.token, Token.isEnd]

theorem size_next (s : Scanner) : s.next.2.size = s.size := by
  unfold next
  dsimp only
  split <;> rfl

theorem exists_takesOff (s : Scanner) : ∃ kind gap word, s.TakesOff kind gap word := by
  rcases hgap : Scriptorium.gap s.tables s.size s.text with ⟨length, unclosed⟩
  obtain ⟨gap, after, htext, hlength, htrivia⟩ := trivia_of_gapFrom hgap
  rw [Nat.zero_add] at hlength
  subst hlength
  cases unclosed with
  | true =>
    have hdrop : s.text.drop gap.length = after := by rw [htext, List.drop_left]
    have hne : after ≠ [] := hdrop ▸ ne_nil_of_gap_unclosed hgap
    have hnext := next_open htext hgap
    refine ⟨.invalid .unterminatedComment, gap, after, by rw [hnext], ?_, ?_, by rw [hnext],
      by rw [hnext], ?_, fun _ => hne⟩
    · rw [hnext, htext, List.append_nil]
    · rwa [hnext, List.append_nil]
    · simp
  | false =>
    rcases hclass : classify s.tables after with ⟨kind, taken⟩
    have hword : after.take taken ++ after.drop taken = after := List.take_append_drop taken after
    have hnext := next_found htext hgap hclass
    refine ⟨kind, gap, after.take taken, by rw [hnext], ?_, ?_, by rw [hnext], by rw [hnext],
      ?_, ?_⟩
    · rw [hnext, hword, htext]
    · rwa [hnext, hword]
    · intro hkind
      have hnil : after = [] := by
        by_contra hne
        exact (classify_ne_nil hne hclass).1 hkind
      simp [hnext, hnil]
    · intro hkind
      have hne : after ≠ [] := by
        rintro rfl
        cases hclass
        exact hkind rfl
      have htaken := (classify_ne_nil hne hclass).2
      rw [Ne, List.take_eq_nil_iff, not_or]
      exact ⟨htaken.ne', hne⟩

end Scanner

/-! ## Covering a text -/

/-- From the offset on, the tokens stand in order in the source text, each with its text
under its span, and only blanks and comments stand between them. -/
def Covers (tables : Tables) (source : List Char) : Nat → List Token → Prop
  | _, [] => True
  | offset, t :: ts =>
      (∃ gap after, slice? source offset t.span.start = some gap ∧
        dropBytes? t.span.start source = some after ∧ Trivia tables after gap) ∧
      slice? source t.span.start t.span.stop = some t.lexeme.toList ∧
      Covers tables source t.span.stop ts

namespace Scanner

variable {source before gap word : List Char} {kind : TokenKind} {s : Scanner}

/-- The scanner has read the first part of the source text. -/
structure Reads (s : Scanner) (source before : List Char) : Prop where
  source : source = before ++ s.text
  place : s.place = Place.start.advance before

theorem reads_start (tables : Tables) (source : String) :
    (Scanner.start tables source).Reads source.toList [] :=
  ⟨rfl, rfl⟩

theorem TakesOff.reads (h : s.TakesOff kind gap word) (hs : s.Reads source before) :
    s.next.2.Reads source (before ++ (gap ++ word)) := by
  refine ⟨?_, ?_⟩
  · rw [hs.source, h.text]
    simp only [List.append_assoc]
  · rw [h.place, hs.place, ← Place.advance_append]

theorem Reads.offset (hs : s.Reads source before) : s.place.offset = byteLength before := by
  rw [hs.place, Place.offset_advance]
  exact Nat.zero_add _

theorem TakesOff.start (h : s.TakesOff kind gap word) (hs : s.Reads source before) :
    s.next.1.span.start = min (byteLength (before ++ gap)) Span.maxOffset := by
  rw [h.token, byteLength_append, ← hs.offset]
  exact congrArg (min · _) (Place.offset_advance _ _)

theorem TakesOff.stop (h : s.TakesOff kind gap word) (hs : s.Reads source before) :
    s.next.1.span.stop = min (byteLength (before ++ (gap ++ word))) Span.maxOffset := by
  rw [h.token, byteLength_append, ← hs.offset]
  exact congrArg (min · _) (Place.offset_advance _ _)

/-- The span of a token of a text of less than 4 GiB holds its offsets. -/
theorem TakesOff.span (h : s.TakesOff kind gap word) (hs : s.Reads source before)
    (hsize : byteLength source < 2 ^ 32) :
    s.next.1.span = ⟨byteLength (before ++ gap), byteLength (before ++ (gap ++ word))⟩ := by
  have hsource : before ++ gap ++ (word ++ s.next.2.text) = source := by
    rw [hs.source, h.text, List.append_assoc]
  have hstart : before ++ gap <+: source := ⟨word ++ s.next.2.text, hsource⟩
  have hstop : before ++ (gap ++ word) <+: source :=
    ⟨s.next.2.text, by rw [← hsource]; simp only [List.append_assoc]⟩
  have hends := h.stop hs
  have hbegins := h.start hs
  rw [Span.min_byteLength hstart hsize] at hbegins
  rw [Span.min_byteLength hstop hsize] at hends
  rw [← hbegins, ← hends]

/-- A step covers the part of the source text that it takes off. -/
theorem TakesOff.covers {ts : List Token} (h : s.TakesOff kind gap word)
    (hs : s.Reads source before) (hsize : byteLength source < 2 ^ 32)
    (hts : Covers s.tables source s.next.2.place.offset ts) :
    Covers s.tables source s.place.offset (s.next.1 :: ts) := by
  have hsource : source = before ++ (gap ++ (word ++ s.next.2.text)) := by
    rw [hs.source, h.text]
  have hlexeme : s.next.1.lexeme.toList = word := by
    rw [h.token, Place.token, String.toList_ofList]
  rw [(h.reads hs).offset] at hts
  rw [Covers, h.span hs hsize, hs.offset, hlexeme]
  refine ⟨⟨gap, word ++ s.next.2.text, ?_, ?_, h.trivia⟩, ?_, hts⟩
  · rw [hsource]
    exact slice?_append before gap (word ++ s.next.2.text)
  · rw [hsource, ← List.append_assoc before gap (word ++ s.next.2.text)]
    exact dropBytes?_append (before ++ gap) (word ++ s.next.2.text)
  · rw [hsource, ← List.append_assoc before gap, ← List.append_assoc before gap]
    exact slice?_append (before ++ gap) word s.next.2.text

/-- The tokens that a scanner hands out cover the part of the source text that it takes off. -/
theorem Reads.covers (hs : s.Reads source before) (hsize : byteLength source < 2 ^ 32) (n : Nat) :
    Covers s.tables source s.place.offset
      ((List.iterate (fun s => s.next.2) s n).map fun s => s.next.1) := by
  induction n generalizing s before with
  | zero => exact trivial
  | succ n ih =>
    obtain ⟨kind, gap, word, h⟩ := s.exists_takesOff
    have hrest := ih (h.reads hs)
    rw [h.tables] at hrest
    exact h.covers hs hsize hrest

/-- The tokens that a scanner takes off what is left of a source text. -/
structure Collects (s : Scanner) (source : List Char) (tokens : List Token) (last : Token) :
    Prop where
  /-- They are what the scanner gives, step by step. -/
  steps : tokens ++ [last] =
    (List.iterate (fun s => s.next.2) s (tokens.length + 1)).map fun s => s.next.1
  /-- The last one is empty and stands at the end of the text. -/
  ends : last.kind = .endOfInput ∧ last.lexeme = "" ∧
    last.span = .ofOffsets (byteLength source) (byteLength source) ∧
    last.location = (Place.start.advance source).location
  /-- The others are not empty, and none of them is the end of the text. -/
  words : ∀ t ∈ tokens, t.kind ≠ .endOfInput ∧ t.lexeme ≠ ""

/-- A step to the end of the text. -/
theorem TakesOff.collects_last (h : s.TakesOff .endOfInput gap word)
    (hs : s.Reads source before) : s.Collects source [] s.next.1 := by
  obtain ⟨rfl, hnil⟩ := h.ends rfl
  have hsource : source = before ++ gap := by
    rw [hs.source, h.text, hnil, List.append_nil, List.append_nil]
  have hplace : s.place.advance gap = Place.start.advance source := by
    rw [hs.place, hsource, Place.advance_append]
  have hoffset : (Place.start.advance source).offset = byteLength source := by
    rw [Place.offset_advance]
    exact Nat.zero_add _
  refine ⟨rfl, ?_, fun t ht => absurd ht List.not_mem_nil⟩
  rw [h.token, Place.token, List.append_nil, hplace, hoffset]
  exact ⟨rfl, rfl, rfl, rfl⟩

/-- A step to a word that comes before the end of the text. -/
theorem TakesOff.collects_word {tokens : List Token} {last : Token}
    (h : s.TakesOff kind gap word) (hkind : kind ≠ .endOfInput)
    (hrest : s.next.2.Collects source tokens last) :
    s.Collects source (s.next.1 :: tokens) last := by
  refine ⟨?_, hrest.ends, ?_⟩
  · rw [List.cons_append, hrest.steps]
    rfl
  · intro t ht
    rcases List.mem_cons.1 ht with rfl | ht
    · rw [h.token]
      refine ⟨hkind, fun hempty => h.takes hkind ?_⟩
      exact String.ofList_eq_empty_iff.1 hempty
    · exact hrest.words t ht

/-- A scanner with enough fuel collects tokens up to the end of its text. -/
theorem exists_collects {fuel : Nat} (hs : s.Reads source before) (hfuel : s.text.length ≤ fuel)
    (seen : List Token) :
    ∃ tokens last, s.collect fuel seen = seen.reverse ++ (tokens ++ [last]) ∧
      s.Collects source tokens last := by
  induction fuel generalizing s before seen with
  | zero =>
    obtain ⟨kind, gap, word, h⟩ := s.exists_takesOff
    have hkind : kind = .endOfInput := by
      by_contra hkind
      have hpos := List.length_pos_iff.2 (h.takes hkind)
      rw [h.text, List.length_append, List.length_append] at hfuel
      omega
    subst hkind
    exact ⟨[], s.next.1, by simp [collect], h.collects_last hs⟩
  | succ fuel ih =>
    obtain ⟨kind, gap, word, h⟩ := s.exists_takesOff
    have hend : s.next.1.isEnd = (kind == .endOfInput) := by
      rw [h.token]
      rfl
    by_cases hkind : kind = .endOfInput
    · subst hkind
      exact ⟨[], s.next.1, by simp [collect_of_isEnd hend], h.collects_last hs⟩
    · have hpos := List.length_pos_iff.2 (h.takes hkind)
      have hshorter : s.next.2.text.length ≤ fuel := by
        rw [h.text, List.length_append, List.length_append] at hfuel
        omega
      obtain ⟨tokens, last, hcollect, hrest⟩ := ih (h.reads hs) hshorter (s.next.1 :: seen)
      refine ⟨s.next.1 :: tokens, last, ?_, h.collects_word hkind hrest⟩
      rw [collect_succ (hend.trans (beq_false_of_ne hkind)), hcollect]
      simp

end Scanner

/-- What holds of every token that a scanner with these tables and with enough fuel gives holds
of the tokens of a text. -/
theorem forall_tokenize_of_tables {tables : Tables} {source : String} {P : Token → Prop}
    (h : ∀ (s : Scanner) (before : List Char), s.Reads source.toList before →
      s.tables = tables → s.text.length ≤ s.size → P s.next.1) :
    ∀ t ∈ tokenize tables source, P t := by
  have hsteps : ∀ (n : Nat) (s : Scanner) (before : List Char), s.Reads source.toList before →
      s.tables = tables → s.text.length ≤ s.size →
      ∀ t ∈ (List.iterate (fun s => s.next.2) s n).map fun s => s.next.1, P t := by
    intro n
    induction n with
    | zero => simp [List.iterate]
    | succ n ih =>
      intro s before hs htables hsize t ht
      obtain ⟨kind, gap, word, hnext⟩ := s.exists_takesOff
      rw [List.iterate, List.map_cons, List.mem_cons] at ht
      rcases ht with rfl | ht
      · exact h s before hs htables hsize
      · refine ih s.next.2 _ (hnext.reads hs) (hnext.tables.trans htables) ?_ t ht
        rw [hnext.text, List.length_append, List.length_append] at hsize
        rw [s.size_next]
        omega
  have hstart := Scanner.reads_start tables source
  obtain ⟨tokens, last, htokens, hcollects⟩ := Scanner.exists_collects hstart le_rfl []
  intro t ht
  rw [show tokenize tables source = tokens ++ [last] from htokens, hcollects.steps] at ht
  exact hsteps _ _ _ hstart rfl String.length_toList.le t ht

/-- What holds of every token that a scanner gives holds of the tokens of a text. -/
theorem forall_tokenize {tables : Tables} {source : String} {P : Token → Prop}
    (h : ∀ (s : Scanner) (before : List Char), s.Reads source.toList before → P s.next.1) :
    ∀ t ∈ tokenize tables source, P t :=
  forall_tokenize_of_tables fun s before hs _ _ => h s before hs

end Scriptorium
