import Scriptorium.Proofs.FoundTokens
import Scriptorium.Proofs.JoinedTexts
import Scriptorium.Proofs.TakenTokens

/-!
# Tokens of a part of a text

Which token stands at a place of a text depends on nothing before it and on little behind it:
a number and a word look at one character more, a mark at one, a comment at none.  So a part
of a text that goes from one token to another has the same words when it stands alone, in
front of something that ends a word.

* `Solid` — neither a blank nor a comment starts here;
* `gap_of_trivia`, `Trivia.congr` — the scanner passes blanks and comments whatever token
  comes after them;
* `Scans.found` — what stands at the start of a text is scanned first;
* `Scanner.Emits` — the tokens that a scanner hands out one after the other;
* `Scanner.Emits.exists_part` — the part of a text that some tokens stand in, and its words.
-/

namespace Scriptorium

variable {size : Nat}

/-! ## Where no gap starts -/

/-- Neither a blank nor a comment starts here. -/
structure Solid (text : List Char) : Prop where
  blanks : text.takeWhile isBlank = []
  line : Tables.quill.startsLineComment text = false
  block : Tables.quill.matchBlockComment? text = none

theorem solid_iff_gapEnd {text : List Char} : Solid text ↔ GapEnd .quill false text := by
  constructor
  · intro h
    exact ⟨h.blanks, h.line, fun _ => h.block, by simp⟩
  · intro h
    exact ⟨h.blanks, h.line, h.closed rfl⟩

/-- A comment starts with a slash, and another slash or a star. -/
theorem Solid.cons_iff {c : Char} {text : List Char} :
    Solid (c :: text) ↔
      isBlank c = false ∧ (c = '/' → ∀ d ∈ text.head?, d ≠ '/' ∧ d ≠ '*') := by
  have hmark : ∀ d : Char, startsWithMark (String.ofList ['/', d]) (c :: text) = true ↔
      c = '/' ∧ d ∈ text.head? := by
    intro d
    rw [startsWithMark_iff, String.toList_ofList]
    constructor
    · rintro ⟨-, rest, h⟩
      cases h
      exact ⟨rfl, rfl⟩
    · rintro ⟨rfl, hd⟩
      obtain ⟨rest, rfl⟩ := List.head?_eq_some_iff.1 hd
      exact ⟨mt String.ofList_eq_empty_iff.1 (by simp), rest, rfl⟩
  have hline : Tables.quill.startsLineComment (c :: text) = true ↔ c = '/' ∧ '/' ∈ text.head? := by
    rw [← hmark]
    simp [Tables.startsLineComment, Tables.quill]
  have hblock : Tables.quill.matchBlockComment? (c :: text) = none ↔
      ¬ (c = '/' ∧ '*' ∈ text.head?) := by
    rw [← hmark]
    simp [Tables.matchBlockComment?, Tables.quill]
  constructor
  · rintro ⟨hblanks, hnoline, hnoblock⟩
    rw [← Bool.not_eq_true, hline] at hnoline
    rw [hblock] at hnoblock
    refine ⟨?_, fun hc d hd => ⟨?_, ?_⟩⟩
    · by_contra hblank
      simp [List.takeWhile_cons, hblank] at hblanks
    · rintro rfl
      exact hnoline ⟨hc, hd⟩
    · rintro rfl
      exact hnoblock ⟨hc, hd⟩
  · rintro ⟨hblank, hslash⟩
    refine ⟨by simp [hblank], ?_, hblock.2 fun h => (hslash h.1 _ h.2).2 rfl⟩
    rw [← Bool.not_eq_true, hline]
    exact fun h => (hslash h.1 _ h.2).1 rfl

/-! ## Gaps -/

/-- A text that ends first where the mark does is passed up to its end. -/
theorem pastFirst?_of_endsFirst {mark body : List Char} (h : EndsFirst mark body) (count : Nat)
    (after : List Char) : pastFirst? mark count (body ++ after) = some (count + body.length) := by
  induction body generalizing count with
  | nil =>
    obtain rfl : mark = [] := List.suffix_nil.1 h.1
    cases after <;> simp [pastFirst?]
  | cons c body ih =>
    rw [List.cons_append, pastFirst?]
    split
    · next hstarts =>
      -- the mark is no longer than the text, so it stands at the start of the text itself
      have hprefix : mark <+: c :: body :=
        List.prefix_of_prefix_length_le (List.isPrefixOf_iff_prefix.1 hstarts)
          (List.prefix_append (c :: body) after) h.1.length_le
      obtain ⟨rest, hrest⟩ := hprefix
      obtain rfl := h.2 [] rest hrest.symm
      rw [← hrest, List.append_nil]
    · next hstarts =>
      have hnot : ¬ mark <+: c :: (body ++ after) := mt List.isPrefixOf_iff_prefix.2 hstarts
      have htail : EndsFirst mark body := by
        refine ⟨?_, fun before after hsplit => h.2 (c :: before) after (by rw [hsplit]; rfl)⟩
        rcases List.suffix_cons_iff.1 h.1 with rfl | hsuffix
        · exact absurd (List.prefix_append (c :: body) after) hnot
        · exact hsuffix
      rw [ih htail, List.length_cons]
      congr 1
      omega

/-- A line comment holds its mark. -/
theorem exists_comment {comment rest : List Char} (h : "//".toList <+: comment ++ rest)
    (hinside : '\n' ∉ comment) (hrest : ∀ c ∈ rest.head?, c = '\n') :
    ∃ tail, comment = '/' :: '/' :: tail := by
  obtain ⟨after, h⟩ := h
  rcases comment with _ | ⟨c, _ | ⟨d, tail⟩⟩
  · cases h
    exact absurd (hrest '/' rfl) (by decide)
  · rcases rest with _ | ⟨d, rest⟩
    · cases h
    · cases h
      exact absurd (hrest '/' rfl) (by decide)
  · cases h
    exact ⟨tail, rfl⟩

/-- Blanks and comments stay what they are in front of another token. -/
theorem Trivia.congr {gap after after' : List Char} (h : Trivia .quill after gap)
    (hhead : after'.head? = after.head?) : Trivia .quill after' gap := by
  induction h with
  | nil => exact .nil
  | blank hblank _ ih => exact .blank hblank ih
  | @lineComment mark comment gap hmem hne hmark hinside hnext _ ih =>
    have hnext' : ∀ c ∈ (gap ++ after').head?, c = '\n' := by
      rw [List.head?_append] at hnext ⊢
      rwa [hhead]
    obtain rfl := List.mem_singleton.1 hmem
    obtain ⟨tail, rfl⟩ := exists_comment hmark hinside hnext
    exact .lineComment hmem hne ⟨tail ++ (gap ++ after'), rfl⟩ hinside hnext' ih
  | blockComment hmem hne hbody _ ih => exact .blockComment hmem hne hbody ih

/-- A line comment is passed up to the end of its line. -/
theorem gap_lineComment {tail rest : List Char} (hinside : '\n' ∉ '/' :: '/' :: tail)
    (hnext : ∀ c ∈ rest.head?, c = '\n') (fuel : Nat) :
    gap .quill (fuel + 1) ('/' :: '/' :: tail ++ rest) =
      ⟨(gap .quill fuel rest).length + ('/' :: '/' :: tail).length,
        (gap .quill fuel rest).unclosed⟩ := by
  have hblanks : ('/' :: '/' :: tail ++ rest).takeWhile isBlank = [] := rfl
  have hline : Tables.quill.startsLineComment ('/' :: '/' :: tail ++ rest) = true := by
    simp [Tables.startsLineComment, Tables.quill, startsWithMark]
  have htake : ('/' :: '/' :: tail ++ rest).takeWhile (· != '\n') = '/' :: '/' :: tail := by
    refine takeWhile_append_of_stop (fun c hc => ?_) fun c hc => by simp [hnext c hc]
    have hne : c ≠ '\n' := by
      rintro rfl
      exact hinside hc
    simpa using hne
  rw [gap, gapFrom]
  simp only [hblanks, List.length_nil, List.drop_zero, hline, if_true, htake]
  rw [List.drop_left, Nat.add_zero, gapFrom_add]
  rfl

/-- A block comment is passed up to the mark that closes it. -/
theorem gap_blockComment {body : List Char} (hbody : EndsFirst "*/".toList body)
    (rest : List Char) (fuel : Nat) :
    gap .quill (fuel + 1) ('/' :: '*' :: (body ++ rest)) =
      ⟨(gap .quill fuel rest).length + ("/*".length + body.length),
        (gap .quill fuel rest).unclosed⟩ := by
  have hblanks : ('/' :: '*' :: (body ++ rest)).takeWhile isBlank = [] := rfl
  have hline : Tables.quill.startsLineComment ('/' :: '*' :: (body ++ rest)) = false := by
    simp [Tables.startsLineComment, Tables.quill, startsWithMark, List.isPrefixOf]
  have hblock : Tables.quill.matchBlockComment? ('/' :: '*' :: (body ++ rest)) =
      some ("/*", "*/") := by
    simp [Tables.matchBlockComment?, Tables.quill, startsWithMark]
  have hdrop : ('/' :: '*' :: (body ++ rest)).drop "/*".length = body ++ rest := rfl
  have hskip : ('/' :: '*' :: (body ++ rest)).drop ("/*".length + body.length) = rest := by
    rw [← List.drop_drop, hdrop, List.drop_left]
  rw [gap, gapFrom]
  simp only [hblanks, List.length_nil, List.drop_zero, hline, Bool.false_eq_true, if_false,
    hblock, hdrop, pastFirst?_of_endsFirst hbody, hskip]
  rw [Nat.add_zero, gapFrom_add]
  rfl

/-- The scanner passes blanks and comments, and stops where neither goes on. -/
theorem gap_of_trivia {gap after : List Char} (h : Trivia .quill after gap) (hafter : Solid after)
    (hsize : gap.length ≤ size) :
    Scriptorium.gap .quill size (gap ++ after) = ⟨gap.length, false⟩ := by
  induction h generalizing size with
  | nil => exact gap_of_solid hafter.blanks hafter.line hafter.block size
  | @blank c gap hblank _ ih =>
    rw [List.length_cons] at hsize
    rw [List.cons_append, gap_cons_of_isBlank hblank (by omega), ih (by omega), List.length_cons]
  | @lineComment mark comment gap hmem hne hmark hinside hnext _ ih =>
    obtain rfl := List.mem_singleton.1 hmem
    obtain ⟨tail, rfl⟩ := exists_comment hmark hinside hnext
    rw [List.length_append, List.length_cons] at hsize
    obtain ⟨fuel, rfl⟩ : ∃ f, size = f + 1 := ⟨size - 1, by omega⟩
    rw [List.append_assoc, gap_lineComment hinside hnext, @ih fuel (by omega), List.length_append,
      Nat.add_comm]
  | @blockComment opener closer body gap hmem hne hbody _ ih =>
    cases List.mem_singleton.1 hmem
    have hopener : "/*".toList.length = 2 := rfl
    have hlength : "/*".length = 2 := rfl
    rw [List.length_append, List.length_append, hopener] at hsize
    obtain ⟨fuel, rfl⟩ : ∃ f, size = f + 1 := ⟨size - 1, by omega⟩
    have htext :
        "/*".toList ++ (body ++ gap) ++ after = '/' :: '*' :: (body ++ (gap ++ after)) := by
      rw [List.append_assoc, List.append_assoc]
      rfl
    rw [htext, gap_blockComment hbody, @ih fuel (by omega), List.length_append,
      List.length_append, hopener, hlength, Nat.add_comm gap.length, Nat.add_assoc]

/-! ## Tokens -/

theorem Solid.congr {word rest rest' : List Char} (h : Solid (word ++ rest)) (hne : word ≠ [])
    (hahead : Ahead rest rest') : Solid (word ++ rest') := by
  obtain ⟨c, cs, rfl⟩ := List.exists_cons_of_ne_nil hne
  rw [List.cons_append, Solid.cons_iff] at h ⊢
  refine ⟨h.1, fun hc d hd => ?_⟩
  cases cs with
  | nil =>
    rcases hahead with hsame | hends
    · exact h.2 hc d (hsame ▸ hd)
    · exact (hends.1 d hd).2
  | cons e cs => exact h.2 hc d hd

/-! ## Scanning a part of a text -/

/-- A gap in front of a text makes no difference to what is scanned. -/
theorem Scans.trivia {text gap : List Char} {ws : List Word} (h : Scans .quill size text ws)
    (hgap : Trivia .quill text gap) (hsolid : Solid text) (hsize : gap.length ≤ size) :
    Scans .quill size (gap ++ text) ws := by
  have hnone := gap_of_solid hsolid.blanks hsolid.line hsolid.block size
  have hpass := gap_of_trivia hgap hsolid hsize
  cases h with
  | ends hg hnil =>
    rw [hnone] at hg
    cases hg
    exact .ends hpass (by rwa [List.drop_left])
  | unclosed hg =>
    rw [hnone] at hg
    cases hg
  | word hg hfound hne hc hw hws =>
    rw [hnone] at hg
    cases hg
    exact .word hpass (by rw [List.drop_left]; exact hfound) hne hc hw hws

/-- What stands at the start of a text is scanned first. -/
theorem Scans.found {word rest : List Char} {kind : TokenKind} {ws : List Word}
    (h : Scans .quill size rest ws) (hsolid : Solid (word ++ rest))
    (hrule : TokenRule .quill kind word rest) :
    Scans .quill size (word ++ rest) (.read kind (String.ofList word) :: ws) := by
  have hnone := gap_of_solid hsolid.blanks hsolid.line hsolid.block size
  refine .word hnone rfl ?_ hrule.classify ?_ ?_
  · simp [hrule.ne_nil]
  · simp
  · simpa using h

namespace Scanner

variable {s t : Scanner} {source before gap part word : List Char} {kind : TokenKind}
  {ts : List Token}

/-- A step of the scanner to a word that it finds. -/
structure Finds (s : Scanner) (kind : TokenKind) (gap word : List Char) : Prop
    extends s.TakesOff kind gap word where
  solid : Solid (word ++ s.next.2.text)
  found : classify .quill (word ++ s.next.2.text) = (kind, word.length)

/-- Every token that is not invalid is found. -/
theorem exists_finds (htables : s.tables = .quill) (hsize : s.text.length ≤ s.size)
    (hvalid : s.next.1.isInvalid = false) : ∃ kind gap word, s.Finds kind gap word := by
  obtain ⟨kind, gap, word, htakes⟩ := s.exists_takesOff
  rcases htakes.cases with ⟨rfl, -⟩ | ⟨hgap, hclass⟩
  · rw [htakes.token] at hvalid
    cases hvalid
  · have hend := htakes.gapEnd (htables ▸ Tables.commentsAdvance_quill) hsize hgap
    rw [htables] at hend hclass
    exact ⟨kind, gap, word, htakes, solid_iff_gapEnd.2 hend, hclass⟩

/-- The scanner hands the tokens out one after the other. -/
inductive Emits : Scanner → List Token → Scanner → Prop where
  /-- No token. -/
  | nil {s : Scanner} : Emits s [] s
  /-- The next token and those after it. -/
  | cons {s t : Scanner} {ts : List Token} : Emits s.next.2 ts t → Emits s (s.next.1 :: ts) t

/-- The scanner comes to each of the tokens that it hands out. -/
theorem exists_emits {n : Nat} {us : List Token}
    (h : (List.iterate (fun s => s.next.2) s n).map (fun s => s.next.1) = ts ++ us) :
    ∃ t m, s.Emits ts t ∧ (List.iterate (fun s => s.next.2) t m).map (fun s => s.next.1) = us := by
  induction ts generalizing s n with
  | nil => exact ⟨s, n, .nil, h⟩
  | cons u ts ih =>
    cases n with
    | zero => cases h
    | succ n =>
      rw [List.iterate, List.map_cons, List.cons_append] at h
      obtain ⟨rfl, hrest⟩ := List.cons.inj h
      obtain ⟨t, m, hemits, hus⟩ := ih hrest
      exact ⟨t, m, .cons hemits, hus⟩

/-- What the scanner has read after it handed out some tokens. -/
theorem Emits.exists_reads (h : s.Emits ts t) (hs : s.Reads source before) :
    (∃ before, t.Reads source before) ∧ t.tables = s.tables ∧ t.size = s.size := by
  induction h generalizing before with
  | nil => exact ⟨⟨before, hs⟩, rfl, rfl⟩
  | @cons s t ts _ ih =>
    obtain ⟨kind, gap, word, htakes⟩ := s.exists_takesOff
    obtain ⟨hreads, htables, hsize⟩ := ih (htakes.reads hs)
    exact ⟨hreads, htables.trans htakes.tables, hsize.trans s.size_next⟩

/-- The tokens are those of a part of the text, which comes after a gap.  Alone the part has
the same words. -/
structure Emits.Part (s t : Scanner) (before gap part : List Char) (ts : List Token) : Prop where
  text : s.text = gap ++ (part ++ t.text)
  trivia : Trivia .quill (part ++ t.text) gap
  solid : Solid (part ++ t.text)
  nonempty : part ≠ []
  start : ∀ u ∈ ts.head?, u.span.start = min (byteLength (before ++ gap)) Span.maxOffset
  stop : ∀ u ∈ ts.getLast?,
    u.span.stop = min (byteLength (before ++ (gap ++ part))) Span.maxOffset
  scans : ∀ size after ws, EndsWord after → part.length ≤ size → Scans .quill size after ws →
    Scans .quill size (part ++ after) (ts.map Token.word ++ ws)

/-- The word that is found is found again alone, whatever comes ahead. -/
theorem Finds.scans (h : s.Finds kind gap word) (hword : word ≠ [])
    (hvalid : ∀ r, kind ≠ .invalid r) {size : Nat} {after : List Char} {ws : List Word}
    (hahead : Ahead s.next.2.text after) (hws : Scans .quill size after ws) :
    Scans .quill size (word ++ after) (s.next.1.word :: ws) := by
  rw [h.token]
  have hrule := tokenRule_iff.2 ⟨hword, h.found⟩
  exact hws.found (h.solid.congr hword hahead)
    (hrule.congr hahead fun hopen => absurd hopen (hvalid _))

/-- A word that is found is a part of the text. -/
theorem Finds.part_one (h : s.Finds kind gap word) (htables : s.tables = .quill) (hword : word ≠ [])
    (hvalid : ∀ r, kind ≠ .invalid r) (hs : s.Reads source before) :
    Emits.Part s s.next.2 before gap word [s.next.1] := by
  refine ⟨h.text, htables ▸ h.trivia, h.solid, hword, ?_, ?_, ?_⟩
  · rintro _ ⟨⟩
    exact h.start hs
  · rintro _ ⟨⟩
    exact h.stop hs
  · exact fun size after ws hends _ hws => h.scans hword hvalid (.inr hends) hws

/-- A word that is found, a gap and the part after it make a longer part. -/
theorem Finds.part_cons {gap' : List Char} {u : Token} {us : List Token}
    (h : s.Finds kind gap word) (htables : s.tables = .quill) (hword : word ≠ [])
    (hvalid : ∀ r, kind ≠ .invalid r) (hs : s.Reads source before)
    (hpart : Emits.Part s.next.2 t (before ++ (gap ++ word)) gap' part (u :: us)) :
    Emits.Part s t before gap (word ++ (gap' ++ part)) (s.next.1 :: u :: us) := by
  have htext := hpart.text
  have hsplit : word ++ (gap' ++ part) ++ t.text = word ++ s.next.2.text := by
    rw [htext]
    simp only [List.append_assoc]
  have htrivia := h.trivia
  rw [htables] at htrivia
  refine ⟨?_, by rwa [hsplit], by rw [hsplit]; exact h.solid, by simp [hword], ?_, ?_, ?_⟩
  · rw [hsplit]
    exact h.text
  · rintro _ ⟨⟩
    exact h.start hs
  · intro v hv
    rw [List.getLast?_cons_cons] at hv
    rw [hpart.stop v hv]
    simp only [List.append_assoc]
  · intro size after ws hends hlength hws
    simp only [List.length_append] at hlength
    have hhead := head?_append_congr hpart.nonempty
    have hscans := (hpart.scans size after ws hends (by omega) hws).trivia
      (hpart.trivia.congr (hhead _ _)) (hpart.solid.congr hpart.nonempty (.inr hends)) (by omega)
    have hahead : Ahead s.next.2.text (gap' ++ (part ++ after)) := by
      refine .inl ?_
      rw [htext, List.head?_append, hhead t.text after, ← List.head?_append]
    have hall := h.scans hword hvalid hahead hscans
    rwa [← List.append_assoc, ← List.append_assoc, List.append_assoc word] at hall

theorem Emits.exists_part (h : s.Emits ts t) (hne : ts ≠ []) (hs : s.Reads source before)
    (htables : s.tables = .quill) (hsize : s.text.length ≤ s.size)
    (hvalid : ∀ u ∈ ts, u.isInvalid = false ∧ u.isEnd = false) :
    ∃ gap part, Emits.Part s t before gap part ts := by
  induction h generalizing before with
  | nil => exact absurd rfl hne
  | @cons s t ts hrest ih =>
    obtain ⟨⟨hvalid, hend⟩, hvalids⟩ := List.forall_mem_cons.1 hvalid
    obtain ⟨kind, gap, word, hfinds⟩ := exists_finds htables hsize hvalid
    have hkind : kind ≠ .endOfInput := by
      rw [hfinds.token] at hend
      simpa [Place.token, Token.isEnd] using hend
    have hinvalid : ∀ r, kind ≠ .invalid r := by
      rintro r rfl
      rw [hfinds.token] at hvalid
      cases hvalid
    have hword := hfinds.takes hkind
    cases ts with
    | nil =>
      cases hrest
      exact ⟨gap, word, hfinds.part_one htables hword hinvalid hs⟩
    | cons u us =>
      have hshorter : s.next.2.text.length ≤ s.next.2.size := by
        rw [hfinds.text, List.length_append, List.length_append] at hsize
        rw [size_next]
        omega
      obtain ⟨gap', part, hpart⟩ :=
        ih (by simp) (hfinds.reads hs) (hfinds.tables.trans htables) hshorter hvalids
      exact ⟨gap, _, hfinds.part_cons htables hword hinvalid hs hpart⟩

end Scanner

end Scriptorium
