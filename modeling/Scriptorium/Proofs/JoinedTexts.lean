import Scriptorium.Proofs.Coverage
import Scriptorium.Proofs.TextLines
import Scriptorium.Proofs.WordText
import Mathlib.Data.List.Find

/-!
# Texts on lines of their own

No token and no closed comment goes on over the end of a line.  So a text without invalid
tokens has the same tokens when a line break and another text follow, and those of the other
text come after them: the same tokens as alone, only further on.

* `Token.shift` — a token further on in a text;
* `EndsLine` — a line ends here;
* `gapFrom_append`, `classify_append` — what the scanner finds does not depend on what comes
  after the end of the line;
* `Scanner.Resumes` — a scanner that stands further on than another, before the same text;
* `tokenize_join` — the tokens of two texts on lines of their own.
-/

namespace Scriptorium

/-! ## Further on in a text -/

/-- The span so many bytes further on. -/
def Span.shift (bytes : Nat) (s : Span) : Span := ⟨s.start + bytes, s.stop + bytes⟩

/-- The location in the same column, so many rows further on. -/
def Location.shift (rows : Nat) (l : Location) : Location := ⟨l.row + .ofNat rows, l.col⟩

/-- The place so many bytes and rows further on. -/
def Place.shift (bytes rows : Nat) (p : Place) : Place :=
  ⟨p.offset + bytes, p.location.shift rows⟩

/-- The same token so many bytes and rows further on. -/
def Token.shift (bytes rows : Nat) (t : Token) : Token :=
  { t with span := t.span.shift bytes, location := t.location.shift rows }

variable {bytes rows : Nat}

@[simp] theorem Location.shift_zero (l : Location) : l.shift 0 = l := by simp [shift]

theorem Span.ofOffsets_shift {start stop : Nat} (hstart : start + bytes < 2 ^ 32)
    (hstop : stop + bytes < 2 ^ 32) :
    ofOffsets (start + bytes) (stop + bytes) = (ofOffsets start stop).shift bytes := by
  simp only [ofOffsets, shift, maxOffset, mk.injEq]
  omega

namespace Token

@[simp] theorem kind_shift (t : Token) : (t.shift bytes rows).kind = t.kind := rfl

@[simp] theorem lexeme_shift (t : Token) : (t.shift bytes rows).lexeme = t.lexeme := rfl

@[simp] theorem word_shift (t : Token) : (t.shift bytes rows).word = t.word := rfl

@[simp] theorem isEnd_shift (t : Token) : (t.shift bytes rows).isEnd = t.isEnd := rfl

@[simp] theorem isNewline_shift (t : Token) : (t.shift bytes rows).isNewline = t.isNewline := rfl

@[simp] theorem is_shift (t : Token) (text : String) :
    (t.shift bytes rows).is text = t.is text := rfl

@[simp] theorem shift_zero (t : Token) : t.shift 0 0 = t := by
  simp [shift, Span.shift, Location.shift_zero]

end Token

namespace Place

theorem shift_zero (p : Place) : p.shift 0 0 = p := by simp [shift]

theorem step_shift (p : Place) (c : Char) :
    (p.shift bytes rows).step c = (p.step c).shift bytes rows := by
  by_cases hc : c = '\n'
  · have hrow : p.location.row + .ofNat rows + 1 = p.location.row + 1 + .ofNat rows := by
      rw [UInt32.add_assoc, UInt32.add_comm _ 1, ← UInt32.add_assoc]
    simp [step, shift, Location.shift, hc, hrow, Nat.add_right_comm]
  · simp [step, shift, Location.shift, hc, Nat.add_right_comm]

theorem advance_shift (p : Place) (cs : List Char) :
    (p.shift bytes rows).advance cs = (p.advance cs).shift bytes rows := by
  induction cs generalizing p with
  | nil => rfl
  | cons c cs ih =>
    show ((p.shift bytes rows).step c).advance cs = _
    rw [step_shift, ih]
    rfl

/-- The token of a word that spans can still tell the offsets of. -/
theorem token_shift {p : Place} {gap word : List Char} (kind : TokenKind)
    (hroom : p.offset + bytes + byteLength (gap ++ word) < 2 ^ 32) :
    (p.shift bytes rows).token kind gap word = (p.token kind gap word).shift bytes rows := by
  have hstart := offset_advance p gap
  have hstop := offset_advance p (gap ++ word)
  rw [byteLength_append] at hroom hstop
  have hspan : Span.ofOffsets ((p.advance gap).offset + bytes)
      ((p.advance (gap ++ word)).offset + bytes) =
        (Span.ofOffsets (p.advance gap).offset (p.advance (gap ++ word)).offset).shift bytes :=
    Span.ofOffsets_shift (by omega) (by omega)
  rw [token, advance_shift, advance_shift, token, Token.shift, ← hspan]
  rfl

/-- Behind a line break, the next line starts as a text does. -/
theorem advance_newline (cs : List Char) :
    start.advance (cs ++ ['\n']) = start.shift (byteLength cs + 1) (cs.count '\n' + 1) := by
  have hplace : start.advance (cs ++ ['\n']) = (start.advance cs).step '\n' := advance_append ..
  have hoffset := offset_advance start cs
  have hrow : (start.advance cs).location.row + 1 = 1 + .ofNat (cs.count '\n' + 1) := by
    rw [location_start_advance]
    simp [Location.mk, UInt32.ofNat_add, UInt32.add_assoc]
  have hbreak : '\n'.utf8Size = 1 := rfl
  rw [hplace, step, if_pos rfl, hoffset, hrow, hbreak]
  rfl

end Place

/-! ## The end of a line -/

/-- Nothing follows, or a line break does. -/
def EndsLine (text : List Char) : Prop := ∀ c ∈ text.head?, c = '\n'

theorem endsLine_nil : EndsLine [] := by simp [EndsLine]

theorem endsLine_newline (text : List Char) : EndsLine ('\n' :: text) := by simp [EndsLine]

/-- Where a line ends, a word does. -/
theorem EndsLine.endsWord {text : List Char} (h : EndsLine text) : EndsWord text := by
  cases text with
  | nil => exact endsWord_nil
  | cons c text =>
    obtain rfl : c = '\n' := h c rfl
    exact endsWord_cons (by decide) (by decide) text

section Lines

variable {after : List Char} (hafter : EndsLine after)

include hafter

theorem isPrefixOf_append {mark : List Char} (hmark : '\n' ∉ mark) (text : List Char) :
    mark.isPrefixOf (text ++ after) = mark.isPrefixOf text := by
  induction text generalizing mark with
  | nil =>
    cases mark with
    | nil => simp
    | cons m mark =>
      cases after with
      | nil => rfl
      | cons c after =>
        obtain rfl : c = '\n' := hafter c rfl
        have hm : m ≠ '\n' := by
          rintro rfl
          exact hmark List.mem_cons_self
        simp [List.isPrefixOf, hm]
  | cons c text ih =>
    cases mark with
    | nil => simp
    | cons m mark =>
      have hrest : '\n' ∉ mark := fun h => hmark (List.mem_cons_of_mem m h)
      simp [List.isPrefixOf, ih hrest]

theorem startsWithMark_append {mark : String} (hmark : '\n' ∉ mark.toList) (text : List Char) :
    startsWithMark mark (text ++ after) = startsWithMark mark text := by
  simp [startsWithMark, isPrefixOf_append hafter hmark]

theorem takeWhile_append {p : Char → Bool} (hp : p '\n' = false) (text : List Char) :
    (text ++ after).takeWhile p = text.takeWhile p := by
  induction text with
  | nil =>
    cases after with
    | nil => rfl
    | cons c after =>
      obtain rfl : c = '\n' := hafter c rfl
      simp [hp]
  | cons c text ih => simp [List.takeWhile_cons, ih]

/-- The end of a block comment is found whatever comes after the line. -/
theorem pastFirst?_append {mark text : List Char} {count n : Nat} (hmark : '\n' ∉ mark)
    (h : pastFirst? mark count text = some n) :
    pastFirst? mark count (text ++ after) = some n := by
  induction text generalizing count with
  | nil =>
    have hnil : mark = [] ∧ count = n := by simpa [pastFirst?] using h
    obtain ⟨rfl, rfl⟩ := hnil
    cases after <;> simp [pastFirst?]
  | cons c text ih =>
    have hsame := isPrefixOf_append hafter hmark (c :: text)
    rw [List.cons_append] at hsame ⊢
    rw [pastFirst?] at h ⊢
    rw [hsame]
    by_cases hstarts : mark.isPrefixOf (c :: text) = true
    · rwa [if_pos hstarts] at h ⊢
    · rw [if_neg hstarts] at h ⊢
      exact ih h

end Lines

/-! ## Gaps -/

theorem line_mark {text : List Char} (h : Tables.quill.startsLineComment text = true) :
    ∃ rest, text = '/' :: rest := by
  obtain ⟨mark, hmem, hstarts⟩ := List.any_eq_true.1 h
  obtain ⟨-, rest, rfl⟩ := startsWithMark_iff.1 hstarts
  obtain rfl := List.mem_singleton.1 hmem
  exact ⟨_, rfl⟩

theorem startsLineComment_append {after : List Char} (hafter : EndsLine after)
    (text : List Char) : Tables.quill.startsLineComment (text ++ after) =
      Tables.quill.startsLineComment text := by
  simp [Tables.startsLineComment, Tables.quill,
    startsWithMark_append hafter (show '\n' ∉ "//".toList by decide)]

theorem matchBlockComment?_append {after : List Char} (hafter : EndsLine after)
    (text : List Char) : Tables.quill.matchBlockComment? (text ++ after) =
      Tables.quill.matchBlockComment? text := by
  simp [Tables.matchBlockComment?, Tables.quill,
    startsWithMark_append hafter (show '\n' ∉ "/*".toList by decide)]

theorem gapFrom_endsLine {after : List Char} (hafter : EndsLine after) (fuel count : Nat) :
    gapFrom .quill fuel count after = ⟨count, false⟩ := by
  have hgap : gap .quill fuel after = ⟨0, false⟩ := by
    cases after with
    | nil => exact gap_of_solid rfl rfl rfl fuel
    | cons c after =>
      obtain rfl : c = '\n' := hafter c rfl
      exact gap_cons rfl (by decide) after fuel
  have hadd : gapFrom .quill fuel (0 + count) after =
      ⟨(gap .quill fuel after).length + count, (gap .quill fuel after).unclosed⟩ :=
    gapFrom_add fuel 0 count after
  rwa [hgap, Nat.zero_add] at hadd

/-- A block comment that is closed takes the same characters whatever comes after the line. -/
theorem closes_append {after text : List Char} {opener closer : String} {comment : Nat}
    (hafter : EndsLine after)
    (hblock : Tables.quill.matchBlockComment? text = some (opener, closer))
    (hclosed : pastFirst? closer.toList opener.length (text.drop opener.length) = some comment) :
    pastFirst? closer.toList opener.length ((text ++ after).drop opener.length) = some comment ∧
      0 < comment ∧ comment ≤ text.length := by
  obtain ⟨hne, inner, rfl⟩ := matchBlockComment?_some hblock
  have hmark : 0 < opener.length := Nat.pos_of_ne_zero (mt String.length_eq_zero_iff.1 hne)
  have hdrop : ∀ cs, (opener.toList ++ cs).drop opener.length = cs := fun cs =>
    List.drop_left' (String.length_toList ..)
  have hcloser : '\n' ∉ closer.toList := by
    have hmem : (opener, closer) ∈ Tables.quill.blockComments := List.mem_of_find?_eq_some hblock
    cases List.mem_singleton.1 hmem
    decide
  rw [hdrop] at hclosed
  rw [List.append_assoc, hdrop]
  refine ⟨pastFirst?_append hafter hcloser hclosed, ?_⟩
  obtain ⟨body, later, rfl, rfl, -⟩ := endsFirst_of_pastFirst? hclosed
  simp only [List.length_append, String.length_toList]
  omega

/-- A gap in which no comment stays open is the same whatever comes after the line, and
with whatever fuel, if it is enough. -/
theorem gapFrom_append {after text : List Char} {fuel fuel' count n : Nat} {unclosed : Bool}
    (hafter : EndsLine after) (hfuel : text.length ≤ fuel) (hfuel' : text.length ≤ fuel')
    (hopen : unclosed = true → after = [])
    (h : gapFrom .quill fuel count text = ⟨n, unclosed⟩) :
    gapFrom .quill fuel' count (text ++ after) = ⟨n, unclosed⟩ := by
  induction fuel generalizing fuel' count text with
  | zero =>
    obtain rfl := List.length_eq_zero_iff.1 (Nat.le_zero.1 hfuel)
    cases h
    exact gapFrom_endsLine hafter fuel' _
  | succ fuel ih =>
    by_cases hnil : text = []
    · subst hnil
      rw [gapFrom_endsLine endsLine_nil] at h
      cases h
      exact gapFrom_endsLine hafter fuel' _
    have hpos := List.length_pos_iff.2 hnil
    obtain ⟨fuel', rfl⟩ : ∃ k, fuel' = k + 1 := ⟨fuel' - 1, by omega⟩
    have hblanks := (List.takeWhile_prefix isBlank (l := text)).length_le
    simp only [gapFrom, takeWhile_append hafter (show isBlank '\n' = false by decide),
      List.drop_append_of_le_length hblanks] at h ⊢
    have hlength := List.length_drop (i := (text.takeWhile isBlank).length) (l := text)
    generalize text.drop (text.takeWhile isBlank).length = rest at h hlength ⊢
    rw [startsLineComment_append hafter, matchBlockComment?_append hafter]
    by_cases hline : Tables.quill.startsLineComment rest = true
    · obtain ⟨tail, rfl⟩ := line_mark hline
      have hcomment : 0 < (('/' :: tail).takeWhile (· != '\n')).length := by simp
      have hshort := (List.takeWhile_prefix (· != '\n') (l := '/' :: tail)).length_le
      rw [if_pos hline] at h ⊢
      rw [takeWhile_append hafter (by simp), List.drop_append_of_le_length hshort]
      refine ih ?_ ?_ h <;> rw [List.length_drop] <;> omega
    · rw [if_neg hline] at h ⊢
      split at h
      · exact h
      · next opener closer hblock =>
        split at h
        · next hopened =>
          cases h
          rw [hopen rfl, List.append_nil, hopened]
        · next comment hclosed =>
          obtain ⟨hclosed', hpos', hle⟩ := closes_append hafter hblock hclosed
          rw [hclosed']
          dsimp only
          rw [List.drop_append_of_le_length hle]
          refine ih ?_ ?_ h <;> rw [List.length_drop] <;> omega

/-! ## Tokens -/

/-- What stands at the start of a text, an open literal apart, is the same whatever comes
after the line. -/
theorem classify_append {after text : List Char} {kind : TokenKind} {length : Nat}
    (hafter : EndsLine after) (hne : text ≠ []) (hkind : kind ≠ .invalid .unterminatedString)
    (h : classify .quill text = (kind, length)) :
    classify .quill (text ++ after) = (kind, length) := by
  obtain ⟨word, rest, rfl, rfl, hrule⟩ := exists_rule_of_classify hne h
  have hahead : Ahead rest (rest ++ after) := by
    cases rest with
    | nil => exact .inr (hafter.endsWord)
    | cons c rest => exact .inl rfl
  rw [List.append_assoc]
  exact (hrule.congr hahead fun hopen => absurd hopen hkind).classify

/-! ## Scanners -/

namespace Scanner

/-- The scanner `d` stands before the same text as `c`, so many bytes and rows further on,
and after the text comes `after`, up to an offset that a span can hold. -/
structure Resumes (bytes rows : Nat) (after : List Char) (c d : Scanner) : Prop where
  tables : c.tables = .quill ∧ d.tables = .quill
  text : d.text = c.text ++ after
  place : d.place = c.place.shift bytes rows
  sizes : c.text.length ≤ c.size ∧ d.text.length ≤ d.size
  room : d.place.offset + byteLength d.text < 2 ^ 32

variable {after : List Char} {c d : Scanner}

/-- A step moves the place over the text that it takes off. -/
theorem offset_next (s : Scanner) :
    s.next.2.place.offset + byteLength s.next.2.text = s.place.offset + byteLength s.text := by
  obtain ⟨kind, gap, word, h⟩ := s.exists_takesOff
  rw [h.place, h.text, Place.offset_advance]
  simp only [byteLength_append]
  omega

theorem Resumes.gap {length : Nat} {unclosed : Bool} (h : c.Resumes bytes rows after d)
    (hafter : EndsLine after) (hopen : unclosed = true → after = [])
    (hgap : gap c.tables c.size c.text = ⟨length, unclosed⟩) :
    gap d.tables d.size d.text = ⟨length, unclosed⟩ := by
  obtain ⟨hcsize, hdsize⟩ := h.sizes
  rw [h.text, List.length_append] at hdsize
  rw [h.tables.1] at hgap
  rw [h.tables.2, h.text]
  exact gapFrom_append hafter hcsize (by omega) hopen hgap

/-- Up to the end of the line, a scanner that stands further on finds the same tokens. -/
theorem Resumes.next (h : c.Resumes bytes rows after d) (hafter : EndsLine after)
    (hsolid : after ≠ [] → c.next.1.isEnd = false ∧ ∀ fault, c.next.1.kind ≠ .invalid fault) :
    d.next.1 = c.next.1.shift bytes rows ∧ c.next.2.Resumes bytes rows after d.next.2 := by
  obtain ⟨hctables, hdtables⟩ := h.tables
  obtain ⟨hcsize, hdsize⟩ := h.sizes
  have hroom := h.room
  have hroom' := hroom
  rw [← offset_next d] at hroom'
  rcases hcgap : Scriptorium.gap c.tables c.size c.text with ⟨length, unclosed⟩
  obtain ⟨gap, rest, hctext, hlength, -⟩ := trivia_of_gapFrom hcgap
  rw [Nat.zero_add] at hlength
  subst hlength
  have hdtext : d.text = gap ++ (rest ++ after) := by rw [h.text, hctext, List.append_assoc]
  rw [h.place, hdtext] at hroom
  cases unclosed with
  | true =>
    have hnil : after = [] := by
      by_contra hne
      refine (hsolid hne).2 .unterminatedComment ?_
      rw [next_open hctext hcgap]
      rfl
    subst hnil
    rw [List.append_nil] at hdtext hroom
    rw [next_open hdtext (h.gap hafter (fun _ => rfl) hcgap), h.place, Place.advance_shift]
      at hroom' ⊢
    rw [next_open hctext hcgap, Place.token_shift _ hroom]
    exact ⟨rfl, ⟨hctables, hdtables⟩, rfl, rfl, ⟨Nat.zero_le _, Nat.zero_le _⟩, hroom'⟩
  | false =>
    have hdgap := h.gap hafter (by simp) hcgap
    rcases hclass : classify c.tables rest with ⟨kind, taken⟩
    have htaken := classify_length_le hclass
    rw [next_found hctext hcgap hclass] at hsolid ⊢
    have hclass' : classify d.tables (rest ++ after) = (kind, taken) := by
      rw [hctables] at hclass
      rw [hdtables]
      by_cases hnil : after = []
      · rwa [hnil, List.append_nil]
      · obtain ⟨hend, hvalid⟩ := hsolid hnil
        refine classify_append hafter ?_ (hvalid _) hclass
        rintro rfl
        cases hclass
        cases hend
    have hword : c.place.offset + bytes + byteLength (gap ++ rest.take taken) < 2 ^ 32 := by
      rw [← List.take_append_drop taken rest] at hroom
      simp only [Place.shift, byteLength_append] at hroom ⊢
      omega
    rw [next_found hdtext hdgap hclass', h.place, List.take_append_of_le_length htaken,
      List.drop_append_of_le_length htaken, Place.advance_shift] at hroom' ⊢
    rw [Place.token_shift _ hword]
    rw [hctext, List.length_append] at hcsize
    rw [hdtext, List.length_append, List.length_append] at hdsize
    refine ⟨rfl, ⟨hctables, hdtables⟩, rfl, rfl, ⟨?_, ?_⟩, hroom'⟩
    · simp only [List.length_drop]
      omega
    · simp only [List.length_append, List.length_drop]
      omega

/-- Where the text of a scanner ends, the one that goes on comes to a line break. -/
theorem Resumes.next_end {more : List Char} (h : c.Resumes 0 0 ('\n' :: more) d)
    (hend : c.next.1.isEnd = true) :
    d.next.1.isNewline = true ∧ d.next.2 =
      { d with text := more, place := c.place.advance (c.text ++ ['\n']) } := by
  rcases hcgap : Scriptorium.gap c.tables c.size c.text with ⟨length, unclosed⟩
  obtain ⟨gap, rest, hctext, hlength, -⟩ := trivia_of_gapFrom hcgap
  rw [Nat.zero_add] at hlength
  subst hlength
  cases unclosed with
  | true =>
    rw [next_open hctext hcgap] at hend
    cases hend
  | false =>
    rcases hclass : classify c.tables rest with ⟨kind, taken⟩
    rw [next_found hctext hcgap hclass] at hend
    have hrest : rest = [] := by
      by_contra hne
      exact (classify_ne_nil hne hclass).1 (by simpa [Token.isEnd, Place.token] using hend)
    subst hrest
    rw [List.append_nil] at hctext
    have hdtext : d.text = gap ++ '\n' :: more := by rw [h.text, hctext]
    have hbreak : classify d.tables ('\n' :: more) = (.newline, 1) := by simp [classify]
    rw [next_found hdtext (h.gap (endsLine_newline more) (by simp) hcgap) hbreak, h.place, hctext]
    exact ⟨rfl, by simp [Place.shift, Location.shift]⟩

theorem length_next_lt {s : Scanner} (h : s.next.1.isEnd = false) :
    s.next.2.text.length < s.text.length := by
  obtain ⟨kind, skipped, word, htakes⟩ := s.exists_takesOff
  have hkind : kind ≠ .endOfInput := by
    rintro rfl
    rw [htakes.token] at h
    cases h
  have hword := List.length_pos_iff.2 (htakes.takes hkind)
  have hlength := congrArg List.length htakes.text
  simp only [List.length_append] at hlength
  omega

theorem collect_eq (s : Scanner) (fuel : Nat) (seen : List Token) :
    s.collect fuel seen = seen.reverse ++ s.collect fuel [] := by
  induction fuel generalizing s seen with
  | zero => simp [collect]
  | succ fuel ih =>
    by_cases hend : s.next.1.isEnd = true
    · simp [collect_of_isEnd hend]
    · rw [Bool.not_eq_true] at hend
      rw [collect_succ hend, collect_succ hend, ih _ (_ :: seen), ih _ [_]]
      simp

/-- A scanner collects the first token, and those that it finds after it. -/
theorem collect_cons {s : Scanner} (h : s.next.1.isEnd = false) (fuel : Nat) :
    s.collect (fuel + 1) [] = s.next.1 :: s.next.2.collect fuel [] := by
  rw [collect_succ h, collect_eq]
  rfl

/-- A scanner that stands further on collects the same tokens. -/
theorem Resumes.collect (h : c.Resumes bytes rows [] d) {fuel fuel' : Nat}
    (hfuel : c.text.length ≤ fuel) (hfuel' : c.text.length ≤ fuel') :
    d.collect fuel' [] = (c.collect fuel []).map (Token.shift bytes rows) := by
  induction fuel generalizing c d fuel' with
  | zero =>
    have hend : c.next.1.isEnd = true := by
      by_contra hend
      have := length_next_lt (Bool.eq_false_iff.2 hend)
      omega
    obtain ⟨htoken, -⟩ := h.next endsLine_nil (absurd rfl)
    rw [collect_of_isEnd hend, collect_of_isEnd (by rwa [htoken]), htoken]
    rfl
  | succ fuel ih =>
    obtain ⟨htoken, hnext⟩ := h.next endsLine_nil (absurd rfl)
    by_cases hend : c.next.1.isEnd = true
    · rw [collect_of_isEnd hend, collect_of_isEnd (by rwa [htoken]), htoken]
      rfl
    · rw [Bool.not_eq_true] at hend
      have hshorter := length_next_lt hend
      obtain ⟨fuel', rfl⟩ : ∃ k, fuel' = k + 1 := ⟨fuel' - 1, by omega⟩
      rw [collect_cons hend, collect_cons (by rwa [htoken]), htoken,
        ih hnext (by omega) (by omega)]
      rfl

section Join

variable {more : List Char} {e : Scanner} (htables : e.tables = .quill) (htext : e.text = more)
  (hsize : more.length ≤ e.size) {fuel fuel' fuel'' : Nat} (hfuel'' : more.length ≤ fuel'')

include htables htext hsize hfuel''

/-- At the end of its own text, a scanner that goes on collects a line break, and then what
the scanner `e` collects of the text after it. -/
theorem Resumes.collect_end (h : c.Resumes 0 0 ('\n' :: more) d) (hend : c.next.1.isEnd = true)
    (hplace : c.place.advance (c.text ++ ['\n']) = e.place.shift bytes rows)
    (hfuel' : d.text.length ≤ fuel') :
    ∃ nl, nl.isNewline = true ∧
      d.collect fuel' [] = nl :: (e.collect fuel'' []).map (Token.shift bytes rows) := by
  obtain ⟨hnl, hnext⟩ := h.next_end hend
  have hnot : d.next.1.isEnd = false := by
    rw [← Token.isNewline_word] at hnl
    rw [← Token.isEnd_word]
    exact Word.isEnd_of_isNewline hnl
  have hlength : d.text.length = c.text.length + (more.length + 1) := by
    rw [h.text, List.length_append, List.length_cons]
  have hdsize := h.sizes.2
  have hroom := h.room
  obtain ⟨fuel', rfl⟩ : ∃ k, fuel' = k + 1 := ⟨fuel' - 1, by omega⟩
  have hresumes : e.Resumes bytes rows [] d.next.2 := by
    rw [← offset_next d] at hroom
    rw [hnext] at hroom ⊢
    refine ⟨⟨htables, h.tables.2⟩, ?_, hplace, ⟨?_, ?_⟩, hroom⟩
    · rw [htext, List.append_nil]
    · rwa [htext]
    · show more.length ≤ d.size
      omega
  have hcollect : d.next.2.collect fuel' [] =
      (e.collect fuel'' []).map (Token.shift bytes rows) :=
    hresumes.collect (by rwa [htext]) (by rw [htext]; omega)
  exact ⟨d.next.1, hnl, by rw [collect_cons hnot, hcollect]⟩

/-- A scanner that goes on behind a text without invalid tokens collects the tokens of that
text before the line break. -/
theorem Resumes.collect_join (h : c.Resumes 0 0 ('\n' :: more) d)
    (hplace : c.place.advance (c.text ++ ['\n']) = e.place.shift bytes rows)
    (hfuel : c.text.length ≤ fuel) (hfuel' : d.text.length ≤ fuel')
    (hvalid : ∀ t ∈ c.collect fuel [], ∀ fault, t.kind ≠ .invalid fault) :
    ∃ before last nl, c.collect fuel [] = before ++ [last] ∧ nl.isNewline = true ∧
      d.collect fuel' [] = before ++ nl :: (e.collect fuel'' []).map (Token.shift bytes rows) := by
  induction fuel generalizing c d fuel' with
  | zero =>
    have hend : c.next.1.isEnd = true := by
      by_contra hend
      have := length_next_lt (Bool.eq_false_iff.2 hend)
      omega
    obtain ⟨nl, hnl, hcollect⟩ := h.collect_end htables htext hsize hfuel'' hend hplace hfuel'
    exact ⟨[], c.next.1, nl, collect_of_isEnd hend 0 [], hnl, hcollect⟩
  | succ fuel ih =>
    by_cases hend : c.next.1.isEnd = true
    · obtain ⟨nl, hnl, hcollect⟩ := h.collect_end htables htext hsize hfuel'' hend hplace hfuel'
      exact ⟨[], c.next.1, nl, collect_of_isEnd hend (fuel + 1) [], hnl, hcollect⟩
    · rw [Bool.not_eq_true] at hend
      rw [collect_cons hend] at hvalid ⊢
      rw [List.forall_mem_cons] at hvalid
      obtain ⟨htoken, hnext⟩ := h.next (endsLine_newline more) fun _ => ⟨hend, hvalid.1⟩
      rw [Token.shift_zero] at htoken
      have hnot : d.next.1.isEnd = false := by rwa [htoken]
      have hcshorter := length_next_lt hend
      have hdshorter := length_next_lt hnot
      obtain ⟨fuel', rfl⟩ : ∃ k, fuel' = k + 1 := ⟨fuel' - 1, by omega⟩
      have hplace' : c.next.2.place.advance (c.next.2.text ++ ['\n']) =
          e.place.shift bytes rows := by
        obtain ⟨kind, gap, word, htakes⟩ := c.exists_takesOff
        rw [← hplace, htakes.place, htakes.text]
        simp only [Place.advance_append]
      obtain ⟨before, last, nl, hc, hnl, hd⟩ :=
        ih hnext hplace' (by omega) (show d.next.2.text.length ≤ fuel' by omega) hvalid.2
      refine ⟨c.next.1 :: before, last, nl, ?_, hnl, ?_⟩
      · rw [hc, List.cons_append]
      · rw [collect_cons hnot, htoken, hd, List.cons_append]

end Join

end Scanner

/-- A text without invalid tokens and another one on the next line, together of less than
4 GiB, have the tokens of the first, the line break, and those of the second, further on. -/
theorem tokenize_join {source more : String}
    (hvalid : ∀ t ∈ tokenize .quill source, ∀ fault, t.kind ≠ .invalid fault)
    (hsize : byteLength (source ++ "\n" ++ more).toList < 2 ^ 32) :
    ∃ before last nl, tokenize .quill source = before ++ [last] ∧ nl.isNewline = true ∧
      tokenize .quill (source ++ "\n" ++ more) = before ++ nl ::
        (tokenize .quill more).map (Token.shift (byteLength source.toList + 1)
          (source.toList.count '\n' + 1)) := by
  have htext : (source ++ "\n" ++ more).toList = source.toList ++ '\n' :: more.toList := by simp
  have hresumes : (Scanner.start .quill source).Resumes 0 0 ('\n' :: more.toList)
      (.start .quill (source ++ "\n" ++ more)) :=
    ⟨⟨rfl, rfl⟩, htext, (Place.shift_zero _).symm, ⟨le_rfl, le_rfl⟩,
      (Nat.zero_add _).trans_lt hsize⟩
  exact hresumes.collect_join (e := .start .quill more) rfl rfl le_rfl le_rfl
    (Place.advance_newline source.toList) le_rfl le_rfl hvalid

end Scriptorium
