import Scriptorium.Proofs.LocalScanning
import Scriptorium.Proofs.TextLines

/-!
# Moving over a text

Whatever the scanner looks for, it moves over its text in one of six ways: by a number of
bytes, by one character, over characters of a kind, up to the next line break, past a mark or
past the double quote that closes a literal.  Each way is one jump, which may cross any number
of lines.

* `Move`, `Scanner.move?`, `Scanner.moves?` — the ways to move, and sequences of them;
* `Scanner.move?_eq_some` — a move passes the text up to its end;
* `Scanner.Reads.moves?` — after any moves, the scanner stands where a character starts or the
  text ends, and knows the row and the column;
* `Scanner.move?_past`, `Scanner.move?_closing` — where the moves end that look for a text;
* `Scanner.exists_moves_next` — a step of the scanner is made of moves, those over blanks and
  comments (`Scanner.GapMoves`) and those over the token (`Scanner.wordMoves`);
* `moves_keep_place` — all of this together.
-/

namespace Scriptorium

theorem count_add_length_lastLine_le (text : List Char) :
    text.count '\n' + (lastLine text).length ≤ text.length := by
  have hcount : (aboveLastLine text).count '\n' ≤ (aboveLastLine text).length :=
    List.count_le_length
  have hlength := congrArg List.length (aboveLastLine_append_lastLine text)
  rw [List.length_append] at hlength
  rw [count_lastLine] at hcount
  omega

/-! ## Moves -/

/-- A way to move on in a text. -/
inductive Move where
  /-- A number of bytes, but not past the end. -/
  | bytes (n : Nat)
  /-- One character, if there is one. -/
  | char
  /-- The ASCII characters of a kind that come next. -/
  | run (kind : Char → Bool)
  /-- Up to the next line break, or to the end. -/
  | toLineBreak
  /-- Past the first occurrence of a mark, or to the end. -/
  | past (mark : List Char)
  /-- Past the double quote that closes a string literal, or to the end. -/
  | closing

namespace Move

/-- Is the character one of the ASCII characters of a kind? -/
def inRun (kind : Char → Bool) (c : Char) : Bool := c.toNat < 128 && kind c

/-- The number of characters that a move passes.  A number of bytes may end inside a
character: then the move cannot be made. -/
def length? : Move → List Char → Option Nat
  | .bytes n, text => (takeBytes? (min n (byteLength text)) text).map List.length
  | .char, text => some (text.take 1).length
  | .run kind, text => some (text.takeWhile (inRun kind)).length
  | .toLineBreak, text => some (text.takeWhile (· != '\n')).length
  | .past mark, text => some ((pastFirst? mark 0 text).getD text.length)
  | .closing, text => some ((closingQuote? 0 text).getD text.length)

end Move

namespace Scanner

/-- The scanner after a move, if the move can be made. -/
def move? (s : Scanner) (m : Move) : Option Scanner := (m.length? s.text).map s.skip

/-- The scanner after some moves, one after the other. -/
def moves? (s : Scanner) : List Move → Option Scanner
  | [] => some s
  | m :: ms => (s.move? m).bind fun s => s.moves? ms

/-! ## What a move passes -/

theorem skip_length (s : Scanner) (passed : List Char) {after : List Char}
    (h : s.text = passed ++ after) :
    s.skip passed.length = { s with text := after, place := s.place.advance passed } := by
  rw [skip, h, List.drop_left, List.take_left]

theorem Reads.skip {s : Scanner} {source before : List Char} (h : s.Reads source before) (n : Nat) :
    (s.skip n).Reads source (before ++ s.text.take n) := by
  refine ⟨?_, ?_⟩
  · rw [List.append_assoc, Scanner.skip, List.take_append_drop]
    exact h.source
  · rw [Scanner.skip, h.place, ← Place.advance_append]

/-- A move passes some text, and stands where this text ends. -/
theorem move?_eq_some {s after : Scanner} {m : Move} (h : s.move? m = some after) :
    ∃ passed, s.text = passed ++ after.text ∧ after.place = s.place.advance passed := by
  obtain ⟨n, -, rfl⟩ := Option.map_eq_some_iff.1 h
  exact ⟨s.text.take n, (List.take_append_drop n s.text).symm, rfl⟩

/-- No move goes back. -/
theorem offset_move? {s after : Scanner} {m : Move} (h : s.move? m = some after) :
    s.place.offset ≤ after.place.offset := by
  obtain ⟨passed, -, hplace⟩ := move?_eq_some h
  rw [hplace, Place.offset_advance]
  exact Nat.le_add_right _ _

/-- After a move, the scanner has read more of its source text, and knows its place in it. -/
theorem Reads.move? {s after : Scanner} {source before : List Char} {m : Move}
    (h : s.Reads source before) (hm : s.move? m = some after) :
    ∃ passed, after.Reads source (before ++ passed) := by
  obtain ⟨n, -, rfl⟩ := Option.map_eq_some_iff.1 hm
  exact ⟨_, h.skip n⟩

theorem Reads.moves? {s after : Scanner} {source before : List Char} {ms : List Move}
    (h : s.Reads source before) (hms : s.moves? ms = some after) :
    ∃ passed, after.Reads source (before ++ passed) := by
  induction ms generalizing s before with
  | nil =>
    cases hms
    exact ⟨[], by rwa [List.append_nil]⟩
  | cons m ms ih =>
    obtain ⟨next, hm, hms⟩ := Option.bind_eq_some_iff.1 hms
    obtain ⟨passed, hnext⟩ := h.move? hm
    obtain ⟨more, hafter⟩ := ih hnext hms
    exact ⟨passed ++ more, by rwa [← List.append_assoc]⟩

/-- The row counts the line breaks before the place, and the column the characters since the
last of them. -/
theorem Reads.location {s : Scanner} {source before : List Char} (h : s.Reads source before) :
    s.place.location =
      .mk (1 + before.count '\n') (1 + (before.rtakeWhile (· != '\n')).length) := by
  rw [h.place, Place.location_start_advance, lastLine]

theorem tables_moves? {s after : Scanner} {ms : List Move} (h : s.moves? ms = some after) :
    after.tables = s.tables := by
  induction ms generalizing s with
  | nil =>
    cases h
    rfl
  | cons m ms ih =>
    obtain ⟨next, hm, hms⟩ := Option.bind_eq_some_iff.1 h
    obtain ⟨n, -, rfl⟩ := Option.map_eq_some_iff.1 hm
    have htables : after.tables = (s.skip n).tables := ih hms
    exact htables

theorem skip_skip (s : Scanner) (m n : Nat) : (s.skip m).skip n = s.skip (m + n) := by
  have htake : s.text.take (m + n) = s.text.take m ++ (s.text.drop m).take n := List.take_add
  simp only [skip, List.drop_drop, htake, Place.advance_append]

/-- Nothing is left to be passed after the end. -/
theorem skip_of_le {s : Scanner} {n : Nat} (h : s.text.length ≤ n) :
    s.skip n = s.skip s.text.length := by
  simp only [skip, List.take_of_length_le h, List.take_length, List.drop_of_length_le h,
    List.drop_length]

/-- After any characters, the rest of the text goes on to its end. -/
theorem skip_length_skip (s : Scanner) (m : Nat) :
    (s.skip m).skip (s.skip m).text.length = s.skip s.text.length := by
  have hlength : (s.skip m).text.length = s.text.length - m := List.length_drop
  rw [skip_skip, hlength]
  exact skip_of_le (by omega)

theorem moves?_append (s : Scanner) (ms ns : List Move) :
    s.moves? (ms ++ ns) = (s.moves? ms).bind fun s => s.moves? ns := by
  induction ms generalizing s with
  | nil => rfl
  | cons m ms ih =>
    simp only [List.cons_append, moves?, ih, Option.bind_assoc]

end Scanner

/-! ## Where a move ends -/

/-- A mark is not found in a text in which it does not stand. -/
theorem pastFirst?_eq_none_iff {mark text : List Char} {count : Nat} :
    pastFirst? mark count text = none ↔ ¬ mark <:+: text := by
  induction text generalizing count with
  | nil => cases mark <;> simp [pastFirst?]
  | cons c text ih =>
    rw [pastFirst?, List.infix_cons_iff, not_or, ← @ih (count + 1)]
    split
    · next hmark => simp [List.isPrefixOf_iff_prefix.1 hmark]
    · next hmark => simp [mt List.isPrefixOf_iff_prefix.2 hmark]

namespace Move

theorem inRun_eq {kind : Char → Bool} (h : ∀ c, kind c = true → c.toNat < 128) :
    inRun kind = kind := by
  funext c
  cases hkind : kind c with
  | false => simp [inRun, hkind]
  | true => simp [inRun, hkind, h c hkind]

theorem toNat_lt_of_isBlank (c : Char) (h : isBlank c = true) : c.toNat < 128 := by
  simp only [isBlank, Bool.or_eq_true, beq_iff_eq] at h
  rcases h with (rfl | rfl) | rfl <;> decide

theorem toNat_lt_of_isWordChar (c : Char) (h : isWordChar c = true) : c.toNat < 128 := by
  have hdigit : c.isDigit = (decide (48 ≤ c.toNat) && decide (c.toNat ≤ 57)) := rfl
  have halpha : c.isAlpha = (decide (65 ≤ c.toNat ∧ c.toNat ≤ 90) ||
      (decide (97 ≤ c.toNat) && decide (c.toNat ≤ 122))) := rfl
  have halphanum : c.isAlphanum = (c.isAlpha || c.isDigit) := rfl
  simp only [isWordChar, halphanum, hdigit, halpha, Bool.or_eq_true, Bool.and_eq_true,
    decide_eq_true_eq, beq_iff_eq] at h
  rcases h with h | rfl
  · omega
  · decide

/-- Was the text that the move looks for found?  The other moves look for none. -/
def found : Move → List Char → Bool
  | .past mark, text => (pastFirst? mark 0 text).isSome
  | .closing, text => (closingQuote? 0 text).isSome
  | _, _ => true

end Move

namespace Scanner

variable {s : Scanner}

/-- A number of bytes can be passed if a character ends there. -/
theorem move?_bytes {n : Nat} {after : Scanner} :
    s.move? (.bytes n) = some after ↔
      ∃ passed rest, s.text = passed ++ rest ∧ byteLength passed = min n (byteLength s.text) ∧
        after = s.skip passed.length := by
  simp only [move?, Move.length?, Option.map_map, Option.map_eq_some_iff, takeBytes?_eq_some_iff]
  constructor
  · rintro ⟨passed, ⟨⟨rest, htext⟩, hlength⟩, rfl⟩
    exact ⟨passed, rest, htext, hlength, rfl⟩
  · rintro ⟨passed, rest, htext, hlength, rfl⟩
    exact ⟨passed, ⟨⟨rest, htext⟩, hlength⟩, rfl⟩

/-- Every move can be made, but for a number of bytes that ends inside a character. -/
theorem exists_move?_iff {m : Move} :
    (∃ after, s.move? m = some after) ↔
      ∀ n, m = .bytes n → ∃ passed rest, s.text = passed ++ rest ∧
        byteLength passed = min n (byteLength s.text) := by
  cases m with
  | bytes n =>
    simp only [move?_bytes, Move.bytes.injEq, forall_eq']
    constructor
    · rintro ⟨-, passed, rest, htext, hlength, -⟩
      exact ⟨passed, rest, htext, hlength⟩
    · rintro ⟨passed, rest, htext, hlength⟩
      exact ⟨_, passed, rest, htext, hlength, rfl⟩
  | _ => exact ⟨fun _ n hm => Move.noConfusion hm, fun _ => ⟨_, rfl⟩⟩

theorem move?_bytes_append {passed rest : List Char} (h : s.text = passed ++ rest) :
    s.move? (.bytes (byteLength passed)) = some (s.skip passed.length) := by
  refine move?_bytes.2 ⟨passed, rest, h, ?_, rfl⟩
  rw [h, byteLength_append]
  omega

theorem move?_run {kind : Char → Bool} (h : ∀ c, kind c = true → c.toNat < 128) :
    s.move? (.run kind) = some (s.skip (s.text.takeWhile kind).length) := by
  rw [move?, Move.length?, Move.inRun_eq h]
  rfl

theorem move?_past_of_endsFirst {mark body rest : List Char} (h : s.text = body ++ rest)
    (hbody : EndsFirst mark body) : s.move? (.past mark) = some (s.skip body.length) := by
  rw [move?, Move.length?, h, pastFirst?_of_endsFirst hbody, Nat.zero_add]
  rfl

theorem move?_past_of_absent {mark : List Char} (h : ¬ mark <:+: s.text) :
    s.move? (.past mark) = some (s.skip s.text.length) := by
  rw [move?, Move.length?, pastFirst?_eq_none_iff.2 h]
  rfl

theorem move?_closing_of_escaped {body rest : List Char} (h : s.text = body ++ '"' :: rest)
    (hbody : Escaped body) : s.move? .closing = some (s.skip (body.length + 1)) := by
  rw [move?, Move.length?, h, closingQuote?_of_escaped hbody, Nat.zero_add]
  rfl

theorem move?_closing_of_open
    (h : ∀ body rest, Escaped body → s.text ≠ body ++ '"' :: rest) :
    s.move? .closing = some (s.skip s.text.length) := by
  rw [move?, Move.length?, closingQuote?_eq_none_iff.2 h]
  rfl

/-- A move past a mark ends where the mark first ends. -/
theorem move?_past {mark : List Char} {after : Scanner} (h : s.move? (.past mark) = some after) :
    if Move.found (.past mark) s.text then
      ∃ body, s.text = body ++ after.text ∧ EndsFirst mark body
    else ¬ mark <:+: s.text ∧ after.text = [] := by
  rw [Move.found]
  cases hfound : pastFirst? mark 0 s.text with
  | some length =>
    obtain ⟨body, rest, htext, -, hbody⟩ := endsFirst_of_pastFirst? hfound
    rw [move?_past_of_endsFirst htext hbody, skip_length s body htext] at h
    cases h
    exact ⟨body, htext, hbody⟩
  | none =>
    have hmark := pastFirst?_eq_none_iff.1 hfound
    rw [move?_past_of_absent hmark] at h
    cases h
    exact ⟨hmark, List.drop_length⟩

/-- A move past the end of a literal ends after the first double quote that no backslash takes
along. -/
theorem move?_closing {after : Scanner} (h : s.move? .closing = some after) :
    if Move.found .closing s.text then
      ∃ body, s.text = body ++ '"' :: after.text ∧ Escaped body
    else (∀ body rest, Escaped body → s.text ≠ body ++ '"' :: rest) ∧ after.text = [] := by
  rw [Move.found]
  cases hfound : closingQuote? 0 s.text with
  | some length =>
    obtain ⟨body, rest, htext, hbody, -⟩ := closingQuote?_eq_some_iff.1 hfound
    have hsplit : s.text = body ++ ['"'] ++ rest := by rw [htext, List.append_assoc]; rfl
    rw [move?_closing_of_escaped htext hbody, ← List.length_singleton (a := '"'),
      ← List.length_append, skip_length s _ hsplit] at h
    cases h
    exact ⟨body, htext, hbody⟩
  | none =>
    have hopen := closingQuote?_eq_none_iff.1 hfound
    rw [move?_closing_of_open hopen] at h
    cases h
    exact ⟨hopen, List.drop_length⟩

/-! ## What the scanner does for a token -/

/-- The moves over blanks and comments. -/
inductive GapMoves (tables : Tables) : List Move → Prop where
  /-- None. -/
  | nil : GapMoves tables []
  /-- Over the blanks that come next. -/
  | blanks {ms : List Move} : GapMoves tables ms → GapMoves tables (.run isBlank :: ms)
  /-- To the end of a line comment. -/
  | lineComment {ms : List Move} : GapMoves tables ms → GapMoves tables (.toLineBreak :: ms)
  /-- Over the mark that opens a block comment, and past the one that closes it. -/
  | blockComment {opener closer : String} {ms : List Move} :
      (opener, closer) ∈ tables.blockComments → GapMoves tables ms →
      GapMoves tables (.bytes (byteLength opener.toList) :: .past closer.toList :: ms)

theorem moves?_cons {t u : Scanner} {m : Move} {ms : List Move} (hm : s.move? m = some t)
    (hms : t.moves? ms = some u) : s.moves? (m :: ms) = some u := by
  rw [moves?, hm, Option.bind_some, hms]

theorem moves?_blockComment {opener body rest closer : List Char} {ms : List Move} {u : Scanner}
    (h : s.text = opener ++ body ++ rest) (hbody : EndsFirst closer body)
    (hms : (s.skip (opener ++ body).length).moves? ms = some u) :
    s.moves? (.bytes (byteLength opener) :: .past closer :: ms) = some u := by
  rw [List.append_assoc] at h
  have hinner := congrArg text (skip_length s opener h)
  refine moves?_cons (move?_bytes_append h) (moves?_cons (move?_past_of_endsFirst hinner hbody) ?_)
  rwa [skip_skip, ← List.length_append]

theorem moves?_openComment {opener inner closer : List Char} (h : s.text = opener ++ inner)
    (hopen : ¬ closer <:+: inner) :
    s.moves? [.bytes (byteLength opener), .past closer] = some (s.skip s.text.length) := by
  have hinner := congrArg text (skip_length s opener h)
  refine moves?_cons (move?_bytes_append h)
    (moves?_cons (move?_past_of_absent (hinner.symm ▸ hopen)) ?_)
  rw [moves?, skip_length_skip]

/-- Two jumps make one, also if a comment that is not closed takes the second one to the end. -/
theorem skip_skip_gap (s : Scanner) (m n : Nat) (unclosed : Bool) :
    (s.skip m).skip (if unclosed then (s.skip m).text.length else n) =
      s.skip (if unclosed then s.text.length else m + n) := by
  cases unclosed with
  | false => exact skip_skip s m n
  | true => exact skip_length_skip s m

/-- The blanks and comments before a token are passed in such moves; a comment that is not
closed is passed to the end. -/
theorem exists_moves_gapFrom {fuel count n : Nat} {unclosed : Bool}
    (h : gapFrom s.tables fuel count s.text = ⟨n, unclosed⟩) :
    ∃ k ms, n = count + k ∧ GapMoves s.tables ms ∧
      s.moves? ms = some (s.skip (if unclosed then s.text.length else k)) := by
  induction fuel generalizing s count with
  | zero =>
    cases h
    exact ⟨0, [], rfl, .nil, rfl⟩
  | succ fuel ih =>
    have hblanks := move?_run (s := s) Move.toNat_lt_of_isBlank
    generalize ht : s.skip (s.text.takeWhile isBlank).length = t at hblanks
    have htext : s.text.drop (s.text.takeWhile isBlank).length = t.text := ht ▸ rfl
    have htables : t.tables = s.tables := ht ▸ rfl
    simp only [gapFrom, htext, ← htables] at h
    -- after the blanks it is enough to pass the comments that come next
    suffices hcomments : ∃ k ms, n = count + (s.text.takeWhile isBlank).length + k ∧
        GapMoves t.tables ms ∧
        t.moves? ms = some (t.skip (if unclosed then t.text.length else k)) by
      obtain ⟨k, ms, rfl, hgap, hms⟩ := hcomments
      refine ⟨(s.text.takeWhile isBlank).length + k, _, Nat.add_assoc .., htables ▸ hgap.blanks,
        moves?_cons hblanks ?_⟩
      rw [hms, ← ht, skip_skip_gap]
    split at h
    · obtain ⟨k, ms, rfl, hgap, hms⟩ := ih (s := t.skip (t.text.takeWhile (· != '\n')).length) h
      refine ⟨(t.text.takeWhile (· != '\n')).length + k, _, Nat.add_assoc .., hgap.lineComment,
        moves?_cons rfl ?_⟩
      rw [hms, skip_skip_gap]
    · split at h
      · cases h
        exact ⟨0, [], rfl, .nil, rfl⟩
      · next opener closer hmarks =>
        obtain ⟨-, inner, hinner⟩ := matchBlockComment?_some hmarks
        have hmem : (opener, closer) ∈ t.tables.blockComments := List.mem_of_find?_eq_some hmarks
        rw [hinner, ← String.length_toList, List.drop_left] at h
        split at h
        · next hopen =>
          cases h
          exact ⟨0, _, rfl, .blockComment hmem .nil,
            moves?_openComment hinner (pastFirst?_eq_none_iff.1 hopen)⟩
        · next comment hclosed =>
          obtain ⟨body, later, rfl, rfl, hbody⟩ := endsFirst_of_pastFirst? hclosed
          rw [← List.append_assoc] at hinner
          rw [← List.append_assoc, ← List.length_append, List.drop_left] at h
          obtain ⟨k, ms, rfl, hgap, hms⟩ := ih (s := t.skip (opener.toList ++ body).length)
            (by rwa [skip_length t _ hinner])
          refine ⟨(opener.toList ++ body).length + k, _, Nat.add_assoc .., .blockComment hmem hgap,
            moves?_blockComment hinner hbody ?_⟩
          rw [hms, skip_skip_gap]

/-- The moves over a word of a kind. -/
def wordMoves (word : List Char) : TokenKind → List Move
  | .int _ | .invalid .integerTooLarge => [.run Char.isDigit]
  | .symbol | .keyword => [.run isWordChar]
  | .string | .invalid .unterminatedString => [.bytes 1, .closing]
  | .newline | .punct => [.bytes (byteLength word)]
  | .invalid .unexpectedChar => [.char]
  | .endOfInput | .invalid .unterminatedComment => []

theorem moves?_single {t : Scanner} {m : Move} (hm : s.move? m = some t) : s.moves? [m] = some t :=
  moves?_cons hm rfl

/-- What a rule says to stand at the start of a text is passed in such moves. -/
theorem moves?_wordMoves {kind : TokenKind} {word rest : List Char} (htext : s.text = word ++ rest)
    (h : TokenRule s.tables kind word rest) :
    s.moves? (wordMoves word kind) = some (s.skip word.length) := by
  have hrun {p : Char → Bool} (hp : ∀ c, p c = true → c.toNat < 128)
      (hword : ∀ c ∈ word, p c = true) (hrest : ∀ c ∈ rest.head?, p c = false) :
      s.moves? [.run p] = some (s.skip word.length) := by
    refine moves?_single ((move?_run hp).trans ?_)
    rw [htext, takeWhile_append_of_stop hword hrest]
  cases h with
  | newline => exact moves?_single (move?_bytes_append htext)
  | punct => exact moves?_single (move?_bytes_append htext)
  | int _ hdigits _ =>
    exact hrun (fun c hc => Move.toNat_lt_of_isWordChar c (isWordChar_of_isDigit hc))
      hdigits.digit hdigits.stops
  | tooLarge _ hdigits _ =>
    exact hrun (fun c hc => Move.toNat_lt_of_isWordChar c (isWordChar_of_isDigit hc))
      hdigits.digit hdigits.stops
  | keyword _ hrunning _ => exact hrun Move.toNat_lt_of_isWordChar hrunning.char hrunning.stops
  | symbol _ hrunning _ => exact hrun Move.toNat_lt_of_isWordChar hrunning.char hrunning.stops
  | @string body rest _ hbody =>
    have hquote : s.text = ['"'] ++ (body ++ '"' :: rest) := by rw [htext]; simp
    refine moves?_cons (move?_bytes_append hquote) (moves?_single ?_)
    rw [move?_closing_of_escaped (congrArg text (skip_length s _ hquote)) hbody, skip_skip]
    simp [Nat.add_comm]
  | @openString body _ hopen =>
    have hquote : s.text = ['"'] ++ body := by rw [htext]; simp
    refine moves?_cons (move?_bytes_append hquote) (moves?_single ?_)
    rw [move?_closing_of_open fun inside after h => ?_, skip_length_skip, htext, List.append_nil]
    exact (congrArg text (skip_length s _ hquote)).trans_ne (hopen inside after h)
  | other =>
    refine moves?_single ?_
    rw [move?, Move.length?, htext]
    rfl

/-- A step of the scanner is made of moves: those over blanks and comments, and then those over
the token. -/
theorem exists_moves_next (s : Scanner) :
    ∃ ms after, GapMoves s.tables ms ∧
      s.moves? (ms ++ wordMoves s.next.1.lexeme.toList s.next.1.kind) = some after ∧
      s.next.2 = { after with finished := s.next.2.finished } := by
  rcases hgap : gap s.tables s.size s.text with ⟨length, unclosed⟩
  obtain ⟨k, ms, hk, hmoves, hms⟩ := exists_moves_gapFrom hgap
  obtain ⟨gap, after, htext, hlength, -⟩ := trivia_of_gapFrom hgap
  rw [Nat.zero_add] at hk hlength
  subst hlength
  subst hk
  have hskip : s.skip gap.length = { s with text := after, place := s.place.advance gap } :=
    skip_length s gap htext
  cases unclosed with
  | true =>
    refine ⟨ms, s.skip s.text.length, hmoves, ?_, ?_⟩
    · rw [next_open htext hgap]
      exact (congrArg s.moves? (List.append_nil ms)).trans hms
    · rw [next_open htext hgap, skip_length s s.text (List.append_nil _).symm, ← htext]
  | false =>
    rcases hclass : classify s.tables after with ⟨kind, taken⟩
    have hnext := next_found htext hgap hclass
    by_cases hnil : after = []
    · subst hnil
      cases hclass
      refine ⟨ms, s.skip gap.length, hmoves, ?_, ?_⟩
      · rw [hnext]
        exact (congrArg s.moves? (List.append_nil ms)).trans hms
      · rw [hnext, hskip]
        simp
    · obtain ⟨word, rest, rfl, rfl, hrule⟩ := exists_rule_of_classify hnil hclass
      refine ⟨ms, (s.skip gap.length).skip word.length, hmoves, ?_, ?_⟩
      · rw [hnext, moves?_append, hms, List.take_left]
        simp only [Place.token, String.toList_ofList]
        exact moves?_wordMoves (congrArg text hskip) hrule
      · rw [hnext, skip_skip, ← List.length_append,
          skip_length s _ (htext.trans (List.append_assoc ..).symm), List.take_left,
          List.drop_left]

end Scanner

/-- After any moves from the start of a text, the scanner can move to its end. -/
theorem Scanner.moves?_to_end (tables : Tables) (source : String) :
    ∃ s, (Scanner.start tables source).moves? [.bytes (byteLength source.toList)] = some s ∧
      s.place = Place.start.advance source.toList := by
  have htext : (Scanner.start tables source).text = source.toList ++ [] :=
    (List.append_nil _).symm
  refine ⟨_, moves?_single (move?_bytes_append htext), ?_⟩
  rw [skip_length _ _ htext]
  rfl

/-- The scanner keeps its place, whatever moves it makes from the start of a text.

* It stands where a character starts or the text ends.  The row counts the line breaks before it
  and the column the characters since the last of them, both in 32 bits; so if these are enough
  for the rows and the columns of the text, they are the numbers, and no larger than the text.
* Every move can be made, but for a number of bytes that ends inside a character; and no move
  goes back.
* A move past a mark ends after the first occurrence of the mark, and a move past the end of a
  literal after the first double quote that no backslash takes along; if there is none, each
  ends at the end of the text, and they tell which of the two it was.
* A step of the scanner is made of such moves: those over blanks and comments, and then those
  over the token. -/
theorem moves_keep_place (tables : Tables) (source : String) (ms : List Move) (s : Scanner)
    (h : (Scanner.start tables source).moves? ms = some s) :
    (∃ before, source.toList = before ++ s.text ∧ s.place.offset = byteLength before ∧
      s.place.offset ≤ byteLength source.toList ∧
      s.place.location =
        .mk (1 + before.count '\n') (1 + (before.rtakeWhile (· != '\n')).length) ∧
      (Numbered source.toList →
        (s.place.location.row : Nat) = 1 + before.count '\n' ∧
        (s.place.location.col : Nat) = 1 + (before.rtakeWhile (· != '\n')).length ∧
        (s.place.location.row : Nat) + s.place.location.col ≤ source.length + 2)) ∧
    (∀ m, (∃ after, s.move? m = some after) ↔
      ∀ n, m = .bytes n → ∃ passed rest, s.text = passed ++ rest ∧
        byteLength passed = min n (byteLength s.text)) ∧
    (∀ m after, s.move? m = some after → s.place.offset ≤ after.place.offset) ∧
    (∀ mark after, s.move? (.past mark) = some after →
      if Move.found (.past mark) s.text then
        ∃ body, s.text = body ++ after.text ∧ EndsFirst mark body
      else ¬ mark <:+: s.text ∧ after.text = []) ∧
    (∀ after, s.move? .closing = some after →
      if Move.found .closing s.text then
        ∃ body, s.text = body ++ '"' :: after.text ∧ Escaped body
      else (∀ body rest, Escaped body → s.text ≠ body ++ '"' :: rest) ∧ after.text = []) ∧
    ∃ ms after, Scanner.GapMoves tables ms ∧
      s.moves? (ms ++ Scanner.wordMoves s.next.1.lexeme.toList s.next.1.kind) = some after ∧
      s.next.2 = { after with finished := s.next.2.finished } := by
  obtain ⟨before, hreads⟩ := (Scanner.reads_start tables source).moves? h
  rw [List.nil_append] at hreads
  refine ⟨⟨before, hreads.source, hreads.offset, ?_, hreads.location, fun hnumbered => ?_⟩,
    fun m => ?_,
    fun m after hm => Scanner.offset_move? hm, fun mark after hm => Scanner.move?_past hm,
    fun after hm => Scanner.move?_closing hm, ?_⟩
  · rw [hreads.offset, hreads.source, byteLength_append]
    exact Nat.le_add_right _ _
  · have hle := count_add_length_lastLine_le before
    have hlength := congrArg List.length hreads.source
    obtain ⟨hrow, hcol⟩ := hnumbered.of_append hreads.source
    rw [Nat.add_comm] at hrow hcol
    rw [String.length_toList, List.length_append] at hlength
    rw [lastLine] at hle hcol
    rw [hreads.location, Location.row_mk hrow, Location.col_mk hcol]
    exact ⟨rfl, rfl, by omega⟩
  · exact Scanner.exists_move?_iff
  · have htables : s.tables = tables := Scanner.tables_moves? h
    obtain ⟨ms, after, hgap, hms, hnext⟩ := s.exists_moves_next
    exact ⟨ms, after, htables ▸ hgap, hms, hnext⟩

/-- A jump over a character of two bytes and a line break, one to the end of a comment, one over
a line break and a double quote, and one past the end of the literal. -/
theorem moves_keep_place_literal :
    let source := "é\n//\n\"\\\"\n\"x"
    ∃ s, (Scanner.start .quill source).moves? [.bytes 3, .toLineBreak, .bytes 2, .closing] =
        some s ∧
      s.place = ⟨11, ⟨4, 2⟩⟩ ∧ Numbered source.toList ∧
      (∃ before, source.toList = before ++ s.text ∧ s.place.offset = byteLength before ∧
        (s.place.location.row : Nat) = 1 + before.count '\n') ∧
      ∃ after, s.move? .char = some after := by
  intro source
  have hplace : ((Scanner.start .quill source).moves?
      [.bytes 3, .toLineBreak, .bytes 2, .closing]).map (·.place) = some ⟨11, ⟨4, 2⟩⟩ := by
    decide +kernel
  obtain ⟨s, hs, hplace⟩ := Option.map_eq_some_iff.1 hplace
  have hnumbered : Numbered source.toList := numbered_of_byteLength (by decide)
  obtain ⟨⟨before, hsource, hoffset, -, -, hcounts⟩, hmoves, -⟩ :=
    moves_keep_place .quill source _ s hs
  exact ⟨s, hs, hplace, hnumbered, ⟨before, hsource, hoffset, (hcounts hnumbered).1⟩,
    (hmoves .char).2 (by rintro n ⟨⟩)⟩

/-- A jump over so many line breaks that the last row has no number. -/
theorem moves_lose_row :
    let source := String.ofList (List.replicate 4294967295 '\n')
    byteLength source.toList < 2 ^ 32 ∧ 1 + source.toList.count '\n' = 4294967296 ∧
      ∃ s, (Scanner.start .quill source).moves? [.bytes 4294967295] = some s ∧
        s.place.location = ⟨0, 1⟩ := by
  obtain ⟨hbytes, hcount, -⟩ := LineTable.location_newlines (n := 4294967295) rfl
  obtain ⟨s, hs, hplace⟩ :=
    Scanner.moves?_to_end .quill (String.ofList (List.replicate 4294967295 '\n'))
  rw [hbytes] at hs
  refine ⟨hbytes.trans_lt (by omega), (congrArg (1 + ·) hcount).trans (by omega), s, hs, ?_⟩
  rw [hplace, String.toList_ofList]
  exact Place.location_advance_newlines rfl

end Scriptorium
