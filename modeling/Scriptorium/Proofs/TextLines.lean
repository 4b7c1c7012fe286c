import Scriptorium.Proofs.Offsets
import Mathlib.Data.List.DropRight

/-!
# The table of lines against counting

Rows, columns and lines can be told without a table: the row of an offset is the number of
line breaks before it, the column is the number of characters since the last of them, and the
lines are the pieces between the line breaks.  The table of lines, which holds nothing but the
offsets at which lines start, says the same.

* `LineBetween` — a line of a text, between what stands above and below it;
* `LineBetween.getElem?_splitOn`, `exists_lineBetween` — the lines are the pieces of the text
  between its line breaks;
* `Numbered` — the rows and the columns of a text have numbers of 32 bits;
* `Place.advance_eq` — where a jump ends, worked out from the text that it crosses as a whole;
* `LineTable.lineStart?_eq_some_iff` — where the lines start;
* `LineTable.le_line_iff` — the lines that start up to an offset, whether a character starts
  there or not;
* `lineTable_agrees` — the locations and the lines of a text whose rows and columns have numbers,
  and `lineTable_wraps`, a text with one row too many.
-/

namespace Scriptorium

/-- The text after its last line break. -/
def lastLine (text : List Char) : List Char := text.rtakeWhile (· != '\n')

/-- The text up to its last line break. -/
def aboveLastLine (text : List Char) : List Char := text.rdropWhile (· != '\n')

/-- A line starts after this text: it is empty or ends with a line break. -/
def OpensLine (above : List Char) : Prop := above = [] ∨ above.getLast? = some '\n'

/-- A line of a text without its line break, between what stands above and below it. -/
structure LineBetween (text above line below : List Char) : Prop where
  text : text = above ++ (line ++ below)
  opens : OpensLine above
  unbroken : '\n' ∉ line
  closes : below = [] ∨ below.head? = some '\n'

/-! ## Lines and pieces -/

theorem aboveLastLine_append_lastLine (text : List Char) :
    aboveLastLine text ++ lastLine text = text :=
  List.rdropWhile_append_rtakeWhile

theorem newline_not_mem_lastLine (text : List Char) : '\n' ∉ lastLine text := by
  intro h
  simpa using List.mem_rtakeWhile_imp h

theorem lastLine_append {more : List Char} (h : '\n' ∉ more) (text : List Char) :
    lastLine (text ++ more) = lastLine text ++ more := by
  induction more using List.reverseRecOn with
  | nil => rw [List.append_nil, List.append_nil]
  | append_singleton more c ih =>
    rw [List.mem_append, not_or, List.mem_singleton] at h
    rw [← List.append_assoc, lastLine, List.rtakeWhile_concat, if_pos (by simpa using Ne.symm h.2),
      ← lastLine, ih h.1, List.append_assoc]

theorem length_lastLine_newlines (n : Nat) :
    (lastLine (List.replicate n '\n')).length = 0 := by
  cases n with
  | zero => rfl
  | succ n => simp [lastLine, List.replicate_succ']

theorem opensLine_aboveLastLine (text : List Char) : OpensLine (aboveLastLine text) := by
  by_cases h : aboveLastLine text = []
  · exact .inl h
  · have hlast := List.rdropWhile_last_not (· != '\n') text h
    rw [Bool.not_eq_true, bne_eq_false_iff_eq] at hlast
    exact .inr (by rw [List.getLast?_eq_some_getLast h]; exact congrArg some hlast)

theorem count_lastLine (text : List Char) : (aboveLastLine text).count '\n' = text.count '\n' := by
  conv_rhs => rw [← aboveLastLine_append_lastLine text]
  rw [List.count_append, List.count_eq_zero.2 (newline_not_mem_lastLine text), Nat.add_zero]

/-- Wherever a text is cut, the cut is in a line. -/
theorem lineBetween_of_append {text before after : List Char} (h : text = before ++ after) :
    LineBetween text (aboveLastLine before)
      (lastLine before ++ after.takeWhile (· != '\n')) (after.dropWhile (· != '\n')) := by
  refine ⟨?_, opensLine_aboveLastLine before, ?_, ?_⟩
  · rw [List.append_assoc, List.takeWhile_append_dropWhile, ← List.append_assoc,
      aboveLastLine_append_lastLine, h]
  · rw [List.mem_append, not_or]
    refine ⟨newline_not_mem_lastLine before, fun hmem => ?_⟩
    simpa using List.mem_takeWhile_imp hmem
  · cases hdrop : after.dropWhile (· != '\n') with
    | nil => exact .inl rfl
    | cons c cs =>
      have hc := List.head_dropWhile_not (· != '\n') (l := after) (by simp [hdrop])
      simp only [hdrop, List.head_cons, bne_eq_false_iff_eq] at hc
      exact .inr (by rw [hc, List.head?_cons])

theorem splitOn_append_newline (cs ds : List Char) :
    (cs ++ '\n' :: ds).splitOn '\n' = cs.splitOn '\n' ++ ds.splitOn '\n' :=
  List.splitOnP_append_cons cs ds (by simp)

theorem splitOn_of_not_mem {line : List Char} (h : '\n' ∉ line) : line.splitOn '\n' = [line] := by
  refine List.splitOnP_eq_singleton fun c hc => ?_
  rw [beq_eq_false_iff_ne]
  rintro rfl
  exact h hc

/-- A text is cut into one piece more than it has line breaks. -/
theorem length_splitOn (text : List Char) : (text.splitOn '\n').length = text.count '\n' + 1 := by
  induction text with
  | nil => rfl
  | cons c cs ih =>
    rw [List.splitOn, List.splitOnP_cons_eq_if_modifyHead, List.count_cons]
    split
    · next hc => simpa [hc, List.splitOn] using ih
    · next hc => simpa [hc, List.splitOn] using ih

/-- A line is the piece of the text that comes after as many others as there are line breaks
above it. -/
theorem LineBetween.getElem?_splitOn {text above line below : List Char}
    (h : LineBetween text above line below) :
    (text.splitOn '\n')[above.count '\n']? = some line := by
  have hfirst : ((line ++ below).splitOn '\n')[0]? = some line := by
    rcases h.closes with rfl | hbelow
    · rw [List.append_nil, splitOn_of_not_mem h.unbroken]
      rfl
    · obtain ⟨rest, rfl⟩ := List.head?_eq_some_iff.1 hbelow
      rw [splitOn_append_newline, splitOn_of_not_mem h.unbroken]
      rfl
  rcases h.opens with rfl | habove
  · rwa [h.text]
  · obtain ⟨before, rfl⟩ := List.getLast?_eq_some_iff.1 habove
    have hcount : (before ++ ['\n']).count '\n' = (before.splitOn '\n').length := by
      rw [length_splitOn, List.count_append]
      rfl
    rw [h.text, List.append_assoc, List.singleton_append, splitOn_append_newline, hcount,
      List.getElem?_append_right le_rfl, Nat.sub_self, hfirst]

/-- A text can be cut after as many line breaks as it has, or fewer. -/
theorem exists_cut {text : List Char} {k : Nat} (h : k ≤ text.count '\n') :
    ∃ before after, text = before ++ after ∧ before.count '\n' = k := by
  induction text generalizing k with
  | nil => exact ⟨[], [], rfl, (Nat.le_zero.1 h).symm⟩
  | cons c cs ih =>
    cases k with
    | zero => exact ⟨[], c :: cs, rfl, rfl⟩
    | succ k =>
      by_cases hc : c = '\n'
      · obtain ⟨before, after, htext, hcount⟩ := ih (k := k) (by simpa [hc] using h)
        exact ⟨c :: before, after, by rw [htext, List.cons_append], by simp [hc, hcount]⟩
      · obtain ⟨before, after, htext, hcount⟩ := ih (k := k + 1) (by simpa [hc] using h)
        exact ⟨c :: before, after, by rw [htext, List.cons_append], by simp [hc, hcount]⟩

/-- There is a line below every line break, and one above all of them. -/
theorem exists_lineBetween {text : List Char} {k : Nat} (h : k ≤ text.count '\n') :
    ∃ above line below, LineBetween text above line below ∧ above.count '\n' = k := by
  obtain ⟨before, after, htext, hcount⟩ := exists_cut h
  exact ⟨_, _, _, lineBetween_of_append htext, by rw [count_lastLine, hcount]⟩

/-! ## Rows and columns with numbers -/

/-- Every row and every column of a text has a number of 32 bits. -/
structure Numbered (text : List Char) : Prop where
  rows : text.count '\n' + 1 < 2 ^ 32
  cols : ∀ line ∈ text.splitOn '\n', line.length + 1 < 2 ^ 32

/-- There are fewer rows and columns than bytes, the first of each apart. -/
theorem numbered_of_byteLength {text : List Char} (h : byteLength text + 1 < 2 ^ 32) :
    Numbered text := by
  have hchars := length_le_byteLength text
  have hcount : text.count '\n' ≤ text.length := List.count_le_length
  refine ⟨by omega, fun line hline => ?_⟩
  obtain ⟨k, hk⟩ := List.mem_iff_getElem?.1 hline
  have hlt := (List.getElem?_eq_some_iff.1 hk).1
  rw [length_splitOn] at hlt
  obtain ⟨above, line', below, hbetween, rfl⟩ := exists_lineBetween (Nat.le_of_lt_succ hlt)
  rw [hbetween.getElem?_splitOn] at hk
  obtain rfl := Option.some.inj hk
  have hlength := congrArg List.length hbetween.text
  rw [List.length_append, List.length_append] at hlength
  omega

theorem Numbered.length_line {text above line below : List Char} (h : Numbered text)
    (hline : LineBetween text above line below) : line.length + 1 < 2 ^ 32 :=
  h.cols line (List.mem_of_getElem? hline.getElem?_splitOn)

/-- Wherever the text is cut, the row and the column have numbers. -/
theorem Numbered.of_append {text before after : List Char} (h : Numbered text)
    (htext : text = before ++ after) :
    before.count '\n' + 1 < 2 ^ 32 ∧ (lastLine before).length + 1 < 2 ^ 32 := by
  have hrows := h.rows
  have hline := h.length_line (lineBetween_of_append htext)
  rw [htext, List.count_append] at hrows
  rw [List.length_append] at hline
  omega

/-- Where a jump ends: the line breaks in the text that it crosses count for the row, and the
characters after the last of them for the column. -/
theorem Place.advance_eq (p : Place) (cs : List Char) :
    p.advance cs =
      ⟨p.offset + byteLength cs,
        if '\n' ∈ cs then ⟨p.location.row + .ofNat (cs.count '\n'), .ofNat (lastLine cs).length + 1⟩
        else ⟨p.location.row, p.location.col + .ofNat cs.length⟩⟩ := by
  induction cs using List.reverseRecOn with
  | nil => simp [advance]
  | append_singleton cs c ih =>
    have hstep : p.advance (cs ++ [c]) = (p.advance cs).step c := Place.advance_append p cs [c]
    rw [hstep, ih, Place.step]
    by_cases hc : c = '\n'
    · by_cases hcs : '\n' ∈ cs
      · simp [hc, hcs, lastLine, Nat.add_assoc, UInt32.ofNat_add, UInt32.add_assoc]
      · simp [hc, hcs, lastLine, Nat.add_assoc, List.count_eq_zero.2 hcs]
    · by_cases hcs : '\n' ∈ cs
      · simp [hc, Ne.symm hc, hcs, lastLine, Nat.add_assoc, UInt32.ofNat_add]
      · simp [hc, Ne.symm hc, hcs, Nat.add_assoc, UInt32.ofNat_add, UInt32.add_assoc]

/-- From the start of a text, the row counts the line breaks and the column the characters since
the last of them. -/
theorem Place.location_start_advance (cs : List Char) :
    (Place.start.advance cs).location = .mk (1 + cs.count '\n') (1 + (lastLine cs).length) := by
  rw [advance_eq, Location.mk, UInt32.ofNat_add, UInt32.ofNat_add]
  by_cases hcs : '\n' ∈ cs
  · simp [hcs, Place.start, Location.start, UInt32.add_comm]
  · have hlast : lastLine cs = cs := List.rtakeWhile_eq_self_iff.2 fun c hc => by
      rw [bne_iff_ne]
      rintro rfl
      exact hcs hc
    simp [hcs, Place.start, Location.start, hlast, List.count_eq_zero.2 hcs]

/-! ## Where lines start -/

namespace LineTable

@[simp] theorem chars_build (source : String) : (build source).chars = source.toList := rfl

@[simp] theorem size_build (source : String) :
    (build source).size = byteLength source.toList := rfl

theorem length_starts_build (source : String) :
    (build source).starts.length = source.toList.count '\n' + 1 := by
  rw [build, List.length_cons, List.length_map, length_startsAfterNewlines]

variable {source : String} {above line below : List Char}

section Small

variable (hsize : byteLength source.toList < 2 ^ 32)

include hsize

/-- After as many line breaks as the text above a line has, the line starts. -/
theorem lineStart?_of_opensLine {above after : List Char} (hopens : OpensLine above)
    (h : source.toList = above ++ after) :
    (build source).lineStart? (above.count '\n' + 1) = some (byteLength above) := by
  rw [lineStart?, starts_build hsize h]
  rcases hopens with rfl | hlast
  · rfl
  · obtain ⟨before, rfl⟩ := List.getLast?_eq_some_iff.1 hlast
    have hcount : (before ++ ['\n']).count '\n' = (startsAfterNewlines 0 before).length + 1 := by
      rw [length_startsAfterNewlines, List.count_append]
      rfl
    have hstarts : startsAfterNewlines 0 (before ++ ['\n']) =
        startsAfterNewlines 0 before ++ [byteLength (before ++ ['\n'])] := by
      rw [startsAfterNewlines_append, byteLength_append, Nat.zero_add]
      rfl
    rw [hcount, hstarts, List.cons_append, List.getElem?_cons_succ, List.append_assoc,
      List.getElem?_append_right le_rfl, Nat.sub_self]
    rfl

/-- A line starts at the start of the text and after each line break. -/
theorem lineStart?_eq_some_iff {n start : Nat} :
    (build source).lineStart? n = some start ↔
      ∃ above after, source.toList = above ++ after ∧ OpensLine above ∧
        n = above.count '\n' + 1 ∧ start = byteLength above := by
  constructor
  · intro h
    cases n with
    | zero => cases h
    | succ k =>
      have hk : k < (build source).starts.length := (List.getElem?_eq_some_iff.1 h).1
      rw [length_starts_build] at hk
      obtain ⟨above, line, below, hline, hcount⟩ := exists_lineBetween (Nat.le_of_lt_succ hk)
      have hstart := lineStart?_of_opensLine hsize hline.opens hline.text
      rw [hcount, h] at hstart
      exact ⟨above, line ++ below, hline.text, hline.opens, by rw [hcount],
        Option.some.inj hstart⟩
  · rintro ⟨above, after, htext, hopens, rfl, rfl⟩
    exact lineStart?_of_opensLine hsize hopens htext

end Small

/-! ## The line of any offset -/

theorem pairwise_startsAfterNewlines (offset : Nat) (cs : List Char) :
    (startsAfterNewlines offset cs).Pairwise (· < ·) := by
  induction cs generalizing offset with
  | nil => exact .nil
  | cons c cs ih =>
    rw [startsAfterNewlines]
    split
    · exact .cons (fun later hlater => (mem_startsAfterNewlines hlater).1) (ih _)
    · exact ih _

/-- Of numbers in increasing order, those up to a bound are found in front. -/
theorem le_iff_lt_length_takeWhile {starts : List Nat} (h : starts.Pairwise (· < ·)) {k x : Nat}
    (hk : starts[k]? = some x) (bound : Nat) :
    x ≤ bound ↔ k < (starts.takeWhile (· ≤ bound)).length := by
  induction starts generalizing k with
  | nil => cases hk
  | cons y ys ih =>
    obtain ⟨hy, hys⟩ := List.pairwise_cons.1 h
    by_cases hbound : y ≤ bound
    · rw [List.takeWhile_cons_of_pos (by simpa using hbound), List.length_cons]
      cases k with
      | zero =>
        cases hk
        simpa using hbound
      | succ k =>
        rw [Nat.succ_lt_succ_iff]
        exact ih hys hk
    · rw [List.takeWhile_cons_of_neg (by simpa using hbound), List.length_nil]
      have hx : y ≤ x := by
        cases k with
        | zero =>
          cases hk
          exact le_rfl
        | succ k => exact (hy x (List.mem_of_getElem? hk)).le
      omega

/-- The lines that start up to an offset are counted in 32 bits. -/
theorem toNat_line (hrows : source.toList.count '\n' + 1 < 2 ^ 32) (offset : Nat) :
    ((build source).line offset : Nat) = ((build source).starts.takeWhile (· ≤ offset)).length := by
  have hfew : ((build source).starts.takeWhile (· ≤ offset)).length ≤
      source.toList.count '\n' + 1 :=
    (List.takeWhile_prefix _).length_le.trans_eq (length_starts_build source)
  have hfirst : 0 < ((build source).starts.takeWhile (· ≤ offset)).length := by
    rw [build, List.takeWhile_cons_of_pos (by simp)]
    exact Nat.succ_pos _
  rw [line, numberAfter_of_lt (by omega), Nat.sub_add_cancel hfirst]
  exact UInt32.toNat_ofNat_of_lt' (hfew.trans_lt hrows)

section Small

variable (hsize : byteLength source.toList < 2 ^ 32)

include hsize

theorem pairwise_starts_build : (build source).starts.Pairwise (· < ·) := by
  rw [starts_build hsize (List.append_nil _).symm, startsAfterNewlines, List.append_nil]
  exact .cons (fun _ h => (mem_startsAfterNewlines h).1) (pairwise_startsAfterNewlines 0 _)

variable (hrows : source.toList.count '\n' + 1 < 2 ^ 32)

include hrows

/-- The lines up to that of an offset are those that start at or before the offset. -/
theorem le_line_iff {n start : Nat} (h : (build source).lineStart? n = some start)
    (offset : Nat) : n ≤ (build source).line offset ↔ start ≤ offset := by
  cases n with
  | zero => cases h
  | succ k =>
    rw [toNat_line hrows]
    exact (le_iff_lt_length_takeWhile (pairwise_starts_build hsize) h offset).symm

/-- Every offset has a line, which starts in the text. -/
theorem exists_lineStart? (offset : Nat) :
    ∃ start, (build source).lineStart? ((build source).line offset) = some start ∧
      start ≤ offset ∧ start ≤ byteLength source.toList := by
  have hfirst : (build source).lineStart? 1 = some 0 := rfl
  have hpos := (le_line_iff hsize hrows hfirst offset).2 (Nat.zero_le _)
  have hfew : ((build source).line offset : Nat) ≤ (build source).starts.length := by
    rw [toNat_line hrows]
    exact (List.takeWhile_prefix _).length_le
  obtain ⟨k, hk⟩ := Nat.exists_eq_add_of_le' hpos
  obtain ⟨start, hstart⟩ : ∃ start, (build source).lineStart? ((build source).line offset) =
      some start := by
    rw [hk] at hfew ⊢
    exact ⟨_, List.getElem?_eq_getElem (Nat.lt_of_succ_le hfew)⟩
  refine ⟨start, hstart, (le_line_iff hsize hrows hstart offset).1 le_rfl, ?_⟩
  obtain ⟨above, after, htext, -, -, rfl⟩ := (lineStart?_eq_some_iff hsize).1 hstart
  rw [htext, byteLength_append]
  exact Nat.le_add_right _ _

/-- From the start of the line that an offset is on, no line break stands before the offset. -/
theorem exists_unbroken_of_slice? {offset start : Nat} {cs : List Char}
    (hstart : (build source).lineStart? ((build source).line offset) = some start)
    (hslice : slice? source.toList start
      (max start (min offset (byteLength source.toList))) = some cs) :
    ∃ above rest, source.toList = above ++ (cs ++ rest) ∧ '\n' ∉ cs := by
  obtain ⟨above, after, htext, hopens, hrow, rfl⟩ := (lineStart?_eq_some_iff hsize).1 hstart
  rw [slice?, if_pos (Nat.le_max_left _ _), htext, dropBytes?_append, Option.bind_some,
    takeBytes?_eq_some_iff, ← htext] at hslice
  obtain ⟨⟨rest, rfl⟩, hbytes⟩ := hslice
  refine ⟨above, rest, htext, fun hbreak => ?_⟩
  obtain ⟨first, later, rfl⟩ := List.append_of_mem hbreak
  -- below such a line break a line would start up to the offset
  have hsource : source.toList = (above ++ (first ++ ['\n'])) ++ (later ++ rest) := by
    rw [htext]
    simp
  have hlower : (build source).lineStart? ((above ++ (first ++ ['\n'])).count '\n' + 1) =
      some (byteLength (above ++ (first ++ ['\n']))) := by
    refine lineStart?_of_opensLine hsize (.inr ?_) hsource
    rw [← List.append_assoc, List.getLast?_concat]
  have hbefore : byteLength (above ++ (first ++ ['\n'])) ≤ offset := by
    have hpos := byteLength_pos (List.cons_ne_nil '\n' later)
    simp only [byteLength_append, byteLength_cons, byteLength_nil] at hbytes hpos ⊢
    omega
  have hle := (le_line_iff hsize hrows hlower offset).2 hbefore
  rw [hrow, List.count_append, List.count_append, List.count_singleton_self] at hle
  omega

end Small

/-! ## Locations and lines -/

theorem length_slice?_le (above after : List Char) (stop : Nat) :
    ((slice? (above ++ after) (byteLength above) stop).getD []).length ≤ after.length := by
  rw [slice?]
  split
  · rw [dropBytes?_append, Option.bind_some, takeBytes?]
    cases dropBytes? (stop - byteLength above) after with
    | none => exact Nat.zero_le _
    | some rest => exact (List.take_prefix _ _).length_le
  · exact Nat.zero_le _

section Numbered

variable (hsize : byteLength source.toList < 2 ^ 32) (hnumbered : Numbered source.toList)

include hsize hnumbered

/-- Where a character starts, or the text ends, the row counts the line breaks before it and
the column the characters since the last of them. -/
theorem location_of_append {before after : List Char} (h : source.toList = before ++ after) :
    (build source).location (byteLength before) =
      .mk (1 + before.count '\n') (1 + (lastLine before).length) := by
  rw [location_byteLength hsize h (hnumbered.of_append h).1, Place.location_start_advance]

/-- The characters of a line up to an offset have numbers. -/
theorem length_slice?_lt {offset start : Nat}
    (hstart : (build source).lineStart? ((build source).line offset) = some start) :
    ((slice? source.toList start (max start (min offset (byteLength source.toList)))).getD
      []).length + 1 < 2 ^ 32 := by
  cases hslice : slice? source.toList start
      (max start (min offset (byteLength source.toList))) with
  | none => simp
  | some cs =>
    obtain ⟨above, rest, htext, hunbroken⟩ :=
      exists_unbroken_of_slice? hsize hnumbered.rows hstart hslice
    have hcol := (hnumbered.of_append (htext.trans (List.append_assoc ..).symm)).2
    rw [lastLine_append hunbroken, List.length_append] at hcol
    rw [Option.getD_some]
    omega

/-- The column of any offset counts the characters since the start of its line, and there are no
more rows and columns than characters, the first of each apart. -/
theorem location_spec {offset start : Nat}
    (hstart : (build source).lineStart? ((build source).line offset) = some start) :
    (((build source).location offset).col : Nat) =
      1 + ((slice? source.toList start
        (max start (min offset (byteLength source.toList)))).getD []).length ∧
    (((build source).location offset).row : Nat) + ((build source).location offset).col ≤
      source.length + 2 := by
  have hcol : (((build source).location offset).col : Nat) =
      1 + ((slice? source.toList start
        (max start (min offset (byteLength source.toList)))).getD []).length := by
    have hlt := length_slice?_lt hsize hnumbered hstart
    rw [location, hstart, Option.getD_some]
    show (numberAfter (_ : List Char).length).toNat = _
    rw [chars_build, size_build,
      numberAfter_of_lt (Nat.lt_of_succ_lt hlt), Nat.add_comm 1]
    exact UInt32.toNat_ofNat_of_lt' hlt
  refine ⟨hcol, ?_⟩
  obtain ⟨above, after, htext, -, hrow, rfl⟩ := (lineStart?_eq_some_iff hsize).1 hstart
  have hcount : above.count '\n' ≤ above.length := List.count_le_length
  have hlength : source.length = above.length + after.length := by
    rw [← String.length_toList, htext, List.length_append]
  have hshown := length_slice?_le above after
    (max (byteLength above) (min offset (byteLength source.toList)))
  rw [← htext] at hshown
  rw [hcol, show ((build source).location offset).row = (build source).line offset from rfl, hrow]
  omega

end Numbered

/-- A line break at the end is dropped. -/
theorem trimLineEnd_append_newline (line : List Char) :
    trimLineEnd (line ++ ['\n']) = trimLineEnd line := by
  simp [trimLineEnd]

/-- Of a line without its line break, the carriage returns at the end are dropped. -/
theorem trimLineEnd_of_not_mem {line : List Char} (h : '\n' ∉ line) :
    trimLineEnd line = line.rdropWhile (· == '\r') := by
  show line.rdropWhile (fun c => c = '\n' || c = '\r') = _
  induction line using List.reverseRecOn with
  | nil => rfl
  | append_singleton line c ih =>
    have hc : c ≠ '\n' := by
      rintro rfl
      simp at h
    have hline : '\n' ∉ line := fun hmem => h (List.mem_append_left _ hmem)
    rw [List.rdropWhile_concat, List.rdropWhile_concat, ih hline]
    simp [hc]

theorem lineText?_of_slice? {t : LineTable} {n start : Nat} {cs : List Char} (hn : n + 1 < 2 ^ 32)
    (hstart : t.lineStart? n = some start)
    (hslice : slice? t.chars start ((t.lineStart? (n + 1)).getD t.size) = some cs) :
    t.lineText? n = some (trimLineEnd cs) := by
  have hnext : (UInt32.ofNat n + 1).toNat = n + 1 := by
    rw [show (UInt32.ofNat n + 1) = .ofNat (n + 1) from (UInt32.ofNat_add n 1).symm]
    exact UInt32.toNat_ofNat_of_lt' hn
  rw [lineText?, hnext]
  simp [hstart, hslice]

section Below

variable (hsize : byteLength source.toList < 2 ^ 32)
  (hbelow : source.toList.count '\n' + 2 < 2 ^ 32)

include hsize hbelow

/-- The table finds the text of a line, if the row below the last one has a number too. -/
theorem lineText?_of_lineBetween (h : LineBetween source.toList above line below) :
    (build source).lineText? (above.count '\n' + 1) = some (line.rdropWhile (· == '\r')) := by
  have hstart := lineStart?_of_opensLine hsize h.opens h.text
  have hnumber : above.count '\n' + 1 + 1 < 2 ^ 32 := by
    rw [h.text, List.count_append] at hbelow
    omega
  have hcut : ∀ cs after, source.toList = above ++ (cs ++ after) →
      slice? (build source).chars (byteLength above) (byteLength (above ++ cs)) = some cs := by
    intro cs after htext
    rw [chars_build, htext]
    exact slice?_append above cs after
  rw [← trimLineEnd_of_not_mem h.unbroken]
  rcases h.closes with hend | hend
  · -- the text ends with the line, and the table has no further line
    have hcount : source.toList.count '\n' = above.count '\n' := by
      rw [h.text, hend, List.append_nil, List.count_append, List.count_eq_zero.2 h.unbroken,
        Nat.add_zero]
    have hnext : (build source).lineStart? (above.count '\n' + 1 + 1) = none := by
      rw [lineStart?, List.getElem?_eq_none]
      rw [length_starts_build, hcount]
    have hbytes : (build source).size = byteLength (above ++ line) := by
      rw [size_build, h.text, hend, List.append_nil]
    refine lineText?_of_slice? hnumber hstart ?_
    rw [hnext, Option.getD_none, hbytes]
    exact hcut line below h.text
  · obtain ⟨rest, hrest⟩ := List.head?_eq_some_iff.1 hend
    have htext : source.toList = above ++ ((line ++ ['\n']) ++ rest) := by
      rw [h.text, hrest, List.append_assoc, List.singleton_append]
    have hcount : (above ++ (line ++ ['\n'])).count '\n' = above.count '\n' + 1 := by
      rw [List.count_append, List.count_append, List.count_eq_zero.2 h.unbroken, Nat.zero_add]
      rfl
    have hnext : (build source).lineStart? (above.count '\n' + 1 + 1) =
        some (byteLength (above ++ (line ++ ['\n']))) := by
      rw [← hcount]
      refine lineStart?_of_opensLine hsize (.inr ?_) (htext.trans (List.append_assoc ..).symm)
      rw [← List.append_assoc, List.getLast?_concat]
    rw [← trimLineEnd_append_newline]
    refine lineText?_of_slice? hnumber hstart ?_
    rw [hnext, Option.getD_some]
    exact hcut _ _ htext

/-- There are as many lines as pieces of the text between its line breaks. -/
theorem lineText?_eq (k : Nat) :
    (build source).lineText? k =
      if k = 0 then none
      else ((source.toList.splitOn '\n')[k - 1]?).map (List.rdropWhile (· == '\r')) := by
  cases k with
  | zero => rfl
  | succ k =>
    rw [if_neg (Nat.succ_ne_zero k), Nat.add_sub_cancel]
    by_cases hk : k ≤ source.toList.count '\n'
    · obtain ⟨above, line, below, hline, rfl⟩ := exists_lineBetween hk
      rw [lineText?_of_lineBetween hsize hbelow hline, hline.getElem?_splitOn, Option.map_some]
    · have hpieces : (source.toList.splitOn '\n')[k]? = none := by
        rw [List.getElem?_eq_none_iff, length_splitOn]
        omega
      have hstart : (build source).lineStart? (k + 1) = none := by
        rw [lineStart?, List.getElem?_eq_none_iff, length_starts_build]
        omega
      rw [lineText?, hstart, hpieces]
      rfl

end Below

end LineTable

/-- The table of the lines of a text of less than 4 GiB agrees with counting, if the rows and the
columns of the text have numbers of 32 bits, and so has the row below the last one.

* Where a character starts, or the text ends, the row counts the line breaks before it, and the
  column the characters since the last of them.
* Lines start at the start of the text and after each line break.  Whatever the offset is, also
  inside a character or behind the end, its row is the last line that starts at or before it,
  and this line starts in the text; so nothing is cut out of the text beyond its end, and neither
  the row nor the column is larger than the number of characters and one.
* The lines are the pieces of the text between its line breaks, counted from one, without the
  carriage returns at their end. -/
theorem lineTable_agrees {source : String} (hsize : byteLength source.toList < 2 ^ 32)
    (hnumbered : Numbered source.toList) (hbelow : source.toList.count '\n' + 2 < 2 ^ 32) :
    let t := LineTable.build source
    (∀ before after, source.toList = before ++ after →
      let place := t.location (byteLength before)
      (place.row : Nat) = 1 + before.count '\n' ∧
      (place.col : Nat) = 1 + (before.rtakeWhile (· != '\n')).length) ∧
    (∀ n start, t.lineStart? n = some start ↔
      ∃ above after, source.toList = above ++ after ∧
        (above = [] ∨ above.getLast? = some '\n') ∧
        n = above.count '\n' + 1 ∧ start = byteLength above) ∧
    (∀ offset,
      (∃ start, t.lineStart? (t.location offset).row = some start ∧ start ≤ offset ∧
        start ≤ byteLength source.toList ∧
        ((t.location offset).col : Nat) = 1 + ((slice? source.toList start
          (max start (min offset (byteLength source.toList)))).getD []).length) ∧
      (∀ n start, t.lineStart? n = some start → start ≤ offset → n ≤ (t.location offset).row) ∧
      ((t.location offset).row : Nat) + (t.location offset).col ≤ source.length + 2) ∧
    ∀ k, t.lineText? k =
      if k = 0 then none
      else ((source.toList.splitOn '\n')[k - 1]?).map (List.rdropWhile (· == '\r')) := by
  refine ⟨?_, fun n start => LineTable.lineStart?_eq_some_iff hsize, ?_,
    LineTable.lineText?_eq hsize hbelow⟩
  · intro before after h
    obtain ⟨hrow, hcol⟩ := hnumbered.of_append h
    rw [Nat.add_comm] at hrow hcol
    rw [LineTable.location_of_append hsize hnumbered h]
    exact ⟨Location.row_mk hrow, Location.col_mk hcol⟩
  · intro offset
    obtain ⟨start, hstart, hle, hend⟩ := LineTable.exists_lineStart? hsize hnumbered.rows offset
    obtain ⟨hcol, hsum⟩ := LineTable.location_spec hsize hnumbered hstart
    refine ⟨⟨start, hstart, hle, hend, hcol⟩, fun n start hn hle => ?_, hsum⟩
    exact (LineTable.le_line_iff hsize hnumbered.rows hn offset).2 hle

/-- Two line breaks, a letter of two bytes and a carriage return, up to behind the end. -/
theorem lineTable_agrees_letter :
    let source := "é\r\n\nb"
    let t := LineTable.build source
    byteLength source.toList < 2 ^ 32 ∧ Numbered source.toList ∧
      source.toList.count '\n' + 2 < 2 ^ 32 ∧ t.location 4 = ⟨2, 1⟩ ∧ t.location 99 = ⟨3, 2⟩ ∧
      t.lineText? 1 = some ['é'] := by
  intro source t
  have hsize : byteLength source.toList < 2 ^ 32 := by decide
  have hnumbered : Numbered source.toList := numbered_of_byteLength (by decide)
  have hbelow : source.toList.count '\n' + 2 < 2 ^ 32 := by decide
  refine ⟨hsize, hnumbered, hbelow, by decide +kernel, by decide +kernel, ?_⟩
  rw [(lineTable_agrees hsize hnumbered hbelow).2.2.2 1]
  decide +kernel

/-- A row that has no number is counted as row zero. -/
theorem Place.location_advance_newlines {n : Nat} (h : n + 1 = 2 ^ 32) :
    (Place.start.advance (List.replicate n '\n')).location = ⟨0, 1⟩ := by
  have hrow : UInt32.ofNat (1 + n) = 0 := by
    rw [Nat.add_comm, h]
    rfl
  rw [location_start_advance, List.count_replicate_self, length_lastLine_newlines, Location.mk,
    hrow]
  rfl

/-- Where a text consists of nothing but line breaks and its last row has no number, the end of
the text is found in row zero and column zero. -/
theorem LineTable.location_newlines {n : Nat} (h : n + 1 = 2 ^ 32) :
    let source := String.ofList (List.replicate n '\n')
    byteLength source.toList = n ∧ source.toList.count '\n' = n ∧
      (LineTable.build source).location n = ⟨0, 0⟩ := by
  intro source
  have htext : source.toList = List.replicate n '\n' ++ [] := by
    rw [String.toList_ofList, List.append_nil]
  have hbytes : byteLength (List.replicate n '\n') = n := by
    rw [byteLength_replicate]
    exact Nat.mul_one n
  have hcount : (List.replicate n '\n').count '\n' = n := List.count_replicate_self
  have hsize : byteLength source.toList < 2 ^ 32 := by
    rw [String.toList_ofList, hbytes]
    omega
  have hlocation := location_of_last_row hsize htext (by rw [hcount, h])
  rw [hbytes, List.length_replicate, numberAfter_last h] at hlocation
  refine ⟨?_, ?_, hlocation⟩
  · rw [String.toList_ofList, hbytes]
  · rw [String.toList_ofList, hcount]

/-- The rows of a text with so many line breaks that the last row has no number. -/
theorem lineTable_wraps :
    let source := String.ofList (List.replicate 4294967295 '\n')
    byteLength source.toList = 4294967295 ∧ source.toList.count '\n' = 4294967295 ∧
      (LineTable.build source).location 4294967295 = ⟨0, 0⟩ :=
  LineTable.location_newlines rfl

end Scriptorium
