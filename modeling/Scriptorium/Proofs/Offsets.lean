import Scriptorium.Text.LineTable
import Mathlib.Algebra.Group.Nat.Defs
import Mathlib.Data.List.Induction
import Mathlib.Data.List.TakeWhile

/-!
# Offsets and locations of a text

The scanner counts bytes, rows and columns while it takes characters off; the table of
lines of a text works rows and columns out from the number of bytes alone.  Wherever a
character starts, or the text ends, the two agree.

* `slice?_append` — what lies between two offsets;
* `Span.min_byteLength` — the offsets that a span holds are not cut down;
* `Place.offset_advance` — the offset reached is the number of bytes that were passed;
* `LineTable.exists_lastLine` — the line that a prefix of a text ends in;
* `LineTable.location_byteLength` — the table finds the location that was reached, if the
  row has a number of 32 bits.
-/

namespace Scriptorium

/-! ## Bytes -/

@[simp] theorem byteLength_nil : byteLength [] = 0 := rfl

@[simp] theorem byteLength_cons (c : Char) (cs : List Char) :
    byteLength (c :: cs) = c.utf8Size + byteLength cs := by
  have hfrom : ∀ (cs : List Char) (n : Nat),
      cs.foldl (fun bytes c => bytes + c.utf8Size) n = n + byteLength cs := by
    intro cs
    induction cs with
    | nil => simp
    | cons c cs ih =>
      intro n
      simp only [byteLength, List.foldl_cons, ih (n + c.utf8Size), ih (0 + c.utf8Size)]
      omega
  simpa [byteLength] using hfrom cs c.utf8Size

@[simp] theorem byteLength_append (cs ds : List Char) :
    byteLength (cs ++ ds) = byteLength cs + byteLength ds := by
  induction cs with
  | nil => simp
  | cons c cs ih => simp [ih, Nat.add_assoc]

theorem byteLength_replicate (n : Nat) (c : Char) :
    byteLength (List.replicate n c) = n * c.utf8Size := by
  induction n with
  | zero => simp
  | succ n ih => rw [List.replicate_succ, byteLength_cons, ih, Nat.add_one_mul, Nat.add_comm]

theorem byteLength_mono {cs text : List Char} (h : cs <+: text) :
    byteLength cs ≤ byteLength text := by
  obtain ⟨rest, rfl⟩ := h
  rw [byteLength_append]
  exact Nat.le_add_right _ _

theorem byteLength_pos {cs : List Char} (h : cs ≠ []) : 0 < byteLength cs := by
  obtain ⟨c, cs, rfl⟩ := List.exists_cons_of_ne_nil h
  have := c.utf8Size_pos
  simp only [byteLength_cons]
  omega

/-- There are no more characters than bytes. -/
theorem length_le_byteLength (cs : List Char) : cs.length ≤ byteLength cs := by
  induction cs with
  | nil => exact le_rfl
  | cons c cs ih =>
    have := c.utf8Size_pos
    rw [List.length_cons, byteLength_cons]
    omega

/-! ## What lies between two offsets -/

theorem dropBytes?_append (before after : List Char) :
    dropBytes? (byteLength before) (before ++ after) = some after := by
  induction before with
  | nil => simp [dropBytes?]
  | cons c before ih =>
    obtain ⟨n, hn⟩ : ∃ n, byteLength (c :: before) = n + 1 :=
      Nat.exists_eq_add_one.2 (byteLength_pos (List.cons_ne_nil _ _))
    have hrest : n + 1 - c.utf8Size = byteLength before := by
      rw [← hn, byteLength_cons, Nat.add_sub_cancel_left]
    have hfits : c.utf8Size ≤ n + 1 := by
      rw [← hn, byteLength_cons]
      exact Nat.le_add_right _ _
    rw [hn, List.cons_append, dropBytes?, if_pos hfits, hrest, ih]

theorem takeBytes?_append (cs after : List Char) :
    takeBytes? (byteLength cs) (cs ++ after) = some cs := by
  simp [takeBytes?, dropBytes?_append]

/-- Between two offsets at which characters start lies the text between them. -/
theorem slice?_append (before cs after : List Char) :
    slice? (before ++ (cs ++ after)) (byteLength before) (byteLength (before ++ cs)) =
      some cs := by
  have hle : byteLength before ≤ byteLength (before ++ cs) := by simp
  have hlength : byteLength (before ++ cs) - byteLength before = byteLength cs := by simp
  rw [slice?, if_pos hle, dropBytes?_append, hlength]
  exact takeBytes?_append cs after

theorem dropBytes?_eq_some {n : Nat} {text rest : List Char} (h : dropBytes? n text = some rest) :
    ∃ passed, text = passed ++ rest ∧ byteLength passed = n := by
  induction text generalizing n with
  | nil =>
    cases n with
    | zero =>
      cases h
      exact ⟨[], rfl, rfl⟩
    | succ n => cases h
  | cons c text ih =>
    cases n with
    | zero =>
      cases h
      exact ⟨[], rfl, rfl⟩
    | succ n =>
      rw [dropBytes?] at h
      split at h
      · next hfits =>
        obtain ⟨passed, rfl, hlength⟩ := ih h
        exact ⟨c :: passed, rfl, by rw [byteLength_cons]; omega⟩
      · cases h

/-- A number of bytes can be taken off if a character ends there. -/
theorem takeBytes?_eq_some_iff {n : Nat} {text passed : List Char} :
    takeBytes? n text = some passed ↔ (∃ rest, text = passed ++ rest) ∧ byteLength passed = n := by
  constructor
  · intro h
    obtain ⟨rest, hrest, rfl⟩ := Option.map_eq_some_iff.1 h
    obtain ⟨cs, rfl, rfl⟩ := dropBytes?_eq_some hrest
    simp
  · rintro ⟨⟨rest, rfl⟩, rfl⟩
    exact takeBytes?_append passed rest

/-! ## Spans -/

/-- The offsets of a text of less than 4 GiB are not cut down. -/
theorem Span.min_byteLength {cs text : List Char} (h : cs <+: text)
    (hsize : byteLength text < 2 ^ 32) : min (byteLength cs) maxOffset = byteLength cs :=
  Nat.min_eq_left ((byteLength_mono h).trans (Nat.le_of_lt_succ hsize))

/-! ## Places -/

namespace Location

theorem row_mk {row col : Nat} (h : row < 2 ^ 32) : ((mk row col).row : Nat) = row :=
  UInt32.toNat_ofNat_of_lt' h

theorem col_mk {row col : Nat} (h : col < 2 ^ 32) : ((mk row col).col : Nat) = col :=
  UInt32.toNat_ofNat_of_lt' h

end Location

namespace Place

@[simp] theorem advance_append (p : Place) (cs ds : List Char) :
    p.advance (cs ++ ds) = (p.advance cs).advance ds :=
  List.foldl_append

@[simp] theorem offset_advance (p : Place) (cs : List Char) :
    (p.advance cs).offset = p.offset + byteLength cs := by
  induction cs generalizing p with
  | nil => rfl
  | cons c cs ih =>
    show ((p.step c).advance cs).offset = _
    rw [ih, step, byteLength_cons, Nat.add_assoc]

end Place

/-! ## The lines of a text -/

namespace LineTable

theorem startsAfterNewlines_append (offset : Nat) (cs ds : List Char) :
    startsAfterNewlines offset (cs ++ ds) =
      startsAfterNewlines offset cs ++ startsAfterNewlines (offset + byteLength cs) ds := by
  induction cs generalizing offset with
  | nil => rfl
  | cons c cs ih =>
    simp only [List.cons_append, startsAfterNewlines, ih, byteLength_cons, Nat.add_assoc]
    split <;> rfl

/-- A line starts after its line break, and not after the end of the text. -/
theorem mem_startsAfterNewlines {offset start : Nat} {cs : List Char}
    (h : start ∈ startsAfterNewlines offset cs) :
    offset < start ∧ start ≤ offset + byteLength cs := by
  induction cs generalizing offset with
  | nil => cases h
  | cons c cs ih =>
    have hc := c.utf8Size_pos
    have hlater : start ∈ startsAfterNewlines (offset + c.utf8Size) cs →
        offset < start ∧ start ≤ offset + byteLength (c :: cs) := by
      intro hmem
      have := ih hmem
      rw [byteLength_cons]
      omega
    rw [startsAfterNewlines] at h
    by_cases hn : c = '\n'
    · rw [if_pos hn, List.mem_cons] at h
      rcases h with rfl | hmem
      · rw [byteLength_cons]
        omega
      · exact hlater hmem
    · rw [if_neg hn] at h
      exact hlater h

/-- A line starts after each line break. -/
theorem length_startsAfterNewlines (offset : Nat) (cs : List Char) :
    (startsAfterNewlines offset cs).length = cs.count '\n' := by
  induction cs generalizing offset with
  | nil => rfl
  | cons c cs ih =>
    by_cases hc : c = '\n'
    · simp [startsAfterNewlines, hc, ih]
    · simp [startsAfterNewlines, hc, ih]

/-- The part of a prefix of a text that stands on its last line: the scanner counts its
characters as the column, and the last of the lines that have started starts with it. -/
theorem exists_lastLine (before : List Char) :
    ∃ lines tail, before = lines ++ tail ∧
      (0 :: startsAfterNewlines 0 before).getLast? = some (byteLength lines) ∧
      (Place.start.advance before).location =
        .mk (before.count '\n' + 1) (tail.length + 1) := by
  induction before using List.reverseRecOn with
  | nil => exact ⟨[], [], rfl, rfl, rfl⟩
  | append_singleton before c ih =>
    obtain ⟨lines, tail, hbefore, hlast, hlocation⟩ := ih
    have hplace : (Place.start.advance (before ++ [c])).location =
        ((Place.start.advance before).step c).location := by
      rw [Place.advance_append]
      rfl
    rw [hplace, Place.step, hlocation, startsAfterNewlines_append, startsAfterNewlines]
    by_cases hn : c = '\n'
    · -- the line break opens a line on which nothing stands yet
      refine ⟨before ++ [c], [], (List.append_nil _).symm, ?_, ?_⟩
      · rw [if_pos hn, startsAfterNewlines, ← List.cons_append, List.getLast?_concat,
          byteLength_append, hn, Nat.zero_add]
        rfl
      · simp [hn, Location.mk, UInt32.ofNat_add]
    · refine ⟨lines, tail ++ [c], by rw [hbefore, List.append_assoc], ?_, ?_⟩
      · simpa [hn, startsAfterNewlines] using hlast
      · simp [hn, Location.mk, UInt32.ofNat_add]

/-- A number that fits is counted on. -/
theorem numberAfter_of_lt {n : Nat} (h : n < 2 ^ 32) : numberAfter n = .ofNat (n + 1) := by
  have hfits : n < UInt32.size := h
  rw [numberAfter, if_pos hfits, UInt32.ofNat_add]
  rfl

variable {source : String} {before after : List Char}

/-- The largest number is followed by zero. -/
theorem numberAfter_last {n : Nat} (h : n + 1 = 2 ^ 32) : numberAfter n = 0 := by
  obtain rfl : n = 4294967295 := by omega
  rfl

/-- In a text of less than 4 GiB, no start of a line is cut down. -/
theorem starts_build (hsize : byteLength source.toList < 2 ^ 32)
    (h : source.toList = before ++ after) :
    (build source).starts =
      0 :: startsAfterNewlines 0 before ++ startsAfterNewlines (byteLength before) after := by
  have hwhole : ∀ start ∈ startsAfterNewlines 0 source.toList,
      min start Span.maxOffset = start := by
    intro start hmem
    have hstart := (mem_startsAfterNewlines hmem).2
    unfold Span.maxOffset
    omega
  rw [build, List.map_congr_left hwhole, List.map_id', h, startsAfterNewlines_append,
    Nat.zero_add, List.cons_append]

theorem count_newline_lt (hsize : byteLength source.toList < 2 ^ 32)
    (h : source.toList = before ++ after) : before.count '\n' < 2 ^ 32 := by
  have hcount : before.count '\n' ≤ before.length := List.count_le_length
  have hchars := length_le_byteLength before
  rw [h, byteLength_append] at hsize
  omega

/-- The lines that start before a character are those after the line breaks before it. -/
theorem line_byteLength (hsize : byteLength source.toList < 2 ^ 32)
    (h : source.toList = before ++ after) :
    (build source).line (byteLength before) = .ofNat (before.count '\n' + 1) := by
  have hearlier : ∀ start ∈ 0 :: startsAfterNewlines 0 before,
      decide (start ≤ byteLength before) = true := by
    intro start hmem
    rcases List.mem_cons.1 hmem with rfl | hmem
    · simp
    · have := mem_startsAfterNewlines hmem
      simp only [decide_eq_true_eq]
      omega
  have hlater : (startsAfterNewlines (byteLength before) after).takeWhile
      (fun start => decide (start ≤ byteLength before)) = [] := by
    refine List.takeWhile_eq_nil_iff.2 fun hpos => ?_
    have := mem_startsAfterNewlines (List.get_mem _ ⟨0, hpos⟩)
    simp only [decide_eq_true_eq]
    omega
  rw [line, starts_build hsize h, List.takeWhile_append_of_pos hearlier, hlater,
    List.append_nil, List.length_cons, Nat.add_sub_cancel, length_startsAfterNewlines,
    numberAfter_of_lt (count_newline_lt hsize h)]

/-- Where a character starts, or the text ends, the table of lines finds the row and the
column that the scanner has counted, if the row has a number of 32 bits. -/
theorem location_byteLength (hsize : byteLength source.toList < 2 ^ 32)
    (h : source.toList = before ++ after)
    (hrows : before.count '\n' + 1 < 2 ^ 32) :
    (build source).location (byteLength before) = (Place.start.advance before).location := by
  obtain ⟨lines, tail, hbefore, hlast, hlocation⟩ := exists_lastLine before
  have hrow : (UInt32.ofNat (before.count '\n' + 1)).toNat = before.count '\n' + 1 :=
    UInt32.toNat_ofNat_of_lt' hrows
  have hstart : (build source).lineStart? (before.count '\n' + 1) = some (byteLength lines) := by
    rw [List.getLast?_eq_getElem?, List.length_cons, length_startsAfterNewlines] at hlast
    rw [lineStart?, starts_build hsize h,
      List.getElem?_append_left (by simp [length_startsAfterNewlines]), ← hlast]
    simp
  have hbytes : (build source).size = byteLength before + byteLength after := by
    rw [build, h, byteLength_append]
  have hstop : max (byteLength lines) (min (byteLength before) (build source).size) =
      byteLength (lines ++ tail) := by
    rw [hbytes, hbefore, byteLength_append]
    omega
  have hslice : slice? (build source).chars (byteLength lines) (byteLength (lines ++ tail)) =
      some tail := by
    show slice? source.toList _ _ = _
    rw [h, hbefore, List.append_assoc]
    exact slice?_append lines tail after
  have htail : tail.length < 2 ^ 32 := by
    have hchars := length_le_byteLength tail
    rw [h, hbefore] at hsize
    simp only [byteLength_append] at hsize
    omega
  rw [location, line_byteLength hsize h, hrow, hstart, Option.getD_some, hstop, hslice,
    hlocation, Option.getD_some, numberAfter_of_lt htail]
  rfl

/-- Behind so many line breaks that their row has no number of 32 bits, the row is zero, and the
characters of all rows are counted as its column. -/
theorem location_of_last_row (hsize : byteLength source.toList < 2 ^ 32)
    (h : source.toList = before ++ after) (hrow : before.count '\n' + 1 = 2 ^ 32) :
    (build source).location (byteLength before) = ⟨0, numberAfter before.length⟩ := by
  have hline : (build source).line (byteLength before) = 0 := by
    rw [line_byteLength hsize h, hrow]
    rfl
  have hbytes : (build source).size = byteLength before + byteLength after := by
    rw [build, h, byteLength_append]
  have hstop : max 0 (min (byteLength before) (build source).size) = byteLength before := by
    omega
  have hslice : slice? (build source).chars 0 (byteLength before) = some before := by
    show slice? source.toList _ _ = _
    rw [h]
    exact slice?_append [] before after
  rw [location, hline]
  show (⟨0, numberAfter ((slice? _ 0 (max 0 _)).getD []).length⟩ : Location) = _
  rw [hstop, hslice, Option.getD_some]

end LineTable

end Scriptorium
