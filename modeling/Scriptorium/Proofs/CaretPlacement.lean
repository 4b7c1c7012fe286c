import Scriptorium.Proofs.TextLines
import Scriptorium.Report.Rendering

/-!
# Carets stand under their characters

A label is shown below the line that its span starts on.  In front of its carets there is one
character for each character of the line before the span, a tab under a tab, and there are as
many carets as the span has characters on the line, but at least one.

* `coveredOn` — the characters of a line that lie in a span, counted by their offsets;
* `SourceFile.caretCount_eq` — the carets are counted by them;
* `SourceFile.caretPadding_spec` — the characters in front of the carets;
* `View.length_alignRight` — the number of a line is as wide as the column of line numbers;
* `render_label` — how a label is shown, wherever it stands in a diagnostic, and
  `render_label_wraps`, a label in a row without a number.
-/

namespace Scriptorium

/-- The number of characters of a line that lie in a span, if the line starts at `start`. -/
def coveredOn (span : Span) (start : Nat) (line : List Char) : Nat :=
  (List.range line.length).countP fun i =>
    span.start ≤ start + byteLength (line.take i) && start + byteLength (line.take i) < span.stop

/-! ## Counting characters by their offsets -/

/-- Of two places in a text the one with fewer bytes before it has fewer characters before it. -/
theorem byteLength_take_lt_iff (cs : List Char) {i j : Nat} (hi : i ≤ cs.length)
    (hj : j ≤ cs.length) : byteLength (cs.take i) < byteLength (cs.take j) ↔ i < j := by
  have hmore : ∀ {i j}, i < j → j ≤ cs.length →
      byteLength (cs.take i) < byteLength (cs.take j) := by
    intro i j hij hj
    obtain ⟨k, rfl⟩ := Nat.exists_eq_add_of_lt hij
    have hne : (cs.drop i).take (k + 1) ≠ [] := by
      rw [Ne, List.take_eq_nil_iff, List.drop_eq_nil_iff]
      omega
    have := byteLength_pos hne
    rw [Nat.add_assoc, List.take_add, byteLength_append]
    omega
  constructor
  · intro h
    by_contra hij
    rcases Nat.lt_or_ge j i with hji | hji
    · exact absurd (hmore hji hi) (Nat.lt_asymm h)
    · obtain rfl : i = j := by omega
      exact absurd h (Nat.lt_irrefl _)
  · exact fun h => hmore h hj

theorem countP_range_between (n a b : Nat) :
    (List.range n).countP (fun i => a ≤ i && i < b) = min n b - a := by
  induction n with
  | zero => simp
  | succ n ih =>
    rw [List.range_succ, List.countP_append, ih, List.countP_singleton]
    by_cases h : a ≤ n ∧ n < b
    · simp only [h.1, h.2, decide_true, Bool.and_self, if_true]
      omega
    · rw [if_neg (by simpa using h)]
      omega

/-- The characters of a line, or of a part of its start, that lie in a span from one place of
the line on. -/
theorem coveredOn_eq {above head covered after line : List Char}
    (hline : line <+: head ++ (covered ++ after)) :
    coveredOn ⟨byteLength (above ++ head), byteLength (above ++ (head ++ covered))⟩
      (byteLength above) line = min line.length (head.length + covered.length) - head.length := by
  rw [coveredOn, ← countP_range_between]
  refine List.countP_congr fun i hi => ?_
  have hi : i < line.length := List.mem_range.1 hi
  have htext : head ++ (covered ++ after) = (head ++ covered) ++ after :=
    (List.append_assoc ..).symm
  have hlength := hline.length_le
  -- all places are told by how much of the same text is in front of them
  have hplace : line.take i = (head ++ (covered ++ after)).take i := by
    obtain ⟨rest, hrest⟩ := hline
    rw [← hrest, List.take_append_of_le_length hi.le]
  have hstart : head = (head ++ (covered ++ after)).take head.length :=
    (List.take_left' rfl).symm
  have hstop : head ++ covered = (head ++ (covered ++ after)).take (head ++ covered).length := by
    rw [htext]
    exact (List.take_left' rfl).symm
  have hle : (head ++ covered).length ≤ (head ++ (covered ++ after)).length := by
    rw [htext, @List.length_append _ (head ++ covered) after]
    exact Nat.le_add_right _ _
  have hfrom := byteLength_take_lt_iff (head ++ (covered ++ after)) (i := i)
    (j := head.length) (by omega) (by simp)
  have hto := byteLength_take_lt_iff (head ++ (covered ++ after)) (i := i) (by omega) hle
  rw [← hstart, ← hplace] at hfrom
  rw [← hstop, ← hplace, List.length_append] at hto
  simp only [byteLength_append above, Bool.and_eq_true, decide_eq_true_eq]
  omega

namespace SourceFile

/-- There are as many carets as the span has characters on the line, but at least one. -/
theorem caretCount_eq (path : String) {source : String} {above head covered after : List Char}
    (h : source.toList = above ++ (head ++ (covered ++ after))) {line : List Char}
    (hline : line <+: head ++ (covered ++ after).takeWhile (· != '\n')) :
    (SourceFile.of path source).caretCount
        ⟨byteLength (above ++ head), byteLength (above ++ (head ++ covered))⟩ line head.length =
      max 1 (coveredOn ⟨byteLength (above ++ head), byteLength (above ++ (head ++ covered))⟩
        (byteLength above) line) := by
  have hslice : slice? (SourceFile.of path source).lines.chars (byteLength (above ++ head))
      (byteLength (above ++ (head ++ covered))) = some covered := by
    show slice? source.toList _ _ = _
    rw [h, ← List.append_assoc above, ← List.append_assoc above]
    exact slice?_append (above ++ head) covered after
  have hwhole : line <+: head ++ (covered ++ after) :=
    hline.trans (List.prefix_append_right_inj head |>.2 (List.takeWhile_prefix _))
  have hfew : (covered.takeWhile (· != '\n')).length ≤ covered.length :=
    (List.takeWhile_prefix _).length_le
  have hlength := hline.length_le
  rw [List.length_append, List.takeWhile_append] at hlength
  rw [caretCount, hslice, Option.getD_some, coveredOn_eq hwhole]
  -- a line break in the span is the end of the line
  split at hlength
  · omega
  · omega

/-- In front of the carets there is a character for each one before the span, a tab under a
tab and a blank under everything else. -/
theorem caretPadding_spec (text : List Char) (before : Nat) :
    (caretPadding text before).length = before ∧
      ∀ i < before, (caretPadding text before)[i]? =
        some (if text[i]? = some '\t' then '\t' else ' ') := by
  have hunder : ((text.take before).map fun c => if c = '\t' then '\t' else ' ').length =
      min before text.length := by
    rw [List.length_map, List.length_take]
  have hlength : (caretPadding text before).length = before := by
    rw [caretPadding, List.length_append, List.length_replicate, hunder]
    omega
  refine ⟨hlength, fun i hi => ?_⟩
  rw [caretPadding]
  rcases Nat.lt_or_ge i text.length with hin | hout
  · rw [List.getElem?_append_left (by omega), List.getElem?_map, List.getElem?_take_of_lt hi,
      List.getElem?_eq_getElem hin]
    simp
  · rw [List.getElem?_append_right (by omega), List.getElem?_replicate, hunder,
      List.getElem?_eq_none hout, if_pos (by omega)]
    rfl

end SourceFile

/-! ## Labels in a diagnostic -/

/-- The carets under the characters `text` of a line, for a span that starts after the part `head`
of it.  Above the line stands `above`. -/
structure CaretsUnder (span : Span) (above head text padding : List Char) (carets : Nat) :
    Prop where
  /-- There is a character in front of the carets for each one before the span. -/
  length : padding.length = head.length
  /-- It is a tab under a tab, and a blank under everything else. -/
  under : ∀ i < head.length, padding[i]? = some (if text[i]? = some '\t' then '\t' else ' ')
  /-- There is a caret for each character of the span on the line, and at least one. -/
  count : carets = max 1 (coveredOn span (byteLength above) text)
  /-- No caret stands behind the line, unless the span starts there. -/
  inside : padding.length + carets ≤ text.length ∨ text.length ≤ padding.length ∧ carets = 1

/-- What is shown under the line that a span starts on. -/
theorem caretsUnder (path : String) {source : String} {above head covered after line : List Char}
    (h : source.toList = above ++ (head ++ (covered ++ after)))
    (hline : line <+: head ++ (covered ++ after).takeWhile (· != '\n')) :
    let span : Span := ⟨byteLength (above ++ head), byteLength (above ++ (head ++ covered))⟩
    CaretsUnder span above head line (SourceFile.caretPadding line head.length)
      ((SourceFile.of path source).caretCount span line head.length) := by
  intro span
  obtain ⟨hlength, hunder⟩ := SourceFile.caretPadding_spec line head.length
  have hcount := SourceFile.caretCount_eq path h hline
  have hwhole : line <+: head ++ (covered ++ after) :=
    hline.trans (List.prefix_append_right_inj head |>.2 (List.takeWhile_prefix _))
  refine ⟨hlength, hunder, hcount, ?_⟩
  rw [hcount, coveredOn_eq hwhole, hlength]
  omega

namespace View

theorem length_alignRight {width : Nat} {text : String} (h : text.length ≤ width) :
    (alignRight width text).length = width := by
  simp [alignRight, blanks]
  omega

/-- The column of line numbers is wide enough for the line of every label. -/
theorem length_row_le_gutter (colors : Bool) (f : SourceFile) {labels : List Label} {l : Label}
    (h : l ∈ labels) :
    (toString (f.location l.span).row).length ≤ (View.mk colors (some f)).gutter labels := by
  have hwidth : (toString (f.location l.span).row).length ∈
      labels.map fun l => (toString (f.location l.span).row).length :=
    List.mem_map.2 ⟨l, h, rfl⟩
  unfold gutter
  dsimp only
  generalize labels.map (fun l => (toString (f.location l.span).row).length) = widths at hwidth
  cases widths with
  | nil => cases hwidth
  | cons width widths =>
    dsimp only
    rw [List.foldl_max]
    rcases List.mem_cons.1 hwidth with heq | hmem
    · exact heq.le.trans (Nat.le_max_left _ _)
    · exact (List.le_max?_getD_of_mem hmem).trans (Nat.le_max_right _ _)

/-- Each label of a diagnostic is shown as a part of it. -/
theorem exists_render_eq (v : View) {d : Diagnostic} {l : Label} (h : l ∈ d.labels) :
    ∃ start rest, v.render d = start ++ v.label (v.gutter d.labels) l ++ rest := by
  obtain ⟨earlier, later, hlabels⟩ := List.append_of_mem h
  unfold render
  dsimp only
  generalize v.gutter d.labels = gutter
  rw [hlabels, List.map_append, List.map_cons, String.join_append, String.join_cons]
  refine ⟨v.headline d ++ String.join (earlier.map (v.label gutter)),
    String.join (later.map (v.label gutter)) ++ String.join (d.notes.map (v.tagged gutter "note")) ++
      String.join (d.trace.map (v.call gutter)) ++ "\n", ?_⟩
  simp only [String.append_assoc]

end View

/-! ## Rows and columns that are shown -/

theorem toString_toNat (n : UInt32) : toString n.toNat = toString n := rfl

theorem Location.text_mk {row col : Nat} (hrow : row < 2 ^ 32) (hcol : col < 2 ^ 32) :
    (mk row col).text = toString row ++ ":" ++ toString col := by
  have htext : (mk row col).text = toString (mk row col).row ++ ":" ++ toString (mk row col).col :=
    rfl
  rw [htext, ← toString_toNat, ← toString_toNat, row_mk hrow, col_mk hcol]

theorem SourceFile.charsBefore_eq {place : Location} {n : Nat} (h : (place.col : Nat) = n + 1) :
    charsBefore place = n := by
  have hlt := place.col.toNat_lt
  rw [charsBefore, UInt64.toNat_sub, UInt32.toNat_toUInt64, h]
  simp only [UInt64.reduceToNat]
  omega

/-- A label whose span goes from one character of the text to another, or to its end, points at
it: below the place and the line that the span starts on, without its line break and the
carriage returns at its end, stand the carets.  The line and the carets are indented alike, so
each caret stands under a character of the span, but for the one of a span that is empty or
starts behind the line.  The text has less than 4 GiB, its rows and columns have numbers, and so
has the row below the last one. -/
theorem render_label {source : String} {d : Diagnostic} {l : Label}
    {before covered after : List Char} (hsize : byteLength source.toList < 2 ^ 32)
    (hnumbered : Numbered source.toList) (hbelow : source.toList.count '\n' + 2 < 2 ^ 32)
    (hlabel : l ∈ d.labels) (hsource : source.toList = before ++ (covered ++ after))
    (hspan : l.span = ⟨byteLength before, byteLength (before ++ covered)⟩) (colors : Bool)
    (path : String) :
    let v : View := ⟨colors, some (.of path source)⟩
    let gutter := v.gutter d.labels
    ∃ above head tail below line padding carets,
      LineBetween source.toList above (head ++ tail) below ∧ before = above ++ head ∧
      line = (head ++ tail).rdropWhile (· == '\r') ∧
      CaretsUnder l.span above head line padding carets ∧
      let row := above.count '\n' + 1
      let marks := String.ofList (List.replicate carets '^')
      (LineTable.build source).lineText? row = some line ∧
      (alignRight gutter (toString row)).length = (blanks gutter).length ∧
      ∃ start rest, v.render d = start ++
        (blanks gutter ++ "--> " ++
          (path ++ ":" ++ (toString row ++ ":" ++ toString (head.length + 1))) ++ "\n" ++
          (blanks gutter ++ " |\n" ++
            alignRight gutter (toString row) ++ " | " ++ String.ofList line ++ "\n" ++
            blanks gutter ++ " | " ++ String.ofList padding ++
            v.emphasize .error
              (if l.message.isEmpty then marks else marks ++ " " ++ l.message) ++ "\n")) ++
        rest := by
  intro v gutter
  have hbefore := aboveLastLine_append_lastLine before
  have hline := lineBetween_of_append hsource
  have hshown := LineTable.lineText?_of_lineBetween hsize hbelow hline
  obtain ⟨hrow, hcol⟩ := hnumbered.of_append hsource
  have hplace : (SourceFile.of path source).location l.span =
      .mk ((aboveLastLine before).count '\n' + 1) ((lastLine before).length + 1) := by
    rw [SourceFile.location, hspan, count_lastLine, Nat.add_comm _ 1, Nat.add_comm _ 1]
    exact LineTable.location_of_append hsize hnumbered hsource
  rw [← count_lastLine] at hrow
  have hnumber : ((Location.mk ((aboveLastLine before).count '\n' + 1)
      ((lastLine before).length + 1)).row : Nat) = (aboveLastLine before).count '\n' + 1 :=
    Location.row_mk hrow
  have hwidth := View.length_row_le_gutter colors (SourceFile.of path source) hlabel
  rw [hplace, ← toString_toNat, hnumber] at hwidth
  -- the span, told from the start of its line
  have htext : source.toList =
      aboveLastLine before ++ (lastLine before ++ (covered ++ after)) := by
    rw [← List.append_assoc, hbefore, hsource]
  have hstop : l.span = ⟨byteLength (aboveLastLine before ++ lastLine before),
      byteLength (aboveLastLine before ++ (lastLine before ++ covered))⟩ := by
    rw [← List.append_assoc, hbefore, hspan]
  have hcarets := caretsUnder path htext
    (List.rdropWhile_prefix (· == '\r')
      (lastLine before ++ (covered ++ after).takeWhile (· != '\n')))
  dsimp only at hcarets
  rw [← hstop] at hcarets
  obtain ⟨start, rest, hrender⟩ := v.exists_render_eq hlabel
  refine ⟨aboveLastLine before, lastLine before, (covered ++ after).takeWhile (· != '\n'),
    (covered ++ after).dropWhile (· != '\n'), _, _, _, hline, hbefore.symm, rfl, hcarets, hshown,
    ?_, start, rest, ?_⟩
  · rw [View.length_alignRight hwidth]
    simp [blanks]
    rfl
  · have hlineAt : (SourceFile.of path source).lineAt ((aboveLastLine before).count '\n' + 1) =
        (lastLine before ++ (covered ++ after).takeWhile (· != '\n')).rdropWhile (· == '\r') :=
      (congrArg (·.getD []) hshown).trans rfl
    rw [hrender, View.label, View.position, View.labelBody]
    dsimp only [v]
    rw [hplace, ← toString_toNat, hnumber, hlineAt,
      SourceFile.charsBefore_eq (Location.col_mk hcol), Location.text_mk hrow hcol]
    rfl

/-- A span that starts behind a tab and crosses the end of its line. -/
theorem render_label_crossing :
    let source := "let x\r\n\tsé(\r\nend"
    let l : Label := ⟨⟨9, 16⟩, "here"⟩
    let d : Diagnostic := ⟨.unexpectedToken, "", [l], [], []⟩
    byteLength source.toList < 2 ^ 32 ∧ Numbered source.toList ∧
      source.toList.count '\n' + 2 < 2 ^ 32 ∧ l ∈ d.labels ∧
      source.toList = "let x\r\n\ts".toList ++ ("é(\r\nen".toList ++ "d".toList) ∧
      l.span = ⟨byteLength "let x\r\n\ts".toList,
        byteLength ("let x\r\n\ts".toList ++ "é(\r\nen".toList)⟩ ∧
      ∃ above head line padding carets, "let x\r\n\ts".toList = above ++ head ∧
        (LineTable.build source).lineText? (above.count '\n' + 1) = some line ∧
        CaretsUnder l.span above head line padding carets := by
  intro source l d
  have hsize : byteLength source.toList < 2 ^ 32 := by decide
  have hnumbered : Numbered source.toList := numbered_of_byteLength (by decide)
  have hbelow : source.toList.count '\n' + 2 < 2 ^ 32 := by decide
  have hlabel : l ∈ d.labels := List.mem_singleton_self l
  have hsource : source.toList =
      "let x\r\n\ts".toList ++ ("é(\r\nen".toList ++ "d".toList) := by decide
  have hspan : l.span = ⟨byteLength "let x\r\n\ts".toList,
      byteLength ("let x\r\n\ts".toList ++ "é(\r\nen".toList)⟩ := by decide
  obtain ⟨above, head, tail, below, line, padding, carets, -, hbefore, -, hcarets, hline, -⟩ :=
    render_label hsize hnumbered hbelow hlabel hsource hspan false "a.ql"
  exact ⟨hsize, hnumbered, hbelow, hlabel, hsource, hspan, above, head, line, padding, carets,
    hbefore, hline, hcarets⟩

/-- Where the last row has no number, a label there is shown in row and column zero, of which no
line is known, and as many characters are to stand before the caret as there are numbers of
64 bits, but one. -/
theorem render_label_wraps :
    let source := String.ofList (List.replicate 4294967295 '\n')
    let f : SourceFile := .of "a.ql" source
    let span : Span := ⟨4294967295, 4294967295⟩
    byteLength source.toList = 4294967295 ∧ (lastLine source.toList).length = 0 ∧
      f.location span = ⟨0, 0⟩ ∧ f.lines.lineText? 0 = none ∧
      (SourceFile.caretPadding [] (SourceFile.charsBefore (f.location span))).length =
        18446744073709551615 := by
  intro source f span
  obtain ⟨hbytes, -, hlocation⟩ := LineTable.location_newlines (n := 4294967295) rfl
  have hplace : f.location span = ⟨0, 0⟩ := hlocation
  have hlast : (lastLine source.toList).length = 0 := by
    rw [String.toList_ofList]
    exact length_lastLine_newlines _
  refine ⟨hbytes, hlast, hplace, rfl, ?_⟩
  rw [hplace, (SourceFile.caretPadding_spec _ _).1]
  rfl

example : (View.mk false (some (.of "a.ql" "let x\r\n\tsé(\r\nend"))).label 1 ⟨⟨9, 16⟩, "here"⟩ =
    " --> a.ql:2:3\n  |\n2 | \tsé(\n  | \t ^^ here\n" := by
  decide +kernel

end Scriptorium
