import Scriptorium.Proofs.TextLines
import Scriptorium.Proofs.WordText

/-!
# Lines that are written piece by piece

A layout is written piece by piece.  At every piece it is known how many blocks are open and how
far the last line is written, and this decides what may be written next: a blank stands between
two words, a line ends after a word, and a line starts with the indentation that the open blocks
ask for.  Whatever is written like this consists of lines that are laid out.

* `aboveLastLine_append`, `lineBetween_append`, `lineBetween_newline` — how the last line of a text
  grows, and when it is complete;
* `LineState`, `LineState.Step`, `LineState.Runs` — the states, and the pieces that may come next;
* `LineState.Tells` — what a state tells of the complete lines and of the last one;
* `LineState.Tells.step`, `LineState.Tells.runs` — every piece keeps it, and so does a layout.
-/

namespace Scriptorium

/-! ## The last line of a text -/

theorem aboveLastLine_append {more : List Char} (h : '\n' ∉ more) (text : List Char) :
    aboveLastLine (text ++ more) = aboveLastLine text := by
  have hsplit := aboveLastLine_append_lastLine (text ++ more)
  rw [lastLine_append h, ← List.append_assoc, List.append_left_inj] at hsplit
  have htext := aboveLastLine_append_lastLine text
  exact List.append_cancel_right (hsplit.trans htext.symm)

@[simp] theorem lastLine_newline (text : List Char) : lastLine (text ++ ['\n']) = [] := by
  simp [lastLine]

@[simp] theorem aboveLastLine_newline (text : List Char) :
    aboveLastLine (text ++ ['\n']) = text ++ ['\n'] := by
  simp [aboveLastLine]

/-- The last line is the only one with nothing below it. -/
theorem LineBetween.eq_last {text above line : List Char} (h : LineBetween text above line []) :
    above = aboveLastLine text ∧ line = lastLine text := by
  have htext : text = above ++ line := by rw [h.text, List.append_nil]
  rw [htext, aboveLastLine_append h.unbroken, lastLine_append h.unbroken]
  rcases h.opens with rfl | hlast
  · exact ⟨rfl, rfl⟩
  · obtain ⟨before, rfl⟩ := List.getLast?_eq_some_iff.1 hlast
    simp

/-- Another line break completes the last line. -/
theorem lineBetween_newline {text above line below : List Char}
    (h : LineBetween (text ++ ['\n']) above line ('\n' :: below)) :
    (above = aboveLastLine text ∧ line = lastLine text) ∨
      ∃ below, LineBetween text above line ('\n' :: below) := by
  have htext := h.text
  rcases List.eq_nil_or_concat below with rfl | ⟨below, c, rfl⟩
  · rw [← List.append_assoc, List.append_left_inj] at htext
    refine .inl (LineBetween.eq_last ⟨?_, h.opens, h.unbroken, .inl rfl⟩)
    rw [List.append_nil, htext]
  · rw [List.concat_eq_append, ← List.cons_append, ← List.append_assoc, ← List.append_assoc,
      List.append_assoc above] at htext
    exact .inr ⟨below, (List.append_inj_left' htext rfl), h.opens, h.unbroken, .inr rfl⟩

/-- Text without line breaks completes no line. -/
theorem lineBetween_append {text more above line below : List Char} (hmore : '\n' ∉ more)
    (h : LineBetween (text ++ more) above line ('\n' :: below)) :
    ∃ below, LineBetween text above line ('\n' :: below) := by
  have htext : text ++ more = above ++ (line ++ ['\n']) ++ below := by
    rw [h.text]
    simp
  rcases List.append_eq_append_iff.1 htext with ⟨rest, hrest, rfl⟩ | ⟨rest, hrest, -⟩
  · rcases List.eq_nil_or_concat rest with rfl | ⟨rest, c, rfl⟩
    · refine ⟨[], ?_, h.opens, h.unbroken, .inr rfl⟩
      rw [← List.append_nil text, ← hrest]
    · -- the line break would stand in what is added
      rw [List.concat_eq_append, ← List.append_assoc, ← List.append_assoc] at hrest
      obtain rfl : '\n' = c := by simpa using List.append_inj_right' hrest rfl
      simp at hmore
  · refine ⟨rest, ?_, h.opens, h.unbroken, .inr rfl⟩
    rw [hrest]
    simp

/-! ## Writing a line -/

/-- A word that stands in one line and neither starts nor ends with a blank. -/
def isPlain (word : String) : Bool :=
  word.toList.head?.any (fun c => !isBlank c) && word.toList.getLast?.any (fun c => !isBlank c) &&
    !word.toList.contains '\n'

theorem isPlain_iff {word : String} :
    isPlain word = true ↔ (∃ c cs, word.toList = c :: cs ∧ isBlank c = false) ∧
      (∃ cs c, word.toList = cs ++ [c] ∧ isBlank c = false) ∧ '\n' ∉ word.toList := by
  simp only [isPlain, Bool.and_eq_true, Option.any_eq_true, List.head?_eq_some_iff,
    List.getLast?_eq_some_iff, Bool.not_eq_true', List.contains_eq_mem, decide_eq_false_iff_not]
  constructor
  · rintro ⟨⟨⟨c, ⟨cs, hcs⟩, hc⟩, d, ⟨ds, hds⟩, hd⟩, hbreak⟩
    exact ⟨⟨c, cs, hcs, hc⟩, ⟨ds, d, hds, hd⟩, hbreak⟩
  · rintro ⟨⟨c, cs, hcs, hc⟩, ⟨ds, d, hds, hd⟩, hbreak⟩
    exact ⟨⟨⟨c, ⟨cs, hcs⟩, hc⟩, d, ⟨ds, hds⟩, hd⟩, hbreak⟩

/-- The number of blocks that a word opens. -/
def opening (word : String) : Nat := if word = "\x7b" then 1 else 0

/-- The number of blocks that a word closes. -/
def closing (word : String) : Nat := if word = "\x7d" then 1 else 0

/-- How far a line is written. -/
inductive Spot where
  /-- Nothing but its indentation is written.  Does a line that is not empty stand right above? -/
  | fresh (covered : Bool) (level : Nat)
  /-- A word was written last. -/
  | after
  /-- A word and a blank were written last. -/
  | between
  deriving DecidableEq, Repr

/-- What is known of a layout that is written up to some piece. -/
structure LineState where
  /-- The number of blocks that are open. -/
  depth : Nat
  /-- How far the last line is written. -/
  spot : Spot
  deriving DecidableEq, Repr

namespace LineState

/-- The level of the indentation has to fit the first word of a line: a brace that closes a block
stands where the block was opened. -/
def Takes (s : LineState) (word : String) : Prop :=
  match s.spot with
  | .fresh _ level => level + closing word = s.depth
  | _ => True

/-- The next piece of a layout. -/
inductive Step : LineState → Piece → LineState → Prop where
  /-- A word. -/
  | text {s : LineState} {word : String} {depth : Nat} :
      isPlain word = true → s.Takes word → depth + closing word = s.depth + opening word →
      Step s (.text word) ⟨depth, .after⟩
  /-- A blank after a word. -/
  | space {depth : Nat} : Step ⟨depth, .after⟩ .space ⟨depth, .between⟩
  /-- The end of a line. -/
  | newline {depth : Nat} : Step ⟨depth, .after⟩ .newline ⟨depth, .fresh true 0⟩
  /-- An empty line. -/
  | empty {depth : Nat} : Step ⟨depth, .fresh true 0⟩ .newline ⟨depth, .fresh false 0⟩
  /-- The indentation of a line. -/
  | indent {depth level : Nat} {covered : Bool} :
      Step ⟨depth, .fresh covered 0⟩ (.indent level 4) ⟨depth, .fresh covered level⟩

/-- The pieces of a layout, one after the other. -/
inductive Runs : LineState → List Piece → LineState → Prop where
  /-- None. -/
  | nil {s : LineState} : Runs s [] s
  /-- A piece and those after it. -/
  | cons {s t u : LineState} {piece : Piece} {pieces : List Piece} :
      Step s piece t → Runs t pieces u → Runs s (piece :: pieces) u

end LineState

/-! ## What is written -/

/-- The blocks that are open before a word are those that are opened before it and not closed. -/
def OpenBefore (first : List Piece) (word : String) (n : Nat) : Prop :=
  first.count (.text "\x7b") = n + (first.count (.text "\x7d") + closing word)

/-- A line starts with the indentation of a word that stands in it. -/
def Indented (pieces : List Piece) (above line : List Char) : Prop :=
  ∃ n first word rest after, pieces = first ++ .text word :: rest ∧ isPlain word = true ∧
    chars first = above ++ List.replicate (4 * n) ' ' ∧
    line = List.replicate (4 * n) ' ' ++ (word.toList ++ after) ∧ OpenBefore first word n

/-- A line that is not empty stands right above. -/
def UnderLine (above : List Char) : Prop := ∃ before c, above = before ++ [c, '\n'] ∧ c ≠ '\n'

/-- A line is empty and stands below one that is not, or it is indented and does not end with
a blank. -/
def LaidLine (pieces : List Piece) (above line : List Char) : Prop :=
  line = [] ∧ UnderLine above ∨
    Indented pieces above line ∧ ∀ c ∈ line.getLast?, isBlank c = false

namespace LineState

/-- How the line that is not complete looks. -/
def Partial (pieces : List Piece) : Spot → Prop
  | .fresh covered level =>
      lastLine (chars pieces) = List.replicate (4 * level) ' ' ∧
        (covered = true → UnderLine (aboveLastLine (chars pieces)))
  | .after =>
      Indented pieces (aboveLastLine (chars pieces)) (lastLine (chars pieces)) ∧
        ∀ c ∈ (lastLine (chars pieces)).getLast?, isBlank c = false
  | .between => Indented pieces (aboveLastLine (chars pieces)) (lastLine (chars pieces))

/-- What a state says about the pieces that were written up to it. -/
structure Tells (s : LineState) (pieces : List Piece) : Prop where
  depth : pieces.count (.text "\x7b") = s.depth + pieces.count (.text "\x7d")
  line : Partial pieces s.spot
  lines : ∀ above line below, LineBetween (chars pieces) above line ('\n' :: below) →
    LaidLine pieces above line

theorem tells_start : Tells ⟨0, .fresh false 0⟩ [] := by
  refine ⟨rfl, ⟨rfl, by simp⟩, fun above line below h => ?_⟩
  have htext : [] = above ++ (line ++ '\n' :: below) := h.text
  simp at htext

end LineState

theorem Indented.append {pieces : List Piece} {above line : List Char}
    (h : Indented pieces above line) (more : List Piece) (later : List Char) :
    Indented (pieces ++ more) above (line ++ later) := by
  obtain ⟨n, first, word, rest, after, rfl, hword, hfirst, rfl, hopen⟩ := h
  refine ⟨n, first, word, rest ++ more, after ++ later, ?_, hword, hfirst, ?_, hopen⟩
  · simp
  · simp

theorem Indented.ne_nil {pieces : List Piece} {above line : List Char}
    (h : Indented pieces above line) : line ≠ [] := by
  obtain ⟨n, first, word, rest, after, -, hword, -, rfl, -⟩ := h
  obtain ⟨⟨c, cs, hcs, -⟩, -, -⟩ := isPlain_iff.1 hword
  simp [hcs]

/-- A line break after a line that is not empty opens one below it. -/
theorem underLine_of_ne_nil {text : List Char} (h : lastLine text ≠ []) :
    UnderLine (text ++ ['\n']) := by
  obtain ⟨line, c, hline⟩ := List.eq_nil_or_concat (lastLine text) |>.resolve_left h
  have hbreak := newline_not_mem_lastLine text
  refine ⟨aboveLastLine text ++ line, c, ?_, ?_⟩
  · calc text ++ ['\n'] = aboveLastLine text ++ line.concat c ++ ['\n'] := by
          rw [← hline, aboveLastLine_append_lastLine]
      _ = aboveLastLine text ++ line ++ [c, '\n'] := by simp
  · rintro rfl
    simp [hline] at hbreak

theorem LaidLine.append {pieces : List Piece} {above line : List Char}
    (h : LaidLine pieces above line) (more : List Piece) : LaidLine (pieces ++ more) above line := by
  refine h.imp_right fun ⟨hindented, hlast⟩ => ⟨?_, hlast⟩
  have hmore := hindented.append more []
  rwa [List.append_nil] at hmore

theorem chars_append (first rest : List Piece) :
    chars (first ++ rest) = chars first ++ chars rest := by
  induction first with
  | nil => rfl
  | cons piece first ih => rw [List.cons_append, chars_cons, chars_cons, ih, List.append_assoc]

namespace LineState

variable {s t : LineState} {pieces : List Piece} {piece : Piece}

theorem chars_concat (pieces : List Piece) (piece : Piece) :
    chars (pieces ++ [piece]) = chars pieces ++ piece.written.toList := by
  rw [chars_append, chars_cons]
  exact congrArg _ (List.append_nil _)

/-- A piece without a line break completes no line. -/
theorem Tells.lines_concat (h : s.Tells pieces) (hpiece : '\n' ∉ piece.written.toList) :
    ∀ above line below, LineBetween (chars (pieces ++ [piece])) above line ('\n' :: below) →
      LaidLine (pieces ++ [piece]) above line := by
  intro above line below hline
  rw [chars_concat] at hline
  obtain ⟨below, hline⟩ := lineBetween_append hpiece hline
  exact (h.lines above line below hline).append [piece]

theorem Tells.lines_newline (h : s.Tells pieces)
    (hlast : LaidLine pieces (aboveLastLine (chars pieces)) (lastLine (chars pieces))) :
    ∀ above line below, LineBetween (chars (pieces ++ [.newline])) above line ('\n' :: below) →
      LaidLine (pieces ++ [.newline]) above line := by
  intro above line below hline
  rw [chars_concat] at hline
  rcases lineBetween_newline hline with ⟨rfl, rfl⟩ | ⟨below, hline⟩
  · exact hlast.append _
  · exact (h.lines above line below hline).append _

/-- A line break completes the last line, and opens a line without indentation. -/
theorem Tells.newline {depth : Nat} {covered : Bool} (h : s.Tells pieces) (hdepth : s.depth = depth)
    (hlast : LaidLine pieces (aboveLastLine (chars pieces)) (lastLine (chars pieces)))
    (hcovered : covered = true → UnderLine (chars pieces ++ ['\n'])) :
    Tells ⟨depth, .fresh covered 0⟩ (pieces ++ [.newline]) := by
  have hchars : chars (pieces ++ [.newline]) = chars pieces ++ ['\n'] := chars_concat _ _
  refine ⟨?_, ⟨?_, ?_⟩, h.lines_newline hlast⟩
  · simpa [List.count_append, hdepth] using h.depth
  · rw [hchars, lastLine_newline]
    rfl
  · rwa [hchars, aboveLastLine_newline]

/-- Blanks change nothing but the last line. -/
theorem Tells.blanks {depth : Nat} {spot : Spot} (h : s.Tells pieces) (hdepth : s.depth = depth)
    {n : Nat} (hpiece : piece.written.toList = List.replicate n ' ')
    (hcount : ∀ word, piece ≠ .text word)
    (hline : Partial (pieces ++ [piece]) spot) : Tells ⟨depth, spot⟩ (pieces ++ [piece]) := by
  refine ⟨?_, hline, h.lines_concat ?_⟩
  · simpa [List.count_append, hdepth, hcount] using h.depth
  · rw [hpiece]
    simp

/-- A word goes on with the last line, or is the first one after its indentation. -/
theorem Tells.text {word : String} {depth : Nat} (h : s.Tells pieces) (hword : isPlain word = true)
    (htakes : s.Takes word) (hdepth : depth + closing word = s.depth + opening word) :
    Tells ⟨depth, .after⟩ (pieces ++ [.text word]) := by
  obtain ⟨-, ⟨cs, c, hlast, hc⟩, hbreak⟩ := isPlain_iff.1 hword
  have hchars : chars (pieces ++ [.text word]) = chars pieces ++ word.toList := chars_concat _ _
  refine ⟨?_, ⟨?_, ?_⟩, h.lines_concat hbreak⟩
  · have hopen : [Piece.text word].count (.text "\x7b") = opening word := by
      simp [List.count_singleton, opening]
    have hclose : [Piece.text word].count (.text "\x7d") = closing word := by
      simp [List.count_singleton, closing]
    have := h.depth
    rw [List.count_append, List.count_append, hopen, hclose]
    dsimp only
    omega
  · rw [hchars, aboveLastLine_append hbreak, lastLine_append hbreak]
    have hline := h.line
    rw [Takes] at htakes
    cases hspot : s.spot with
    | fresh covered level =>
      rw [hspot] at hline htakes
      refine ⟨level, pieces, word, [], [], rfl, hword, ?_, ?_, ?_⟩
      · rw [← hline.1, aboveLastLine_append_lastLine]
      · rw [hline.1, List.append_nil]
      · have := h.depth
        rw [OpenBefore]
        dsimp only at htakes
        omega
    | after =>
      rw [hspot] at hline
      exact hline.1.append _ _
    | between =>
      rw [hspot] at hline
      exact Indented.append hline _ _
  · rw [hchars, lastLine_append hbreak, hlast, ← List.append_assoc, List.getLast?_concat]
    rintro _ ⟨⟩
    exact hc

/-- Every piece that may come next keeps what is told. -/
theorem Tells.step (h : s.Tells pieces) (hstep : Step s piece t) : t.Tells (pieces ++ [piece]) := by
  cases hstep with
  | text hword htakes hdepth => exact h.text hword htakes hdepth
  | @space depth =>
    have hblank : '\n' ∉ Piece.space.written.toList := by decide
    refine h.blanks rfl (n := 1) rfl (by simp) ?_
    rw [Partial, chars_concat, aboveLastLine_append hblank, lastLine_append hblank]
    exact h.line.1.append _ _
  | newline =>
    obtain ⟨hindented, hlast⟩ := h.line
    exact h.newline rfl (.inr ⟨hindented, hlast⟩) fun _ => underLine_of_ne_nil hindented.ne_nil
  | empty =>
    obtain ⟨hline, hcovered⟩ := h.line
    exact h.newline rfl (.inl ⟨hline, hcovered rfl⟩) (by simp)
  | @indent depth level covered =>
    obtain ⟨hline, hcovered⟩ := h.line
    have hwritten : (Piece.indent level 4).written.toList = List.replicate (4 * level) ' ' := by
      rw [Piece.written, String.toList_ofList, Nat.mul_comm]
    have hbreak : '\n' ∉ List.replicate (4 * level) ' ' := by simp
    refine h.blanks rfl hwritten (by simp) ?_
    rw [Partial, chars_concat, hwritten, aboveLastLine_append hbreak, lastLine_append hbreak, hline]
    exact ⟨rfl, hcovered⟩

/-- So does a layout, piece by piece. -/
theorem Tells.runs {more : List Piece} (h : s.Tells pieces) (hruns : Runs s more t) :
    t.Tells (pieces ++ more) := by
  induction hruns generalizing pieces with
  | nil => rwa [List.append_nil]
  | cons hstep _ ih =>
    have hrest := ih (h.step hstep)
    rwa [List.append_assoc] at hrest

end LineState

end Scriptorium
