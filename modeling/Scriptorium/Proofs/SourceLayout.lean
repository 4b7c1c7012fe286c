import Scriptorium.Proofs.LayoutTokens
import Scriptorium.Proofs.RoundTrip
import Scriptorium.Proofs.SourceLines

/-!
# The layout of canonical text

Canonical text consists of lines that are laid out, whatever program it is the text of.

* `LaidOut` — how canonical text is laid out: which lines are empty, how lines start and end,
  and where line breaks stand;
* `BlocksOpen` — the blocks that are open at an offset, counted by the tokens of the text;
* `laidOut_format` — the text of a legible program is laid out;
* `format_append` — an empty line stands between two neighbours of which one is a function;
* `format_layout` — both, for the program that is kept of any text.
-/

namespace Scriptorium

/-! ## What a layout is -/

/-- A line with nothing but blanks. -/
def IsBlankLine (line : List Char) : Prop := ∀ c ∈ line, isBlank c = true

/-- So many blocks are open at an offset, by the braces that stand before it; a brace that closes
a block counts if it stands there. -/
def BlocksOpen (source : String) (offset n : Nat) : Prop :=
  ((tokensAt .quill source).countP fun p => p.2.is "\x7b" && decide (p.1 < offset)) =
    n + (tokensAt .quill source).countP fun p => p.2.is "\x7d" && decide (p.1 ≤ offset)

/-- The first line of a text is not blank, and one line break ends the text. -/
structure TrimmedText (text : List Char) : Prop where
  first : ∀ line below, LineBetween text [] line below → ¬ IsBlankLine line
  last : ∃ before c, text = before ++ [c, '\n'] ∧ c ≠ '\n'

/-- How canonical text is laid out. -/
structure LaidOut (source : String) : Prop where
  /-- It is empty or trimmed. -/
  trimmed : source = "" ∨ TrimmedText source.toList
  /-- Of two lines, one below the other, one is not blank. -/
  apart : ∀ above line below line' below', LineBetween source.toList above line ('\n' :: below) →
    LineBetween source.toList (above ++ (line ++ ['\n'])) line' below' →
    ¬ (IsBlankLine line ∧ IsBlankLine line')
  /-- No line ends with a blank. -/
  stripped : ∀ above line below, LineBetween source.toList above line below →
    ∀ c ∈ line.getLast?, isBlank c = false
  /-- No token but a line break holds a line break, so no literal does. -/
  unbroken : ∀ t ∈ tokenize .quill source, '\n' ∈ t.lexeme.toList → t.kind = .newline
  /-- Lines that are not blank are indented by four blanks for every open block. -/
  indented : ∀ above line below, LineBetween source.toList above line below →
    ¬ IsBlankLine line →
    ∃ n c rest, line = List.replicate (4 * n) ' ' ++ c :: rest ∧ c ≠ ' ' ∧
      BlocksOpen source (byteLength above + 4 * n) n

/-! ## Blank lines -/

theorem Indented.not_blank {pieces : List Piece} {above line : List Char}
    (h : Indented pieces above line) : ¬ IsBlankLine line := by
  obtain ⟨n, first, word, rest, after, -, hword, -, rfl, -⟩ := h
  obtain ⟨⟨c, cs, hcs, hc⟩, -, -⟩ := isPlain_iff.1 hword
  intro hblank
  rw [hblank c (by simp [hcs])] at hc
  cases hc

/-- Blank lines are empty, and stand below lines that are not. -/
theorem LaidLine.eq_nil {pieces : List Piece} {above line : List Char}
    (h : LaidLine pieces above line) (hblank : IsBlankLine line) : line = [] ∧ UnderLine above :=
  h.resolve_right fun hindented => hindented.1.not_blank hblank

namespace LineState

variable {pieces : List Piece} {depth : Nat}

/-- When the last line is complete, all are. -/
theorem Tells.laidLine (h : Tells ⟨depth, .fresh true 0⟩ pieces) {above line below : List Char}
    (hline : LineBetween (chars pieces) above line below) : LaidLine pieces above line := by
  rcases hline.closes with rfl | hbelow
  · obtain ⟨rfl, rfl⟩ := hline.eq_last
    exact .inl ⟨h.line.1, h.line.2 rfl⟩
  · obtain ⟨below, rfl⟩ := List.head?_eq_some_iff.1 hbelow
    exact h.lines above line below hline

theorem Tells.trimmedText (h : Tells ⟨depth, .fresh true 0⟩ pieces) :
    TrimmedText (chars pieces) := by
  refine ⟨fun line below hline hblank => ?_, ?_⟩
  · obtain ⟨-, before, c, habove, -⟩ := (h.laidLine hline).eq_nil hblank
    simp at habove
  · obtain ⟨before, c, habove, hc⟩ := h.line.2 rfl
    have hlast : lastLine (chars pieces) = [] := h.line.1
    refine ⟨before, c, ?_, hc⟩
    rw [← habove, ← List.append_nil (aboveLastLine _), ← hlast, aboveLastLine_append_lastLine]

/-- Below an empty line stands no other one: that one would stand below a line that is not
empty. -/
theorem Tells.apart (h : Tells ⟨depth, .fresh true 0⟩ pieces)
    {above line below line' below' : List Char}
    (hline : LineBetween (chars pieces) above line below)
    (hline' : LineBetween (chars pieces) (above ++ (line ++ ['\n'])) line' below') :
    ¬ (IsBlankLine line ∧ IsBlankLine line') := by
  rintro ⟨hblank, hblank'⟩
  obtain ⟨rfl, -⟩ := (h.laidLine hline).eq_nil hblank
  obtain ⟨-, before, c, habove, hc⟩ := (h.laidLine hline').eq_nil hblank'
  have hlast : above ++ ['\n'] = before ++ [c] ++ ['\n'] := by
    rw [List.append_assoc]
    exact habove
  rw [List.append_left_inj] at hlast
  rcases hline.opens with rfl | hopens
  · simp at hlast
  · rw [hlast, List.getLast?_concat, Option.some.injEq] at hopens
    exact hc hopens

theorem Runs.isPlain_of_mem {s t : LineState} {word : String} (h : Runs s pieces t)
    (hword : .text word ∈ pieces) : isPlain word = true := by
  induction h with
  | nil => cases hword
  | cons hstep _ ih =>
    rcases List.mem_cons.1 hword with rfl | hword
    · cases hstep
      assumption
    · exact ih hword

end LineState

/-- Where a line starts, as many blocks are open as its indentation tells. -/
theorem Indented.blocksOpen {pieces : List Piece} {above line : List Char}
    (h : Indented pieces above line) (hts : TokensOf 0 pieces (tokensAt .quill (render pieces))) :
    ∃ n c rest, line = List.replicate (4 * n) ' ' ++ c :: rest ∧ c ≠ ' ' ∧
      BlocksOpen (render pieces) (byteLength above + 4 * n) n := by
  obtain ⟨n, first, word, rest, after, rfl, hword, hfirst, rfl, hopen⟩ := h
  obtain ⟨⟨c, cs, hcs, hc⟩, -, -⟩ := isPlain_iff.1 hword
  refine ⟨n, c, cs ++ after, by rw [hcs, List.cons_append], ?_, ?_⟩
  · rintro rfl
    cases hc
  · have hoffset : byteLength (chars first) = byteLength above + 4 * n := by
      rw [hfirst, byteLength_append, byteLength_blanks]
    have hopened := hts.countP_brace (.inl rfl) (fun k => decide (k < byteLength (chars first)))
      (fun k hk => decide_eq_true hk) (fun k hk => by simp [hk.le])
    have hclosed := hts.countP_brace (.inr rfl) (fun k => decide (k ≤ byteLength (chars first)))
      (fun k hk => decide_eq_true hk.le) (fun k hk => by simpa using hk)
    rw [BlocksOpen, ← hoffset, hopened, hclosed]
    simpa [OpenBefore, closing] using hopen

/-! ## Programs -/

theorem laidOut_empty : LaidOut "" := by
  have hline {above line below : List Char} (h : LineBetween [] above line below) : line = [] := by
    have htext : [] = above ++ (line ++ below) := h.text
    simp_all
  refine ⟨.inl rfl, fun above line below line' below' h => ?_, fun above line below h => ?_, ?_,
    fun above line below h hblank => ?_⟩
  · have htext : [] = above ++ (line ++ '\n' :: below) := h.text
    simp at htext
  · simp [hline h]
  · rw [← snd_tokensAt]
    exact (tokensOf_render .nil).kind_of_newline (by simp)
  · exact absurd (by simp [hline h, IsBlankLine]) hblank

theorem tells_programPieces {ss : List (Stmt Unit)} (hl : Stmt.LegibleAll ss) (hne : ss ≠ []) :
    LineState.Tells ⟨0, .fresh true 0⟩ (programPieces ss) :=
  LineState.tells_start.runs (runs_programPieces hl hne false)

/-- The canonical text of a program is laid out. -/
theorem laidOut_format {ss : List (Stmt Unit)} {inFunction : Bool}
    (hs : Stmt.ShapedAll inFunction ss) (hl : Stmt.LegibleAll ss) : LaidOut (format ss) := by
  by_cases hne : ss = []
  · subst hne
    exact laidOut_empty
  · have htells := tells_programPieces hl hne
    obtain ⟨nls, -, vs, hwritten, -, -⟩ := laid_program hs hl
    have hts := tokensOf_render hwritten
    refine ⟨.inr htells.trimmedText, fun above line below line' below' h h' => htells.apart h h',
      fun above line below h => ?_, ?_, fun above line below h hblank => ?_⟩
    · rcases htells.laidLine h with ⟨rfl, -⟩ | ⟨-, hlast⟩
      · simp
      · exact hlast
    · have hruns := runs_programPieces hl hne false
      rw [← snd_tokensAt]
      exact hts.kind_of_newline fun word hword => (isPlain_iff.1 (hruns.isPlain_of_mem hword)).2.2
    · rcases htells.laidLine h with ⟨rfl, -⟩ | ⟨hindented, -⟩
      · exact absurd (by simp [IsBlankLine]) hblank
      · exact hindented.blocksOpen hts

theorem legibleAll_iff {ss : List (Stmt Unit)} : Stmt.LegibleAll ss ↔ ∀ s ∈ ss, s.Legible := by
  induction ss with
  | nil => simp [Stmt.LegibleAll]
  | cons s ss ih => rw [Stmt.LegibleAll, ih, List.forall_mem_cons]

theorem trimmedText_format {α : Type} {program : List (Stmt α)} (hne : program ≠ [])
    (hl : ∀ s ∈ program, s.erase.Legible) : TrimmedText (format program).toList := by
  rw [← format_erase]
  have hall : Stmt.LegibleAll (program.map Stmt.erase) := legibleAll_iff.2 (by simpa using hl)
  exact (tells_programPieces hall (by simpa using hne)).trimmedText

theorem render_append (first rest : List Piece) :
    render (first ++ rest) = render first ++ render rest := by
  rw [← String.toList_inj, String.toList_append]
  exact chars_append first rest

theorem format_append {α : Type} (first : List (Stmt α)) (s t : Stmt α) (rest : List (Stmt α)) :
    format (first ++ s :: t :: rest) =
      format (first ++ [s]) ++ (if s.isFunction || t.isFunction then "\n" else "") ++
        format (t :: rest) := by
  have hgap : render (gapPieces s t) = if s.isFunction || t.isFunction then "\n" else "" := by
    rw [gapPieces]
    split <;> rfl
  rw [format, programPieces_append, render_append, render_append, hgap, format, format,
    String.append_assoc]

/-- The layout of the canonical text of what is kept of any text.

* It is empty, or its first line is not blank and one line break ends it.  Of two lines, one
  below the other, one is not blank, and no line ends with a blank.
* No literal holds a line break.  A line that is not blank starts with four blanks for every
  block that is open where its first word stands; a brace that closes a block is counted as
  closed there.
* Wherever the program is cut between two statements, the text is cut into theirs, of which the
  first ends with one line break and the second starts with a line that is not blank; between
  them stands one empty line if one of the two statements is a function, and none otherwise. -/
theorem format_layout (source : String) :
    LaidOut (format (parse source).program) ∧
      ∀ first s t rest, (parse source).program = first ++ s :: t :: rest →
        format (parse source).program =
            format (first ++ [s]) ++ (if s.isFunction || t.isFunction then "\n" else "") ++
              format (t :: rest) ∧
          TrimmedText (format (first ++ [s])).toList ∧ TrimmedText (format (t :: rest)).toList := by
  obtain ⟨trees, htrees, hshaped, hlegible⟩ := parse_sound source
  have hkept : (parse source).program.map Stmt.erase = trees := htrees.stmtsOf
  refine ⟨?_, fun first s t rest hsplit => ?_⟩
  · rw [← format_erase, hkept]
    exact laidOut_format hshaped hlegible
  · rw [hsplit] at hkept ⊢
    have hall : ∀ u ∈ first ++ s :: t :: rest, u.erase.Legible := fun u hu =>
      legibleAll_iff.1 hlegible _ (hkept ▸ List.mem_map_of_mem hu)
    refine ⟨format_append first s t rest, trimmedText_format (by simp) fun u hu => ?_,
      trimmedText_format (by simp) fun u hu => ?_⟩
    · refine hall u ?_
      simp only [List.mem_append, List.mem_cons] at hu ⊢
      tauto
    · exact hall u (List.mem_append_right _ (List.mem_cons_of_mem _ hu))

/-- A statement that goes on with its line after a block, and a function next to it. -/
example : format (parse "if(a)\x7bx;\x7delse if(b)\x7b\x7delse y;fun f()\x7b\x7d").program =
    "if (a) \x7b\n    x;\n\x7d else if (b) \x7b\x7d else y;\n\nfun f() \x7b\x7d\n" := by
  decide +kernel

end Scriptorium
