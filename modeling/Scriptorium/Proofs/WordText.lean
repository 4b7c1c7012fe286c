import Scriptorium.Layout.Source
import Scriptorium.Proofs.Scanning
import Scriptorium.Proofs.TokenEnds

/-!
# The text of a word

A word that is written down is found again by the scanner if what comes after it does
not run on: `-` and `x` may touch, `=` and `=` may not.  `Reads` says that the scanner
finds a word at the start of a text, and each kind of word has a theorem that says which
text to write and what may follow it.

* `Reads.punct`, `Reads.symbol`, `Reads.keyword`, `Reads.int`, `Reads.string`;
* `Written`, `tokenize_render` — a layout whose pieces are read one after the other has
  the words of its pieces.
-/

namespace Scriptorium

variable {size : Nat}

/-! ## Gaps -/

/-- The characters before a gap count towards its length, and that is all. -/
theorem gapFrom_add {tables : Tables} (fuel count k : Nat) (text : List Char) :
    gapFrom tables fuel (count + k) text =
      ⟨(gapFrom tables fuel count text).length + k, (gapFrom tables fuel count text).unclosed⟩ := by
  induction fuel generalizing count text with
  | zero => rfl
  | succ fuel ih =>
    simp only [gapFrom, Nat.add_right_comm count k, Nat.add_right_comm _ k]
    split
    · exact ih _ _
    split
    · rfl
    split
    · rfl
    · exact ih _ _

theorem gap_cons_of_isBlank {tables : Tables} {c : Char} (hc : isBlank c = true)
    (hsize : 0 < size) (text : List Char) :
    gap tables size (c :: text) =
      ⟨(gap tables size text).length + 1, (gap tables size text).unclosed⟩ := by
  obtain ⟨fuel, rfl⟩ : ∃ f, size = f + 1 := ⟨size - 1, by omega⟩
  rw [gap, gap, ← gapFrom_add, gapFrom, gapFrom]
  simp only [List.takeWhile_cons_of_pos hc, List.length_cons, List.drop_succ_cons]
  rw [show 0 + ((text.takeWhile isBlank).length + 1) = 0 + 1 + (text.takeWhile isBlank).length by
    omega]

/-- A blank makes no difference to what is scanned. -/
theorem Scans.blank {tables : Tables} {text : List Char} {ws : List Word} {c : Char}
    (h : Scans tables size text ws) (hc : isBlank c = true) (hsize : 0 < size) :
    Scans tables size (c :: text) ws := by
  have hgap : gap tables size (c :: text) = _ := gap_cons_of_isBlank hc hsize text
  cases h with
  | ends hg hnil =>
    rw [hg] at hgap
    exact .ends hgap hnil
  | unclosed hg hne hw hws =>
    rw [hg] at hgap
    exact .unclosed hgap hne hw hws
  | word hg hfound hne hc hw hws =>
    rw [hg] at hgap
    exact .word hgap hfound hne hc hw hws

theorem Scans.blanks {tables : Tables} {text : List Char} {ws : List Word}
    (h : Scans tables size text ws) (hsize : 0 < size) (n : Nat) :
    Scans tables size (List.replicate n ' ' ++ text) ws := by
  induction n with
  | zero => exact h
  | succ n ih => exact ih.blank rfl hsize

/-! ## Reading a word -/

/-- Before the text `after`, the scanner reads `written` as the word, and finds no gap
in front of it. -/
def Reads (w : Word) (written after : List Char) : Prop :=
  written ≠ [] ∧ (∀ size, gap .quill size (written ++ after) = ⟨0, false⟩) ∧
    ∃ kind, classify .quill (written ++ after) = (kind, written.length) ∧
      .read kind (String.ofList written) = w

theorem Reads.scans {w : Word} {written after : List Char} {ws : List Word}
    (h : Reads w written after) (hws : Scans .quill size after ws) :
    Scans .quill size (written ++ after) (w :: ws) := by
  obtain ⟨hne, hgap, kind, hc, rfl⟩ := h
  refine .word (hgap size) rfl ?_ hc ?_ ?_
  · simp [hne]
  · simp
  · simpa using hws

/-- A text that starts with neither a blank nor a comment has no gap at its start. -/
theorem gap_of_solid {text : List Char} (hblank : text.takeWhile isBlank = [])
    (hline : Tables.quill.startsLineComment text = false)
    (hblock : Tables.quill.matchBlockComment? text = none) (size : Nat) :
    gap .quill size text = ⟨0, false⟩ := by
  cases size with
  | zero => rfl
  | succ size => simp [gap, gapFrom, hblank, hline, hblock]

theorem gap_cons {c : Char} (hc : isBlank c = false) (hslash : c ≠ '/') (rest : List Char)
    (size : Nat) : gap .quill size (c :: rest) = ⟨0, false⟩ := by
  refine gap_of_solid (List.takeWhile_cons_of_neg (by simp [hc])) ?_ ?_ size
  · simp [Tables.startsLineComment, Tables.quill, startsWithMark, List.isPrefixOf, hslash.symm]
  · simp [Tables.matchBlockComment?, Tables.quill, startsWithMark, List.isPrefixOf, hslash.symm]

theorem Reads.newline (after : List Char) : Reads .newline ['\n'] after :=
  ⟨by simp, gap_cons rfl (by decide) after, .newline, rfl, rfl⟩

/-! ## Marks -/

/-- Only a slash can start a comment. -/
theorem gap_punct {mark : String} (h : mark ∈ Tables.quill.puncts) {after : List Char}
    (hafter : EndsMark after) (size : Nat) :
    gap .quill size (mark.toList ++ after) = ⟨0, false⟩ := by
  have hcases : ∀ mark ∈ Tables.quill.puncts, mark.toList = ['/'] ∨
      mark.toList.head?.any (fun c => !isBlank c && c != '/') = true := by decide
  rcases hcases mark h with hslash | hother
  · rw [hslash]
    cases after with
    | nil => exact gap_of_solid rfl rfl rfl size
    | cons d ds =>
      obtain ⟨-, hd, hd'⟩ := hafter d rfl
      refine gap_of_solid rfl ?_ ?_ size
      · simp [Tables.startsLineComment, Tables.quill, startsWithMark, List.isPrefixOf, hd.symm]
      · simp [Tables.matchBlockComment?, Tables.quill, startsWithMark, List.isPrefixOf, hd'.symm]
  · obtain ⟨c, hc, hother⟩ := (Option.any_eq_true _ _).1 hother
    simp only [Bool.and_eq_true, Bool.not_eq_true', bne_iff_ne] at hother
    obtain ⟨hblank, hne⟩ := hother
    obtain ⟨cs, hcs⟩ := List.head?_eq_some_iff.1 hc
    rw [hcs]
    exact gap_cons hblank hne _ size

theorem Reads.punct {mark : String} (h : mark ∈ Tables.quill.puncts) {after : List Char}
    (hafter : EndsMark after) : Reads (.punct mark) mark.toList after := by
  have hne : ∀ mark ∈ Tables.quill.puncts, mark.toList ≠ [] ∧ mark.toList.head? ≠ some '\n' := by
    decide
  obtain ⟨hne, hnl⟩ := hne mark h
  have hrule : TokenRule .quill .punct mark.toList after := by
    refine .punct ?_ (firstMark_append h hafter)
    rwa [head?_append_congr hne [], List.append_nil]
  refine ⟨hne, gap_punct h hafter, .punct, hrule.classify, ?_⟩
  rw [String.ofList_toList]
  rfl

/-! ## Words, numbers and literals -/

theorem gap_of_isWordChar {c : Char} (hc : isWordChar c = true) (rest : List Char) (size : Nat) :
    gap .quill size (c :: rest) = ⟨0, false⟩ :=
  gap_cons (ne_of_isWordChar hc).1 (ne_of_isWordChar hc).2.1 rest size

theorem Reads.ofWord {name : String} {kind : TokenKind} {after : List Char}
    (hname : ∃ c cs, name.toList = c :: cs ∧ isWordStart c = true ∧ ∀ d ∈ cs, isWordChar d = true)
    (hkind : kind = if name ∈ Tables.quill.keywords then .keyword else .symbol)
    (hafter : EndsWord after) : Reads ⟨kind, name⟩ name.toList after := by
  obtain ⟨c, cs, hcs, hc, hall⟩ := hname
  have hstart := isWordChar_of_isWordStart hc
  have hword : WordRun (c :: cs) after := .ofCons hc hall hafter.2
  refine ⟨by simp [hcs], ?_, kind, ?_, ?_⟩
  · rw [hcs]
    exact gap_of_isWordChar hstart _
  · rw [hcs, hword.classify hword.noMark, ← hcs, String.ofList_toList, hkind]
  · rw [hkind, String.ofList_toList]
    split <;> rfl

theorem Reads.symbol {name : String} (h : IsIdentifier name) {after : List Char}
    (hafter : EndsWord after) : Reads (.symbol name) name.toList after :=
  .ofWord h.1 (by rw [if_neg h.2]) hafter

theorem Reads.keyword {name : String} (h : name ∈ Tables.quill.keywords) {after : List Char}
    (hafter : EndsWord after) : Reads (.keyword name) name.toList after := by
  have hwords : ∀ name ∈ Tables.quill.keywords, ∃ c cs, name.toList = c :: cs ∧
      isWordStart c = true ∧ ∀ d ∈ cs, isWordChar d = true := by
    intro name h
    simp only [Tables.quill, List.mem_cons, List.not_mem_nil, or_false] at h
    rcases h with rfl | rfl | rfl | rfl | rfl | rfl | rfl | rfl | rfl | rfl | rfl <;>
    exact ⟨_, _, rfl, by decide, List.all_eq_true.1 (by decide)⟩
  exact .ofWord (hwords name h) (by rw [if_pos h]) hafter

theorem digitsValue_toString (n : Nat) : digitsValue (toString n).toList = n := by
  rw [Nat.toString_eq_repr, Nat.toList_repr]
  exact Nat.ofDigitChars_ten_toDigits

theorem isDigit_of_mem_toString {n : Nat} {c : Char} (h : c ∈ (toString n).toList) :
    c.isDigit = true := by
  rw [Nat.toString_eq_repr, Nat.toList_repr] at h
  exact Nat.isDigit_of_mem_toDigits (by decide) (by decide) h

theorem toString_toList_ne_nil (n : Nat) : (toString n).toList ≠ [] := by
  rw [Nat.toString_eq_repr, Nat.toList_repr]
  exact Nat.toDigits_ne_nil

theorem Reads.int {value : Nat} (h : value ≤ maxLiteral) {after : List Char}
    (hafter : EndsWord after) : Reads ⟨.int value, ""⟩ (toString value).toList after := by
  have hrun : DigitRun (toString value).toList after := by
    refine ⟨toString_toList_ne_nil value, fun c => isDigit_of_mem_toString, fun c hc => ?_⟩
    rw [Bool.eq_false_iff]
    intro hd
    exact absurd (hafter.2 c hc) (by rw [isWordChar_of_isDigit hd]; simp)
  obtain ⟨c, cs, hcs, hword⟩ := hrun.exists_cons
  refine ⟨hrun.ne_nil, ?_, .int value, ?_, rfl⟩
  · rw [hcs]
    exact gap_of_isWordChar hword _
  · rw [hrun.classify hrun.noMark, digitsValue_toString, if_pos h]

/-! ## String literals -/

/-- A character is written with a backslash that `unescape` takes off, or as it is. -/
theorem escapeChar_cases (c : Char) :
    (∃ d, escapeChar c = ['\\', d] ∧
      ∀ rest, unescape ('\\' :: d :: rest) = c :: unescape rest) ∨
    (escapeChar c = [c] ∧ c ≠ '"' ∧ c ≠ '\\') := by
  unfold escapeChar
  split
  · exact .inl ⟨_, rfl, fun _ => rfl⟩
  · exact .inl ⟨_, rfl, fun _ => rfl⟩
  · exact .inl ⟨_, rfl, fun _ => rfl⟩
  · exact .inl ⟨_, rfl, fun _ => rfl⟩
  · exact .inl ⟨_, rfl, fun _ => rfl⟩
  · exact .inl ⟨_, rfl, fun _ => rfl⟩
  · next hquote hbackslash _ _ _ _ => exact .inr ⟨rfl, hquote, hbackslash⟩

/-- The quotes of a text are escaped in its literal. -/
theorem escaped_flatMap_escapeChar (cs : List Char) : Escaped (cs.flatMap escapeChar) := by
  induction cs with
  | nil => exact .nil
  | cons c cs ih =>
    rw [List.flatMap_cons]
    rcases escapeChar_cases c with ⟨d, hd, -⟩ | ⟨hc, hquote, hbackslash⟩
    · rw [hd]
      exact .pair ih
    · rw [hc]
      exact .plain hquote hbackslash ih

theorem unescape_flatMap_escapeChar (cs : List Char) : unescape (cs.flatMap escapeChar) = cs := by
  induction cs with
  | nil => rfl
  | cons c cs ih =>
    rw [List.flatMap_cons]
    rcases escapeChar_cases c with ⟨d, hd, hunescape⟩ | ⟨hc, -, hbackslash⟩
    · rw [hd, List.cons_append, List.singleton_append, hunescape, ih]
    · rw [hc, List.singleton_append, unescape.eq_7, ih]
      all_goals simp [hbackslash]

/-- A text can be read off its literal. -/
theorem cook_quote (text : String) : cook (quote text) = text := by
  have : stripClosingQuote (text.toList.flatMap escapeChar ++ ['"']) =
      text.toList.flatMap escapeChar := by
    rw [stripClosingQuote, if_pos (by simp), List.dropLast_concat]
  rw [cook, quote, String.toList_ofList, cookChars, quoteChars]
  show String.ofList (unescape (stripClosingQuote (_ ++ ['"']))) = text
  rw [this, unescape_flatMap_escapeChar, String.ofList_toList]

theorem toList_quote (text : String) :
    (quote text).toList = '"' :: (text.toList.flatMap escapeChar ++ ['"']) :=
  String.toList_ofList

/-- The literal of a text is found whole. -/
theorem rule_quote (text : String) (after : List Char) :
    TokenRule .quill .string (quote text).toList after := by
  rw [toList_quote]
  exact .string (noMark_cons (.inr rfl) _) (escaped_flatMap_escapeChar _)

theorem Reads.string (text : String) (after : List Char) :
    Reads ⟨.string, text⟩ (quote text).toList after := by
  refine ⟨by simp [toList_quote], ?_, .string, (rule_quote text after).classify, ?_⟩
  · rw [toList_quote]
    exact gap_cons rfl (by decide) _
  · rw [String.ofList_toList, Word.read, cook_quote]

/-! ## Layouts -/

/-- The characters of a layout. -/
def chars (pieces : List Piece) : List Char := (render pieces).toList

@[simp] theorem chars_cons (piece : Piece) (pieces : List Piece) :
    chars (piece :: pieces) = piece.written.toList ++ chars pieces := by
  rw [chars, render, List.map_cons, String.join_cons, String.toList_append]
  rfl

/-- The pieces are read one after the other, with these words. -/
inductive Written : List Piece → List Word → Prop where
  /-- Nothing. -/
  | nil : Written [] []
  /-- A word. -/
  | text {text : String} {w : Word} {pieces : List Piece} {ws : List Word} :
      Reads w text.toList (chars pieces) → Written pieces ws →
      Written (.text text :: pieces) (w :: ws)
  /-- A line break. -/
  | newline {pieces : List Piece} {ws : List Word} :
      Written pieces ws → Written (.newline :: pieces) (.newline :: ws)
  /-- A blank. -/
  | space {pieces : List Piece} {ws : List Word} :
      Written pieces ws → Written (.space :: pieces) ws
  /-- The blanks at the start of a line. -/
  | indent {level width : Nat} {pieces : List Piece} {ws : List Word} :
      Written pieces ws → Written (.indent level width :: pieces) ws

theorem Written.scans {pieces : List Piece} {ws : List Word} (h : Written pieces ws)
    (hsize : 0 < size) : Scans .quill size (chars pieces) (ws ++ [.endOfInput]) := by
  induction h with
  | nil => exact .ends (gap_of_solid rfl rfl rfl size) rfl
  | text hr _ ih =>
    rw [chars_cons]
    exact hr.scans ih
  | newline _ ih =>
    rw [chars_cons]
    exact (Reads.newline _).scans ih
  | space _ ih =>
    rw [chars_cons]
    exact ih.blank rfl hsize
  | indent _ ih =>
    rw [chars_cons, Piece.written, String.toList_ofList]
    exact ih.blanks hsize _

/-- A layout without characters has no words. -/
theorem Written.eq_nil {pieces : List Piece} {ws : List Word} (h : Written pieces ws)
    (hchars : chars pieces = []) : ws = [] := by
  induction h with
  | nil => rfl
  | text hr _ _ =>
    rw [chars_cons, List.append_eq_nil_iff] at hchars
    exact absurd hchars.1 hr.1
  | newline => simp [Piece.written] at hchars
  | space => simp [Piece.written] at hchars
  | indent _ ih =>
    rw [chars_cons, List.append_eq_nil_iff] at hchars
    exact ih hchars.2

/-- The words of a layout are those of its pieces. -/
theorem tokenize_render {pieces : List Piece} {ws : List Word} (h : Written pieces ws) :
    (tokenize .quill (render pieces)).map Token.word = ws ++ [.endOfInput] := by
  refine map_tokenize ?_
  by_cases hsize : 0 < (render pieces).length
  · exact h.scans hsize
  · have hnil : chars pieces = [] := by
      rw [chars, ← List.length_eq_zero_iff, String.length_toList]
      omega
    rw [h.eq_nil hnil, show (render pieces).toList = [] from hnil]
    exact .ends (gap_of_solid rfl rfl rfl _) rfl

end Scriptorium
