import Scriptorium.Proofs.LocalScanning

/-!
# Tokens with blanks between them

The tokens of a text, written down again with a blank between any two, are the tokens of what
was written: a blank ends a mark, a number and a word, no token starts with one, and what goes
on to the end of the text, an open literal or an open comment, is the last token.

* `GapEnd.gap_eq` — the scanner passes blanks up to where a gap ends;
* `spaced`, `exists_spaced_cons` — the text that is written, and its first token;
* `Scanner.Fit`, `Scanner.collect_spaced` — the induction on what the scanner of the first
  text collects;
* `tokenize_spaced` — the tokens of that text.
-/

namespace Scriptorium

/-! ## Blanks in front of a token -/

/-- The scanner passes blanks up to where a gap ends. -/
theorem GapEnd.gap_eq {tables : Tables} {unclosed : Bool} {lead text : List Char} {size : Nat}
    (h : GapEnd tables unclosed text) (hlead : ∀ c ∈ lead, isBlank c = true)
    (hsize : (lead ++ text).length ≤ size) :
    gap tables size (lead ++ text) = ⟨lead.length, unclosed⟩ := by
  induction lead with
  | nil =>
    rw [List.nil_append] at hsize ⊢
    cases size with
    | zero =>
      obtain rfl := List.length_eq_zero_iff.1 (Nat.le_zero.1 hsize)
      cases unclosed with
      | false => rfl
      | true =>
        -- a comment does not start where nothing is left
        obtain ⟨opener, closer, hblock, -⟩ := h.opened rfl
        rw [gapEnd_nil.closed rfl] at hblock
        cases hblock
    | succ size =>
      rw [gap, gapFrom]
      simp only [h.blanks, List.length_nil, List.drop_zero, h.line]
      cases unclosed with
      | false => simp [h.closed rfl]
      | true =>
        obtain ⟨opener, closer, hblock, hopen⟩ := h.opened rfl
        simp [hblock, hopen]
  | cons c lead ih =>
    rw [List.forall_mem_cons] at hlead
    rw [List.cons_append, List.length_cons] at hsize
    rw [List.cons_append, gap_cons_of_isBlank hlead.1 (by omega), ih hlead.2 (by omega),
      List.length_cons]

/-! ## The text -/

/-- The kind of a token and its text. -/
def Token.form (t : Token) : TokenKind × String := (t.kind, t.lexeme)

/-- The texts of the tokens, the end apart, with a blank between any two. -/
def spaced (tokens : List Token) : String :=
  " ".intercalate ((tokens.filter fun t => !t.isEnd).map Token.lexeme)

theorem toList_spaced_of_end {tokens : List Token} (h : ∀ t ∈ tokens, t.isEnd = true) :
    (spaced tokens).toList = [] := by
  have hnil : tokens.filter (fun t => !t.isEnd) = [] := by simpa using h
  rw [spaced, hnil]
  rfl

/-- After the first token comes nothing, or a blank and what is written of the others. -/
theorem exists_spaced_cons {t : Token} (ht : t.isEnd = false) (tokens : List Token) :
    ∃ lead, (∀ c ∈ lead, isBlank c = true) ∧ EndsWord (lead ++ (spaced tokens).toList) ∧
      (spaced (t :: tokens)).toList = t.lexeme.toList ++ (lead ++ (spaced tokens).toList) ∧
      ((∀ u ∈ tokens, u.isEnd = true) → lead ++ (spaced tokens).toList = []) := by
  have hcons : (t :: tokens).filter (fun t => !t.isEnd) =
      t :: tokens.filter (fun t => !t.isEnd) := List.filter_cons_of_pos (by simp [ht])
  cases hrest : tokens.filter (fun t => !t.isEnd) with
  | nil =>
    have hend : ∀ u ∈ tokens, u.isEnd = true := by simpa using hrest
    have hnil := toList_spaced_of_end hend
    refine ⟨[], by simp, ?_, ?_, fun _ => by simp [hnil]⟩
    · rw [hnil]
      exact endsWord_nil
    · rw [hnil, spaced, hcons, hrest]
      simp
  | cons u us =>
    refine ⟨[' '], by simp [isBlank], endsWord_cons (by decide) (by decide) _, ?_, fun hend => ?_⟩
    · simp only [spaced, hcons, hrest, String.toList_intercalate, List.map_cons,
        List.intercalate_cons_cons, List.append_assoc]
      rfl
    · have hu : u ∈ tokens.filter (fun t => !t.isEnd) := by simp [hrest]
      obtain ⟨hmem, hsolid⟩ := List.mem_filter.1 hu
      rw [hend u hmem] at hsolid
      cases hsolid

/-! ## The two scanners -/

namespace Scanner

/-- The scanner reads with the tables of the language, and there is fuel enough for its text. -/
structure Fit (s : Scanner) (fuel : Nat) : Prop where
  tables : s.tables = .quill
  size : s.text.length ≤ s.size
  fuel : s.text.length ≤ fuel

variable {s c d : Scanner} {fuel fuel' : Nat}

theorem Fit.advance (h : s.Fit (fuel + 1)) (hend : s.next.1.isEnd = false) :
    s.next.2.Fit fuel := by
  have hshorter := length_next_lt hend
  obtain ⟨hquill, hsize, hfuel⟩ := h
  obtain ⟨kind, gap, word, htakes⟩ := s.exists_takesOff
  exact ⟨htakes.tables.trans hquill, by rw [s.size_next]; omega, by omega⟩

/-- Where no text is left, the end is. -/
theorem isEnd_next_of_nil (h : s.text = []) : s.next.1.isEnd = true := by
  by_contra hend
  have hshorter := length_next_lt (Bool.eq_false_iff.2 hend)
  rw [h] at hshorter
  cases hshorter

theorem form_of_isEnd (h : s.next.1.isEnd = true) : s.next.1.form = (.endOfInput, "") := by
  obtain ⟨kind, gap, word, htakes⟩ := s.exists_takesOff
  rw [htakes.token] at h ⊢
  obtain rfl : kind = .endOfInput := by simpa [Token.isEnd, Place.token] using h
  obtain ⟨rfl, -⟩ := htakes.ends rfl
  rfl

/-- The scanner takes a token off that comes after blanks. -/
theorem next_spaced {lead word rest : List Char} {kind : TokenKind} {unclosed : Bool}
    (hsize : s.text.length ≤ s.size) (htext : s.text = lead ++ (word ++ rest))
    (hlead : ∀ c ∈ lead, isBlank c = true) (hgap : GapEnd s.tables unclosed (word ++ rest))
    (hfound : unclosed = false → classify s.tables (word ++ rest) = (kind, word.length))
    (hopen : unclosed = true → kind = .invalid .unterminatedComment ∧ rest = []) :
    s.next.1.form = (kind, String.ofList word) ∧ s.next.2.text = rest := by
  have hpass : gap s.tables s.size s.text = ⟨lead.length, unclosed⟩ := by
    rw [htext] at hsize ⊢
    exact hgap.gap_eq hlead hsize
  cases unclosed with
  | false =>
    rw [next_found htext hpass (hfound rfl), List.take_left, List.drop_left]
    exact ⟨rfl, rfl⟩
  | true =>
    obtain ⟨rfl, rfl⟩ := hopen rfl
    rw [next_open htext hpass, List.append_nil]
    exact ⟨rfl, rfl⟩

/-- A token that stands after blanks, in front of something that ends a word, is found again. -/
theorem next_again_spaced {lead rest : List Char} (hc : c.Fit fuel) (hd : d.Fit fuel')
    (hend : c.next.1.isEnd = false)
    (htext : d.text = lead ++ (c.next.1.lexeme.toList ++ rest))
    (hlead : ∀ c ∈ lead, isBlank c = true) (hends : EndsWord rest)
    (hlast : c.next.2.text = [] → rest = []) :
    d.next.1.form = c.next.1.form ∧ d.next.2.text = rest := by
  obtain ⟨kind, gap, word, htakes⟩ := c.exists_takesOff
  rw [htakes.token] at htext hend ⊢
  rw [Place.token, String.toList_ofList] at htext
  have hkind : kind ≠ .endOfInput := by simpa [Token.isEnd, Place.token] using hend
  have hcquill : c.tables.CommentsAdvance := hc.tables ▸ Tables.commentsAdvance_quill
  rcases htakes.cases with ⟨rfl, hnil, hgap⟩ | ⟨hgap, hclass⟩
  · have hgapEnd := htakes.gapEnd hcquill hc.size hgap
    obtain rfl := hlast hnil
    rw [hnil, hc.tables, ← hd.tables] at hgapEnd
    exact next_spaced hd.size htext hlead hgapEnd (by simp) fun _ => ⟨rfl, rfl⟩
  · have hgapEnd := htakes.gapEnd hcquill hc.size hgap
    have hword := htakes.takes hkind
    have hrule := tokenRule_iff.2 ⟨hword, hclass⟩
    rw [hc.tables] at hgapEnd hrule
    have hrule' : TokenRule .quill kind word rest := by
      refine hrule.congr (.inr hends) ?_
      rintro rfl
      exact hlast hrule.eq_nil_of_open
    have hgapEnd' : GapEnd .quill false (word ++ rest) :=
      solid_iff_gapEnd.1 ((solid_iff_gapEnd.2 hgapEnd).congr hword (.inr hends))
    rw [← hd.tables] at hgapEnd' hrule'
    exact next_spaced hd.size htext hlead hgapEnd' (fun _ => hrule'.classify) (by simp)

theorem collect_spaced_end {lead : List Char} (hd : d.Fit fuel')
    (hlead : ∀ c ∈ lead, isBlank c = true) (hend : c.next.1.isEnd = true)
    (htext : d.text = lead ++ (spaced (c.collect fuel [])).toList) :
    (d.collect fuel' []).map Token.form = (c.collect fuel []).map Token.form := by
  have hone : c.collect fuel [] = [c.next.1] := collect_of_isEnd hend fuel []
  have hblank : d.text = lead ++ ([] ++ []) := by
    rw [htext, hone, toList_spaced_of_end (by simpa using hend)]
    rfl
  obtain ⟨hform, -⟩ := next_spaced hd.size hblank hlead gapEnd_nil (fun _ => rfl) (by simp)
  have hdend : d.next.1.isEnd = true := beq_iff_eq.2 (congrArg Prod.fst hform)
  rw [hone, collect_of_isEnd hdend]
  simp only [List.reverse_singleton, List.map_singleton, form_of_isEnd hend, form_of_isEnd hdend]

/-- A scanner that reads what is written of the tokens of another one, perhaps after blanks,
collects them again. -/
theorem collect_spaced {lead : List Char} (hc : c.Fit fuel) (hd : d.Fit fuel')
    (hlead : ∀ c ∈ lead, isBlank c = true)
    (htext : d.text = lead ++ (spaced (c.collect fuel [])).toList) :
    (d.collect fuel' []).map Token.form = (c.collect fuel []).map Token.form := by
  induction fuel generalizing c d fuel' lead with
  | zero =>
    have hend := isEnd_next_of_nil (List.length_eq_zero_iff.1 (Nat.le_zero.1 hc.fuel))
    exact collect_spaced_end hd hlead hend htext
  | succ fuel ih =>
    by_cases hend : c.next.1.isEnd = true
    · exact collect_spaced_end hd hlead hend htext
    rw [Bool.not_eq_true] at hend
    rw [collect_cons hend] at htext ⊢
    obtain ⟨lead', hlead', hends, hsplit, hlast⟩ := exists_spaced_cons hend (c.next.2.collect fuel [])
    have hnothing : c.next.2.text = [] →
        lead' ++ (spaced (c.next.2.collect fuel [])).toList = [] := by
      intro hnil
      have hcend := isEnd_next_of_nil hnil
      refine hlast ?_
      rw [collect_of_isEnd hcend]
      simpa using hcend
    rw [hsplit] at htext
    obtain ⟨hform, hrest⟩ := next_again_spaced hc hd hend htext hlead hends hnothing
    have hdend : d.next.1.isEnd = false := by
      have hkind : d.next.1.kind = c.next.1.kind := congrArg Prod.fst hform
      rw [Token.isEnd, hkind]
      exact hend
    have hshorter := length_next_lt hdend
    obtain ⟨fuel', rfl⟩ : ∃ k, fuel' = k + 1 := ⟨fuel' - 1, by have := hd.fuel; omega⟩
    rw [collect_cons hdend, List.map_cons, List.map_cons, hform,
      ih (hc.advance hend) (hd.advance hdend) hlead' hrest]

end Scanner

/-- The tokens of a text, written down with a blank between any two, are scanned as the same
tokens. -/
theorem tokenize_spaced (source : String) :
    (tokenize .quill (spaced (tokenize .quill source))).map Token.form =
      (tokenize .quill source).map Token.form := by
  have hfit (text : String) : (Scanner.start .quill text).Fit (Scanner.start .quill text).size :=
    ⟨rfl, String.length_toList.le, String.length_toList.le⟩
  have hlead : ∀ c ∈ ([] : List Char), isBlank c = true := by simp
  exact Scanner.collect_spaced (hfit source) (hfit _) hlead rfl

/-- Marks that would make another mark or a comment if they touched. -/
example : spaced (tokenize .quill "= =/ /1a /*") = "= = / / 1 a /*" := by decide +kernel

end Scriptorium
