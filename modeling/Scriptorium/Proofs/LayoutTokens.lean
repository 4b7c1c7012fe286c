import Scriptorium.Proofs.ScannerMoves
import Scriptorium.Proofs.SpacedTexts

/-!
# The tokens of a layout

The text of a layout has a token for every word and for every line break, in the order of the
pieces, and each starts where its piece is written.  So it can be told from the tokens which
braces stand before a word.  A layout may be longer than spans reach, so the offsets are kept
next to the tokens.

* `tokensAt`, `snd_tokensAt`, `start_of_mem_tokensAt` — the tokens of a text with their offsets;
* `TokensOf` — the tokens of pieces that are written from an offset on;
* `Scanner.tokensOf_collectAt`, `tokensOf_render` — the scanner finds them;
* `TokensOf.append` — the tokens of the first pieces come first;
* `TokensOf.countP_brace` — the braces before a word;
* `TokensOf.kind_of_newline` — which tokens hold line breaks.
-/

namespace Scriptorium

/-! ## Tokens and their offsets -/

namespace Scanner

/-- The offset at which the next token starts. -/
def nextOffset (s : Scanner) : Nat := (s.skip (gap s.tables s.size s.text).length).place.offset

/-- Collects the tokens up to the end token, each with the offset at which it starts. -/
def collectAt : (fuel : Nat) → Scanner → List (Nat × Token)
  | 0, s => [(s.nextOffset, s.next.1)]
  | fuel + 1, s =>
      (s.nextOffset, s.next.1) :: if s.next.1.isEnd then [] else s.next.2.collectAt fuel

variable {s : Scanner} {fuel : Nat}

theorem collectAt_of_isEnd (h : s.next.1.isEnd = true) (fuel : Nat) :
    s.collectAt fuel = [(s.nextOffset, s.next.1)] := by
  cases fuel <;> simp [collectAt, h]

theorem collectAt_cons (h : s.next.1.isEnd = false) (fuel : Nat) :
    s.collectAt (fuel + 1) = (s.nextOffset, s.next.1) :: s.next.2.collectAt fuel := by
  simp [collectAt, h]

theorem snd_collectAt (s : Scanner) (fuel : Nat) :
    (s.collectAt fuel).map Prod.snd = s.collect fuel [] := by
  induction fuel generalizing s with
  | zero => rfl
  | succ fuel ih =>
    by_cases hend : s.next.1.isEnd = true
    · rw [collectAt_of_isEnd hend, collect_of_isEnd hend]
      rfl
    · rw [Bool.not_eq_true] at hend
      rw [collectAt_cons hend, collect_cons hend, List.map_cons, ih]

/-- Spans tell the offset as far as they reach. -/
theorem start_next (s : Scanner) : s.next.1.span.start = min s.nextOffset Span.maxOffset := by
  unfold next
  dsimp only
  split <;> rfl

theorem start_of_mem_collectAt {p : Nat × Token} (h : p ∈ s.collectAt fuel) :
    p.2.span.start = min p.1 Span.maxOffset := by
  induction fuel generalizing s with
  | zero =>
    rw [List.mem_singleton.1 h]
    exact s.start_next
  | succ fuel ih =>
    rcases List.mem_cons.1 h with rfl | h
    · exact s.start_next
    · split at h
      · cases h
      · exact ih h

end Scanner

/-- The tokens of a text, each with the offset at which it starts. -/
def tokensAt (tables : Tables) (source : String) : List (Nat × Token) :=
  (Scanner.start tables source).collectAt source.length

theorem snd_tokensAt (tables : Tables) (source : String) :
    (tokensAt tables source).map Prod.snd = tokenize tables source :=
  Scanner.snd_collectAt _ _

theorem start_of_mem_tokensAt {tables : Tables} {source : String} {p : Nat × Token}
    (h : p ∈ tokensAt tables source) : p.2.span.start = min p.1 Span.maxOffset :=
  Scanner.start_of_mem_collectAt h

namespace Scanner

variable {s : Scanner} {fuel : Nat}

theorem Fit.skip (h : s.Fit fuel) (n : Nat) : (s.skip n).Fit fuel := by
  have hlength : (s.skip n).text.length = s.text.length - n := List.length_drop
  exact ⟨h.tables, by rw [hlength]; exact (Nat.sub_le _ _).trans h.size,
    by rw [hlength]; exact (Nat.sub_le _ _).trans h.fuel⟩

/-- A blank in front of a token makes no difference. -/
theorem next_blank {c : Char} {text : List Char} (hc : isBlank c = true)
    (htext : s.text = c :: text) (hsize : 0 < s.size) : s.next = (s.skip 1).next := by
  have hskip : s.skip 1 = { s with text := text, place := s.place.advance [c] } := by
    rw [skip, htext]
    rfl
  have hnext : (s.skip 1).skip (gap s.tables s.size text).length =
      s.skip ((gap s.tables s.size text).length + 1) := by
    rw [skip_skip, Nat.add_comm]
  rw [next, next, htext, gap_cons_of_isBlank hc hsize, ← hnext, hskip]

theorem nextOffset_blank {c : Char} {text : List Char} (hc : isBlank c = true)
    (htext : s.text = c :: text) (hsize : 0 < s.size) : s.nextOffset = (s.skip 1).nextOffset := by
  have htables : (s.skip 1).tables = s.tables := rfl
  have hsame : (s.skip 1).size = s.size := rfl
  have hrest : (s.skip 1).text = text := congrArg (List.drop 1) htext
  rw [nextOffset, nextOffset, htables, hsame, hrest, skip_skip, htext,
    gap_cons_of_isBlank hc hsize, Nat.add_comm]

/-- Blanks in front of the tokens are passed. -/
theorem collectAt_blanks (hs : s.Fit fuel) {n : Nat} {text : List Char}
    (htext : s.text = List.replicate n ' ' ++ text) :
    ∃ next : Scanner, s.collectAt fuel = next.collectAt fuel ∧ next.Fit fuel ∧
      next.text = text ∧ next.place.offset = s.place.offset + n := by
  induction n generalizing s with
  | zero => exact ⟨s, rfl, hs, htext, rfl⟩
  | succ n ih =>
    rw [List.replicate_succ, List.cons_append] at htext
    have hsize : 0 < s.size := by
      refine lt_of_lt_of_le ?_ hs.size
      rw [htext]
      exact Nat.succ_pos _
    have hskip := skip_length s [' '] htext
    have hnext := next_blank rfl htext hsize
    have hoffset := nextOffset_blank rfl htext hsize
    have hcollect : s.collectAt fuel = (s.skip 1).collectAt fuel := by
      cases fuel with
      | zero => rw [collectAt, collectAt, hnext, hoffset]
      | succ fuel => rw [collectAt, collectAt, hnext, hoffset]
    obtain ⟨next, hrest, hfit, hnexttext, hplace⟩ :=
      ih (hs.skip 1) (congrArg Scanner.text hskip)
    refine ⟨next, hcollect.trans hrest, hfit, hnexttext, ?_⟩
    have hone : (s.skip 1).place.offset = s.place.offset + 1 := congrArg (·.place.offset) hskip
    rw [hplace, hone]
    omega

end Scanner

/-- From the offset on, the tokens are those of the pieces: one for every word and every line
break, and the end of the text. -/
inductive TokensOf : Nat → List Piece → List (Nat × Token) → Prop where
  /-- The end. -/
  | ends {offset stop : Nat} {t : Token} :
      t.kind = .endOfInput → t.lexeme = "" → TokensOf offset [] [(stop, t)]
  /-- A word. -/
  | text {offset : Nat} {word : String} {pieces : List Piece} {t : Token}
      {ts : List (Nat × Token)} :
      word ≠ "" → t.lexeme = word →
      classify .quill (word.toList ++ chars pieces) = (t.kind, word.toList.length) →
      TokensOf (offset + byteLength word.toList) pieces ts →
      TokensOf offset (.text word :: pieces) ((offset, t) :: ts)
  /-- A line break. -/
  | newline {offset : Nat} {pieces : List Piece} {t : Token} {ts : List (Nat × Token)} :
      t.kind = .newline → TokensOf (offset + 1) pieces ts →
      TokensOf offset (.newline :: pieces) ((offset, t) :: ts)
  /-- A blank. -/
  | space {offset : Nat} {pieces : List Piece} {ts : List (Nat × Token)} :
      TokensOf (offset + 1) pieces ts → TokensOf offset (.space :: pieces) ts
  /-- The blanks at the start of a line. -/
  | indent {offset level width : Nat} {pieces : List Piece} {ts : List (Nat × Token)} :
      TokensOf (offset + level * width) pieces ts →
      TokensOf offset (.indent level width :: pieces) ts

namespace Scanner

variable {s : Scanner} {fuel : Nat}

/-- A word that is read is taken off. -/
theorem collectAt_reads {w : Word} {written after : List Char}
    (h : Scriptorium.Reads w written after) (hs : s.Fit fuel) (htext : s.text = written ++ after) :
    ∃ (t : Token) (next : Scanner) (fuel' : Nat),
      s.collectAt fuel = (s.place.offset, t) :: next.collectAt fuel' ∧
      t.lexeme = String.ofList written ∧
      classify .quill (written ++ after) = (t.kind, written.length) ∧
      next.Fit fuel' ∧ next.text = after ∧
      next.place.offset = s.place.offset + byteLength written := by
  obtain ⟨hne, hgap, kind, hclass, -⟩ := h
  have hpass : gap s.tables s.size s.text = ⟨([] : List Char).length, false⟩ := by
    rw [hs.tables, htext]
    exact hgap s.size
  have hsplit : s.text = [] ++ (written ++ after) := htext
  have hnext := next_found hsplit hpass (hs.tables ▸ hclass)
  rw [List.take_left, List.drop_left] at hnext
  have hkind : kind ≠ .endOfInput :=
    (classify_ne_nil (List.append_ne_nil_of_left_ne_nil hne after) hclass).1
  have hend : s.next.1.isEnd = false := by
    rw [hnext]
    simpa [Token.isEnd, Place.token] using hkind
  have hshorter := length_next_lt hend
  obtain ⟨fuel, rfl⟩ : ∃ k, fuel = k + 1 := ⟨fuel - 1, by have := hs.fuel; omega⟩
  have hoffset : s.nextOffset = s.place.offset := by
    rw [nextOffset, hpass]
    rfl
  refine ⟨s.next.1, s.next.2, fuel, hoffset ▸ collectAt_cons hend fuel, ?_⟩
  have hfit := hs.advance hend
  rw [hnext] at hfit ⊢
  refine ⟨rfl, hclass, hfit, rfl, ?_⟩
  exact Place.offset_advance _ _

theorem tokensOf_collectAt {pieces : List Piece} {ws : List Word} (h : Written pieces ws)
    (hs : s.Fit fuel) (htext : s.text = chars pieces) :
    TokensOf s.place.offset pieces (s.collectAt fuel) := by
  induction h generalizing s fuel with
  | nil =>
    have hend := isEnd_next_of_nil htext
    rw [collectAt_of_isEnd hend]
    have hform := form_of_isEnd hend
    exact .ends (congrArg Prod.fst hform) (congrArg Prod.snd hform)
  | @text text w pieces ws hr _ ih =>
    rw [chars_cons] at htext
    obtain ⟨t, next, fuel', hcollect, hlexeme, hclass, hfit, hrest, hplace⟩ :=
      collectAt_reads hr hs htext
    rw [hcollect]
    have hword : text ≠ "" := by
      rintro rfl
      exact hr.1 rfl
    refine .text hword (hlexeme.trans String.ofList_toList) hclass ?_
    have hts := ih hfit hrest
    rwa [hplace] at hts
  | @newline pieces ws _ ih =>
    rw [chars_cons] at htext
    obtain ⟨t, next, fuel', hcollect, -, hclass, hfit, hrest, hplace⟩ :=
      collectAt_reads (Reads.newline _) hs htext
    rw [hcollect]
    refine .newline (congrArg Prod.fst hclass).symm ?_
    have hts := ih hfit hrest
    rwa [hplace] at hts
  | @space pieces ws _ ih =>
    rw [chars_cons] at htext
    obtain ⟨next, hcollect, hfit, hrest, hoffset⟩ := collectAt_blanks (n := 1) hs htext
    rw [hcollect]
    exact .space (hoffset ▸ ih hfit hrest)
  | @indent level width pieces ws _ ih =>
    rw [chars_cons, Piece.written, String.toList_ofList] at htext
    obtain ⟨next, hcollect, hfit, hrest, hoffset⟩ := collectAt_blanks hs htext
    rw [hcollect]
    exact .indent (hoffset ▸ ih hfit hrest)

end Scanner

/-- The tokens of the text of a layout are those of its pieces. -/
theorem tokensOf_render {pieces : List Piece} {ws : List Word} (h : Written pieces ws) :
    TokensOf 0 pieces (tokensAt .quill (render pieces)) :=
  Scanner.tokensOf_collectAt h (s := Scanner.start .quill (render pieces))
    ⟨rfl, String.length_toList.le, String.length_toList.le⟩ rfl

/-! ## Where the braces stand -/

theorem byteLength_blanks (n : Nat) : byteLength (List.replicate n ' ') = n := by
  rw [byteLength_replicate]
  exact Nat.mul_one n

theorem classify_brace {mark : String} (h : mark = "\x7b" ∨ mark = "\x7d") (rest : List Char) :
    classify .quill (mark.toList ++ rest) = (.punct, mark.toList.length) := by
  rcases h with rfl | rfl
  · rfl
  · rfl

namespace TokensOf

variable {offset : Nat} {pieces : List Piece} {ts : List (Nat × Token)}

/-- A brace is written where its token stands. -/
theorem is_brace {word mark : String} {t : Token} {rest : List Char} (hlexeme : t.lexeme = word)
    (hclass : classify .quill (word.toList ++ rest) = (t.kind, word.toList.length))
    (hmark : mark = "\x7b" ∨ mark = "\x7d") : t.is mark = (word == mark) := by
  by_cases hword : word = mark
  · subst hword
    rw [classify_brace hmark, Prod.mk.injEq] at hclass
    simp [Token.is, ← hclass.1, hlexeme]
  · simp [Token.is, hlexeme, hword]

/-- No token stands before the layout. -/
theorem le_start (h : TokensOf offset pieces ts) :
    ∀ p ∈ ts, p.2.isEnd = false → offset ≤ p.1 := by
  induction h with
  | ends hkind _ => simp [Token.isEnd, hkind]
  | text _ _ _ _ ih =>
    refine List.forall_mem_cons.2 ⟨fun _ => le_rfl, fun p hp hend => ?_⟩
    exact (Nat.le_add_right _ _).trans (ih p hp hend)
  | newline _ _ ih =>
    refine List.forall_mem_cons.2 ⟨fun _ => le_rfl, fun p hp hend => ?_⟩
    exact (Nat.le_add_right _ _).trans (ih p hp hend)
  | space _ ih => exact fun p hp hend => (Nat.le_add_right _ _).trans (ih p hp hend)
  | indent _ ih => exact fun p hp hend => (Nat.le_add_right _ _).trans (ih p hp hend)

/-- The tokens of the first pieces come first. -/
theorem append {first : List Piece} (h : TokensOf offset (first ++ pieces) ts) :
    ∃ us vs, ts = us ++ vs ∧ TokensOf (offset + byteLength (chars first)) pieces vs ∧
      (∀ p ∈ us, p.1 < offset + byteLength (chars first)) ∧
      ∀ mark, mark = "\x7b" ∨ mark = "\x7d" →
        us.countP (·.2.is mark) = first.count (.text mark) := by
  induction first generalizing offset ts with
  | nil => exact ⟨[], ts, rfl, h, by simp, by simp⟩
  | cons piece first ih =>
    rw [chars_cons, byteLength_append, ← Nat.add_assoc]
    rw [List.cons_append] at h
    cases h with
    | text hword hlexeme hclass hrest =>
      obtain ⟨us, vs, rfl, hvs, hus, hcount⟩ := ih hrest
      have hpos := byteLength_pos (mt String.toList_eq_nil_iff.1 hword)
      refine ⟨_ :: us, vs, rfl, hvs, List.forall_mem_cons.2 ⟨?_, hus⟩, fun mark hmark => ?_⟩
      · rw [Piece.written]
        omega
      · rw [List.countP_cons, List.count_cons, hcount mark hmark, is_brace hlexeme hclass hmark]
        simp
    | newline hkind hrest =>
      obtain ⟨us, vs, rfl, hvs, hus, hcount⟩ := ih hrest
      have hone : byteLength Piece.newline.written.toList = 1 := rfl
      refine ⟨_ :: us, vs, rfl, hvs, List.forall_mem_cons.2 ⟨?_, hus⟩, fun mark hmark => ?_⟩
      · omega
      · rw [List.countP_cons_of_neg (by simp [Token.is, hkind]), hcount mark hmark,
          List.count_cons_of_ne (by simp)]
    | space hrest =>
      obtain ⟨us, vs, rfl, hvs, hus, hcount⟩ := ih hrest
      refine ⟨us, vs, rfl, hvs, hus, fun mark hmark => ?_⟩
      rw [List.count_cons_of_ne (by simp), hcount mark hmark]
    | indent hrest =>
      obtain ⟨us, vs, rfl, hvs, hus, hcount⟩ := ih hrest
      rw [Piece.written, String.toList_ofList, byteLength_blanks]
      refine ⟨us, vs, rfl, hvs, hus, fun mark hmark => ?_⟩
      rw [List.count_cons_of_ne (by simp), hcount mark hmark]

/-- The braces that are written before a word, and perhaps the word itself, are counted by
where their tokens start. -/
theorem countP_brace {first : List Piece} {word mark : String}
    (h : TokensOf 0 (first ++ .text word :: pieces) ts) (hmark : mark = "\x7b" ∨ mark = "\x7d")
    (near : Nat → Bool) (hbefore : ∀ n < byteLength (chars first), near n = true)
    (hafter : ∀ n, byteLength (chars first) < n → near n = false) :
    (ts.countP fun p => p.2.is mark && near p.1) =
      first.count (.text mark) +
        if word = mark ∧ near (byteLength (chars first)) = true then 1 else 0 := by
  obtain ⟨us, vs, rfl, hvs, hus, hcount⟩ := h.append
  rw [Nat.zero_add] at hvs hus
  cases hvs with
  | @text _ _ _ t vs hword hlexeme hclass hrest =>
    have hpos := byteLength_pos (mt String.toList_eq_nil_iff.1 hword)
    have hbrace : t.is mark = (word == mark) := is_brace hlexeme hclass hmark
    have hfirst : (us.countP fun p => p.2.is mark && near p.1) = first.count (.text mark) := by
      rw [← hcount mark hmark]
      refine List.countP_congr fun p hp => ?_
      simp [hbefore _ (hus p hp)]
    have hlast : (vs.countP fun p => p.2.is mark && near p.1) = 0 := by
      refine List.countP_eq_zero.2 fun p hp => ?_
      rw [Bool.and_eq_true, not_and, Bool.not_eq_true]
      intro hp'
      have hend : p.2.isEnd = false := by
        rw [Bool.eq_false_iff]
        intro hend
        rw [Token.isEnd, beq_iff_eq] at hend
        simp [Token.is, hend] at hp'
      have hle := hrest.le_start p hp hend
      exact hafter _ (by omega)
    rw [List.countP_append, List.countP_cons, hfirst, hlast, hbrace]
    simp

/-- No word of the layout is split, so a line break is a token of its own. -/
theorem kind_of_newline (h : TokensOf offset pieces ts)
    (hwords : ∀ word, .text word ∈ pieces → '\n' ∉ word.toList) :
    ∀ t ∈ ts.map Prod.snd, '\n' ∈ t.lexeme.toList → t.kind = .newline := by
  induction h with
  | ends _ hlexeme => simp [hlexeme]
  | text _ hlexeme _ _ ih =>
    refine List.forall_mem_cons.2 ⟨fun hline => ?_, ih fun w hw => hwords w (.tail _ hw)⟩
    rw [hlexeme] at hline
    exact absurd hline (hwords _ (.head _))
  | newline hkind _ ih =>
    exact List.forall_mem_cons.2 ⟨fun _ => hkind, ih fun w hw => hwords w (.tail _ hw)⟩
  | space _ ih => exact ih fun w hw => hwords w (.tail _ hw)
  | indent _ ih => exact ih fun w hw => hwords w (.tail _ hw)

end TokensOf

end Scriptorium
