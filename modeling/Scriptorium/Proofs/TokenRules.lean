import Scriptorium.Token.Scan
import Mathlib.Data.List.TakeWhile

/-!
# The rules of tokens

What stands at the start of a text follows from the text by a few rules, of which the first
that applies counts.  They hold for all tables, also if the entries of a table look like
numbers, words or quotes.

* `FirstMark` — the entry of the punctuation table that counts; `FirstMark.longest`: it is the
  longest one if the table lists longer entries first;
* `DigitRun`, `WordRun`, `Escaped` — the digits of a number, the characters of a word, and those
  between the quotes of a literal;
* `TokenRule` — the rules; `tokenRule_iff`: a token is found where a rule says that one stands;
* `exists_rule_of_classify` — whatever is found follows a rule.
-/

namespace Scriptorium

variable {tables : Tables}

/-! ## The punctuation table -/

theorem startsWithMark_eq_true_iff {mark : String} {text : List Char} :
    startsWithMark mark text = true ↔ mark ≠ "" ∧ mark.toList <+: text := by
  rw [startsWithMark, Bool.and_eq_true, bne_iff_ne, List.isPrefixOf_iff_prefix]

theorem startsWithMark_iff {mark : String} {text : List Char} :
    startsWithMark mark text = true ↔ mark ≠ "" ∧ ∃ rest, text = mark.toList ++ rest := by
  rw [startsWithMark_eq_true_iff]
  exact and_congr_right fun _ => exists_congr fun _ => eq_comm

/-- None of the entries stands at the start of the text. -/
def NoMark (marks : List String) (text : List Char) : Prop :=
  ∀ mark ∈ marks, mark ≠ "" → ¬ mark.toList <+: text

/-- The entry is the first of the table that stands at the start of the text. -/
structure FirstMark (marks : List String) (mark : String) (text : List Char) : Prop where
  nonempty : mark ≠ ""
  starts : mark.toList <+: text
  first : ∃ before after, marks = before ++ mark :: after ∧ NoMark before text

/-- Every entry is listed before the entries that it starts with. -/
def LongestFirst (marks : List String) : Prop :=
  ∀ mark ∈ marks, ∀ part ∈ marks, part.toList <+: mark.toList → part ≠ mark →
    marks.idxOf mark < marks.idxOf part

instance (marks : List String) : Decidable (LongestFirst marks) :=
  inferInstanceAs (Decidable (∀ mark ∈ marks, ∀ part ∈ marks, _))

theorem noMark_iff {marks : List String} {text : List Char} :
    NoMark marks text ↔ ∀ mark ∈ marks, startsWithMark mark text = false := by
  simp only [NoMark, ← Bool.not_eq_true, startsWithMark_eq_true_iff, not_and]

theorem matchPunct?_eq_none_iff {text : List Char} :
    tables.matchPunct? text = none ↔ NoMark tables.puncts text := by
  rw [Tables.matchPunct?, List.find?_eq_none, noMark_iff]
  simp only [Bool.not_eq_true]

theorem matchPunct?_eq_some_iff {text : List Char} {mark : String} :
    tables.matchPunct? text = some mark ↔ FirstMark tables.puncts mark text := by
  rw [Tables.matchPunct?, List.find?_eq_some_iff_append]
  simp only [startsWithMark_eq_true_iff, Bool.not_eq_true', ← noMark_iff]
  constructor
  · rintro ⟨⟨hne, hstarts⟩, hfirst⟩
    exact ⟨hne, hstarts, hfirst⟩
  · rintro ⟨hne, hstarts, hfirst⟩
    exact ⟨⟨hne, hstarts⟩, hfirst⟩

theorem FirstMark.mem {marks : List String} {mark : String} {text : List Char}
    (h : FirstMark marks mark text) : mark ∈ marks := by
  obtain ⟨before, after, hsplit, -⟩ := h.first
  rw [hsplit]
  exact List.mem_append_right before List.mem_cons_self

/-- In a table that lists longer entries first, the first entry is the longest one. -/
theorem FirstMark.longest {marks : List String} {mark : String} {text : List Char}
    (h : FirstMark marks mark text) (hmarks : LongestFirst marks) :
    ∀ other ∈ marks, other.toList <+: text → other.length ≤ mark.length := by
  intro other hother hstarts
  by_contra hlonger
  rw [Nat.not_le] at hlonger
  have hpart : mark.toList <+: other.toList := by
    refine List.prefix_of_prefix_length_le h.starts hstarts ?_
    simp only [String.length_toList]
    omega
  have hne : mark ≠ other := by
    rintro rfl
    omega
  obtain ⟨before, after, hsplit, hnone⟩ := h.first
  have hbefore := hmarks other hother mark h.mem hpart hne
  -- so the longer entry stands before the first one that starts the text
  have hmem : other ∈ before := by
    by_contra hmem
    rw [hsplit, List.idxOf_append, List.idxOf_append, if_neg hmem] at hbefore
    split at hbefore
    · next hin =>
      have := List.idxOf_lt_length_iff.2 hin
      omega
    · rw [List.idxOf_cons_self] at hbefore
      omega
  refine hnone other hmem ?_ hstarts
  rintro rfl
  simp at hlonger

/-- The punctuation of the language lists longer entries first. -/
example : LongestFirst Tables.quill.puncts := by decide +kernel

/-! ## Runs of characters -/

theorem isWordChar_of_isWordStart {c : Char} (h : isWordStart c = true) : isWordChar c = true := by
  simp only [isWordStart, Bool.or_eq_true] at h
  simp only [isWordChar, Char.isAlphanum, Bool.or_eq_true]
  exact h.imp_left .inl

theorem takeWhile_append_of_stop {p : Char → Bool} {cs after : List Char}
    (hcs : ∀ c ∈ cs, p c = true) (hafter : ∀ c ∈ after.head?, p c = false) :
    (cs ++ after).takeWhile p = cs := by
  rw [List.takeWhile_append_of_pos hcs]
  cases after with
  | nil => simp
  | cons d ds => simp [hafter d rfl]

/-- Characters of words are neither blank nor slashes nor line breaks. -/
theorem ne_of_isWordChar {c : Char} (h : isWordChar c = true) :
    isBlank c = false ∧ c ≠ '/' ∧ c ≠ '\n' := by
  refine ⟨?_, ?_, ?_⟩
  · rw [Bool.eq_false_iff]
    intro hb
    simp only [isBlank, Bool.or_eq_true, beq_iff_eq] at hb
    rcases hb with (rfl | rfl) | rfl <;> exact absurd h (by decide)
  · rintro rfl
    exact absurd h (by decide)
  · rintro rfl
    exact absurd h (by decide)

theorem isWordChar_of_isDigit {c : Char} (h : c.isDigit = true) : isWordChar c = true := by
  simp [isWordChar, Char.isAlphanum, h]

theorem not_isDigit_of_isWordStart {c : Char} (h : isWordStart c = true) : c.isDigit = false := by
  rw [Bool.eq_false_iff]
  intro hd
  simp only [isWordStart, Bool.or_eq_true, beq_iff_eq] at h
  rcases h with h | rfl
  · have hdigit : c.isDigit = (decide (c.val ≥ 48) && decide (c.val ≤ 57)) := rfl
    have halpha : c.isAlpha = (decide (c.val ≥ 65 ∧ c.val ≤ 90) ||
        (decide (c.val ≥ 97) && decide (c.val ≤ 122))) := rfl
    simp only [hdigit, halpha, Bool.or_eq_true, Bool.and_eq_true, decide_eq_true_eq, ge_iff_le,
      UInt32.le_iff_toNat_le, UInt32.reduceToNat] at h hd
    omega
  · exact absurd hd (by decide)

theorem stops_dropWhile (p : Char → Bool) (text : List Char) :
    ∀ c ∈ (text.dropWhile p).head?, p c = false := by
  intro c hc
  have hstop := List.head?_dropWhile_not p text
  rw [hc] at hstop
  simpa using hstop

/-- Digits, at least one, with no digit after them. -/
structure DigitRun (digits after : List Char) : Prop where
  ne_nil : digits ≠ []
  digit : ∀ c ∈ digits, c.isDigit = true
  stops : ∀ c ∈ after.head?, c.isDigit = false

namespace DigitRun

variable {digits after : List Char}

theorem exists_cons (h : DigitRun digits after) :
    ∃ c cs, digits = c :: cs ∧ isWordChar c = true := by
  obtain ⟨c, cs, rfl⟩ := List.exists_cons_of_ne_nil h.ne_nil
  exact ⟨c, cs, rfl, isWordChar_of_isDigit (h.digit c (List.mem_cons_self ..))⟩

theorem takeWhile {c : Char} (hc : c.isDigit = true) (text : List Char) :
    DigitRun ((c :: text).takeWhile Char.isDigit) ((c :: text).dropWhile Char.isDigit) := by
  refine ⟨?_, fun d => List.mem_takeWhile_imp, stops_dropWhile _ _⟩
  rw [List.takeWhile_cons_of_pos hc]
  exact List.cons_ne_nil _ _

/-- Digits are found whole, as a number if it is not too large. -/
theorem classify (h : DigitRun digits after) (hmark : NoMark tables.puncts (digits ++ after)) :
    Scriptorium.classify tables (digits ++ after) =
      (if digitsValue digits ≤ maxLiteral then .int (digitsValue digits)
        else .invalid .integerTooLarge, digits.length) := by
  have htake := takeWhile_append_of_stop h.digit h.stops
  obtain ⟨c, cs, rfl, hword⟩ := h.exists_cons
  have hc := h.digit c (List.mem_cons_self ..)
  rw [List.cons_append] at htake hmark ⊢
  rw [Scriptorium.classify, if_neg (ne_of_isWordChar hword).2.2, matchPunct?_eq_none_iff.2 hmark]
  simp only [hc, htake, if_true]

end DigitRun

/-- The characters of a word, with no such character after them. -/
structure WordRun (word after : List Char) : Prop where
  start : ∃ c ∈ word.head?, isWordStart c = true
  char : ∀ c ∈ word, isWordChar c = true
  stops : ∀ c ∈ after.head?, isWordChar c = false

namespace WordRun

variable {word after : List Char}

theorem exists_cons (h : WordRun word after) : ∃ c cs, word = c :: cs ∧ isWordStart c = true := by
  obtain ⟨c, hc, hstart⟩ := h.start
  obtain ⟨cs, rfl⟩ := List.head?_eq_some_iff.1 hc
  exact ⟨c, cs, rfl, hstart⟩

theorem ne_nil (h : WordRun word after) : word ≠ [] := by
  obtain ⟨c, cs, rfl, -⟩ := h.exists_cons
  exact List.cons_ne_nil c cs

theorem ofCons {c : Char} {cs : List Char} (hc : isWordStart c = true)
    (hcs : ∀ d ∈ cs, isWordChar d = true) (hafter : ∀ d ∈ after.head?, isWordChar d = false) :
    WordRun (c :: cs) after :=
  ⟨⟨c, rfl, hc⟩, List.forall_mem_cons.2 ⟨isWordChar_of_isWordStart hc, hcs⟩, hafter⟩

theorem takeWhile {c : Char} (hc : isWordStart c = true) (text : List Char) :
    WordRun ((c :: text).takeWhile isWordChar) ((c :: text).dropWhile isWordChar) := by
  refine ⟨⟨c, ?_, hc⟩, fun d => List.mem_takeWhile_imp, stops_dropWhile _ _⟩
  rw [List.takeWhile_cons_of_pos (isWordChar_of_isWordStart hc)]
  rfl

/-- A word is found whole, as a keyword or as a name. -/
theorem classify (h : WordRun word after) (hmark : NoMark tables.puncts (word ++ after)) :
    Scriptorium.classify tables (word ++ after) =
      (if String.ofList word ∈ tables.keywords then .keyword else .symbol, word.length) := by
  have htake := takeWhile_append_of_stop h.char h.stops
  obtain ⟨c, cs, rfl, hc⟩ := h.exists_cons
  have hline := (ne_of_isWordChar (isWordChar_of_isWordStart hc)).2.2
  rw [List.cons_append] at htake hmark ⊢
  rw [Scriptorium.classify, if_neg hline, matchPunct?_eq_none_iff.2 hmark]
  simp only [not_isDigit_of_isWordStart hc, Bool.false_eq_true, if_false, hc, if_true, htake]

end WordRun

/-! ## Inside a string literal -/

/-- A text in which every backslash takes the character after it along and no other double
quote stands. -/
inductive Escaped : List Char → Prop where
  /-- Nothing. -/
  | nil : Escaped []
  /-- A character that stands for itself. -/
  | plain {c : Char} {cs : List Char} : c ≠ '"' → c ≠ '\\' → Escaped cs → Escaped (c :: cs)
  /-- A backslash and the character that it takes along. -/
  | pair {c : Char} {cs : List Char} : Escaped cs → Escaped ('\\' :: c :: cs)

theorem closingQuote?_of_escaped {body : List Char} (h : Escaped body) (count : Nat)
    (after : List Char) :
    closingQuote? count (body ++ '"' :: after) = some (count + body.length + 1) := by
  induction h generalizing count with
  | nil => rfl
  | @plain c cs hquote hbackslash _ ih =>
    rw [List.cons_append, closingQuote?.eq_5 _ _ _ hquote (fun hc => absurd hc hbackslash)
      (fun _ _ hc => absurd hc hbackslash), ih, List.length_cons]
    congr 1
    omega
  | @pair c cs _ ih =>
    rw [List.cons_append, List.cons_append, closingQuote?, ih, List.length_cons, List.length_cons]
    congr 1
    omega

theorem exists_escaped {count length : Nat} {text : List Char}
    (h : closingQuote? count text = some length) :
    ∃ body after, text = body ++ '"' :: after ∧ Escaped body ∧
      length = count + body.length + 1 := by
  induction count, text using closingQuote?.induct with
  | case1 => simp [closingQuote?] at h
  | case2 count rest =>
    rw [closingQuote?, Option.some.injEq] at h
    exact ⟨[], rest, rfl, .nil, h.symm⟩
  | case3 => simp [closingQuote?] at h
  | case4 count c rest ih =>
    rw [closingQuote?] at h
    obtain ⟨body, after, rfl, hbody, hlength⟩ := ih h
    refine ⟨'\\' :: c :: body, after, rfl, .pair hbody, ?_⟩
    simp only [List.length_cons]
    omega
  | case5 count c rest hquote hlast hpair ih =>
    rw [closingQuote?.eq_5 _ _ _ hquote hlast hpair] at h
    obtain ⟨body, after, rfl, hbody, hlength⟩ := ih h
    have hbackslash : c ≠ '\\' := by
      intro hc
      cases body with
      | nil => exact hpair _ _ hc rfl
      | cons d body => exact hpair _ _ hc rfl
    refine ⟨c :: body, after, rfl, .plain hquote hbackslash hbody, ?_⟩
    simp only [List.length_cons]
    omega

/-- The inside of a literal goes up to the first double quote that no backslash takes
along. -/
theorem closingQuote?_eq_some_iff {count length : Nat} {text : List Char} :
    closingQuote? count text = some length ↔
      ∃ body after, text = body ++ '"' :: after ∧ Escaped body ∧
        length = count + body.length + 1 := by
  constructor
  · exact exists_escaped
  · rintro ⟨body, after, rfl, hbody, rfl⟩
    exact closingQuote?_of_escaped hbody count after

theorem closingQuote?_eq_none_iff {count : Nat} {text : List Char} :
    closingQuote? count text = none ↔
      ∀ body after, Escaped body → text ≠ body ++ '"' :: after := by
  rw [Option.eq_none_iff_forall_ne_some]
  constructor
  · intro h body after hbody htext
    exact h _ (closingQuote?_eq_some_iff.2 ⟨body, after, htext, hbody, rfl⟩)
  · intro h length hlength
    obtain ⟨body, after, htext, hbody, -⟩ := closingQuote?_eq_some_iff.1 hlength
    exact h body after hbody htext

/-! ## The rules -/

/-- At the start of a text stand the characters `word`, which make a token of this kind, and
after them comes `rest`. -/
inductive TokenRule (tables : Tables) : TokenKind → (word rest : List Char) → Prop where
  /-- A line break is a token of its own. -/
  | newline {rest : List Char} : TokenRule tables .newline ['\n'] rest
  /-- Else the first entry of the punctuation table that stands there counts. -/
  | punct {mark : String} {rest : List Char} :
      (mark.toList ++ rest).head? ≠ some '\n' →
      FirstMark tables.puncts mark (mark.toList ++ rest) →
      TokenRule tables .punct mark.toList rest
  /-- Else all digits make a number. -/
  | int {digits rest : List Char} :
      NoMark tables.puncts (digits ++ rest) → DigitRun digits rest →
      digitsValue digits ≤ maxLiteral → TokenRule tables (.int (digitsValue digits)) digits rest
  /-- They make none if it is too large. -/
  | tooLarge {digits rest : List Char} :
      NoMark tables.puncts (digits ++ rest) → DigitRun digits rest →
      maxLiteral < digitsValue digits → TokenRule tables (.invalid .integerTooLarge) digits rest
  /-- Else all characters of a word make a keyword, if it is in the table. -/
  | keyword {word rest : List Char} :
      NoMark tables.puncts (word ++ rest) → WordRun word rest →
      String.ofList word ∈ tables.keywords → TokenRule tables .keyword word rest
  /-- If it is not, they make a name. -/
  | symbol {word rest : List Char} :
      NoMark tables.puncts (word ++ rest) → WordRun word rest →
      String.ofList word ∉ tables.keywords → TokenRule tables .symbol word rest
  /-- Else a double quote starts a string literal, up to the next one that no backslash takes
  along. -/
  | string {body rest : List Char} :
      NoMark tables.puncts ('"' :: (body ++ '"' :: rest)) → Escaped body →
      TokenRule tables .string ('"' :: (body ++ ['"'])) rest
  /-- If there is no such quote, the literal goes on to the end of the text. -/
  | openString {body : List Char} :
      NoMark tables.puncts ('"' :: body) →
      (∀ inside after, Escaped inside → body ≠ inside ++ '"' :: after) →
      TokenRule tables (.invalid .unterminatedString) ('"' :: body) []
  /-- Else there is a character that starts no token. -/
  | other {c : Char} {rest : List Char} :
      NoMark tables.puncts (c :: rest) → c ≠ '\n' → c.isDigit = false → isWordStart c = false →
      c ≠ '"' → TokenRule tables (.invalid .unexpectedChar) [c] rest

/-- Where a literal starts, its closing quote is looked for. -/
theorem classify_literal {text : List Char} (hmark : NoMark tables.puncts ('"' :: text)) :
    classify tables ('"' :: text) =
      match closingQuote? 1 text with
      | some length => (.string, length)
      | none => (.invalid .unterminatedString, text.length + 1) := by
  rw [classify, if_neg (by decide), matchPunct?_eq_none_iff.2 hmark]
  rfl

namespace TokenRule

variable {kind : TokenKind} {word rest : List Char}

theorem ne_nil (h : TokenRule tables kind word rest) : word ≠ [] := by
  cases h with
  | punct _ hmark => exact mt String.toList_eq_nil_iff.1 hmark.nonempty
  | int _ hdigits _ => exact hdigits.ne_nil
  | tooLarge _ hdigits _ => exact hdigits.ne_nil
  | keyword _ hword _ => exact hword.ne_nil
  | symbol _ hword _ => exact hword.ne_nil
  | _ => exact List.cons_ne_nil _ _

theorem ne_endOfInput (h : TokenRule tables kind word rest) : kind ≠ .endOfInput := by
  rintro rfl
  cases h

/-- The scanner follows the rules. -/
theorem classify (h : TokenRule tables kind word rest) :
    Scriptorium.classify tables (word ++ rest) = (kind, word.length) := by
  cases h with
  | newline => rfl
  | @punct mark rest hline hmark =>
    have hfound := matchPunct?_eq_some_iff.2 hmark
    obtain ⟨c, cs, hcs⟩ := List.exists_cons_of_ne_nil (mt String.toList_eq_nil_iff.1 hmark.nonempty)
    rw [hcs, List.cons_append] at hline hfound ⊢
    rw [Scriptorium.classify, if_neg (by simpa using hline), hfound, ← hcs, String.length_toList]
  | int hmark hdigits hvalue => rw [hdigits.classify hmark, if_pos hvalue]
  | tooLarge hmark hdigits hvalue => rw [hdigits.classify hmark, if_neg (Nat.not_le.2 hvalue)]
  | keyword hmark hword hmem => rw [hword.classify hmark, if_pos hmem]
  | symbol hmark hword hmem => rw [hword.classify hmark, if_neg hmem]
  | @string body rest hmark hbody =>
    have htext : '"' :: (body ++ ['"']) ++ rest = '"' :: (body ++ '"' :: rest) := by simp
    have hlength : ('"' :: (body ++ ['"'])).length = 1 + body.length + 1 := by
      simp only [List.length_cons, List.length_append, List.length_nil]
      omega
    rw [htext, classify_literal hmark, closingQuote?_of_escaped hbody, hlength]
  | openString hmark hopen =>
    rw [List.append_nil, classify_literal hmark, closingQuote?_eq_none_iff.2 hopen]
    rfl
  | other hmark hline hdigit hstart hquote =>
    rw [List.singleton_append, Scriptorium.classify, if_neg hline, matchPunct?_eq_none_iff.2 hmark]
    simp [hdigit, hstart, hquote]

end TokenRule

/-- A rule applies to every text. -/
theorem exists_tokenRule (tables : Tables) {text : List Char} (hne : text ≠ []) :
    ∃ kind word rest, text = word ++ rest ∧ TokenRule tables kind word rest := by
  obtain ⟨c, text, rfl⟩ := List.exists_cons_of_ne_nil hne
  by_cases hline : c = '\n'
  · exact ⟨.newline, ['\n'], text, by rw [hline]; rfl, .newline⟩
  by_cases hmark : NoMark tables.puncts (c :: text)
  · have hsplit (p : Char → Bool) : c :: text = (c :: text).takeWhile p ++ (c :: text).dropWhile p :=
      List.takeWhile_append_dropWhile.symm
    by_cases hdigit : c.isDigit = true
    · have hdigits := DigitRun.takeWhile hdigit text
      rw [hsplit Char.isDigit] at hmark
      rcases Nat.lt_or_ge maxLiteral (digitsValue ((c :: text).takeWhile Char.isDigit))
        with hlarge | hsmall
      · exact ⟨_, _, _, hsplit _, .tooLarge hmark hdigits hlarge⟩
      · exact ⟨_, _, _, hsplit _, .int hmark hdigits hsmall⟩
    rw [Bool.not_eq_true] at hdigit
    by_cases hstart : isWordStart c = true
    · have hword := WordRun.takeWhile hstart text
      rw [hsplit isWordChar] at hmark
      by_cases hmem : String.ofList ((c :: text).takeWhile isWordChar) ∈ tables.keywords
      · exact ⟨_, _, _, hsplit _, .keyword hmark hword hmem⟩
      · exact ⟨_, _, _, hsplit _, .symbol hmark hword hmem⟩
    rw [Bool.not_eq_true] at hstart
    by_cases hquote : c = '"'
    · subst hquote
      cases hclosed : closingQuote? 1 text with
      | none =>
        exact ⟨_, '"' :: text, [], by simp, .openString hmark (closingQuote?_eq_none_iff.1 hclosed)⟩
      | some length =>
        obtain ⟨body, after, rfl, hbody, -⟩ := closingQuote?_eq_some_iff.1 hclosed
        exact ⟨_, '"' :: (body ++ ['"']), after, by simp, .string hmark hbody⟩
    · exact ⟨_, [c], text, rfl, .other hmark hline hdigit hstart hquote⟩
  · rw [← matchPunct?_eq_none_iff, ← Ne, Option.ne_none_iff_exists'] at hmark
    obtain ⟨mark, hmark⟩ := hmark
    have hfirst := matchPunct?_eq_some_iff.1 hmark
    obtain ⟨rest, hrest⟩ := hfirst.starts
    refine ⟨_, mark.toList, rest, hrest.symm, .punct ?_ ?_⟩
    · rw [hrest]
      simpa using hline
    · rwa [hrest]

/-- Whatever is found at the start of a text follows a rule. -/
theorem exists_rule_of_classify {text : List Char} {kind : TokenKind} {length : Nat}
    (hne : text ≠ []) (h : classify tables text = (kind, length)) :
    ∃ word rest, text = word ++ rest ∧ length = word.length ∧ TokenRule tables kind word rest := by
  obtain ⟨kind', word, rest, rfl, hrule⟩ := exists_tokenRule tables hne
  rw [hrule.classify, Prod.mk.injEq] at h
  obtain ⟨rfl, rfl⟩ := h
  exact ⟨word, rest, rfl, rfl, hrule⟩

/-- A token is found where a rule says that one stands. -/
theorem tokenRule_iff {kind : TokenKind} {word rest : List Char} :
    TokenRule tables kind word rest ↔
      word ≠ [] ∧ classify tables (word ++ rest) = (kind, word.length) := by
  constructor
  · intro h
    exact ⟨h.ne_nil, h.classify⟩
  · rintro ⟨hne, hclass⟩
    obtain ⟨word', rest', htext, hlength, h⟩ :=
      exists_rule_of_classify (List.append_ne_nil_of_left_ne_nil hne rest) hclass
    obtain ⟨rfl, rfl⟩ := List.append_inj htext hlength
    exact h

/-- What is found takes at least a character of the text and is not its end. -/
theorem classify_ne_nil {text : List Char} {kind : TokenKind} {length : Nat} (hne : text ≠ [])
    (h : classify tables text = (kind, length)) : kind ≠ .endOfInput ∧ 0 < length := by
  obtain ⟨word, rest, -, rfl, hrule⟩ := exists_rule_of_classify hne h
  exact ⟨hrule.ne_endOfInput, List.length_pos_iff.2 hrule.ne_nil⟩

/-- A token takes no more characters than there are. -/
theorem classify_length_le {text : List Char} {kind : TokenKind} {length : Nat}
    (h : classify tables text = (kind, length)) : length ≤ text.length := by
  by_cases hne : text = []
  · subst hne
    cases h
    exact Nat.zero_le _
  · obtain ⟨word, rest, rfl, rfl, -⟩ := exists_rule_of_classify hne h
    rw [List.length_append]
    exact Nat.le_add_right ..

namespace TokenRule

variable {kind kind' : TokenKind} {word word' rest rest' : List Char}

/-- No more than one rule applies to a text. -/
theorem unique (h : TokenRule tables kind word rest) (h' : TokenRule tables kind' word' rest')
    (htext : word ++ rest = word' ++ rest') : kind = kind' ∧ word = word' ∧ rest = rest' := by
  have hclass := h.classify
  rw [htext, h'.classify, Prod.mk.injEq] at hclass
  obtain ⟨hkind, hlength⟩ := hclass
  exact ⟨hkind.symm, List.append_inj htext hlength.symm⟩

/-- A line break is found where the text starts with one. -/
theorem newline_iff (h : TokenRule tables kind word rest) :
    kind = .newline ↔ (word ++ rest).head? = some '\n' := by
  constructor
  · rintro rfl
    cases h
    rfl
  · intro hline
    obtain ⟨after, htext⟩ := List.head?_eq_some_iff.1 hline
    have hbreak : TokenRule tables .newline ['\n'] after := .newline
    exact (h.unique hbreak htext).1

/-- The punctuation that is found is the longest entry that stands there, if the table lists
longer entries first. -/
theorem longest (h : TokenRule tables .punct word rest) (hmarks : LongestFirst tables.puncts) :
    ∀ mark ∈ tables.puncts, mark.toList <+: word ++ rest → mark.length ≤ word.length := by
  cases h with
  | punct _ hmark =>
    rw [String.length_toList]
    exact hmark.longest hmarks

/-- The inside of a literal stands between double quotes. -/
theorem exists_inside (h : TokenRule tables .string word rest) :
    ∃ inside, word = '"' :: (inside ++ ['"']) ∧ Escaped inside := by
  cases h with
  | string _ hinside => exact ⟨_, rfl, hinside⟩

/-- An open literal goes on to the end of the text. -/
theorem eq_nil_of_open (h : TokenRule tables (.invalid .unterminatedString) word rest) :
    rest = [] := by
  cases h
  rfl

end TokenRule

end Scriptorium
