import Scriptorium.Proofs.TokenRules
import Mathlib.Data.List.Find

/-!
# Where a token ends

By the tables of the language, a token is found by little behind it: a number and a word look
at one character more, and so does a mark.  So the rule for a token still applies if the text
goes on in another way after it.

* `EndsMark`, `EndsWord` — a mark ends here, and so do a mark, a word and a number;
* `firstMark_append`, `noMark_cons` — which marks stand at the start of a text;
* `Ahead`, `TokenRule.congr` — the rule for a token, whatever comes after the next character.
-/

namespace Scriptorium

/-! ## Marks -/

/-- A mark that stands before the text ends there. -/
def EndsMark (text : List Char) : Prop := ∀ c ∈ text.head?, c ≠ '=' ∧ c ≠ '/' ∧ c ≠ '*'

/-- A mark, a word or a number that stands before the text ends there. -/
def EndsWord (text : List Char) : Prop :=
  EndsMark text ∧ ∀ c ∈ text.head?, isWordChar c = false

theorem endsMark_cons {c : Char} (hc : c ≠ '=' ∧ c ≠ '/' ∧ c ≠ '*') (cs : List Char) :
    EndsMark (c :: cs) := by
  rintro d ⟨⟩
  exact hc

theorem endsWord_nil : EndsWord [] := by simp [EndsWord, EndsMark]

theorem endsWord_cons {c : Char} (hc : c ≠ '=' ∧ c ≠ '/' ∧ c ≠ '*')
    (hw : isWordChar c = false) (cs : List Char) : EndsWord (c :: cs) := by
  refine ⟨endsMark_cons hc cs, ?_⟩
  rintro d ⟨⟩
  exact hw

/-- Such a mark is found whole. -/
theorem firstMark_append {mark : String} (h : mark ∈ Tables.quill.puncts) {after : List Char}
    (hafter : EndsMark after) : FirstMark Tables.quill.puncts mark (mark.toList ++ after) := by
  rw [← matchPunct?_eq_some_iff]
  cases after with
  | nil =>
    revert mark
    decide
  | cons d ds =>
    -- the only longer entries are those with an equals sign at the end
    have heq : ('=' == d) = false := beq_eq_false_iff_ne.2 (hafter d rfl).1.symm
    simp only [Tables.quill, List.mem_cons, List.not_mem_nil, or_false] at h
    rcases h with rfl | rfl | rfl | rfl | rfl | rfl | rfl | rfl | rfl | rfl | rfl | rfl | rfl |
      rfl | rfl | rfl | rfl | rfl | rfl <;>
    simp [Tables.matchPunct?, Tables.quill, startsWithMark, List.isPrefixOf, List.find?, heq]

/-- No mark starts with a character of a word or with a quote. -/
theorem noMark_cons {c : Char} (hc : isWordChar c = true ∨ c = '"') (rest : List Char) :
    NoMark Tables.quill.puncts (c :: rest) := by
  have hchars : ∀ mark ∈ Tables.quill.puncts,
      mark.toList.all (fun d => !isWordChar d && d != '"') = true := by decide
  intro mark hmark hne hstarts
  obtain ⟨d, ds, hds⟩ := List.exists_cons_of_ne_nil (mt String.toList_eq_nil_iff.1 hne)
  have hd := List.all_eq_true.1 (hchars mark hmark) d (by rw [hds]; exact List.mem_cons_self)
  rw [Bool.and_eq_true, Bool.not_eq_true', bne_iff_ne] at hd
  obtain ⟨hword, hquote⟩ := hd
  rw [hds, List.cons_prefix_cons] at hstarts
  obtain ⟨rfl, -⟩ := hstarts
  rcases hc with hc | hc
  · rw [hword] at hc
    cases hc
  · exact hquote hc

theorem DigitRun.noMark {digits after : List Char} (h : DigitRun digits after) :
    NoMark Tables.quill.puncts (digits ++ after) := by
  obtain ⟨c, cs, rfl, hword⟩ := h.exists_cons
  exact noMark_cons (.inl hword) _

theorem WordRun.noMark {word after : List Char} (h : WordRun word after) :
    NoMark Tables.quill.puncts (word ++ after) := by
  obtain ⟨c, cs, rfl, hstart⟩ := h.exists_cons
  exact noMark_cons (.inl (isWordChar_of_isWordStart hstart)) _

/-- A mark is found by the first two characters of a text. -/
theorem matchPunct?_congr {text text' : List Char} (h : text'.take 2 = text.take 2) :
    Tables.quill.matchPunct? text' = Tables.quill.matchPunct? text := by
  have hshort : ∀ mark ∈ Tables.quill.puncts, mark.toList.length ≤ 2 := by decide
  refine List.find?_congr fun mark hmark => ?_
  have hprefix : ∀ text : List Char, mark.toList.isPrefixOf text =
      mark.toList.isPrefixOf (text.take 2) := by
    intro text
    rw [Bool.eq_iff_iff, List.isPrefixOf_iff_prefix, List.isPrefixOf_iff_prefix]
    refine ⟨fun hpre => ?_, fun hpre => hpre.trans (List.take_prefix 2 text)⟩
    exact List.prefix_take_iff.2 ⟨hpre, hshort mark hmark⟩
  rw [startsWithMark, startsWithMark, hprefix text', hprefix text, h]

/-! ## What comes ahead -/

/-- After a token the text goes on with the same character, or with one that ends a word. -/
def Ahead (rest rest' : List Char) : Prop := rest'.head? = rest.head? ∨ EndsWord rest'

theorem Ahead.stops {rest rest' : List Char} {p : Char → Bool} (h : Ahead rest rest')
    (hp : ∀ c, p c = true → isWordChar c = true) (hrest : ∀ c ∈ rest.head?, p c = false) :
    ∀ c ∈ rest'.head?, p c = false := by
  intro c hc
  rcases h with h | h
  · exact hrest c (h ▸ hc)
  · rw [Bool.eq_false_iff]
    intro hpc
    have hword := h.2 c hc
    rw [hp c hpc] at hword
    cases hword

theorem head?_append_congr {word : List Char} (hne : word ≠ []) (rest rest' : List Char) :
    (word ++ rest').head? = (word ++ rest).head? := by
  obtain ⟨c, cs, rfl⟩ := List.exists_cons_of_ne_nil hne
  rfl

theorem FirstMark.congr {mark : String} {rest rest' : List Char}
    (h : FirstMark Tables.quill.puncts mark (mark.toList ++ rest)) (hahead : Ahead rest rest') :
    FirstMark Tables.quill.puncts mark (mark.toList ++ rest') := by
  have hne := mt String.toList_eq_nil_iff.1 h.nonempty
  rcases hahead with hsame | hends
  · rw [← matchPunct?_eq_some_iff] at h ⊢
    rw [← h]
    refine matchPunct?_congr ?_
    obtain ⟨c, cs, hcs⟩ := List.exists_cons_of_ne_nil hne
    rw [hcs]
    cases cs with
    | nil =>
      have htake : ∀ text : List Char, text.take 1 = text.head?.toList := by
        rintro (_ | ⟨c, text⟩) <;> rfl
      simp [htake, hsame]
    | cons d cs => simp
  · exact firstMark_append h.mem hends.1

/-- Whether a mark stands at the start of a text is seen from the first character. -/
theorem NoMark.congr {text text' : List Char} (h : NoMark Tables.quill.puncts text)
    (hhead : text'.head? = text.head?) : NoMark Tables.quill.puncts text' := by
  -- the first character of a mark is a mark of its own
  have hsingle : ∀ mark ∈ Tables.quill.puncts, ∃ first ∈ Tables.quill.puncts,
      first ≠ "" ∧ first.toList = mark.toList.take 1 := by decide
  intro mark hmark hne hstarts
  obtain ⟨first, hfirst, hfirstne, htake⟩ := hsingle mark hmark
  obtain ⟨c, cs, hcs⟩ := List.exists_cons_of_ne_nil (mt String.toList_eq_nil_iff.1 hne)
  rw [hcs] at hstarts htake
  obtain ⟨rest, rfl⟩ := hstarts
  obtain ⟨text, rfl⟩ := List.head?_eq_some_iff.1 hhead.symm
  refine h first hfirst hfirstne ?_
  rw [htake]
  exact ⟨text, rfl⟩

theorem DigitRun.congr {digits rest rest' : List Char} (h : DigitRun digits rest)
    (hahead : Ahead rest rest') : DigitRun digits rest' :=
  ⟨h.ne_nil, h.digit, hahead.stops (fun _ => isWordChar_of_isDigit) h.stops⟩

theorem WordRun.congr {word rest rest' : List Char} (h : WordRun word rest)
    (hahead : Ahead rest rest') : WordRun word rest' :=
  ⟨h.start, h.char, hahead.stops (fun _ => id) h.stops⟩

/-- The rule for a token still applies if the text goes on in another way after it. -/
theorem TokenRule.congr {word rest rest' : List Char} {kind : TokenKind}
    (h : TokenRule .quill kind word rest) (hahead : Ahead rest rest')
    (hopen : kind = .invalid .unterminatedString → rest' = []) :
    TokenRule .quill kind word rest' := by
  have hhead := head?_append_congr h.ne_nil rest rest'
  cases h with
  | newline => exact .newline
  | punct hline hmark => exact .punct (hhead ▸ hline) (hmark.congr hahead)
  | int hmark hdigits hvalue => exact .int (hmark.congr hhead) (hdigits.congr hahead) hvalue
  | tooLarge hmark hdigits hvalue =>
    exact .tooLarge (hmark.congr hhead) (hdigits.congr hahead) hvalue
  | keyword hmark hword hmem => exact .keyword (hmark.congr hhead) (hword.congr hahead) hmem
  | symbol hmark hword hmem => exact .symbol (hmark.congr hhead) (hword.congr hahead) hmem
  | string hmark hinside => exact .string (hmark.congr rfl) hinside
  | openString hmark hnone =>
    rw [hopen rfl]
    exact .openString hmark hnone
  | other hmark hline hdigit hstart hquote =>
    exact .other (hmark.congr rfl) hline hdigit hstart hquote

end Scriptorium
