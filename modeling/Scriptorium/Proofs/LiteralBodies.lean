import Scriptorium.Proofs.FoundTokens
import Scriptorium.Text.Quoted

/-!
# Literals without their quotes

The quotes of a string literal are taken off before its escapes are looked at, one at either
end, and only if they are there.  So a literal can be read without its quotes, with one
exception: a double quote at the end that a backslash took along is taken for the closing one,
and the backslash is left.

* `Escaped.unescape_append` — the escapes of the inside of a literal do not go on behind it;
* `Escaped.exists_of_getLast?` — a double quote at the end of the inside belongs to a backslash;
* `cook_inside` — the text that is read without the quotes.
-/

namespace Scriptorium

/-! ## Escapes -/

theorem unescape_cons {c : Char} (hc : c ≠ '\\') (rest : List Char) :
    unescape (c :: rest) = c :: unescape rest := by
  rw [unescape.eq_7]
  all_goals simp [hc]

/-- What a backslash and the character after it stand for does not depend on what follows. -/
theorem exists_unescape_pair (c : Char) :
    ∃ cs, ∀ rest, unescape ('\\' :: c :: rest) = cs ++ unescape rest := by
  by_cases hquote : c = '"'
  · exact ⟨['"'], fun rest => by rw [hquote]; rfl⟩
  by_cases hbackslash : c = '\\'
  · exact ⟨['\\'], fun rest => by rw [hbackslash]; rfl⟩
  by_cases hn : c = 'n'
  · exact ⟨['\n'], fun rest => by rw [hn]; rfl⟩
  by_cases ht : c = 't'
  · exact ⟨['\t'], fun rest => by rw [ht]; rfl⟩
  by_cases hr : c = 'r'
  · exact ⟨['\r'], fun rest => by rw [hr]; rfl⟩
  by_cases hzero : c = '0'
  · exact ⟨['\x00'], fun rest => by rw [hzero]; rfl⟩
  · refine ⟨['\\', c], fun rest => ?_⟩
    rw [unescape.eq_7, unescape_cons hbackslash]
    · rfl
    all_goals simp [hquote, hbackslash, hn, ht, hr, hzero]

namespace Escaped

variable {inside : List Char}

/-- The escapes of the inside of a literal do not go on behind it. -/
theorem unescape_append (h : Escaped inside) (rest : List Char) :
    unescape (inside ++ rest) = unescape inside ++ unescape rest := by
  induction h with
  | nil => rfl
  | @plain c cs _ hbackslash _ ih =>
    rw [List.cons_append, unescape_cons hbackslash, unescape_cons hbackslash, ih, List.cons_append]
  | @pair c cs _ ih =>
    obtain ⟨text, htext⟩ := exists_unescape_pair c
    rw [List.cons_append, List.cons_append, htext, htext, ih, List.append_assoc]

/-- A double quote at the end of the inside of a literal belongs to a backslash. -/
theorem exists_of_getLast? (h : Escaped inside) (hlast : inside.getLast? = some '"') :
    ∃ before, inside = before ++ ['\\', '"'] ∧ Escaped before := by
  induction h with
  | nil => cases hlast
  | @plain c cs hquote hbackslash _ ih =>
    cases cs with
    | nil => exact absurd (Option.some.inj hlast) hquote
    | cons d cs =>
      rw [List.getLast?_cons_cons] at hlast
      obtain ⟨before, hbefore, hescaped⟩ := ih hlast
      exact ⟨c :: before, by rw [hbefore, List.cons_append], .plain hquote hbackslash hescaped⟩
  | @pair c cs _ ih =>
    cases cs with
    | nil =>
      obtain rfl : c = '"' := Option.some.inj hlast
      exact ⟨[], rfl, .nil⟩
    | cons d cs =>
      rw [List.getLast?_cons_cons, List.getLast?_cons_cons] at hlast
      obtain ⟨before, hbefore, hescaped⟩ := ih hlast
      refine ⟨'\\' :: c :: before, ?_, .pair hescaped⟩
      rw [hbefore, List.cons_append, List.cons_append]

/-- The inside of a literal starts with no double quote. -/
theorem stripOpeningQuote (h : Escaped inside) : stripOpeningQuote inside = inside := by
  cases h with
  | nil => rfl
  | plain hquote =>
    exact Scriptorium.stripOpeningQuote.eq_2 _ fun _ htext => hquote (List.cons.inj htext).1
  | pair => rfl

end Escaped

/-! ## Quotes -/

theorem stripClosingQuote_concat (cs : List Char) : stripClosingQuote (cs ++ ['"']) = cs := by
  rw [stripClosingQuote, if_pos List.getLast?_concat, List.dropLast_concat]

/-- The text of a literal is that of the characters between its quotes. -/
theorem cookChars_literal (inside : List Char) :
    cookChars ('"' :: (inside ++ ['"'])) = unescape inside := by
  rw [cookChars, stripOpeningQuote, stripClosingQuote_concat]

/-- Without its quotes, a literal is read as with them, unless the inside ends with a double
quote; then the backslash before it is left in its place. -/
theorem Escaped.cookChars_inside {inside : List Char} (h : Escaped inside) :
    (inside.getLast? ≠ some '"' ∧ cookChars inside = unescape inside) ∨
      (inside.getLast? = some '"' ∧
        ∃ text, unescape inside = text ++ ['"'] ∧ cookChars inside = text ++ ['\\']) := by
  rw [cookChars, h.stripOpeningQuote]
  by_cases hlast : inside.getLast? = some '"'
  · obtain ⟨before, rfl, hbefore⟩ := h.exists_of_getLast? hlast
    have hsplit : before ++ ['\\', '"'] = before ++ ['\\'] ++ ['"'] := by simp
    refine .inr ⟨hlast, unescape before, hbefore.unescape_append ['\\', '"'], ?_⟩
    rw [hsplit, stripClosingQuote_concat]
    exact hbefore.unescape_append ['\\']
  · exact .inl ⟨hlast, by rw [stripClosingQuote, if_neg hlast]⟩

/-! ## The literals of a text -/

/-- The token of a string literal is a double quote, the inside, and a double quote. -/
theorem exists_inside {tables : Tables} {source : String} :
    ∀ t ∈ tokenize tables source, t.kind = .string →
      ∃ inside, t.lexeme.toList = '"' :: (inside ++ ['"']) ∧ Escaped inside := by
  refine forall_tokenize fun s before _ hkind => ?_
  have hrule := s.rule_next (by simp [hkind]) (by simp [hkind])
  rw [hkind] at hrule
  exact hrule.exists_inside

/-- The quotes of a string literal can be left out if and only if the text between them does not
end with a double quote.  If it does, then the text that is read without the quotes ends with a
backslash in place of the double quote. -/
theorem cook_inside {tables : Tables} {source : String} :
    ∀ t ∈ tokenize tables source, t.kind = .string →
      ∃ inside, t.lexeme = "\"" ++ inside ++ "\"" ∧
        (cook inside = cook t.lexeme ↔ inside.toList.getLast? ≠ some '"') ∧
        (inside.toList.getLast? = some '"' →
          ∃ text, cook t.lexeme = text ++ "\"" ∧ cook inside = text ++ "\\") := by
  intro t ht hkind
  obtain ⟨inside, hlexeme, hinside⟩ := exists_inside t ht hkind
  have hcook : cook t.lexeme = String.ofList (unescape inside) := by
    rw [cook, hlexeme, cookChars_literal]
  refine ⟨String.ofList inside, ?_, ?_⟩
  · refine String.toList_injective ?_
    simp [hlexeme]
  rw [hcook, cook, String.toList_ofList]
  rcases hinside.cookChars_inside with ⟨hlast, hsame⟩ | ⟨hlast, text, hwith, hwithout⟩
  · exact ⟨by simp [hsame, hlast], fun h => absurd h hlast⟩
  · rw [hwith, hwithout]
    refine ⟨?_, fun _ => ⟨String.ofList text, String.ofList_append, String.ofList_append⟩⟩
    simp [hlast]

/-- The escape at the end of this literal is none of a double quote. -/
theorem cook_inside_backslash :
    let t : Token := ⟨.string, "\"\\\"a\\\\\"", ⟨0, 7⟩, .start⟩
    t ∈ tokenize .quill "\"\\\"a\\\\\"" ∧ t.kind = .string ∧ cook "\\\"a\\\\" = cook t.lexeme := by
  intro t
  have ht : t ∈ tokenize .quill "\"\\\"a\\\\\"" := by decide +kernel
  obtain ⟨inside, hlexeme, hsame, -⟩ := cook_inside t ht rfl
  refine ⟨ht, rfl, ?_⟩
  have hinside : inside = "\\\"a\\\\" := by
    have hlist : inside.toList ++ ['"'] = "\\\"a\\\\".toList ++ ['"'] := by
      simpa [t] using (congrArg String.toList hlexeme).symm
    exact String.toList_injective (List.append_cancel_right hlist)
  rw [← hinside]
  exact hsame.2 (by rw [hinside]; decide)

/-- The quotes of `"\""` cannot be left out. -/
theorem cook_inside_escaped_quote :
    ∃ t ∈ tokenize .quill "\"\\\"\"", t.kind = .string ∧ t.lexeme = "\"" ++ "\\\"" ++ "\"" ∧
      cook "\\\"" = "\\" ∧ cook t.lexeme = "\"" ∧ cook "\\\"" ≠ cook t.lexeme := by
  decide +kernel

end Scriptorium
