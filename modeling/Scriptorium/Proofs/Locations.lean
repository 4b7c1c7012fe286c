import Scriptorium.Proofs.ErrorTokens
import Scriptorium.Proofs.TextLines
import Scriptorium.Report.Rendering

/-!
# Tokens and diagnostics show the same locations

The scanner counts the row and the column of a token while it reads; a diagnostic has only
an offset, and the row and the column that it shows are found in the table of lines.  Both
count in 32 bits, and they may differ where these are not enough.

* `Token.Located` — the table of lines finds the location of the token;
* `located_tokenize` — it does for every token of a text whose rows and columns have numbers;
* `render_diagnostic` — the text of the diagnostic of a syntax error;
* `parseWith_locations` — the location that a syntax error states is the one that its
  diagnostic shows, and `locations_differ`, a text with one row too many.
-/

namespace Scriptorium

/-- The table of lines of the source text finds the location of the token. -/
def Token.Located (source : String) (t : Token) : Prop :=
  (LineTable.build source).location t.span.start = t.location

namespace Scanner

variable {source : String} {before gap word : List Char} {kind : TokenKind} {s : Scanner}

/-- The scanner counts the location of a token where the table of lines finds it. -/
theorem TakesOff.located (h : s.TakesOff kind gap word) (hs : s.Reads source.toList before)
    (hsize : byteLength source.toList < 2 ^ 32) (hnumbered : Numbered source.toList) :
    s.next.1.Located source := by
  have hsource : source.toList = (before ++ gap) ++ (word ++ s.next.2.text) := by
    rw [hs.source, h.text, List.append_assoc]
  have hplace : s.place.advance gap = Place.start.advance (before ++ gap) := by
    rw [hs.place, Place.advance_append]
  rw [Token.Located, h.span hs hsize, h.token, Place.token, hplace, Place.location_start_advance]
  exact LineTable.location_of_append hsize hnumbered hsource

end Scanner

/-- The table of lines finds the location of every token of a text. -/
theorem located_tokenize (tables : Tables) {source : String}
    (hsize : byteLength source.toList < 2 ^ 32) (hnumbered : Numbered source.toList) :
    ∀ t ∈ tokenize tables source, t.Located source := by
  refine forall_tokenize fun s before hs => ?_
  obtain ⟨kind, gap, word, h⟩ := s.exists_takesOff
  exact h.located hs hsize hnumbered

/-- The text of the diagnostic of a syntax error has the position of the error in one
place. -/
theorem render_diagnostic (v : View) (e : ParseError) :
    v.render e.diagnostic = v.headline e.diagnostic ++
      (blanks (v.gutter e.diagnostic.labels) ++ "--> " ++ v.position e.span ++ "\n" ++
        v.labelBody (v.gutter e.diagnostic.labels) ⟨e.span, e.fault.label⟩) ++ "\n" := by
  simp [View.render, View.label, ParseError.diagnostic]

/-- In a text of less than 4 GiB whose rows and columns have numbers of 32 bits, the table of
lines finds the location of every token and of the error of the text, so the diagnostic of the
error points at the row and the column that the text of the error starts with. -/
theorem parseWith_locations (tables : Tables) {source : String}
    (hsize : byteLength source.toList < 2 ^ 32) (hnumbered : Numbered source.toList) :
    (∀ t ∈ tokenize tables source,
      (LineTable.build source).location t.span.start = t.location) ∧
    ∀ e ∈ (parseWith tables source).failure,
      (LineTable.build source).location e.span.start = e.location ∧
      e.text = e.location.text ++ ": " ++ e.fault.message ∧
      ∀ (colors : Bool) (path : String),
        let v : View := ⟨colors, some (.of path source)⟩
        v.render e.diagnostic = v.headline e.diagnostic ++
          (blanks (v.gutter e.diagnostic.labels) ++ "--> " ++
            (path ++ ":" ++ e.location.text) ++ "\n" ++
            v.labelBody (v.gutter e.diagnostic.labels) ⟨e.span, e.fault.label⟩) ++ "\n" := by
  have hlocated := located_tokenize tables hsize hnumbered
  refine ⟨hlocated, ?_⟩
  intro e he
  obtain ⟨t, ht, -, hspan, hlocation⟩ := failure_at he
  have hfound : (LineTable.build source).location e.span.start = e.location := by
    rw [hspan, hlocation]
    exact hlocated t ht
  refine ⟨hfound, rfl, ?_⟩
  intro colors path v
  have hposition : v.position e.span = path ++ ":" ++ e.location.text := by
    rw [← hfound]
    rfl
  rw [render_diagnostic, hposition]

/-- An error on the second line, behind a letter of two bytes. -/
theorem parseWith_locations_second_line :
    let source := "\"é\n\" / ;"
    byteLength source.toList < 2 ^ 32 ∧ Numbered source.toList ∧
      ∀ e ∈ (parse source).failure,
        (LineTable.build source).location e.span.start = e.location ∧
        e.text = "2:5: expected expression but got ';'" := by
  intro source
  have hsize : byteLength source.toList < 2 ^ 32 := by decide
  have hnumbered : Numbered source.toList := numbered_of_byteLength (by decide)
  have htext : (parse source).failure.map ParseError.text =
      some "2:5: expected expression but got ';'" := by decide +kernel
  refine ⟨hsize, hnumbered, fun e he => ?_⟩
  rw [he, Option.map_some, Option.some.injEq] at htext
  exact ⟨((parseWith_locations .quill hsize hnumbered).2 e he).1, htext⟩

/-- The last token stands at the end of the text. -/
theorem exists_last_token (tables : Tables) (source : String) :
    ∃ t ∈ tokenize tables source,
      t.span = .ofOffsets (byteLength source.toList) (byteLength source.toList) ∧
      t.location = (Place.start.advance source.toList).location := by
  obtain ⟨tokens, last, htokens, hcollects⟩ :=
    Scanner.exists_collects (Scanner.reads_start tables source) le_rfl []
  refine ⟨last, ?_, hcollects.ends.2.2⟩
  rw [show tokenize tables source = tokens ++ [last] from htokens]
  exact List.mem_append_right tokens List.mem_cons_self

/-- In a text of nothing but line breaks with one row too many, the token at the end has been
counted in column one of row zero, and the table of lines finds it in column zero. -/
theorem locations_differ :
    let source := String.ofList (List.replicate 4294967295 '\n')
    byteLength source.toList < 2 ^ 32 ∧
      ∃ t ∈ tokenize .quill source, t.location = ⟨0, 1⟩ ∧
        (LineTable.build source).location t.span.start = ⟨0, 0⟩ := by
  obtain ⟨hbytes, -, hfound⟩ := LineTable.location_newlines (n := 4294967295) rfl
  obtain ⟨t, ht, hspan, hlocation⟩ :=
    exists_last_token .quill (String.ofList (List.replicate 4294967295 '\n'))
  refine ⟨hbytes.trans_lt (by omega), t, ht, ?_, ?_⟩
  · rw [hlocation, String.toList_ofList]
    exact Place.location_advance_newlines rfl
  · rw [hspan, hbytes]
    exact hfound

end Scriptorium
