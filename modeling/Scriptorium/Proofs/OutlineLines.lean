import Mathlib.Data.List.Basic
import Scriptorium.Layout.Outline
import Scriptorium.Proofs.WordText

/-!
# The lines of outlines

An outline is a list of lines, and each line says at which depth it is, what kind of node
it is about and what the node is.  Nothing of it is lost in the text.

* `Lined.eq_of_chars_eq` — the lines can be told from the text: no line starts with a
  blank or has a line break in it;
* `heading` — what stands before the colon of a line;
* `Literal.source_injective`, `parameterLine_inj` — literals and lists of parameters can be
  told from how they are written.
-/

namespace Scriptorium

/-! ## Names -/

/-- The text is a letter or an underscore, and letters, digits and underscores after it.
Unlike an identifier it may be a keyword. -/
def IsName (name : String) : Prop :=
  ∃ c cs, name.toList = c :: cs ∧ isWordStart c = true ∧ ∀ d ∈ cs, isWordChar d = true

theorem IsName.isWordChar {name : String} (h : IsName name) :
    ∀ c ∈ name.toList, isWordChar c = true := by
  obtain ⟨c, cs, hname, hc, hcs⟩ := h
  rw [hname]
  exact List.forall_mem_cons.2 ⟨isWordChar_of_isWordStart hc, hcs⟩

/-- A character that no name has does not stand in a name. -/
theorem IsName.not_mem {name : String} (h : IsName name) {c : Char}
    (hc : Scriptorium.isWordChar c = false) : c ∉ name.toList :=
  fun hmem => by simp [h.isWordChar c hmem] at hc

theorem IsName.unbroken {name : String} (h : IsName name) : '\n' ∉ name.toList := h.not_mem rfl

/-! ## Lines -/

/-- The text can be told from the blanks before it and from the line break after it. -/
def IsLine (text : String) : Prop := text.toList.head? ≠ some ' ' ∧ '\n' ∉ text.toList

instance (text : String) : Decidable (IsLine text) := inferInstanceAs (Decidable (_ ∧ _))

/-- What follows a label does not change how the line starts. -/
theorem IsLine.append {label detail : String} (h : IsLine label) (hne : label.toList ≠ [])
    (hdetail : '\n' ∉ detail.toList) : IsLine (label ++ detail) := by
  obtain ⟨hhead, hunbroken⟩ := h
  refine ⟨?_, by simp [hunbroken, hdetail]⟩
  rwa [String.toList_append, List.head?_append_of_ne_nil _ hne]

/-- The pieces are lines. -/
inductive Lined : List Piece → Prop where
  /-- No lines. -/
  | nil : Lined []
  /-- A line and the lines after it. -/
  | line {depth : Nat} {text : String} {rest : List Piece} :
      IsLine text → Lined rest → Lined (outlineLine depth text rest)

theorem chars_outlineLine (depth : Nat) (text : String) (rest : List Piece) :
    chars (outlineLine depth text rest) =
      List.replicate (depth * 2) ' ' ++ (text.toList ++ '\n' :: chars rest) := by
  simp [outlineLine, Piece.written]

/-- The blanks at the start of a text can be counted. -/
theorem replicate_append_inj {m n : Nat} {cs ds : List Char} (hcs : cs.head? ≠ some ' ')
    (hds : ds.head? ≠ some ' ')
    (h : List.replicate m ' ' ++ cs = List.replicate n ' ' ++ ds) : m = n ∧ cs = ds := by
  induction m generalizing n with
  | zero =>
    cases n with
    | zero => exact ⟨rfl, h⟩
    | succ n => exact absurd (by rw [show cs = _ from h]; rfl) hcs
  | succ m ih =>
    cases n with
    | zero => exact absurd (by rw [← show _ = ds from h]; rfl) hds
    | succ n =>
      obtain ⟨rfl, rfl⟩ := ih (List.cons.inj h).2
      exact ⟨rfl, rfl⟩

theorem head?_line {text : String} (h : IsLine text) (cs : List Char) :
    (text.toList ++ '\n' :: cs).head? ≠ some ' ' := by
  rcases htext : text.toList with _ | ⟨c, ds⟩
  · simp
  · simpa [htext] using h.1

/-- A text can be cut at the first of the characters that end its first part. -/
theorem append_cons_inj {c : Char} {cs ds as bs : List Char} (hcs : c ∉ cs) (hds : c ∉ ds)
    (h : cs ++ c :: as = ds ++ c :: bs) : cs = ds ∧ as = bs := by
  induction cs generalizing ds with
  | nil =>
    cases ds with
    | nil => exact ⟨rfl, (List.cons.inj h).2⟩
    | cons d ds => exact absurd (List.cons.inj h).1 (List.ne_of_not_mem_cons hds)
  | cons e cs ih =>
    cases ds with
    | nil => exact absurd (List.cons.inj h).1.symm (List.ne_of_not_mem_cons hcs)
    | cons d ds =>
      obtain ⟨rfl, htail⟩ := List.cons.inj h
      obtain ⟨rfl, rfl⟩ :=
        ih (List.not_mem_of_not_mem_cons hcs) (List.not_mem_of_not_mem_cons hds) htail
      exact ⟨rfl, rfl⟩

/-- The lines can be told from their text. -/
theorem Lined.eq_of_chars_eq {p q : List Piece} (hp : Lined p) (hq : Lined q)
    (h : chars p = chars q) : p = q := by
  induction hp generalizing q with
  | nil =>
    cases hq with
    | nil => rfl
    | line => simp only [chars_outlineLine] at h; simp [chars, render] at h
  | @line depth text rest htext _ ih =>
    cases hq with
    | nil => simp only [chars_outlineLine] at h; simp [chars, render] at h
    | @line depth' text' rest' htext' hrest' =>
      rw [chars_outlineLine, chars_outlineLine] at h
      obtain ⟨hdepth, htexts⟩ :=
        replicate_append_inj (head?_line htext _) (head?_line htext' _) h
      obtain ⟨hchars, hrests⟩ := append_cons_inj htext.2 htext'.2 htexts
      obtain rfl := String.toList_inj.1 hchars
      obtain rfl : depth = depth' := by omega
      rw [ih hrest' hrests]

theorem outlineLine_inj {depth depth' : Nat} {text text' : String} {rest rest' : List Piece}
    (h : outlineLine depth text rest = outlineLine depth' text' rest') :
    depth = depth' ∧ text = text' ∧ rest = rest' := by
  simpa [outlineLine] using h

/-! ## What the lines say -/

/-- What stands before the colon of a line. -/
def heading (text : String) : List Char := text.toList.takeWhile (· != ':')

/-- What follows a label with a colon does not change what stands before the colon. -/
theorem heading_append {label detail kind : String} (h : ':' ∈ label.toList)
    (hkind : heading label = kind.toList) : heading (label ++ detail) = kind.toList := by
  rw [← hkind, heading, heading, String.toList_append, List.takeWhile_append, if_neg]
  intro heq
  have hall := List.takeWhile_eq_self_iff.1
    ((List.takeWhile_prefix (l := label.toList) (· != ':')).eq_of_length heq)
  exact absurd (hall ':' h) (by decide)

/-! ## Texts of nodes -/

theorem BinaryOp.symbol_injective : Function.Injective BinaryOp.symbol := by
  intro a b h
  cases a <;> cases b <;> first | rfl | simp [symbol] at h

theorem UnaryOp.symbol_injective : Function.Injective UnaryOp.symbol := by
  intro a b h
  cases a <;> cases b <;> first | rfl | simp [symbol] at h

theorem LogicalOp.symbol_injective : Function.Injective LogicalOp.symbol := by
  intro a b h
  cases a <;> cases b <;> first | rfl | simp [symbol] at h

theorem toString_nat_injective : Function.Injective (toString : Nat → String) := by
  intro m n h
  have := congrArg (fun text : String => digitsValue text.toList) h
  simpa only [digitsValue_toString] using this

/-- Only numbers are written with digits alone. -/
theorem Literal.isDigit_source_iff (v : Literal String) :
    (∀ c ∈ v.source.toList, c.isDigit = true) ↔ ∃ n, v = .int n := by
  cases v with
  | int n => exact ⟨fun _ => ⟨n, rfl⟩, fun _ _ => isDigit_of_mem_toString⟩
  | str text =>
    refine ⟨fun h => ?_, by simp⟩
    exact absurd (h '"' (by simp [source, quote, quoteChars])) (by decide)
  | bool b =>
    refine ⟨fun h => ?_, by simp⟩
    exact absurd (h 'e' (by cases b <;> simp [source])) (by decide)

/-- Only texts are written with a double quote in front. -/
theorem Literal.head?_source_iff (v : Literal String) :
    v.source.toList.head? = some '"' ↔ ∃ text, v = .str text := by
  cases v with
  | int n =>
    refine ⟨fun h => ?_, by simp⟩
    exact absurd (isDigit_of_mem_toString (List.mem_of_mem_head? h)) (by decide)
  | str text => exact ⟨fun _ => ⟨text, rfl⟩, fun _ => by simp [source, quote, quoteChars]⟩
  | bool b => cases b <;> simp [source]

theorem Literal.source_injective : Function.Injective Literal.source := by
  intro a b h
  have hdigit := a.isDigit_source_iff
  have hquote := a.head?_source_iff
  rw [h, b.isDigit_source_iff] at hdigit
  rw [h, b.head?_source_iff] at hquote
  cases a with
  | int m =>
    obtain ⟨n, rfl⟩ := hdigit.2 ⟨m, rfl⟩
    rw [toString_nat_injective h]
  | str s =>
    obtain ⟨t, rfl⟩ := hquote.2 ⟨s, rfl⟩
    have := congrArg cook h
    simp only [source, cook_quote] at this
    rw [this]
  | bool x =>
    cases b with
    | int n => simp at hdigit
    | str t => simp at hquote
    | bool y => cases x <;> cases y <;> first | rfl | simp [source] at h

/-- A literal is written on one line, whatever its text. -/
theorem Literal.unbroken_source (v : Literal String) : '\n' ∉ v.source.toList := by
  cases v with
  | int n => exact fun h => absurd (isDigit_of_mem_toString h) (by decide)
  | str text =>
    have hescape (c : Char) : '\n' ∉ escapeChar c := by
      unfold escapeChar
      split <;> simp_all [eq_comm]
    simp [source, quote, quoteChars, hescape]
  | bool b => cases b <;> decide

/-! ## Parameters -/

/-- Texts with a comma and a blank after each of them. -/
def listed (texts : List String) : List Char :=
  texts.flatMap fun text => text.toList ++ [',', ' ']

theorem intercalate_append_comma {texts : List String} (h : texts ≠ []) :
    (", ".intercalate texts).toList ++ [',', ' '] = listed texts := by
  rw [String.toList_intercalate]
  induction texts with
  | nil => exact absurd rfl h
  | cons text texts ih =>
    cases texts with
    | nil => simp [listed]
    | cons next texts =>
      have := ih (List.cons_ne_nil _ _)
      rw [List.map_cons, List.map_cons, List.intercalate_cons_cons, List.append_assoc,
        ← List.map_cons, this]
      simp [listed]

/-- Texts without commas can be told from the list of them. -/
theorem listed_inj {texts texts' : List String} (h : ∀ t ∈ texts, ',' ∉ t.toList)
    (h' : ∀ t ∈ texts', ',' ∉ t.toList) (heq : listed texts = listed texts') :
    texts = texts' := by
  induction texts generalizing texts' with
  | nil =>
    cases texts' with
    | nil => rfl
    | cons => simp [listed] at heq
  | cons text texts ih =>
    cases texts' with
    | nil => simp [listed] at heq
    | cons text' texts' =>
      simp only [listed, List.flatMap_cons, List.append_assoc, List.cons_append] at heq
      obtain ⟨htext, htexts⟩ :=
        append_cons_inj (h _ (List.mem_cons_self ..)) (h' _ (List.mem_cons_self ..)) heq
      rw [String.toList_inj.1 htext, ih (fun t ht => h t (List.mem_cons_of_mem _ ht))
        (fun t ht => h' t (List.mem_cons_of_mem _ ht)) (List.cons.inj htexts).2]

/-- What stands in the line of the parameters. -/
def shownParameters (params : List String) : List String :=
  if params.isEmpty then ["(none)"] else params

theorem shownParameters_ne_nil (params : List String) : shownParameters params ≠ [] := by
  cases params <;> simp [shownParameters]

theorem parameterLine_eq (params : List String) :
    parameterLine params = "Parameters: " ++ ", ".intercalate (shownParameters params) := by
  cases params <;> rfl

theorem not_mem_shownParameters {params : List String} (h : ∀ p ∈ params, IsName p) {c : Char}
    (hc : isWordChar c = false) (hnone : c ∉ "(none)".toList) :
    ∀ t ∈ shownParameters params, c ∉ t.toList := by
  cases params with
  | nil =>
    intro t ht
    rw [List.mem_singleton.1 ht]
    exact hnone
  | cons => exact fun t ht => (h t ht).not_mem hc

/-- The parameters can be told from the line that lists them. -/
theorem parameterLine_inj {params params' : List String} (h : ∀ p ∈ params, IsName p)
    (h' : ∀ p ∈ params', IsName p) (heq : parameterLine params = parameterLine params') :
    params = params' := by
  have hname : ¬ IsName "(none)" := fun hname => hname.not_mem (c := '(') rfl (by decide)
  rw [parameterLine_eq, parameterLine_eq, String.append_right_inj] at heq
  have hshown : shownParameters params = shownParameters params' := by
    refine listed_inj (not_mem_shownParameters h rfl (by decide))
      (not_mem_shownParameters h' rfl (by decide)) ?_
    rw [← intercalate_append_comma (shownParameters_ne_nil _),
      ← intercalate_append_comma (shownParameters_ne_nil _), heq]
  cases params with
  | nil =>
    cases params' with
    | nil => rfl
    | cons p ps =>
      obtain ⟨rfl, -⟩ := List.cons.inj hshown
      exact absurd (h' _ (List.mem_cons_self ..)) hname
  | cons p ps =>
    cases params' with
    | nil =>
      obtain ⟨rfl, -⟩ := List.cons.inj hshown
      exact absurd (h _ (List.mem_cons_self ..)) hname
    | cons => exact hshown

theorem isLine_parameterLine {params : List String} (h : ∀ p ∈ params, IsName p) :
    IsLine (parameterLine params) := by
  rw [parameterLine_eq]
  refine .append (by decide) (by decide) fun hmem => ?_
  have hlisted := List.mem_append_left [',', ' '] hmem
  rw [intercalate_append_comma (shownParameters_ne_nil params), listed, List.mem_flatMap] at hlisted
  obtain ⟨t, ht, hmem⟩ := hlisted
  have := not_mem_shownParameters h (c := '\n') rfl (by decide) t ht
  simp [this] at hmem

end Scriptorium
