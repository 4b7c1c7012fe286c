import Scriptorium.Proofs.ErrorTokens
import Scriptorium.Proofs.LexicalErrors
import Scriptorium.Proofs.Links

/-!
# Line breaks carry no meaning

Two texts whose tokens agree, line breaks apart, say the same: where both are programs they
are the same program.  A text whose tokens are those of a program is one too, unless a line
break stands in front of a word that is glued to the one before it.  And whatever is wrong
with a text, it is never a line break that is blamed.

* `Unbroken` — no line break stands in front of a glued word;
* `Unbroken.exists_lays`, `Lays.unbroken` — tokens are unbroken if they are a layout;
* `exists_links` — the links of a program that was read;
* `parse_lineBreaks` — what line breaks can and cannot change.
-/

namespace Scriptorium

/-! ## The words of links -/

/-- A word as programs have them: no line break, not the end of the text, and no invalid
token. -/
def Word.Proper (w : Word) : Prop :=
  w.isNewline = false ∧ w.isEnd = false ∧ ∀ fault, w.kind ≠ .invalid fault

/-- All of the words are proper. -/
def ProperLinks (ls : List Link) : Prop := ∀ l ∈ ls, l.word.Proper

@[simp] theorem properLinks_nil : ProperLinks [] := by simp [ProperLinks]

@[simp] theorem properLinks_cons {l : Link} {ls : List Link} :
    ProperLinks (l :: ls) ↔ l.word.Proper ∧ ProperLinks ls := by
  simp [ProperLinks]

@[simp] theorem properLinks_append {ls ms : List Link} :
    ProperLinks (ls ++ ms) ↔ ProperLinks ls ∧ ProperLinks ms :=
  List.forall_mem_append

/-- A word of the punctuation table. -/
@[simp] theorem Word.proper_punct (text : String) : (punct text).Proper :=
  ⟨rfl, rfl, by simp [punct]⟩

/-- A word of the keyword table. -/
@[simp] theorem Word.proper_keyword (text : String) : (keyword text).Proper :=
  ⟨rfl, rfl, by simp [keyword]⟩

/-- A name. -/
@[simp] theorem Word.proper_symbol (name : String) : (symbol name).Proper :=
  ⟨rfl, rfl, by simp [symbol]⟩

/-- A number. -/
@[simp] theorem Word.proper_int (value : Nat) (text : String) :
    (Word.mk (.int value) text).Proper :=
  ⟨rfl, rfl, by simp⟩

/-- A text. -/
@[simp] theorem Word.proper_string (text : String) : (Word.mk .string text).Proper :=
  ⟨rfl, rfl, by simp⟩

mutual

theorem Expr.proper_links : (e : Expr Unit) → ProperLinks e.links
  | .literal (.int _) _ | .literal (.str _) _ | .literal (.bool _) _ => by
      simp [Expr.links, Link.free]
  | .unary op operand _ => by
      simp [Expr.links, Link.free, UnaryOp.word, operand.proper_links]
  | .binary op left right _ => by
      simp [Expr.links, Link.free, Connective.word, left.proper_links, right.proper_links]
  | .logical op left right _ => by
      simp [Expr.links, Link.free, Connective.word, left.proper_links, right.proper_links]
  | .group inner _ => by simp [Expr.links, Link.free, inner.proper_links]
  | .reference _ _ => by simp [Expr.links, Link.free]
  | .assign _ _ value _ => by simp [Expr.links, Link.free, value.proper_links]
  | .call callee args _ => by
      simp [Expr.links, Link.free, callee.proper_links, Expr.proper_argumentLinks args]

theorem Expr.proper_argumentLinks :
    (es : List (Expr Unit)) → ProperLinks (Expr.argumentLinks es)
  | [] => by simp [Expr.argumentLinks]
  | [e] => e.proper_links
  | e :: e' :: es => by
      simp [Expr.argumentLinks, Link.free, e.proper_links, Expr.proper_argumentLinks (e' :: es)]

end

theorem proper_parameterLinks (names : List String) : ProperLinks (parameterLinks names) := by
  induction names with
  | nil => simp [parameterLinks]
  | cons name names ih =>
    cases names with
    | nil => simp [parameterLinks, Link.free]
    | cons name' names => simpa [parameterLinks, Link.free] using ih

theorem proper_conditionLinks (cond : Expr Unit) : ProperLinks (conditionLinks cond) := by
  simp [conditionLinks, Link.free, cond.proper_links]

theorem proper_clauseLinks (mark : String) (clause : Option (Expr Unit)) :
    ProperLinks (clauseLinks mark clause) := by
  cases clause with
  | none => simp [clauseLinks, Link.free]
  | some e => simp [clauseLinks, Link.free, e.proper_links]

/-- Programs are made of proper words. -/
theorem Links.proper {p : StmtPhrase} {ls : List Link} (h : Links p ls) : ProperLinks ls := by
  induction h with
  | @expression e => simp [Link.free, e.proper_links]
  | declare => simp [Link.free]
  | @initialise _ e => simp [Link.free, e.proper_links]
  | block _ ih => simpa [Link.free] using ih
  | branch _ _ ih => simpa [Link.free, proper_conditionLinks] using ih
  | branchElse _ _ _ _ iht ihe => simp [Link.free, proper_conditionLinks, iht, ihe]
  | loop _ _ ih => simpa [Link.free, proper_conditionLinks] using ih
  | forLoop _ _ _ ihf ihb => simp [Link.free, proper_clauseLinks, ihf, ihb]
  | function _ ih => simpa [Link.free, proper_parameterLinks] using ih
  | ret => simp [Link.free, proper_clauseLinks]
  | nil => simp
  | cons _ _ ih ihs => simp [ih, ihs]
  | noFirst => simp [Link.free]
  | first _ _ ih => exact ih

/-- None of the words is a line break or the end of the text. -/
def SolidLinks (ls : List Link) : Prop :=
  ∀ l ∈ ls, l.word.isNewline = false ∧ l.word.isEnd = false

@[simp] theorem solidLinks_cons {l : Link} {ls : List Link} :
    SolidLinks (l :: ls) ↔
      (l.word.isNewline = false ∧ l.word.isEnd = false) ∧ SolidLinks ls := by
  simp [SolidLinks]

theorem Links.solid {p : StmtPhrase} {ls : List Link} (h : Links p ls) : SolidLinks ls :=
  fun l hl => ⟨(h.proper l hl).1, (h.proper l hl).2.1⟩

/-! ## Tokens and their line breaks -/

@[simp] theorem words_append (ts us : List Token) : words (ts ++ us) = words ts ++ words us := by
  simp [words]

theorem words_cons {t : Token} (h : t.isNewline = false) (ts : List Token) :
    words (t :: ts) = t.word :: words ts := by
  simp [words, h]

theorem words_breaks {ts : List Token} (h : ∀ t ∈ ts, t.isNewline = true) : words ts = [] := by
  simpa [words] using h

/-- No line break among the tokens stands in front of a word that is glued to the one before
it: the words before the line break tell which word comes after it. -/
def Unbroken (links : List Link) (tokens : List Token) : Prop :=
  ∀ before nl t after, tokens = before ++ nl :: t :: after → nl.isNewline = true →
    t.isNewline = false → ∀ l ∈ links[(words before).length]?, l.glued = false

/-- The token of the first word comes after line breaks. -/
theorem exists_of_words {tokens : List Token} {w : Word} {ws : List Word}
    (h : words tokens = w :: ws) :
    ∃ breaks t rest, tokens = breaks ++ t :: rest ∧ (∀ b ∈ breaks, b.isNewline = true) ∧
      t.isNewline = false ∧ t.word = w ∧ words rest = ws := by
  induction tokens with
  | nil => simp [words] at h
  | cons t tokens ih =>
    by_cases hn : t.isNewline = true
    · have hrest : words tokens = w :: ws := by simpa [words, hn] using h
      obtain ⟨breaks, u, rest, rfl, hbreaks, hu, hw, hws⟩ := ih hrest
      refine ⟨t :: breaks, u, rest, rfl, ?_, hu, hw, hws⟩
      intro b hb
      rcases List.mem_cons.1 hb with rfl | hb
      · exact hn
      · exact hbreaks b hb
    · rw [Bool.not_eq_true] at hn
      rw [words_cons hn, List.cons.injEq] at h
      exact ⟨[], t, tokens, rfl, by simp, hn, h.1, h.2⟩

theorem blank_map {breaks : List Token} (h : ∀ b ∈ breaks, b.isNewline = true) :
    Blank (breaks.map Token.word) := by
  simpa [Blank] using h

/-- Tokens that are not broken in front of glued words are a layout of the links. -/
theorem Unbroken.exists_lays {ls : List Link} {tokens : List Token} {last : Word}
    (h : Unbroken ls tokens) (hwords : words tokens = ls.map Link.word ++ [last])
    (hlast : last.isEnd = true) (hclosed : Closed (tokens.map Token.word)) :
    ∃ ws nls, tokens.map Token.word = ws ++ (nls ++ [last]) ∧ Lays ls ws ∧ Blank nls := by
  induction ls generalizing tokens with
  | nil =>
    obtain ⟨breaks, t, rest, rfl, hbreaks, -, rfl, -⟩ := exists_of_words hwords
    rw [List.map_append, closed_append fun w hw =>
      Word.isEnd_of_isNewline (blank_map hbreaks w hw)] at hclosed
    have hrest : rest = [] := by
      cases rest with
      | nil => rfl
      | cons u rest =>
        have hnot : t.word.isEnd = false := hclosed.1
        rw [hlast] at hnot
        cases hnot
    subst hrest
    exact ⟨[], _, by rw [List.map_append]; rfl, .nil, blank_map hbreaks⟩
  | cons l ls ih =>
    obtain ⟨breaks, t, rest, rfl, hbreaks, ht, hl, hrest⟩ := exists_of_words hwords
    have hunbroken : Unbroken ls rest := by
      intro before nl u after heq hnl hu m hm
      refine h (breaks ++ t :: before) nl u after (by simp [heq]) hnl hu m ?_
      rwa [words_append, words_breaks hbreaks, words_cons ht, List.nil_append, List.length_cons,
        List.getElem?_cons_succ]
    have hne : rest ≠ [] := by
      rintro rfl
      simp [words] at hrest
    have hclosed' : Closed (rest.map Token.word) := by
      rw [List.map_append, closed_append fun w hw =>
        Word.isEnd_of_isNewline (blank_map hbreaks w hw)] at hclosed
      obtain ⟨u, us, rfl⟩ := List.exists_cons_of_ne_nil hne
      exact hclosed.2
    obtain ⟨ws, nls, hmap, hlays, hnls⟩ := ih hunbroken hrest hclosed'
    obtain ⟨w, glued⟩ := l
    cases glued with
    | false =>
      refine ⟨breaks.map Token.word ++ w :: ws, nls, ?_, .free (blank_map hbreaks) hlays, hnls⟩
      rw [List.map_append, List.map_cons, hl, hmap, List.append_assoc, List.cons_append]
    | true =>
      have hnil : breaks = [] := by
        rcases List.eq_nil_or_concat breaks with rfl | ⟨before, nl, rfl⟩
        · rfl
        · have hnl := hbreaks nl (by simp)
          have hbefore : words before = [] := words_breaks fun b hb => hbreaks b (by simp [hb])
          have hfree := h before nl t rest (by simp) hnl ht ⟨w, true⟩ (by simp [hbefore])
          cases hfree
      subst hnil
      refine ⟨w :: ws, nls, ?_, .glued hlays, hnls⟩
      rw [List.nil_append, List.map_cons, hl, hmap, List.cons_append]

/-- In a layout of links no line break stands in front of a glued word. -/
theorem Lays.unbroken {ls : List Link} {ws : List Word} (h : Lays ls ws)
    (hsolid : SolidLinks ls) {tokens : List Token} {tail : List Word}
    (htokens : tokens.map Token.word = ws ++ tail) : Unbroken ls tokens := by
  induction h generalizing tokens with
  | nil => simp [Unbroken]
  | @free w ls nls ws hnls _ ih =>
    rw [solidLinks_cons] at hsolid
    rw [List.append_assoc, List.cons_append] at htokens
    obtain ⟨breaks, rest', rfl, rfl, hrest'⟩ := List.map_eq_append_iff.1 htokens
    obtain ⟨t, rest, rfl, rfl, hrest⟩ := List.map_eq_cons_iff.1 hrest'
    have hbreaks : ∀ b ∈ breaks, b.isNewline = true := by simpa [Blank] using hnls
    have ht : t.isNewline = false := by simpa [Link.free] using hsolid.1.1
    intro before nl u after heq hnl hu l hl
    rcases List.append_eq_append_iff.1 heq with ⟨middle, rfl, hmiddle⟩ | ⟨middle, rfl, hmiddle⟩
    · cases middle with
      | nil =>
        rw [List.nil_append, List.cons.injEq] at hmiddle
        rw [hmiddle.1, hnl] at ht
        cases ht
      | cons v middle =>
        rw [List.cons_append, List.cons.injEq] at hmiddle
        obtain ⟨rfl, hafter⟩ := hmiddle
        rw [words_append, words_breaks hbreaks, words_cons ht, List.nil_append, List.length_cons,
          List.getElem?_cons_succ] at hl
        exact ih hsolid.2 hrest middle nl u after hafter hnl hu l hl
    · -- the line break is one of those in front of the first word, which is not glued
      have hbefore : words before = [] := words_breaks fun b hb => hbreaks b (by simp [hb])
      rw [hbefore] at hl
      cases hl
      rfl
  | @glued w ls ws _ ih =>
    rw [solidLinks_cons] at hsolid
    obtain ⟨t, rest, rfl, rfl, hrest⟩ := List.map_eq_cons_iff.1 htokens
    have ht : t.isNewline = false := by simpa using hsolid.1.1
    intro before nl u after heq hnl hu l hl
    cases before with
    | nil =>
      rw [List.nil_append, List.cons.injEq] at heq
      rw [heq.1, hnl] at ht
      cases ht
    | cons v before =>
      rw [List.cons_append, List.cons.injEq] at heq
      obtain ⟨rfl, hafter⟩ := heq
      rw [words_cons ht, List.length_cons, List.getElem?_cons_succ] at hl
      exact ih hsolid.2 hrest before nl u after hafter hnl hu l hl

/-- The words of a layout, line breaks apart, are those of the links. -/
theorem Lays.solid_eq {ls : List Link} {ws : List Word} (h : Lays ls ws)
    (hsolid : SolidLinks ls) : solid ws = ls.map Link.word := by
  induction h with
  | nil => rfl
  | free hnls _ ih =>
    rw [solidLinks_cons] at hsolid
    rw [solid_append, solid_blank hnls, List.nil_append, List.map_cons, ← ih hsolid.2]
    exact solid_cons hsolid.1.1 _
  | glued _ ih =>
    rw [solidLinks_cons] at hsolid
    rw [List.map_cons, ← ih hsolid.2]
    exact solid_cons hsolid.1.1 _

/-! ## Programs -/

/-- The end of a text has one form. -/
theorem Word.Legible.eq_endOfInput {w : Word} (hw : w.Legible) (h : w.isEnd = true) :
    w = .endOfInput := by
  rcases w with ⟨kind, text⟩
  cases Word.isEnd_iff.1 h
  cases (show text = "" from hw)
  rfl

/-- The links of a program that was read without errors. -/
theorem exists_links {source : String} (h : (parse source).failure = none) :
    ∃ trees links, (parse source).code.HasTrees (parse source).module trees ∧
      Stmt.ShapedAll false trees ∧ Links (.body trees) links ∧
      words (tokenize .quill source) = links.map Link.word ++ [.endOfInput] ∧
      Unbroken links (tokenize .quill source) := by
  obtain ⟨trees, hstored, hshaped, taken, rest, hwords, ⟨vs, nls, rfl, hnls, hspells⟩, hend⟩ :=
    parseTokens_sound (closed_tokenize .quill source)
  obtain ⟨w, rfl, hw⟩ := hend h
  have hlegible := legible_tokenize source
  rw [hwords, allLegible_append, allLegible_append, allLegible_cons] at hlegible
  obtain rfl := hlegible.2.1.eq_endOfInput hw
  obtain ⟨ls, hlinks, hlays⟩ := hspells.exists_links hlegible.1.1
  rw [List.append_assoc] at hwords
  refine ⟨trees, ls, hasTrees_of_forall₂ hstored, hshaped, hlinks, ?_,
    hlays.unbroken hlinks.solid hwords⟩
  rw [words_eq_solid, hwords, solid_append, solid_append, solid_blank hnls,
    hlays.solid_eq hlinks.solid]
  rfl

/-- Tokens with the words of a program are read as the program if they are not broken in
front of its glued words. -/
theorem parseTokens_of_unbroken {trees : List (Stmt Unit)} {links : List Link}
    {tokens : List Token} (hlinks : Links (.body trees) links)
    (hshaped : Stmt.ShapedAll false trees) (hclosed : Closed (tokens.map Token.word))
    (hwords : words tokens = links.map Link.word ++ [.endOfInput])
    (h : Unbroken links tokens) :
    (parseTokens tokens).failure = none ∧
      (parseTokens tokens).code.HasTrees (parseTokens tokens).module trees := by
  obtain ⟨ws, nls, hmap, hlays, hnls⟩ := h.exists_lays hwords rfl hclosed
  have hend : EndsText (nls ++ [.endOfInput]) := ⟨.endOfInput, skipBlank_append hnls, rfl⟩
  obtain ⟨hnone, hstored⟩ :=
    parseTokens_complete hmap hclosed (hlinks.spells hlays) hshaped hend
  exact ⟨hnone, hasTrees_of_forall₂ hstored⟩

/-- A program is read from its tokens without the line breaks among them. -/
theorem parseTokens_without_breaks {trees : List (Stmt Unit)} {links : List Link}
    {tokens : List Token} (hlinks : Links (.body trees) links)
    (hshaped : Stmt.ShapedAll false trees)
    (hwords : words tokens = links.map Link.word ++ [.endOfInput]) :
    let solid := tokens.filter fun t => !t.isNewline
    (parseTokens solid).code.HasTrees (parseTokens solid).module trees := by
  intro solid
  have hmap : solid.map Token.word = links.map Link.word ++ [.endOfInput] := hwords
  have hsolid : ∀ t ∈ solid, t.isNewline = false := by simp [solid]
  have hwords' : words solid = links.map Link.word ++ [.endOfInput] := by
    rw [← hmap, words, List.filter_eq_self.2 (by simpa using hsolid)]
  have hclosed : Closed (solid.map Token.word) := by
    rw [hmap, closed_append]
    · rfl
    · intro w hw
      obtain ⟨l, hl, rfl⟩ := List.mem_map.1 hw
      exact (hlinks.solid l hl).2
  have hunbroken : Unbroken links solid := by
    intro before nl t after heq hnl
    rw [hsolid nl (by simp [heq])] at hnl
    cases hnl
  exact (parseTokens_of_unbroken hlinks hshaped hclosed hwords' hunbroken).2

/-- Two programs that are read under the same numbers of the same code are the same. -/
theorem Code.HasTrees.unique {c : Code} {ids : List StmtId} {trees trees' : List (Stmt Unit)}
    (h : c.HasTrees ids trees) (h' : c.HasTrees ids trees') : trees = trees' :=
  h.stmtsOf.symm.trans h'.stmtsOf

/-! ## Texts with the same tokens -/

/-- The tokens of the two texts agree in kind and lexeme, line breaks apart. -/
def SameTokens (source source' : String) : Prop :=
  let pieces (s : String) :=
    ((tokenize .quill s).filter fun t => !t.isNewline).map fun t => (t.kind, t.lexeme)
  pieces source = pieces source'

instance (source source' : String) : Decidable (SameTokens source source') :=
  inferInstanceAs (Decidable (_ = _))

theorem SameTokens.words_eq {source source' : String} (h : SameTokens source source') :
    words (tokenize .quill source) = words (tokenize .quill source') := by
  have hread := congrArg (List.map fun piece : TokenKind × String => Word.read piece.1 piece.2) h
  simp only [List.map_map] at hread
  exact hread

/-! ## Errors -/

/-- No error stands where a line break does, as far as spans reach. -/
theorem ParseError.At.ne_newline {tables : Tables} {source : String} {e : ParseError}
    (h : e.At (tokenize tables source)) :
    ∀ t ∈ tokenize tables source, t.isNewline = true → t.span.start < Span.maxOffset →
      e.span ≠ t.span := by
  obtain ⟨u, hu, hn, hspan, -⟩ := h
  intro t ht hnl hlow heq
  rw [hspan] at heq
  have hend : t.isEnd = false := by
    rw [← Token.isEnd_word]
    exact Word.isEnd_of_isNewline (by simpa using hnl)
  have hcovers := span_nonempty tables source t ht hend hlow
  have hdisjoint := List.pairwise_iff_getElem.1 (inOrder_tokenize tables source).ordered.apart
  obtain ⟨i, hi, rfl⟩ := List.getElem_of_mem hu
  obtain ⟨j, hj, rfl⟩ := List.getElem_of_mem ht
  rcases lt_trichotomy i j with hij | rfl | hij
  · have := hdisjoint i j hi hj hij
    rw [heq] at this
    omega
  · rw [hn] at hnl
    cases hnl
  · have := hdisjoint j i hj hi hij
    rw [heq] at this
    omega

/-! ## What line breaks can change -/

/-- Line breaks carry no meaning.  Two programs with the same tokens, line breaks apart, have
the same trees.  A text with the tokens of a program is one too, if no line break stands in
front of a word that is glued to the one before it; none does in the program.  And no error
is at a line break: it is at another token, and it has the span of no line break that starts
where spans reach. -/
theorem parse_lineBreaks {source source' : String} (h : SameTokens source source') :
    ((parse source).failure = none → (parse source').failure = none →
      ∃ trees, (parse source).code.HasTrees (parse source).module trees ∧
        (parse source').code.HasTrees (parse source').module trees) ∧
    ((parse source).failure = none →
      ∃ trees links, (parse source).code.HasTrees (parse source).module trees ∧
        Links (.body trees) links ∧
        words (tokenize .quill source) = links.map Link.word ++ [.endOfInput] ∧
        Unbroken links (tokenize .quill source) ∧
        (Unbroken links (tokenize .quill source') → (parse source').failure = none)) ∧
    ∀ text e, (parse text).failure = some e →
      (∃ t ∈ tokenize .quill text, t.isNewline = false ∧ e.span = t.span ∧
        e.location = t.location) ∧
      ∀ t ∈ tokenize .quill text, t.isNewline = true → t.span.start < Span.maxOffset →
        e.span ≠ t.span := by
  have hwords := h.words_eq
  refine ⟨?_, ?_, ?_⟩
  · intro haccepted haccepted'
    obtain ⟨trees, links, htrees, hshaped, hlinks, hlays, -⟩ := exists_links haccepted
    obtain ⟨trees', links', htrees', hshaped', hlinks', hlays', -⟩ := exists_links haccepted'
    have hread := parseTokens_without_breaks hlinks hshaped hlays
    have hread' := parseTokens_without_breaks hlinks' hshaped' (hwords.trans hlays')
    rw [hread'.unique hread] at htrees'
    exact ⟨trees, htrees, htrees'⟩
  · intro haccepted
    obtain ⟨trees, links, htrees, hshaped, hlinks, hlays, hunbroken⟩ := exists_links haccepted
    refine ⟨trees, links, htrees, hlinks, hlays, hunbroken, ?_⟩
    intro hunbroken'
    exact (parseTokens_of_unbroken hlinks hshaped (closed_tokenize .quill source')
      (hwords.symm.trans hlays) hunbroken').1
  · intro text e he
    exact ⟨failure_at he, (failure_at he).ne_newline⟩

theorem parse_lineBreaks_call :
    SameTokens "var x = f(1);" "var\nx = f(\n1)\n;" ∧
    ∃ trees, (parse "var x = f(1);").code.HasTrees (parse "var x = f(1);").module trees ∧
      (parse "var\nx = f(\n1)\n;").code.HasTrees (parse "var\nx = f(\n1)\n;").module trees := by
  have hsame : SameTokens "var x = f(1);" "var\nx = f(\n1)\n;" := by decide +kernel
  exact ⟨hsame, (parse_lineBreaks hsame).1 (by decide +kernel) (by decide +kernel)⟩

/-- In front of glued words a line break is an error. -/
example : (parse "f\n(1);").failure ≠ none ∧ (parse "var x\n= 1;").failure ≠ none := by
  decide +kernel

end Scriptorium
