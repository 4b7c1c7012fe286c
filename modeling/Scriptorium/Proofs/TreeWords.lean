import Scriptorium.Proofs.Grammar

/-!
# The words of a tree

`Expr.words` and `Stmt.words` are the words of a tree, without line breaks.  Whatever
spells a tree has these words and line breaks, unless it has a loop with clauses:
the tree of such a loop is that of other statements.

* `Spells.solid_eq`, `SpellsStmt.solid_eq` — the words of a spelling, line breaks
  apart, are those of its tree;
* `Spells.legible`, `SpellsStmt.legible` — a tree that is spelled with words of the
  language is legible.
-/

namespace Scriptorium

/-! ## Words of expressions -/

/-- The word of an operator between operands. -/
def Connective.word : Connective → Word
  | .binary op => .punct op.symbol
  | .logical op => .keyword op.symbol

/-- The word of a sign. -/
def UnaryOp.word (op : UnaryOp) : Word := .punct op.symbol

mutual

/-- The words of an expression. -/
def Expr.words : Expr Unit → List Word
  | .literal (.int value) _ => [⟨.int value, ""⟩]
  | .literal (.str text) _ => [⟨.string, text⟩]
  | .literal (.bool b) _ => [.keyword (if b then "true" else "false")]
  | .unary op operand _ => op.word :: operand.words
  | .binary op left right _ => left.words ++ (Connective.binary op).word :: right.words
  | .logical op left right _ => left.words ++ (Connective.logical op).word :: right.words
  | .group inner _ => .punct "(" :: (inner.words ++ [.punct ")"])
  | .reference name _ => [.symbol name]
  | .assign name _ value _ => .symbol name :: .punct "=" :: value.words
  | .call callee args _ =>
      callee.words ++ .punct "(" :: (Expr.argumentWords args ++ [.punct ")"])

/-- The words of arguments, with a comma between two of them. -/
def Expr.argumentWords : List (Expr Unit) → List Word
  | [] => []
  | [e] => e.words
  | e :: es => e.words ++ .punct "," :: Expr.argumentWords es

end

/-- The words of a phrase. -/
def Phrase.words : Phrase → List Word
  | .expr e => e.words
  | .args es => Expr.argumentWords es

/-- The phrase is legible. -/
def Phrase.Legible : Phrase → Prop
  | .expr e => e.Legible
  | .args es => Expr.LegibleAll es

theorem Connective.words_tree (op : Connective) (left right : Expr Unit) :
    (op.tree left right).words = left.words ++ op.word :: right.words := by
  cases op <;> simp [tree, Expr.words]

theorem Connective.connective?_word (op : Connective) : op.word.connective? = some op := by
  rcases op with op | op <;> cases op <;> decide

theorem UnaryOp.sign?_word (op : UnaryOp) : op.word.sign? = some op := by
  cases op <;> decide

/-! ## Words without line breaks -/

/-- The words that are no line breaks. -/
def solid (ws : List Word) : List Word := ws.filter fun w => !w.isNewline

@[simp] theorem solid_append (ws vs : List Word) : solid (ws ++ vs) = solid ws ++ solid vs :=
  List.filter_append ..

theorem solid_cons_of_newline {w : Word} (h : w.isNewline = true) (ws : List Word) :
    solid (w :: ws) = solid ws := by
  simp [solid, h]

theorem solid_cons {w : Word} (h : w.isNewline = false) (ws : List Word) :
    solid (w :: ws) = w :: solid ws := by
  simp [solid, h]

theorem solid_blank {ws : List Word} (h : Blank ws) : solid ws = [] := by
  simpa [solid, List.filter_eq_nil_iff, Blank] using h

theorem solid_append_blank {nls : List Word} (h : Blank nls) (ws : List Word) :
    solid (ws ++ nls) = solid ws := by
  rw [solid_append, solid_blank h, List.append_nil]

/-- The words of tokens, line breaks apart, are the solid ones among their words. -/
theorem words_eq_solid (ts : List Token) : words ts = solid (ts.map Token.word) := by
  simp [words, solid, List.filter_map, Function.comp_def]

/-! ## Legible words -/

/-- A legible word that is a given punctuation stays as that punctuation. -/
theorem solid_punct {w : Word} {text : String} (hw : w.Legible) (h : w.is text = true)
    (hk : text ∉ Tables.quill.keywords) (ws : List Word) :
    solid (w :: ws) = .punct text :: solid ws := by
  rw [hw.eq_punct h hk]
  exact solid_cons rfl ws

/-- A legible word that is a given keyword stays as that keyword. -/
theorem solid_keyword {w : Word} {text : String} (hw : w.Legible) (h : w.is text = true)
    (hk : text ∉ Tables.quill.puncts) (ws : List Word) :
    solid (w :: ws) = .keyword text :: solid ws := by
  rw [hw.eq_keyword h hk]
  exact solid_cons rfl ws

/-- The words of operators are told from their text by the table of the language. -/
theorem Word.Legible.eq_connective {w : Word} {op : Connective} (hw : w.Legible)
    (h : w.connective? = some op) : w = op.word ∧ w.isNewline = false := by
  simp only [connective?, Connective.ofToken?] at h
  split at h
  · next hor =>
    cases h
    exact ⟨hw.eq_keyword hor (by decide), (solid_of_is hor).1⟩
  · split at h
    · next hand =>
      cases h
      exact ⟨hw.eq_keyword hand (by decide), (solid_of_is hand).1⟩
    · split at h
      · next hp =>
        obtain ⟨b, hb, rfl⟩ := Option.map_eq_some_iff.1 h
        have hsym : b.symbol = w.text := by
          simpa [token] using List.find?_some hb
        rcases w with ⟨kind, text⟩
        cases show kind = .punct from hp
        exact ⟨by rw [Connective.word, hsym]; rfl, rfl⟩
      · exact absurd h (by simp)

theorem Word.eq_sign {w : Word} {op : UnaryOp} (h : w.sign? = some op) :
    w = op.word ∧ w.isNewline = false := by
  simp only [sign?, UnaryOp.ofToken?] at h
  split at h
  · next hp =>
    have hsym : op.symbol = w.text := by
      simpa [token] using List.find?_some h
    rcases w with ⟨kind, text⟩
    cases show kind = .punct from hp
    exact ⟨by rw [UnaryOp.word, hsym]; rfl, rfl⟩
  · exact absurd h (by simp)

/-! ## Spellings of expressions -/

/-- The words that spell a phrase are its words, and line breaks. -/
theorem Spells.solid_eq {p : Phrase} {ws : List Word} (h : Spells p ws) (hw : AllLegible ws) :
    solid ws = p.words := by
  induction h with
  | lead hnl _ ih =>
    rw [solid_cons_of_newline hnl, ih (allLegible_cons.1 hw).2]
  | int value => rfl
  | str text => rfl
  | bool b => rfl
  | reference name => rfl
  | group _ hnls hclose ih =>
    simp only [allLegible_cons, allLegible_append] at hw
    obtain ⟨-, ⟨hw, -⟩, hc, -⟩ := hw
    rw [solid_cons rfl, solid_append, solid_append_blank hnls, ih hw,
      solid_punct hc hclose (by decide)]
    rfl
  | unary hs _ ih =>
    obtain ⟨rfl, hsolid⟩ := Word.eq_sign hs
    rw [solid_cons hsolid, ih (allLegible_cons.1 hw).2]
    rfl
  | operation _ hnls hop _ ihl ihr =>
    simp only [allLegible_cons, allLegible_append] at hw
    obtain ⟨⟨hl, -⟩, ho, hr⟩ := hw
    obtain ⟨rfl, hsolid⟩ := ho.eq_connective hop
    rw [solid_append, solid_append_blank hnls, solid_cons hsolid, ihl hl, ihr hr]
    exact (Connective.words_tree _ _ _).symm
  | assign _ hnls hsign _ ihn ihv =>
    simp only [allLegible_cons, allLegible_append] at hw
    obtain ⟨⟨hn, -⟩, ho, hv⟩ := hw
    rw [solid_append, solid_append_blank hnls, solid_punct ho hsign (by decide), ihn hn, ihv hv]
    rfl
  | call _ hopen _ hnls hclose ihf ihargs =>
    simp only [allLegible_cons, allLegible_append] at hw
    obtain ⟨hf, ho, ⟨hargs, -⟩, hc, -⟩ := hw
    rw [solid_append, ihf hf, solid_punct ho hopen (by decide), solid_append,
      solid_append_blank hnls, ihargs hargs, solid_punct hc hclose (by decide)]
    rfl
  | noArgs => rfl
  | oneArg _ ih => exact ih hw
  | moreArgs _ hnls hcomma _ ih ihs =>
    simp only [allLegible_cons, allLegible_append] at hw
    obtain ⟨⟨he, -⟩, hc, hes⟩ := hw
    rw [solid_append, solid_append_blank hnls, ih he, solid_punct hc hcomma (by decide), ihs hes]
    rfl

/-- A phrase that is spelled with legible words is legible. -/
theorem Spells.legible {p : Phrase} {ws : List Word} (h : Spells p ws) (hw : AllLegible ws) :
    p.Legible := by
  induction h with
  | lead _ _ ih => exact ih (allLegible_cons.1 hw).2
  | int value => exact (allLegible_cons.1 hw).1.1
  | str text => trivial
  | bool b => trivial
  | reference name => exact (allLegible_cons.1 hw).1
  | group _ _ _ ih =>
    simp only [allLegible_cons, allLegible_append] at hw
    exact ih hw.2.1.1
  | unary _ _ ih => exact ih (allLegible_cons.1 hw).2
  | operation _ _ _ _ ihl ihr =>
    simp only [allLegible_cons, allLegible_append] at hw
    exact (Connective.legible_tree _ _ _).2 ⟨ihl hw.1.1, ihr hw.2.2⟩
  | assign _ _ _ _ ihn ihv =>
    simp only [allLegible_cons, allLegible_append] at hw
    exact ⟨ihn hw.1.1, ihv hw.2.2⟩
  | call _ _ _ _ _ ihf ihargs =>
    simp only [allLegible_cons, allLegible_append] at hw
    exact ⟨ihf hw.1, ihargs hw.2.2.1.1⟩
  | noArgs => trivial
  | oneArg _ ih => exact ⟨ih hw, trivial⟩
  | moreArgs _ _ _ _ ih ihs =>
    simp only [allLegible_cons, allLegible_append] at hw
    exact ⟨ih hw.1.1, ihs hw.2.2⟩

theorem Spells.binary {op : BinaryOp} {left right : Expr Unit} {ws vs : List Word}
    (hl : Spells (.expr left) ws) (hr : Spells (.expr right) vs) :
    Spells (.expr (.binary op left right ())) (ws ++ .punct op.symbol :: vs) := by
  have := Spells.operation hl blank_nil (Connective.binary op).connective?_word hr
  rwa [List.append_nil] at this

theorem Spells.logical {op : LogicalOp} {left right : Expr Unit} {ws vs : List Word}
    (hl : Spells (.expr left) ws) (hr : Spells (.expr right) vs) :
    Spells (.expr (.logical op left right ())) (ws ++ .keyword op.symbol :: vs) := by
  have := Spells.operation hl blank_nil (Connective.logical op).connective?_word hr
  rwa [List.append_nil] at this

mutual

/-- The words of an expression spell it. -/
theorem Expr.spells_words : (e : Expr Unit) → Spells (.expr e) e.words
  | .literal (.int value) _ => .int value
  | .literal (.str text) _ => .str text
  | .literal (.bool b) _ => .bool b
  | .unary op operand _ => .unary op.sign?_word operand.spells_words
  | .binary _ left right _ => left.spells_words.binary right.spells_words
  | .logical _ left right _ => left.spells_words.logical right.spells_words
  | .group inner _ => by
      have := Spells.group inner.spells_words blank_nil (Word.is_punct ")")
      rwa [List.append_nil] at this
  | .reference name _ => .reference name
  | .assign name _ value _ =>
      .assign (.reference name) blank_nil (Word.is_punct "=") value.spells_words
  | .call callee args _ => by
      have := Spells.call callee.spells_words (Word.is_punct "(")
        (Expr.spells_argumentWords args) blank_nil (Word.is_punct ")")
      rwa [List.append_nil] at this

/-- The words of arguments spell them. -/
theorem Expr.spells_argumentWords :
    (es : List (Expr Unit)) → Spells (.args es) (Expr.argumentWords es)
  | [] => .noArgs
  | [e] => .oneArg e.spells_words
  | e :: e' :: es => by
      have := Spells.moreArgs e.spells_words blank_nil (Word.is_punct ",")
        (Expr.spells_argumentWords (e' :: es))
      rwa [List.append_nil] at this

end

/-! ## Words of statements -/

/-- The words of names, with a comma between two of them. -/
def parameterWords : List String → List Word
  | [] => []
  | [name] => [.symbol name]
  | name :: names => .symbol name :: .punct "," :: parameterWords names

mutual

/-- The words of a statement. -/
def Stmt.words : Stmt Unit → List Word
  | .expression expr _ => expr.words ++ [.punct ";"]
  | .declare name none _ => [.keyword "var", .symbol name, .punct ";"]
  | .declare name (some init) _ =>
      .keyword "var" :: .symbol name :: .punct "=" :: (init.words ++ [.punct ";"])
  | .block body _ => .punct "\x7b" :: (Stmt.bodyWords body ++ [.punct "\x7d"])
  | .branch cond thenBranch none _ =>
      .keyword "if" :: .punct "(" :: (cond.words ++ .punct ")" :: thenBranch.words)
  | .branch cond thenBranch (some elseBranch) _ =>
      .keyword "if" :: .punct "(" ::
        (cond.words ++ .punct ")" ::
          (thenBranch.words ++ .keyword "else" :: elseBranch.words))
  | .loop cond body _ =>
      .keyword "while" :: .punct "(" :: (cond.words ++ .punct ")" :: body.words)
  | .function name params body _ =>
      .keyword "fun" :: .symbol name :: .punct "(" ::
        (parameterWords params ++ .punct ")" :: .punct "\x7b" ::
          (Stmt.bodyWords body ++ [.punct "\x7d"]))
  | .ret none _ => [.keyword "return", .punct ";"]
  | .ret (some value) _ => .keyword "return" :: (value.words ++ [.punct ";"])

/-- The words of statements, one after the other. -/
def Stmt.bodyWords : List (Stmt Unit) → List Word
  | [] => []
  | s :: ss => s.words ++ Stmt.bodyWords ss

end

/-- The words of a phrase. -/
def StmtPhrase.words : StmtPhrase → List Word
  | .stmt _ s => s.words
  | .body ss => Stmt.bodyWords ss
  | .first none => [.punct ";"]
  | .first (some s) => s.words

/-- The phrase is legible. -/
def StmtPhrase.Legible : StmtPhrase → Prop
  | .stmt _ s => s.Legible
  | .body ss => Stmt.LegibleAll ss
  | .first s => ∀ t ∈ s, t.Legible

/-! ## Spellings of statements -/

theorem SpellsCondition.solid_eq {e : Expr Unit} {ws : List Word} (h : SpellsCondition e ws)
    (hw : AllLegible ws) : solid ws = .punct "(" :: (e.words ++ [.punct ")"]) := by
  obtain ⟨hnls₁, hopen, he, hnls₂, hclose⟩ := h
  simp only [allLegible_cons, allLegible_append] at hw
  obtain ⟨-, ho, ⟨hws, -⟩, hc, -⟩ := hw
  rw [solid_append, solid_blank hnls₁, List.nil_append, solid_punct ho hopen (by decide),
    solid_append, solid_append_blank hnls₂, he.solid_eq hws, solid_punct hc hclose (by decide)]
  rfl

theorem SpellsCondition.legible {e : Expr Unit} {ws : List Word} (h : SpellsCondition e ws)
    (hw : AllLegible ws) : e.Legible := by
  obtain ⟨-, -, he, -, -⟩ := h
  simp only [allLegible_cons, allLegible_append] at hw
  exact he.legible hw.2.2.1.1

theorem SpellsName.solid_eq {name : String} {ws : List Word} (h : SpellsName name ws) :
    solid ws = [.symbol name] := by
  obtain ⟨hnls⟩ := h
  rw [solid_append, solid_blank hnls]
  rfl

theorem SpellsName.legible {name : String} {ws : List Word} (h : SpellsName name ws)
    (hw : AllLegible ws) : IsIdentifier name := by
  obtain ⟨hnls⟩ := h
  simp only [allLegible_cons, allLegible_append] at hw
  exact hw.2.1

theorem SpellsClause.solid_eq {mark : String} {e : Option (Expr Unit)} {ws : List Word}
    (h : SpellsClause mark e ws) (hw : AllLegible ws) (hmark : mark ∉ Tables.quill.keywords) :
    solid ws = e.elim [] Expr.words ++ [.punct mark] := by
  cases h with
  | none hnls hm =>
    simp only [allLegible_cons, allLegible_append] at hw
    rw [solid_append, solid_blank hnls, solid_punct hw.2.1 hm hmark]
    rfl
  | some he hnls hm =>
    simp only [allLegible_cons, allLegible_append] at hw
    obtain ⟨⟨hws, -⟩, hc, -⟩ := hw
    rw [solid_append, solid_append_blank hnls, he.solid_eq hws, solid_punct hc hm hmark]
    rfl

theorem SpellsClause.legible {mark : String} {e : Option (Expr Unit)} {ws : List Word}
    (h : SpellsClause mark e ws) (hw : AllLegible ws) : ∀ t ∈ e, t.Legible := by
  cases h with
  | none => simp
  | some he =>
    simp only [allLegible_append] at hw
    rintro t ⟨⟩
    exact he.legible hw.1.1

theorem solid_parameters {names : List String} {ws : List Word}
    (h : Separated SpellsName names ws) (hw : AllLegible ws) :
    solid ws = parameterWords names := by
  induction h with
  | none => rfl
  | one hn => exact hn.solid_eq
  | more hn hnls hcomma _ ih =>
    simp only [allLegible_cons, allLegible_append] at hw
    obtain ⟨-, hc, hvs⟩ := hw
    rw [solid_append, solid_append_blank hnls, hn.solid_eq, solid_punct hc hcomma (by decide),
      ih hvs]
    rfl

theorem legible_parameters {names : List String} {ws : List Word}
    (h : Separated SpellsName names ws) (hw : AllLegible ws) :
    ∀ p ∈ names, IsIdentifier p := by
  induction h with
  | none => simp
  | one hn =>
    intro p hp
    rw [List.mem_singleton.1 hp]
    exact hn.legible hw
  | more hn _ _ _ ih =>
    simp only [allLegible_cons, allLegible_append] at hw
    intro p hp
    rcases List.mem_cons.1 hp with rfl | hp
    · exact hn.legible hw.1.1
    · exact ih hw.2.2 p hp

/-- None of the words opens a loop with clauses. -/
def ForFree (ws : List Word) : Prop := ∀ w ∈ ws, w.is "for" = false

@[simp] theorem forFree_nil : ForFree [] := by simp [ForFree]

@[simp] theorem forFree_cons {w : Word} {ws : List Word} :
    ForFree (w :: ws) ↔ w.is "for" = false ∧ ForFree ws := by
  simp [ForFree]

@[simp] theorem forFree_append {ws vs : List Word} :
    ForFree (ws ++ vs) ↔ ForFree ws ∧ ForFree vs := by
  simp [ForFree, or_imp, forall_and]

mutual

/-- An expression has no loops. -/
theorem Expr.forFree_words : (e : Expr Unit) → ForFree e.words
  | .literal (.int _) _ | .literal (.str _) _ => by
      simp only [Expr.words, forFree_cons, forFree_nil, and_true]
      rfl
  | .literal (.bool b) _ => by cases b <;> simp [Expr.words]
  | .reference _ _ => by simp [Expr.words]
  | .unary op operand _ => by
      have : op.word.is "for" = false := by cases op <;> decide
      simp [Expr.words, this, operand.forFree_words]
  | .binary op left right _ => by
      have : (Connective.binary op).word.is "for" = false := by cases op <;> decide
      simp [Expr.words, this, left.forFree_words, right.forFree_words]
  | .logical op left right _ => by
      have : (Connective.logical op).word.is "for" = false := by cases op <;> decide
      simp [Expr.words, this, left.forFree_words, right.forFree_words]
  | .group inner _ => by simp [Expr.words, inner.forFree_words]
  | .assign _ _ value _ => by simp [Expr.words, value.forFree_words]
  | .call callee args _ => by
      simp [Expr.words, callee.forFree_words, Expr.forFree_argumentWords args]

/-- Arguments have no loops. -/
theorem Expr.forFree_argumentWords : (es : List (Expr Unit)) → ForFree (Expr.argumentWords es)
  | [] => by simp [Expr.argumentWords]
  | [e] => e.forFree_words
  | e :: e' :: es => by
      simp [Expr.argumentWords, e.forFree_words, Expr.forFree_argumentWords (e' :: es)]

end

/-- The words that spell a phrase without loops with clauses are its words, and line
breaks. -/
theorem SpellsStmt.solid_eq {p : StmtPhrase} {ws : List Word} (h : SpellsStmt p ws)
    (hw : AllLegible ws) (hf : ForFree ws) : solid ws = p.words := by
  induction h with
  | lead hnl _ ih =>
    rw [solid_cons_of_newline hnl]
    exact ih (allLegible_cons.1 hw).2 (forFree_cons.1 hf).2
  | expression he hnls hsemi =>
    simp only [allLegible_cons, allLegible_append] at hw
    obtain ⟨⟨hws, -⟩, hs, -⟩ := hw
    rw [solid_append, solid_append_blank hnls, he.solid_eq hws, solid_punct hs hsemi (by decide)]
    rfl
  | declare hkw hn hnls hsemi =>
    simp only [allLegible_cons, allLegible_append] at hw
    obtain ⟨hk, ⟨-, -⟩, hs, -⟩ := hw
    rw [solid_keyword hk hkw (by decide), solid_append, solid_append_blank hnls, hn.solid_eq,
      solid_punct hs hsemi (by decide)]
    rfl
  | initialise hkw hn heq he hnls hsemi =>
    simp only [allLegible_cons, allLegible_append] at hw
    obtain ⟨hk, -, hq, ⟨hws, -⟩, hs, -⟩ := hw
    rw [solid_keyword hk hkw (by decide), solid_append, hn.solid_eq,
      solid_punct hq heq (by decide), solid_append, solid_append_blank hnls, he.solid_eq hws,
      solid_punct hs hsemi (by decide)]
    rfl
  | block hopen _ hnls hclose ih =>
    simp only [allLegible_cons, allLegible_append] at hw
    simp only [forFree_cons, forFree_append] at hf
    obtain ⟨ho, ⟨hws, -⟩, hc, -⟩ := hw
    rw [solid_punct ho hopen (by decide), solid_append, solid_append_blank hnls,
      ih hws hf.2.1.1, solid_punct hc hclose (by decide)]
    rfl
  | branch hkw hc _ _ ih =>
    simp only [allLegible_cons, allLegible_append] at hw
    simp only [forFree_cons, forFree_append] at hf
    obtain ⟨hk, hcs, hws⟩ := hw
    rw [solid_keyword hk hkw (by decide), solid_append, hc.solid_eq hcs, ih hws hf.2.2]
    simp [StmtPhrase.words, Stmt.words]
  | branchElse hkw hc _ _ hnls hels _ _ iht ihe =>
    simp only [allLegible_cons, allLegible_append] at hw
    simp only [forFree_cons, forFree_append] at hf
    obtain ⟨hk, ⟨⟨hcs, hws⟩, -⟩, hl, hvs⟩ := hw
    rw [solid_keyword hk hkw (by decide), solid_append, solid_append_blank hnls, solid_append,
      hc.solid_eq hcs, iht hws hf.2.1.1.2, solid_keyword hl hels (by decide), ihe hvs hf.2.2.2]
    simp [StmtPhrase.words, Stmt.words]
  | loop hkw hc _ _ ih =>
    simp only [allLegible_cons, allLegible_append] at hw
    simp only [forFree_cons, forFree_append] at hf
    obtain ⟨hk, hcs, hws⟩ := hw
    rw [solid_keyword hk hkw (by decide), solid_append, hc.solid_eq hcs, ih hws hf.2.2]
    simp [StmtPhrase.words, Stmt.words]
  | forLoop hkw =>
    rw [(forFree_cons.1 hf).1] at hkw
    exact absurd hkw (by simp)
  | function hkw hn hnls₁ hopen hps hnls₂ hclose hnls₃ hlb _ hnls₄ hrb ih =>
    simp only [allLegible_cons, allLegible_append] at hw
    simp only [forFree_cons, forFree_append] at hf
    obtain ⟨hk, ⟨-, -⟩, ho, ⟨hpws, -⟩, hc, -, hl, ⟨hws, -⟩, hr, -⟩ := hw
    rw [solid_keyword hk hkw (by decide), solid_append, solid_append_blank hnls₁, hn.solid_eq,
      solid_punct ho hopen (by decide), solid_append, solid_append_blank hnls₂,
      solid_parameters hps hpws, solid_punct hc hclose (by decide), solid_append,
      solid_blank hnls₃, List.nil_append, solid_punct hl hlb (by decide), solid_append,
      solid_append_blank hnls₄, ih hws hf.2.2.2.2.2.2.2.1.1, solid_punct hr hrb (by decide)]
    rfl
  | @ret value _ _ hkw hv =>
    rw [allLegible_cons] at hw
    rw [solid_keyword hw.1 hkw (by decide), hv.solid_eq hw.2 (by decide)]
    cases value <;> rfl
  | nil => rfl
  | cons _ _ ih ihs =>
    simp only [allLegible_append] at hw
    simp only [forFree_append] at hf
    rw [solid_append, ih hw.1 hf.1, ihs hw.2 hf.2]
    rfl
  | noFirst hnls hsemi =>
    simp only [allLegible_cons, allLegible_append] at hw
    rw [solid_append, solid_blank hnls, solid_punct hw.2.1 hsemi (by decide)]
    rfl
  | first _ _ ih => exact ih hw hf

theorem legible_lowerFor {first : Option (Stmt Unit)} {cond last : Option (Expr Unit)}
    {body : Stmt Unit} (hfirst : ∀ t ∈ first, t.Legible) (hcond : ∀ t ∈ cond, t.Legible)
    (hlast : ∀ t ∈ last, t.Legible) (hbody : body.Legible) :
    (lowerFor first cond last body).Legible := by
  have hc : (cond.getD (.literal (.bool true) ())).Legible := by
    cases cond with
    | none => trivial
    | some c => exact hcond c rfl
  have hb : (lowerBody body last).Legible := by
    cases last with
    | none => exact hbody
    | some l => exact ⟨hbody, hlast l rfl, trivial⟩
  cases first with
  | none => exact ⟨hc, hb⟩
  | some f => exact ⟨hfirst f rfl, ⟨hc, hb⟩, trivial⟩

/-- A phrase that is spelled with legible words is legible. -/
theorem SpellsStmt.legible {p : StmtPhrase} {ws : List Word} (h : SpellsStmt p ws)
    (hw : AllLegible ws) : p.Legible := by
  induction h with
  | lead _ _ ih => exact ih (allLegible_cons.1 hw).2
  | expression he _ _ =>
    simp only [allLegible_append] at hw
    exact he.legible hw.1.1
  | declare _ hn _ _ =>
    simp only [allLegible_cons, allLegible_append] at hw
    exact ⟨hn.legible hw.2.1.1, by simp⟩
  | initialise _ hn _ he _ _ =>
    simp only [allLegible_cons, allLegible_append] at hw
    refine ⟨hn.legible hw.2.1, ?_⟩
    rintro t ⟨⟩
    exact he.legible hw.2.2.2.1.1
  | block _ _ _ _ ih =>
    simp only [allLegible_cons, allLegible_append] at hw
    exact ih hw.2.1.1
  | branch _ hc _ _ ih =>
    simp only [allLegible_cons, allLegible_append] at hw
    exact ⟨hc.legible hw.2.1, ih hw.2.2⟩
  | branchElse _ hc _ _ _ _ _ _ iht ihe =>
    simp only [allLegible_cons, allLegible_append] at hw
    exact ⟨hc.legible hw.2.1.1.1, iht hw.2.1.1.2, ihe hw.2.2.2⟩
  | loop _ hc _ _ ih =>
    simp only [allLegible_cons, allLegible_append] at hw
    exact ⟨hc.legible hw.2.1, ih hw.2.2⟩
  | forLoop _ _ _ _ hc hl _ _ ihf ihb =>
    simp only [allLegible_cons, allLegible_append] at hw
    exact legible_lowerFor (ihf hw.2.2.2.1.1.1) (hc.legible hw.2.2.2.1.1.2)
      (hl.legible hw.2.2.2.1.2) (ihb hw.2.2.2.2)
  | function _ hn _ _ hps _ _ _ _ _ _ _ ih =>
    simp only [allLegible_cons, allLegible_append] at hw
    obtain ⟨-, ⟨hnw, -⟩, -, ⟨hpws, -⟩, -, -, -, ⟨hws, -⟩, -⟩ := hw
    exact ⟨hn.legible hnw, legible_parameters hps hpws, ih hws⟩
  | ret _ hv => exact hv.legible (allLegible_cons.1 hw).2
  | nil => trivial
  | cons _ _ ih ihs =>
    simp only [allLegible_append] at hw
    exact ⟨ih hw.1, ihs hw.2⟩
  | noFirst _ _ => simp [StmtPhrase.Legible]
  | first _ _ ih =>
    rintro t ⟨⟩
    exact ih hw

end Scriptorium
