import Scriptorium.Proofs.TreeWords
import Scriptorium.Proofs.WordText

/-!
# The words of a layout

The pieces of a legible tree are read one after the other: nothing that is printed runs
on into what comes next.  The words of an expression are those of its tree; the words of
a statement have line breaks between them and spell its tree.

* `format_erase` — the canonical text does not depend on the notes of the tree;
* `Expr.written` — the words of an expression that was laid out;
* `Stmt.laid`, `words_format` — the words of a statement that was laid out, and of a
  program, spell it.
-/

namespace Scriptorium

/-! ## The notes do not matter -/

section Notes

variable {α β : Type}

mutual

theorem Expr.pieces_map (f : α → β) :
    (e : Expr α) → (rest : List Piece) → (e.map f).pieces rest = e.pieces rest
  | .literal .., _ => rfl
  | .unary _ operand _, _ => by simp [Expr.map, Expr.pieces, operand.pieces_map f]
  | .binary _ left right _, _ => by
      simp [Expr.map, Expr.pieces, left.pieces_map f, right.pieces_map f]
  | .logical _ left right _, _ => by
      simp [Expr.map, Expr.pieces, left.pieces_map f, right.pieces_map f]
  | .group inner _, _ => by simp [Expr.map, Expr.pieces, inner.pieces_map f]
  | .reference .., _ => rfl
  | .assign _ _ value _, _ => by simp [Expr.map, Expr.pieces, value.pieces_map f]
  | .call callee args _, _ => by
      simp [Expr.map, Expr.pieces, callee.pieces_map f, Expr.argumentPieces_mapAll f args]

theorem Expr.argumentPieces_mapAll (f : α → β) :
    (es : List (Expr α)) → (rest : List Piece) →
      Expr.argumentPieces (Expr.mapAll f es) rest = Expr.argumentPieces es rest
  | [], _ => rfl
  | [e], _ => by simp [Expr.mapAll, Expr.argumentPieces, e.pieces_map f]
  | e :: e' :: es, _ => by
      have ih := Expr.argumentPieces_mapAll f (e' :: es)
      simp only [Expr.mapAll] at ih
      simp [Expr.mapAll, Expr.argumentPieces, e.pieces_map f, ih]

end

mutual

theorem Stmt.pieces_map (f : α → β) :
    (s : Stmt α) → (level : Nat) → (rest : List Piece) →
      (s.map f).pieces level rest = s.pieces level rest
  | .expression .., _, _ => by simp [Stmt.map, Stmt.pieces, Expr.pieces_map f]
  | .declare _ none _, _, _ => rfl
  | .declare _ (some _) _, _, _ => by simp [Stmt.map, Stmt.pieces, Expr.pieces_map f]
  | .block body _, _, _ => by simp [Stmt.map, Stmt.pieces, Stmt.blockPieces_mapAll f body]
  | .branch _ t none _, _, _ => by
      simp [Stmt.map, Stmt.mapOption, Stmt.pieces, Expr.pieces_map f, t.pieces_map f]
  | .branch _ t (some e) _, _, _ => by
      simp [Stmt.map, Stmt.mapOption, Stmt.pieces, Expr.pieces_map f, t.pieces_map f,
        e.pieces_map f]
  | .loop _ b _, _, _ => by simp [Stmt.map, Stmt.pieces, Expr.pieces_map f, b.pieces_map f]
  | .function _ _ body _, _, _ => by
      simp [Stmt.map, Stmt.pieces, Stmt.blockPieces_mapAll f body]
  | .ret none _, _, _ => rfl
  | .ret (some _) _, _, _ => by simp [Stmt.map, Stmt.pieces, Expr.pieces_map f]

theorem Stmt.blockPieces_mapAll (f : α → β) :
    (ss : List (Stmt α)) → (level : Nat) → (rest : List Piece) →
      Stmt.blockPieces (Stmt.mapAll f ss) level rest = Stmt.blockPieces ss level rest
  | [], _, _ => rfl
  | s :: ss, _, _ => by
      simp [Stmt.mapAll, Stmt.blockPieces, s.pieces_map f, Stmt.linePieces_mapAll f ss]

theorem Stmt.linePieces_mapAll (f : α → β) :
    (ss : List (Stmt α)) → (level : Nat) → (rest : List Piece) →
      Stmt.linePieces (Stmt.mapAll f ss) level rest = Stmt.linePieces ss level rest
  | [], _, _ => rfl
  | s :: ss, _, _ => by
      simp [Stmt.mapAll, Stmt.linePieces, s.pieces_map f, Stmt.linePieces_mapAll f ss]

end

theorem Stmt.isFunction_erase (s : Stmt α) : s.erase.isFunction = s.isFunction := by
  cases s with
  | branch c t e n => cases e <;> rfl
  | _ => rfl

theorem programPieces_erase (program : List (Stmt α)) :
    programPieces (program.map Stmt.erase) = programPieces program := by
  induction program using programPieces.induct with
  | case1 => rfl
  | case2 s => exact s.pieces_map _ 0 _
  | case3 s next ss ih =>
    rw [List.map_cons] at ih
    simp only [List.map_cons, programPieces, Stmt.isFunction_erase, ih]
    exact s.pieces_map _ 0 _

/-- The canonical text is that of the tree without its notes. -/
theorem format_erase (program : List (Stmt α)) : format (program.map Stmt.erase) = format program :=
  congrArg render (programPieces_erase program)

end Notes

/-! ## What may follow -/

theorem endsMark_of_isWordChar {c : Char} (hc : isWordChar c = true) (cs : List Char) :
    EndsMark (c :: cs) := by
  refine endsMark_cons ⟨?_, ?_, ?_⟩ cs <;>
  · rintro rfl
    exact absurd hc (by decide)

theorem endsWord_space (pieces : List Piece) : EndsWord (chars (.space :: pieces)) := by
  rw [chars_cons]
  exact endsWord_cons (by decide) (by decide) _

theorem endsWord_newline (pieces : List Piece) : EndsWord (chars (.newline :: pieces)) := by
  rw [chars_cons]
  exact endsWord_cons (by decide) (by decide) _

/-- The marks that come right after an expression or a name. -/
theorem endsWord_mark (mark : String) (h : mark ∈ ["(", ")", ",", ";", "\x7d"])
    (pieces : List Piece) : EndsWord (chars (.text mark :: pieces)) := by
  rw [chars_cons]
  simp only [List.mem_cons, List.not_mem_nil, or_false] at h
  rcases h with rfl | rfl | rfl | rfl | rfl <;>
  exact endsWord_cons (by decide) (by decide) _

theorem endsMark_identifier {name : String} (h : IsIdentifier name) (pieces : List Piece) :
    EndsMark (chars (.text name :: pieces)) := by
  obtain ⟨⟨c, cs, hcs, hc, -⟩, -⟩ := h
  rw [chars_cons, Piece.written, hcs]
  exact endsMark_of_isWordChar (isWordChar_of_isWordStart hc) _

theorem endsMark_literal (value : Literal String) (pieces : List Piece) :
    EndsMark (chars (.text value.source :: pieces)) := by
  rw [chars_cons, Piece.written]
  cases value with
  | int value =>
    obtain ⟨c, cs, hcs⟩ := List.exists_cons_of_ne_nil (toString_toList_ne_nil value)
    have hc : c.isDigit = true := isDigit_of_mem_toString (by rw [hcs]; exact List.mem_cons_self ..)
    rw [Literal.source, hcs]
    exact endsMark_of_isWordChar (isWordChar_of_isDigit hc) _
  | str text =>
    rw [Literal.source, quote, String.toList_ofList]
    exact endsMark_cons (by decide) _
  | bool b => cases b <;> exact endsMark_cons (by decide) _

/-- A mark can stand right before an expression. -/
theorem Expr.endsMark_pieces :
    (e : Expr Unit) → e.Legible → (rest : List Piece) → EndsMark (chars (e.pieces rest))
  | .literal value _, _, rest => endsMark_literal value rest
  | .unary op _ _, _, rest => by
      rw [Expr.pieces, chars_cons]
      cases op <;> exact endsMark_cons (by decide) _
  | .binary _ left _ _, h, _ => left.endsMark_pieces h.1 _
  | .logical _ left _ _, h, _ => left.endsMark_pieces h.1 _
  | .group _ _, _, _ => by
      rw [Expr.pieces, chars_cons]
      exact endsMark_cons (by decide) _
  | .reference _ _, h, rest => endsMark_identifier h rest
  | .assign _ _ _ _, h, _ => endsMark_identifier h.1 _
  | .call callee _ _, h, _ => callee.endsMark_pieces h.1 _

/-! ## Expressions -/

namespace Written

variable {rest : List Piece} {ws : List Word}

theorem punct (hws : Written rest ws) (mark : String) (h : mark ∈ Tables.quill.puncts)
    (hend : EndsMark (chars rest)) : Written (.text mark :: rest) (.punct mark :: ws) :=
  .text (Reads.punct h hend) hws

theorem keyword (hws : Written rest ws) (name : String) (h : name ∈ Tables.quill.keywords)
    (hend : EndsWord (chars rest)) : Written (.text name :: rest) (.keyword name :: ws) :=
  .text (Reads.keyword h hend) hws

theorem symbol {name : String} (hws : Written rest ws) (h : IsIdentifier name)
    (hend : EndsWord (chars rest)) : Written (.text name :: rest) (.symbol name :: ws) :=
  .text (Reads.symbol h hend) hws

theorem literal {value : Literal String} (hws : Written rest ws)
    (h : (Expr.literal value ()).Legible) (hend : EndsWord (chars rest)) :
    Written (.text value.source :: rest) ((Expr.literal value ()).words ++ ws) := by
  cases value with
  | int value => exact .text (Reads.int h hend) hws
  | str text => exact .text (Reads.string text _) hws
  | bool b => cases b <;> exact hws.keyword _ (by decide) hend

/-- A mark with blanks around it. -/
theorem spacedPunct (hws : Written rest ws) (mark : String) (h : mark ∈ Tables.quill.puncts) :
    Written (.space :: .text mark :: .space :: rest) (.punct mark :: ws) :=
  (hws.space.punct mark h (endsWord_space _).1).space

theorem spacedKeyword (hws : Written rest ws) (name : String)
    (h : name ∈ Tables.quill.keywords) :
    Written (.space :: .text name :: .space :: rest) (.keyword name :: ws) :=
  (hws.space.keyword name h (endsWord_space _)).space

end Written

theorem BinaryOp.symbol_mem (op : BinaryOp) : op.symbol ∈ Tables.quill.puncts := by
  cases op <;> decide

theorem LogicalOp.symbol_mem (op : LogicalOp) : op.symbol ∈ Tables.quill.keywords := by
  cases op <;> decide

theorem UnaryOp.symbol_mem (op : UnaryOp) : op.symbol ∈ Tables.quill.puncts := by
  cases op <;> decide

mutual

/-- An expression is written with its words. -/
theorem Expr.written : (e : Expr Unit) → e.Legible → {rest : List Piece} → {ws : List Word} →
    Written rest ws → EndsWord (chars rest) → Written (e.pieces rest) (e.words ++ ws)
  | .literal value _, he, rest, ws, h, hend => h.literal he hend
  | .unary op operand _, he, rest, ws, h, hend =>
      (operand.written he h hend).punct _ op.symbol_mem (operand.endsMark_pieces he rest)
  | .binary op left right _, he, rest, ws, h, hend => by
      have := left.written he.1 ((right.written he.2 h hend).spacedPunct _ op.symbol_mem)
        (endsWord_space _)
      simpa [Expr.words, Expr.pieces, Connective.word] using this
  | .logical op left right _, he, rest, ws, h, hend => by
      have := left.written he.1 ((right.written he.2 h hend).spacedKeyword _ op.symbol_mem)
        (endsWord_space _)
      simpa [Expr.words, Expr.pieces, Connective.word] using this
  | .group inner _, he, rest, ws, h, hend => by
      have := inner.written he (h.punct ")" (by decide) hend.1) (endsWord_mark ")" (by decide) _)
      have := this.punct "(" (by decide) (inner.endsMark_pieces he _)
      simpa [Expr.words, Expr.pieces] using this
  | .reference name _, he, rest, ws, h, hend => h.symbol he hend
  | .assign name _ value _, he, rest, ws, h, hend =>
      ((value.written he.2 h hend).spacedPunct "=" (by decide)).symbol he.1 (endsWord_space _)
  | .call callee args _, he, rest, ws, h, hend => by
      obtain ⟨hargs, hmark⟩ := Expr.argumentsWritten args he.2 (h.punct ")" (by decide) hend.1)
      have := callee.written he.1 (hargs.punct "(" (by decide) hmark)
        (endsWord_mark "(" (by decide) _)
      simpa [Expr.words, Expr.pieces] using this

/-- Arguments are written with their words, and a mark can stand right before them. -/
theorem Expr.argumentsWritten : (es : List (Expr Unit)) → Expr.LegibleAll es →
    {rest : List Piece} → {ws : List Word} → Written (.text ")" :: rest) ws →
    Written (Expr.argumentPieces es (.text ")" :: rest)) (Expr.argumentWords es ++ ws) ∧
      EndsMark (chars (Expr.argumentPieces es (.text ")" :: rest)))
  | [], _, rest, ws, h => ⟨h, (endsWord_mark ")" (by decide) _).1⟩
  | [e], he, rest, ws, h =>
      ⟨e.written he.1 h (endsWord_mark ")" (by decide) _), e.endsMark_pieces he.1 _⟩
  | e :: e' :: es, he, rest, ws, h => by
      have hes := (Expr.argumentsWritten (e' :: es) he.2 h).1
      have := e.written he.1 (hes.space.punct "," (by decide) (endsWord_space _).1)
        (endsWord_mark "," (by decide) _)
      refine ⟨?_, e.endsMark_pieces he.1 _⟩
      simpa [Expr.argumentWords, Expr.argumentPieces] using this

end

/-! ## Names and conditions -/

theorem spellsName_symbol (name : String) : SpellsName name [.symbol name] :=
  SpellsName.mk blank_nil

theorem spells_parameterWords : (names : List String) →
    Separated SpellsName names (parameterWords names)
  | [] => .none
  | [name] => .one (spellsName_symbol name)
  | name :: name' :: names => by
      have := Separated.more (spellsName_symbol name) blank_nil (Word.is_punct ",")
        (spells_parameterWords (name' :: names))
      rwa [List.append_nil] at this

theorem forFree_parameterWords : (names : List String) → ForFree (parameterWords names)
  | [] => forFree_nil
  | [name] => by simp [parameterWords]
  | name :: name' :: names => by
      simp [parameterWords, forFree_parameterWords (name' :: names)]

/-- Parameters are written with their words, and a mark can stand right before them. -/
theorem written_parameters {rest : List Piece} {ws : List Word}
    (h : Written (.text ")" :: rest) ws) : (names : List String) →
    (∀ name ∈ names, IsIdentifier name) →
    Written (parameterPieces names (.text ")" :: rest)) (parameterWords names ++ ws) ∧
      EndsMark (chars (parameterPieces names (.text ")" :: rest)))
  | [], _ => ⟨h, (endsWord_mark ")" (by decide) _).1⟩
  | [name], hn =>
      have hname := hn name (List.mem_singleton_self _)
      ⟨h.symbol hname (endsWord_mark ")" (by decide) _), endsMark_identifier hname _⟩
  | name :: name' :: names, hn => by
      have hname := hn name (List.mem_cons_self ..)
      have ih := (written_parameters h (name' :: names)
        fun n hn' => hn n (List.mem_cons_of_mem _ hn')).1
      refine ⟨?_, endsMark_identifier hname _⟩
      exact (ih.space.punct "," (by decide) (endsWord_space _).1).symbol hname
        (endsWord_mark "," (by decide) _)

/-- The words of a condition in parentheses. -/
def conditionWords (cond : Expr Unit) : List Word := .punct "(" :: (cond.words ++ [.punct ")"])

theorem spells_conditionWords (cond : Expr Unit) : SpellsCondition cond (conditionWords cond) := by
  have := SpellsCondition.mk blank_nil (Word.is_punct "(") cond.spells_words blank_nil
    (Word.is_punct ")")
  rwa [List.append_nil] at this

theorem forFree_conditionWords (cond : Expr Unit) : ForFree (conditionWords cond) := by
  simp [conditionWords, cond.forFree_words]

/-- The keyword and the condition in front of a statement. -/
theorem written_condition {cond : Expr Unit} (hc : cond.Legible) (name : String)
    (hname : name ∈ Tables.quill.keywords) {rest : List Piece} {ws : List Word}
    (h : Written rest ws) :
    Written
      (.text name :: .space :: .text "(" :: cond.pieces (.text ")" :: .space :: rest))
      (.keyword name :: (conditionWords cond ++ ws)) := by
  have := cond.written hc (h.space.punct ")" (by decide) (endsWord_space _).1)
    (endsWord_mark ")" (by decide) _)
  have := (this.punct "(" (by decide) (cond.endsMark_pieces hc _)).space.keyword name hname
    (endsWord_space _)
  simpa [conditionWords] using this

theorem forFree_blank {ws : List Word} (h : Blank ws) : ForFree ws := by
  intro w hw
  have := h w hw
  rw [Bool.eq_false_iff]
  intro hfor
  rw [(Word.solid_of_is hfor).1] at this
  exact absurd this (by simp)

/-! ## Statements -/

/-- The pieces are written with words that spell the phrase, and the given words after
them. -/
def Laid (p : StmtPhrase) (pieces : List Piece) (ws : List Word) : Prop :=
  ∃ vs, Written pieces (vs ++ ws) ∧ SpellsStmt p vs ∧ ForFree vs

/-- The pieces are written with words that spell the statements, and line breaks and the
given words after them. -/
def LaidBody (ss : List (Stmt Unit)) (pieces : List Piece) (ws : List Word) : Prop :=
  ∃ nls, Blank nls ∧ Laid (.body ss) pieces (nls ++ ws)

theorem written_clause {e : Expr Unit} (he : e.Legible) {rest : List Piece} {ws : List Word}
    (h : Written rest ws) (hend : EndsMark (chars rest)) :
    Written (e.pieces (.text ";" :: rest)) (e.words ++ .punct ";" :: ws) :=
  e.written he (h.punct ";" (by decide) hend) (endsWord_mark ";" (by decide) _)

theorem spells_clause (e : Expr Unit) : SpellsClause ";" (some e) (e.words ++ [.punct ";"]) := by
  have := SpellsClause.some e.spells_words blank_nil (Word.is_punct ";")
  rwa [List.append_nil] at this

theorem laid_expression {e : Expr Unit} (he : e.Legible) {rest : List Piece} {ws : List Word}
    (h : Written rest ws) (hend : EndsMark (chars rest)) :
    Laid (.stmt false (.expression e ())) (e.pieces (.text ";" :: rest)) ws := by
  refine ⟨e.words ++ [.punct ";"], ?_, ?_, ?_⟩
  · simpa using written_clause he h hend
  · have := SpellsStmt.expression e.spells_words blank_nil (Word.is_punct ";")
    rwa [List.append_nil] at this
  · simp [e.forFree_words]

theorem laid_declare {name : String} (hname : IsIdentifier name) {rest : List Piece}
    {ws : List Word} (h : Written rest ws) (hend : EndsMark (chars rest)) :
    Laid (.stmt false (.declare name none ()))
      (.text "var" :: .space :: .text name :: .text ";" :: rest) ws := by
  refine ⟨[.keyword "var", .symbol name, .punct ";"], ?_, ?_, ?_⟩
  · exact ((h.punct ";" (by decide) hend).symbol hname
      (endsWord_mark ";" (by decide) _)).space.keyword "var" (by decide) (endsWord_space _)
  · exact .declare (Word.is_keyword "var") (spellsName_symbol name) blank_nil
      (Word.is_punct ";")
  · simp

theorem laid_initialise {name : String} {e : Expr Unit} (hname : IsIdentifier name)
    (he : e.Legible) {rest : List Piece} {ws : List Word} (h : Written rest ws)
    (hend : EndsMark (chars rest)) :
    Laid (.stmt false (.declare name (some e) ()))
      (.text "var" :: .space :: .text name :: .space :: .text "=" :: .space ::
        e.pieces (.text ";" :: rest)) ws := by
  refine ⟨.keyword "var" :: .symbol name :: .punct "=" :: (e.words ++ [.punct ";"]), ?_, ?_, ?_⟩
  · have := ((written_clause he h hend).spacedPunct "=" (by decide)).symbol hname
      (endsWord_space _)
    simpa using this.space.keyword "var" (by decide) (endsWord_space _)
  · have := SpellsStmt.initialise (Word.is_keyword "var") (spellsName_symbol name)
      (Word.is_punct "=") e.spells_words blank_nil (Word.is_punct ";")
    rwa [List.append_nil] at this
  · simp [e.forFree_words]

theorem laid_ret {rest : List Piece} {ws : List Word} (h : Written rest ws)
    (hend : EndsMark (chars rest)) :
    Laid (.stmt false (.ret none ())) (.text "return" :: .text ";" :: rest) ws := by
  refine ⟨[.keyword "return", .punct ";"], ?_, ?_, ?_⟩
  · exact (h.punct ";" (by decide) hend).keyword "return" (by decide)
      (endsWord_mark ";" (by decide) _)
  · exact .ret (Word.is_keyword "return") (.none blank_nil (Word.is_punct ";"))
  · simp

theorem laid_ret_value {e : Expr Unit} (he : e.Legible) {rest : List Piece} {ws : List Word}
    (h : Written rest ws) (hend : EndsMark (chars rest)) :
    Laid (.stmt false (.ret (some e) ()))
      (.text "return" :: .space :: e.pieces (.text ";" :: rest)) ws := by
  refine ⟨.keyword "return" :: (e.words ++ [.punct ";"]), ?_, ?_, ?_⟩
  · simpa using (written_clause he h hend).space.keyword "return" (by decide) (endsWord_space _)
  · exact .ret (Word.is_keyword "return") (spells_clause e)
  · simp [e.forFree_words]

theorem LaidBody.block {ss : List (Stmt Unit)} {pieces : List Piece} {ws : List Word}
    (h : LaidBody ss pieces (.punct "\x7d" :: ws)) (hend : EndsMark (chars pieces)) :
    Laid (.stmt false (.block ss ())) (.text "\x7b" :: pieces) ws := by
  obtain ⟨nls, hnls, vs, hw, hvs, hf⟩ := h
  refine ⟨.punct "\x7b" :: (vs ++ nls ++ [.punct "\x7d"]), ?_, ?_, ?_⟩
  · simpa using hw.punct "\x7b" (by decide) hend
  · exact .block (Word.is_punct _) hvs hnls (Word.is_punct _)
  · simp [hf, forFree_blank hnls]

theorem LaidBody.function {name : String} {params : List String} {ss : List (Stmt Unit)}
    {pieces : List Piece} {ws : List Word} (h : LaidBody ss pieces (.punct "\x7d" :: ws))
    (hend : EndsMark (chars pieces)) (hname : IsIdentifier name)
    (hparams : ∀ p ∈ params, IsIdentifier p) :
    Laid (.stmt false (.function name params ss ()))
      (.text "fun" :: .space :: .text name :: .text "(" ::
        parameterPieces params (.text ")" :: .space :: .text "\x7b" :: pieces)) ws := by
  obtain ⟨nls, hnls, vs, hw, hvs, hf⟩ := h
  refine ⟨.keyword "fun" :: .symbol name :: .punct "(" ::
    (parameterWords params ++ .punct ")" :: .punct "\x7b" :: (vs ++ nls ++ [.punct "\x7d"])),
    ?_, ?_, ?_⟩
  · have hbody := (hw.punct "\x7b" (by decide) hend).space.punct ")" (by decide)
      (endsWord_space _).1
    obtain ⟨hps, hmark⟩ := written_parameters hbody params hparams
    have hhead := (hps.punct "(" (by decide) hmark).symbol hname (endsWord_mark "(" (by decide) _)
    simpa using hhead.space.keyword "fun" (by decide) (endsWord_space _)
  · have := SpellsStmt.function (Word.is_keyword "fun") (spellsName_symbol name) blank_nil
      (Word.is_punct "(") (spells_parameterWords params) blank_nil (Word.is_punct ")") blank_nil
      (Word.is_punct "\x7b") hvs hnls (Word.is_punct "\x7d")
    simpa using this
  · simp [hf, forFree_blank hnls, forFree_parameterWords]

theorem Laid.branch {o : Bool} {c : Expr Unit} {t : Stmt Unit} {pieces : List Piece}
    {ws : List Word} (h : Laid (.stmt o t) pieces ws) (hc : c.Legible)
    (ht : t.isVariable = false) :
    Laid (.stmt true (.branch c t none ()))
      (.text "if" :: .space :: .text "(" :: c.pieces (.text ")" :: .space :: pieces)) ws := by
  obtain ⟨vs, hw, hvs, hf⟩ := h
  refine ⟨.keyword "if" :: (conditionWords c ++ vs), ?_, ?_, ?_⟩
  · simpa using written_condition hc "if" (by decide) hw
  · exact .branch (Word.is_keyword "if") (spells_conditionWords c) hvs ht
  · simp [hf, forFree_conditionWords]

theorem Laid.loop {o : Bool} {c : Expr Unit} {b : Stmt Unit} {pieces : List Piece}
    {ws : List Word} (h : Laid (.stmt o b) pieces ws) (hc : c.Legible)
    (hb : b.isVariable = false) :
    Laid (.stmt o (.loop c b ()))
      (.text "while" :: .space :: .text "(" :: c.pieces (.text ")" :: .space :: pieces)) ws := by
  obtain ⟨vs, hw, hvs, hf⟩ := h
  refine ⟨.keyword "while" :: (conditionWords c ++ vs), ?_, ?_, ?_⟩
  · simpa using written_condition hc "while" (by decide) hw
  · exact .loop (Word.is_keyword "while") (spells_conditionWords c) hvs hb
  · simp [hf, forFree_conditionWords]

/-- The words of the `then` branch come first, so its layout is found for the words of
the other branch. -/
theorem laid_branchElse {o : Bool} {c : Expr Unit} {t e : Stmt Unit} {pieces others : List Piece}
    {ws : List Word} (he : Laid (.stmt o e) others ws)
    (ht : ∀ {vs}, Written (.space :: .text "else" :: .space :: others) vs →
      Laid (.stmt false t) pieces vs)
    (hc : c.Legible) (htv : t.isVariable = false) (hev : e.isVariable = false) :
    Laid (.stmt o (.branch c t (some e) ()))
      (.text "if" :: .space :: .text "(" :: c.pieces (.text ")" :: .space :: pieces)) ws := by
  obtain ⟨vs, hw, hvs, hf⟩ := he
  obtain ⟨us, hwt, hus, hft⟩ := ht (hw.spacedKeyword "else" (by decide))
  refine ⟨.keyword "if" :: (conditionWords c ++ us ++ [] ++ .keyword "else" :: vs), ?_, ?_, ?_⟩
  · simpa using written_condition hc "if" (by decide) hwt
  · exact .branchElse (Word.is_keyword "if") (spells_conditionWords c) hus htv blank_nil
      (Word.is_keyword "else") hvs hev
  · simp [hf, hft, forFree_conditionWords]

/-- Another line in front of some. -/
theorem LaidBody.cons {o : Bool} {s : Stmt Unit} {ss : List (Stmt Unit)}
    {pieces others : List Piece} {ws : List Word} (hss : LaidBody ss others ws)
    (hs : ∀ {vs}, Written others vs → Laid (.stmt o s) pieces vs) (level : Nat) :
    LaidBody (s :: ss) (.newline :: sourceIndent level :: pieces) ws := by
  obtain ⟨nls, hnls, vs, hw, hvs, hf⟩ := hss
  obtain ⟨us, hwu, hus, hfu⟩ := hs hw
  refine ⟨nls, hnls, .newline :: us ++ vs, ?_, ?_, ?_⟩
  · simpa [sourceIndent] using hwu.indent.newline
  · exact .cons (.lead rfl hus) hvs
  · simp [hf, hfu]

mutual

/-- A statement is written with words that spell it. -/
theorem Stmt.laid {inFunction : Bool} : (s : Stmt Unit) → s.Shaped inFunction → s.Legible →
    (level : Nat) → {rest : List Piece} → {ws : List Word} → Written rest ws →
    EndsMark (chars rest) → Laid (.stmt s.endsOpen s) (s.pieces level rest) ws
  | .expression _ _, _, hl, _, _, _, h, hend => laid_expression hl h hend
  | .declare _ none _, _, hl, _, _, _, h, hend => laid_declare hl.1 h hend
  | .declare _ (some init) _, _, hl, _, _, _, h, hend =>
      laid_initialise hl.1 (hl.2 init rfl) h hend
  | .block body _, hs, hl, level, _, _, h, hend => by
      obtain ⟨pieces, hpieces, hbody, hmark⟩ := Stmt.laidBlock body hs hl level h hend
      rw [Stmt.pieces, hpieces]
      exact hbody.block hmark
  | .branch c t none _, hs, hl, level, _, _, h, hend =>
      (t.laid hs.2.2 hl.2 level h hend).branch hl.1 hs.2.1
  | .branch c t (some e) _, hs, hl, level, rest, ws, h, hend => by
      obtain ⟨-, htv, hts, hopen, hev, hes⟩ := hs
      refine laid_branchElse (e.laid hes hl.2.2 level h hend) (fun hv => ?_) hl.1 htv hev
      have := t.laid hts hl.2.1 level hv (endsWord_space _).1
      rwa [hopen] at this
  | .loop c b _, hs, hl, level, _, _, h, hend =>
      (b.laid hs.2.2 hl.2 level h hend).loop hl.1 hs.2.1
  | .function _ params body _, hs, hl, level, _, _, h, hend => by
      obtain ⟨pieces, hpieces, hbody, hmark⟩ := Stmt.laidBlock body hs.2 hl.2.2 level h hend
      rw [Stmt.pieces, hpieces]
      exact hbody.function hmark hl.1 hl.2.1
  | .ret none _, _, _, _, _, _, h, hend => laid_ret h hend
  | .ret (some value) _, _, hl, _, _, _, h, hend => laid_ret_value (hl value rfl) h hend

/-- A block is an opening brace and a body that is written with words that spell it. -/
theorem Stmt.laidBlock {inFunction : Bool} : (ss : List (Stmt Unit)) →
    Stmt.ShapedAll inFunction ss → Stmt.LegibleAll ss → (level : Nat) → {rest : List Piece} →
    {ws : List Word} → Written rest ws → EndsMark (chars rest) →
    ∃ pieces, Stmt.blockPieces ss level rest = .text "\x7b" :: pieces ∧
      LaidBody ss pieces (.punct "\x7d" :: ws) ∧ EndsMark (chars pieces)
  | [], _, _, _, _, ws, h, hend =>
      ⟨_, rfl, ⟨[], blank_nil, [], h.punct "\x7d" (by decide) hend, .nil, forFree_nil⟩,
        (endsWord_mark "\x7d" (by decide) _).1⟩
  | s :: ss, hs, hl, level, _, _, h, hend => by
      refine ⟨_, rfl, ?_, (endsWord_newline _).1⟩
      have hclose := h.punct "\x7d" (by decide) hend
      exact (Stmt.laidLines ss hs.2 hl.2 (level + 1) hclose.indent).cons
        (fun hw => s.laid hs.1 hl.1 (level + 1) hw (endsWord_newline _).1) (level + 1)

/-- Lines of statements after a line break are written with words that spell them. -/
theorem Stmt.laidLines {inFunction : Bool} : (ss : List (Stmt Unit)) →
    Stmt.ShapedAll inFunction ss → Stmt.LegibleAll ss → (level : Nat) → {rest : List Piece} →
    {ws : List Word} → Written rest ws →
    LaidBody ss (.newline :: Stmt.linePieces ss level rest) ws
  | [], _, _, _, _, _, h =>
      ⟨[.newline], blank_cons.2 ⟨rfl, blank_nil⟩, [], h.newline, .nil, forFree_nil⟩
  | s :: ss, hs, hl, level, _, _, h =>
      (Stmt.laidLines ss hs.2 hl.2 level h).cons
        (fun hw => s.laid hs.1 hl.1 level hw (endsWord_newline _).1) level

end

/-! ## Programs -/

theorem SpellsStmt.bodyLeads {s : Stmt Unit} {ss : List (Stmt Unit)} {nls ws : List Word}
    (hnls : Blank nls) (h : SpellsStmt (.body (s :: ss)) ws) :
    SpellsStmt (.body (s :: ss)) (nls ++ ws) := by
  cases h with
  | cons hs hss =>
    rw [← List.append_assoc]
    exact .cons (hs.leads hnls) hss

theorem LaidBody.newline {s : Stmt Unit} {ss : List (Stmt Unit)} {pieces : List Piece}
    {ws : List Word} (h : LaidBody (s :: ss) pieces ws) :
    LaidBody (s :: ss) (.newline :: pieces) ws := by
  obtain ⟨nls, hnls, vs, hw, hvs, hf⟩ := h
  have hnl : Blank [Word.newline] := blank_cons.2 ⟨rfl, blank_nil⟩
  exact ⟨nls, hnls, .newline :: vs, hw.newline, hvs.bodyLeads hnl, by simp [hf]⟩

/-- A program is written with words that spell it. -/
theorem laid_program {inFunction : Bool} {ss : List (Stmt Unit)}
    (hs : Stmt.ShapedAll inFunction ss) (hl : Stmt.LegibleAll ss) :
    LaidBody ss (programPieces ss) [] := by
  induction ss using programPieces.induct with
  | case1 => exact ⟨[], blank_nil, [], .nil, .nil, forFree_nil⟩
  | case2 s =>
    obtain ⟨vs, hw, hvs, hf⟩ := s.laid hs.1 hl.1 0 Written.nil.newline (endsWord_newline _).1
    refine ⟨[.newline], blank_cons.2 ⟨rfl, blank_nil⟩, vs ++ [], ?_, .cons hvs .nil, ?_⟩
    · simpa [programPieces] using hw
    · simpa using hf
  | case3 s next ss ih =>
    have hrest : LaidBody (next :: ss) (.newline ::
        if s.isFunction || next.isFunction then .newline :: programPieces (next :: ss)
        else programPieces (next :: ss)) [] := by
      split
      · exact (ih hs.2 hl.2).newline.newline
      · exact (ih hs.2 hl.2).newline
    obtain ⟨nls, hnls, vs, hw, hvs, hf⟩ := hrest
    obtain ⟨us, hwu, hus, hfu⟩ := s.laid hs.1 hl.1 0 hw (endsWord_newline _).1
    refine ⟨nls, hnls, us ++ vs, ?_, .cons hus hvs, ?_⟩
    · simpa [programPieces] using hwu
    · simp [hf, hfu]

/-- The words of the canonical text of a program spell the program and have line breaks
at the end; there is no loop with clauses. -/
theorem words_format {inFunction : Bool} {ss : List (Stmt Unit)}
    (hs : Stmt.ShapedAll inFunction ss) (hl : Stmt.LegibleAll ss) :
    ∃ vs nls : List Word,
      (tokenize .quill (format ss)).map Token.word = vs ++ (nls ++ [.endOfInput]) ∧
      SpellsStmt (.body ss) vs ∧ Blank nls ∧ ForFree vs := by
  obtain ⟨nls, hnls, vs, hw, hvs, hf⟩ := laid_program hs hl
  refine ⟨vs, nls, ?_, hvs, hnls, hf⟩
  have := tokenize_render hw
  rwa [List.append_nil, List.append_assoc] at this

end Scriptorium
