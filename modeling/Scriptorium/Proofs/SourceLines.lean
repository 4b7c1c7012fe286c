import Scriptorium.Proofs.LineStates
import Scriptorium.Proofs.OutlineLines
import Scriptorium.Proofs.Shape

/-!
# The lines of canonical text

The pieces of a program can be written one after the other: expressions and parameters go on with
the line in which they start, and a statement goes on with its line and comes back to its level,
whatever blocks it opens in between.

* `isInner` — the words that go on with a line, braces apart;
* `Expr.runs_pieces`, `Stmt.runs_pieces` — expressions and statements, by induction on the tree;
* `runs_programPieces` — programs;
* `Stmt.pieces_append`, `programPieces_append` — what is put behind a layout stays there, so a
  program can be cut between any two statements.
-/

namespace Scriptorium

/-! ## Words that go on with a line -/

/-- A plain word that neither opens nor closes a block. -/
def isInner (word : String) : Bool := isPlain word && word != "\x7b" && word != "\x7d"

theorem isInner_of_cons {word : String} {c : Char} {cs : List Char} (hword : word.toList = c :: cs)
    (hbrace : c ≠ '\x7b' ∧ c ≠ '\x7d') (hplain : isPlain word = true) : isInner word = true := by
  have hopen : word ≠ "\x7b" := by
    rintro rfl
    exact hbrace.1 (List.cons.inj hword).1.symm
  have hclose : word ≠ "\x7d" := by
    rintro rfl
    exact hbrace.2 (List.cons.inj hword).1.symm
  simp [isInner, hplain, hopen, hclose]

theorem isInner_of_isWordChar {word : String} (hne : word.toList ≠ [])
    (h : ∀ c ∈ word.toList, isWordChar c = true) : isInner word = true := by
  obtain ⟨c, cs, hcs⟩ := List.exists_cons_of_ne_nil hne
  obtain ⟨ds, d, hds⟩ := (List.eq_nil_or_concat word.toList).resolve_left hne
  rw [List.concat_eq_append] at hds
  have hc : isWordChar c = true := h c (by simp [hcs])
  have hd : isWordChar d = true := h d (by simp [hds])
  have hbrace : c ≠ '\x7b' ∧ c ≠ '\x7d' := by
    constructor
    · rintro rfl
      exact absurd hc (by decide)
    · rintro rfl
      exact absurd hc (by decide)
  refine isInner_of_cons hcs hbrace (isPlain_iff.2 ⟨⟨c, cs, hcs, ?_⟩, ⟨ds, d, hds, ?_⟩, ?_⟩)
  · exact (ne_of_isWordChar hc).1
  · exact (ne_of_isWordChar hd).1
  · exact fun hbreak => (ne_of_isWordChar (h _ hbreak)).2.2 rfl

theorem IsIdentifier.isInner {name : String} (h : IsIdentifier name) : isInner name = true := by
  obtain ⟨⟨c, cs, hcs, hc, hchars⟩, -⟩ := h
  refine isInner_of_isWordChar (by simp [hcs]) ?_
  rw [hcs]
  exact List.forall_mem_cons.2 ⟨isWordChar_of_isWordStart hc, hchars⟩

theorem isInner_source (value : Literal String) : isInner value.source = true := by
  cases value with
  | int n =>
    exact isInner_of_isWordChar (toString_toList_ne_nil n) fun c hc =>
      isWordChar_of_isDigit (isDigit_of_mem_toString hc)
  | str text =>
    have htext : (Literal.str text).source.toList = _ := toList_quote text
    exact isInner_of_cons htext (by decide) (isPlain_iff.2 ⟨⟨_, _, htext, rfl⟩,
      ⟨_, _, htext.trans (List.cons_append ..).symm, rfl⟩, Literal.unbroken_source _⟩)
  | bool b => cases b <;> decide

theorem isInner_unary (op : UnaryOp) : isInner op.symbol = true := by cases op <;> decide

theorem isInner_binary (op : BinaryOp) : isInner op.symbol = true := by cases op <;> decide

theorem isInner_logical (op : LogicalOp) : isInner op.symbol = true := by cases op <;> decide

namespace LineState

/-- A word that is no brace can be written next. -/
def Ready (s : LineState) : Prop :=
  match s.spot with
  | .fresh _ level => level = s.depth
  | _ => True

theorem ready_after {depth : Nat} : Ready ⟨depth, .after⟩ := trivial

theorem ready_between {depth : Nat} : Ready ⟨depth, .between⟩ := trivial

theorem ready_fresh {depth : Nat} {covered : Bool} : Ready ⟨depth, .fresh covered depth⟩ := rfl

variable {s t : LineState} {rest : List Piece} {depth : Nat}

theorem Ready.takes {word : String} (hs : s.Ready) (hword : closing word = 0) : s.Takes word := by
  rw [Ready] at hs
  rw [Takes, hword]
  split
  · next hspot =>
    rw [hspot] at hs
    exact hs
  · trivial

theorem Runs.word {word : String} (hword : isInner word = true) (hs : s.Ready)
    (h : Runs ⟨s.depth, .after⟩ rest t) : Runs s (.text word :: rest) t := by
  simp only [isInner, Bool.and_eq_true, bne_iff_ne] at hword
  obtain ⟨⟨hplain, hopen⟩, hclose⟩ := hword
  have hopening : opening word = 0 := if_neg hopen
  have hclosing : closing word = 0 := if_neg hclose
  exact .cons (.text hplain (hs.takes hclosing) (by rw [hopening, hclosing])) h

theorem Runs.space (h : Runs ⟨depth, .between⟩ rest t) : Runs ⟨depth, .after⟩ (.space :: rest) t :=
  .cons .space h

theorem Runs.newline (h : Runs ⟨depth, .fresh true 0⟩ rest t) :
    Runs ⟨depth, .after⟩ (.newline :: rest) t :=
  .cons .newline h

theorem Runs.opens (hs : s.Ready) (h : Runs ⟨s.depth + 1, .after⟩ rest t) :
    Runs s (.text "\x7b" :: rest) t :=
  .cons (.text (by decide) (hs.takes rfl) rfl) h

theorem Runs.closes (h : Runs ⟨depth, .after⟩ rest t) :
    Runs ⟨depth + 1, .after⟩ (.text "\x7d" :: rest) t :=
  .cons (.text (by decide) trivial rfl) h

/-- A brace on a line of its own stands where its block was opened. -/
theorem Runs.closesLine {covered : Bool} (h : Runs ⟨depth, .after⟩ rest t) :
    Runs ⟨depth + 1, .fresh covered 0⟩ (sourceIndent depth :: .text "\x7d" :: rest) t :=
  .cons .indent (.cons (.text (by decide) rfl rfl) h)

end LineState

open LineState (ready_after ready_between ready_fresh)

mutual

/-- An expression is written in the line in which it starts. -/
theorem Expr.runs_pieces : (e : Expr Unit) → e.Legible → {s t : LineState} → {rest : List Piece} →
    s.Ready → LineState.Runs ⟨s.depth, .after⟩ rest t → LineState.Runs s (e.pieces rest) t
  | .literal value _, _, _, _, _, hs, h => .word (isInner_source value) hs h
  | .unary op operand _, hl, _, _, _, hs, h =>
      .word (isInner_unary op) hs <| operand.runs_pieces hl ready_after h
  | .binary op left right _, hl, _, _, _, hs, h =>
      left.runs_pieces hl.1 hs <| .space <| .word (isInner_binary op) ready_between <| .space <|
        right.runs_pieces hl.2 ready_between h
  | .logical op left right _, hl, _, _, _, hs, h =>
      left.runs_pieces hl.1 hs <| .space <| .word (isInner_logical op) ready_between <| .space <|
        right.runs_pieces hl.2 ready_between h
  | .group inner _, hl, _, _, _, hs, h =>
      .word (by decide) hs <| inner.runs_pieces hl ready_after <| .word (by decide) ready_after h
  | .reference _ _, hl, _, _, _, hs, h => .word hl.isInner hs h
  | .assign _ _ value _, hl, _, _, _, hs, h =>
      .word hl.1.isInner hs <| .space <| .word (by decide) ready_between <| .space <|
        value.runs_pieces hl.2 ready_between h
  | .call callee args _, hl, _, _, _, hs, h =>
      callee.runs_pieces hl.1 hs <| .word (by decide) ready_after <|
        Expr.runs_argumentPieces args hl.2 ready_after fun hready hdepth =>
          .word (by decide) hready (hdepth ▸ h)

/-- Arguments are written in the line in which they start.  There may be none, so what comes
next is written from either state. -/
theorem Expr.runs_argumentPieces : (es : List (Expr Unit)) → Expr.LegibleAll es →
    {s t : LineState} → {rest : List Piece} → s.Ready →
    (∀ {s' : LineState}, s'.Ready → s'.depth = s.depth → LineState.Runs s' rest t) →
    LineState.Runs s (Expr.argumentPieces es rest) t
  | [], _, _, _, _, hs, h => h hs rfl
  | [e], hl, _, _, _, hs, h => e.runs_pieces hl.1 hs (h ready_after rfl)
  | e :: e' :: es, hl, _, _, _, hs, h =>
      e.runs_pieces hl.1 hs <| .word (by decide) ready_after <| .space <|
        Expr.runs_argumentPieces (e' :: es) hl.2 ready_between h

end

/-- Parameters are written in the line in which they start. -/
theorem runs_parameterPieces : (names : List String) → (∀ name ∈ names, IsIdentifier name) →
    {s t : LineState} → {rest : List Piece} → s.Ready →
    (∀ {s' : LineState}, s'.Ready → s'.depth = s.depth → LineState.Runs s' rest t) →
    LineState.Runs s (parameterPieces names rest) t
  | [], _, _, _, _, hs, h => h hs rfl
  | [_], hl, _, _, _, hs, h => .word (hl _ (.head _)).isInner hs (h ready_after rfl)
  | _ :: name' :: names, hl, _, _, _, hs, h =>
      .word (hl _ (.head _)).isInner hs <| .word (by decide) ready_after <| .space <|
        runs_parameterPieces (name' :: names) (fun name hname => hl name (.tail _ hname))
          ready_between h

/-- A condition is written in the line in which its keyword stands. -/
theorem LineState.Runs.condition {word : String} {s t : LineState} {cond : Expr Unit}
    {rest : List Piece} (hword : isInner word = true) (hs : s.Ready) (hcond : cond.Legible)
    (h : LineState.Runs ⟨s.depth, .between⟩ rest t) :
    LineState.Runs s (.text word :: .space :: .text "(" ::
      cond.pieces (.text ")" :: .space :: rest)) t :=
  .word hword hs <| .space <| .word (by decide) ready_between <|
    cond.runs_pieces hcond ready_after <| .word (by decide) ready_after <| .space h

mutual

/-- A statement is written from its level back to its level. -/
theorem Stmt.runs_pieces : (s : Stmt Unit) → s.Legible → {level : Nat} → {spot : Spot} →
    {t : LineState} → {rest : List Piece} → LineState.Ready ⟨level, spot⟩ →
    LineState.Runs ⟨level, .after⟩ rest t → LineState.Runs ⟨level, spot⟩ (s.pieces level rest) t
  | .expression e _, hl, _, _, _, _, hs, h =>
      e.runs_pieces hl hs <| .word (by decide) ready_after h
  | .declare _ none _, hl, _, _, _, _, hs, h =>
      .word (by decide) hs <| .space <| .word hl.1.isInner ready_between <|
        .word (by decide) ready_after h
  | .declare _ (some init) _, hl, _, _, _, _, hs, h =>
      .word (by decide) hs <| .space <| .word hl.1.isInner ready_between <| .space <|
        .word (by decide) ready_between <| .space <|
          init.runs_pieces (hl.2 init rfl) ready_between <| .word (by decide) ready_after h
  | .block body _, hl, _, _, _, _, hs, h => Stmt.runs_blockPieces body hl hs h
  | .branch c t none _, hl, _, _, _, _, hs, h =>
      .condition (by decide) hs hl.1 <| t.runs_pieces hl.2 ready_between h
  | .branch c t (some e) _, hl, _, _, _, _, hs, h =>
      .condition (by decide) hs hl.1 <| t.runs_pieces hl.2.1 ready_between <| .space <|
        .word (by decide) ready_between <| .space <| e.runs_pieces hl.2.2 ready_between h
  | .loop c body _, hl, _, _, _, _, hs, h =>
      .condition (by decide) hs hl.1 <| body.runs_pieces hl.2 ready_between h
  | .function _ params body _, hl, _, _, _, _, hs, h =>
      .word (by decide) hs <| .space <| .word hl.1.isInner ready_between <|
        .word (by decide) ready_after <|
          runs_parameterPieces params hl.2.1 ready_after fun hready hdepth =>
            .word (by decide) hready <| .space <|
              hdepth ▸ Stmt.runs_blockPieces body hl.2.2 ready_between h
  | .ret none _, _, _, _, _, _, hs, h =>
      .word (by decide) hs <| .word (by decide) ready_after h
  | .ret (some value) _, hl, _, _, _, _, hs, h =>
      .word (by decide) hs <| .space <| value.runs_pieces (hl value rfl) ready_between <|
        .word (by decide) ready_after h

/-- A block is written from its level back to its level. -/
theorem Stmt.runs_blockPieces : (ss : List (Stmt Unit)) → Stmt.LegibleAll ss → {level : Nat} →
    {spot : Spot} → {t : LineState} → {rest : List Piece} → LineState.Ready ⟨level, spot⟩ →
    LineState.Runs ⟨level, .after⟩ rest t →
    LineState.Runs ⟨level, spot⟩ (Stmt.blockPieces ss level rest) t
  | [], _, _, _, _, _, hs, h => .opens hs <| .closes h
  | s :: ss, hl, _, _, _, _, hs, h =>
      .opens hs <| .newline <| .cons .indent <| s.runs_pieces hl.1 ready_fresh <| .newline <|
        Stmt.runs_linePieces ss hl.2 <| .closesLine h

/-- Statements are written on lines of their own. -/
theorem Stmt.runs_linePieces : (ss : List (Stmt Unit)) → Stmt.LegibleAll ss → {level : Nat} →
    {t : LineState} → {rest : List Piece} → LineState.Runs ⟨level, .fresh true 0⟩ rest t →
    LineState.Runs ⟨level, .fresh true 0⟩ (Stmt.linePieces ss level rest) t
  | [], _, _, _, _, h => h
  | s :: ss, hl, _, _, _, h =>
      .cons .indent <| s.runs_pieces hl.1 ready_fresh <| .newline <| Stmt.runs_linePieces ss hl.2 h

end

/-- A program is written on lines of its own, with no more than one empty line between two
statements. -/
theorem runs_programPieces {ss : List (Stmt Unit)} (hl : Stmt.LegibleAll ss) (hne : ss ≠ [])
    (covered : Bool) :
    LineState.Runs ⟨0, .fresh covered 0⟩ (programPieces ss) ⟨0, .fresh true 0⟩ := by
  induction ss using programPieces.induct generalizing covered with
  | case1 => exact absurd rfl hne
  | case2 s => exact s.runs_pieces hl.1 ready_fresh <| .newline .nil
  | case3 s next ss ih =>
    rw [programPieces]
    refine s.runs_pieces hl.1 ready_fresh <| .newline ?_
    split
    · exact .cons .empty (ih hl.2 (by simp) false)
    · exact ih hl.2 (by simp) true

/-! ## Neighbours -/

section Neighbours

variable {α : Type}

mutual

/-- What is put behind an expression stays there. -/
theorem Expr.pieces_append (more : List Piece) :
    (e : Expr α) → (rest : List Piece) → e.pieces (rest ++ more) = e.pieces rest ++ more
  | .literal .., _ => rfl
  | .unary _ operand _, rest => by simp [pieces, operand.pieces_append more]
  | .binary op left right _, rest => by
      simp only [pieces, right.pieces_append more, ← List.cons_append, left.pieces_append more]
  | .logical op left right _, rest => by
      simp only [pieces, right.pieces_append more, ← List.cons_append, left.pieces_append more]
  | .group inner _, rest => by
      simp only [pieces, ← List.cons_append, inner.pieces_append more]
  | .reference .., _ => rfl
  | .assign _ _ value _, rest => by
      simp only [pieces, ← List.cons_append, value.pieces_append more]
  | .call callee args _, rest => by
      simp only [pieces, ← List.cons_append, Expr.argumentPieces_append more args,
        callee.pieces_append more]

theorem Expr.argumentPieces_append (more : List Piece) :
    (es : List (Expr α)) → (rest : List Piece) →
      Expr.argumentPieces es (rest ++ more) = Expr.argumentPieces es rest ++ more
  | [], _ => rfl
  | [e], rest => e.pieces_append more rest
  | e :: e' :: es, rest => by
      simp only [argumentPieces, Expr.argumentPieces_append more (e' :: es), ← List.cons_append,
        e.pieces_append more]

end

theorem parameterPieces_append (more : List Piece) : (names : List String) → (rest : List Piece) →
    parameterPieces names (rest ++ more) = parameterPieces names rest ++ more
  | [], _ => rfl
  | [_], _ => rfl
  | _ :: name' :: names, rest => by
      simp only [parameterPieces, parameterPieces_append more (name' :: names), List.cons_append]

mutual

/-- What is put behind a statement stays there. -/
theorem Stmt.pieces_append (more : List Piece) : (s : Stmt α) → (level : Nat) →
    (rest : List Piece) → s.pieces level (rest ++ more) = s.pieces level rest ++ more
  | .expression e _, _, rest => by simp only [pieces, ← List.cons_append, e.pieces_append more]
  | .declare _ none _, _, _ => rfl
  | .declare _ (some init) _, _, rest => by
      simp only [pieces, ← List.cons_append, init.pieces_append more]
  | .block body _, level, rest => Stmt.blockPieces_append more body level rest
  | .branch c t none _, level, rest => by
      simp only [pieces, t.pieces_append more, ← List.cons_append, c.pieces_append more]
  | .branch c t (some e) _, level, rest => by
      simp only [pieces, e.pieces_append more, ← List.cons_append, t.pieces_append more,
        c.pieces_append more]
  | .loop c body _, level, rest => by
      simp only [pieces, body.pieces_append more, ← List.cons_append, c.pieces_append more]
  | .function _ params body _, level, rest => by
      simp only [pieces, Stmt.blockPieces_append more body, ← List.cons_append,
        parameterPieces_append more params]
  | .ret none _, _, _ => rfl
  | .ret (some value) _, _, rest => by
      simp only [pieces, ← List.cons_append, value.pieces_append more]

theorem Stmt.blockPieces_append (more : List Piece) : (ss : List (Stmt α)) → (level : Nat) →
    (rest : List Piece) → Stmt.blockPieces ss level (rest ++ more) =
      Stmt.blockPieces ss level rest ++ more
  | [], _, _ => rfl
  | s :: ss, level, rest => by
      simp only [blockPieces, ← List.cons_append, Stmt.linePieces_append more ss,
        s.pieces_append more]

theorem Stmt.linePieces_append (more : List Piece) : (ss : List (Stmt α)) → (level : Nat) →
    (rest : List Piece) → Stmt.linePieces ss level (rest ++ more) =
      Stmt.linePieces ss level rest ++ more
  | [], _, _ => rfl
  | s :: ss, level, rest => by
      simp only [linePieces, Stmt.linePieces_append more ss, ← List.cons_append,
        s.pieces_append more]

end

/-- The line break of the empty line between two statements, if there is one. -/
def gapPieces (s t : Stmt α) : List Piece := if s.isFunction || t.isFunction then [.newline] else []

theorem programPieces_cons (s t : Stmt α) (ss : List (Stmt α)) :
    programPieces (s :: t :: ss) =
      programPieces [s] ++ (gapPieces s t ++ programPieces (t :: ss)) := by
  have hrest : (if s.isFunction || t.isFunction then .newline :: programPieces (t :: ss)
      else programPieces (t :: ss)) = gapPieces s t ++ programPieces (t :: ss) := by
    rw [gapPieces]
    split <;> rfl
  rw [programPieces, programPieces, hrest, ← s.pieces_append]
  rfl

theorem programPieces_append (first : List (Stmt α)) (s t : Stmt α) (ss : List (Stmt α)) :
    programPieces (first ++ s :: t :: ss) =
      programPieces (first ++ [s]) ++ (gapPieces s t ++ programPieces (t :: ss)) := by
  induction first with
  | nil => exact programPieces_cons s t ss
  | cons x first ih =>
    cases first with
    | nil =>
      rw [List.singleton_append, programPieces_cons, programPieces_cons s t, List.singleton_append,
        programPieces_cons x s]
      simp
    | cons y first =>
      rw [List.cons_append, List.cons_append, programPieces_cons, List.cons_append,
        List.cons_append, programPieces_cons x y, ← List.cons_append, ih]
      simp

end Neighbours

end Scriptorium
