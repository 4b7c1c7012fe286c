import Scriptorium.Syntax.Parser.Expression
import Scriptorium.Token.Scan
import Mathlib.Data.List.TakeWhile

/-!
# Words

The grammar does not look at a whole token.  Of an integer it takes the value, of a
string literal the text that it stands for, of anything else the kind and the
lexeme; where the token stands does not matter to it.  `Token.word` is what is left,
and two texts say the same when their words are the same.

* `Word` — a token as the grammar sees it;
* `words` — the words of a list of tokens, line breaks apart;
* `Blank`, `Closed` — words that are line breaks, and words that end at the end of
  the text;
* `Faces` — a given word comes next, perhaps after line breaks;
* `Word.Legible` — words that the scanner can find with the tables of the language.
-/

namespace Scriptorium

/-- A token as the grammar sees it. -/
structure Word where
  /-- What the token is. -/
  kind : TokenKind
  /-- Its text: nothing for an integer, the text that it stands for for a string
  literal, and else its lexeme. -/
  text : String
  deriving DecidableEq, Repr

/-- What the grammar sees of a token of the given kind and lexeme. -/
def Word.read (kind : TokenKind) (lexeme : String) : Word :=
  match kind with
  | .int value => ⟨.int value, ""⟩
  | .string => ⟨.string, cook lexeme⟩
  | kind => ⟨kind, lexeme⟩

/-- What the grammar sees of a token. -/
def Token.word (t : Token) : Word := .read t.kind t.lexeme

/-- The words of tokens, line breaks apart. -/
def words (tokens : List Token) : List Word :=
  (tokens.filter fun t => !t.isNewline).map Token.word

namespace Word

/-! ## Questions about a word -/

/-- A token with the kind and text of the word, which stands nowhere. -/
def token (w : Word) : Token := ⟨w.kind, w.text, .empty, .start⟩

/-- Is the word the given punctuation or keyword? -/
def is (w : Word) (text : String) : Bool := w.token.is text

/-- Is the word a line break? -/
def isNewline (w : Word) : Bool := w.token.isNewline

/-- Is the word the end of the text? -/
def isEnd (w : Word) : Bool := w.token.isEnd

/-- The operator between operands that the word stands for, if any. -/
def connective? (w : Word) : Option Connective := Connective.ofToken? w.token

/-- The sign that the word stands for, if any. -/
def sign? (w : Word) : Option UnaryOp := UnaryOp.ofToken? w.token

/-- The word at the end of a text. -/
def endOfInput : Word := ⟨.endOfInput, ""⟩

/-- The word of a line break. -/
def newline : Word := ⟨.newline, "\n"⟩

/-- The word of an entry of the punctuation table. -/
def punct (text : String) : Word := ⟨.punct, text⟩

/-- The word of an entry of the keyword table. -/
def keyword (text : String) : Word := ⟨.keyword, text⟩

/-- The word of an identifier. -/
def symbol (name : String) : Word := ⟨.symbol, name⟩

theorem is_iff {w : Word} {text : String} :
    w.is text = true ↔ (w.kind = .punct ∨ w.kind = .keyword) ∧ w.text = text := by
  simp [is, token, Token.is]

theorem is_punct (text : String) : (punct text).is text = true := is_iff.2 ⟨.inl rfl, rfl⟩

theorem is_keyword (text : String) : (keyword text).is text = true := is_iff.2 ⟨.inr rfl, rfl⟩

@[simp] theorem punct_is (a b : String) : (punct a).is b = (a == b) := rfl

@[simp] theorem keyword_is (a b : String) : (keyword a).is b = (a == b) := rfl

@[simp] theorem symbol_is (name text : String) : (symbol name).is text = false := rfl

@[simp] theorem newline_is (text : String) : newline.is text = false := rfl

theorem isNewline_iff {w : Word} : w.isNewline = true ↔ w.kind = .newline := by
  simp [isNewline, token, Token.isNewline]

theorem isEnd_iff {w : Word} : w.isEnd = true ↔ w.kind = .endOfInput := by
  simp [isEnd, token, Token.isEnd]

/-- A word that is punctuation or a keyword is neither a line break nor the end. -/
theorem solid_of_is {w : Word} {text : String} (h : w.is text = true) :
    w.isNewline = false ∧ w.isEnd = false := by
  obtain ⟨hk, -⟩ := is_iff.1 h
  rcases hk with hk | hk <;> simp [isNewline, isEnd, token, Token.isNewline, Token.isEnd, hk]

theorem solid_of_connective? {w : Word} {op : Connective} (h : w.connective? = some op) :
    w.isNewline = false ∧ w.isEnd = false := by
  rcases w with ⟨kind, text⟩
  cases kind with
  | punct | keyword => exact ⟨rfl, rfl⟩
  | _ => simp [connective?, Connective.ofToken?, token, Token.is] at h

theorem solid_of_sign? {w : Word} {op : UnaryOp} (h : w.sign? = some op) :
    w.isNewline = false ∧ w.isEnd = false := by
  rcases w with ⟨kind, text⟩
  cases kind with
  | punct => exact ⟨rfl, rfl⟩
  | _ => simp [sign?, UnaryOp.ofToken?, token] at h

/-- A word is at most one punctuation or keyword. -/
theorem eq_of_is {w : Word} {a b : String} (ha : w.is a = true) (hb : w.is b = true) : a = b :=
  (is_iff.1 ha).2.symm.trans (is_iff.1 hb).2

theorem not_is_of_is {w : Word} {a b : String} (ha : w.is a = true) (h : a ≠ b) :
    w.is b = false :=
  Bool.eq_false_iff.2 fun hb => h (eq_of_is ha hb)

end Word

/-! ## The word of a token -/

namespace Token

@[simp] theorem is_word (t : Token) (text : String) : t.word.is text = t.is text := by
  rcases t with ⟨kind, lexeme, span, location⟩
  cases kind <;> rfl

@[simp] theorem isNewline_word (t : Token) : t.word.isNewline = t.isNewline := by
  rcases t with ⟨kind, lexeme, span, location⟩
  cases kind <;> rfl

@[simp] theorem isEnd_word (t : Token) : t.word.isEnd = t.isEnd := by
  rcases t with ⟨kind, lexeme, span, location⟩
  cases kind <;> rfl

@[simp] theorem connective?_word (t : Token) : t.word.connective? = Connective.ofToken? t := by
  rcases t with ⟨kind, lexeme, span, location⟩
  cases kind <;> rfl

@[simp] theorem sign?_word (t : Token) : t.word.sign? = UnaryOp.ofToken? t := by
  rcases t with ⟨kind, lexeme, span, location⟩
  cases kind <;> rfl

end Token

/-! ## Line breaks and the end -/

/-- All of the words are line breaks. -/
def Blank (ws : List Word) : Prop := ∀ w ∈ ws, w.isNewline = true

@[simp] theorem blank_nil : Blank [] := by simp [Blank]

@[simp] theorem blank_cons {w : Word} {ws : List Word} :
    Blank (w :: ws) ↔ w.isNewline = true ∧ Blank ws := by
  simp [Blank]

@[simp] theorem blank_append {ws vs : List Word} : Blank (ws ++ vs) ↔ Blank ws ∧ Blank vs := by
  simp [Blank, or_imp, forall_and]

/-- The words without the line breaks at their start. -/
def skipBlank (ws : List Word) : List Word := ws.dropWhile Word.isNewline

theorem skipBlank_append {nls ws : List Word} (h : Blank nls) :
    skipBlank (nls ++ ws) = skipBlank ws :=
  List.dropWhile_append_of_pos h

theorem skipBlank_cons {w : Word} {ws : List Word} (h : w.isNewline = false) :
    skipBlank (w :: ws) = w :: ws := by
  simp [skipBlank, h]

theorem skipBlank_append_of_cons {ws vs : List Word} {w : Word} (h : skipBlank ws = w :: vs)
    (us : List Word) : skipBlank (ws ++ us) = w :: (vs ++ us) := by
  unfold skipBlank at h ⊢
  rw [List.dropWhile_append, h]
  rfl

theorem exists_blank_append_skipBlank (ws : List Word) :
    ∃ nls, Blank nls ∧ ws = nls ++ skipBlank ws :=
  ⟨ws.takeWhile Word.isNewline, fun _ hw => List.mem_takeWhile_imp hw,
    (List.takeWhile_append_dropWhile).symm⟩

/-- The words end with the end of the text, and nowhere before. -/
def Closed : List Word → Prop
  | [] => False
  | [w] => w.isEnd = true
  | w :: ws => w.isEnd = false ∧ Closed ws

theorem Closed.ne_nil {ws : List Word} (h : Closed ws) : ws ≠ [] := by
  rintro rfl
  exact h

theorem closed_cons {w : Word} {ws : List Word} (hw : w.isEnd = false) :
    Closed (w :: ws) ↔ Closed ws := by
  cases ws with
  | nil => simp [Closed, hw]
  | cons v vs => simp [Closed, hw]

theorem closed_append {ws vs : List Word} (h : ∀ w ∈ ws, w.isEnd = false) :
    Closed (ws ++ vs) ↔ Closed vs := by
  induction ws with
  | nil => rfl
  | cons w ws ih =>
    rw [List.cons_append, closed_cons (h w (List.mem_cons_self ..)),
      ih fun v hv => h v (List.mem_cons_of_mem _ hv)]

/-- No word before another one is the end of the text. -/
theorem Closed.isEnd_of_append {ws vs : List Word} (h : Closed (ws ++ vs)) (hvs : vs ≠ []) :
    ∀ w ∈ ws, w.isEnd = false := by
  induction ws with
  | nil => simp
  | cons w ws ih =>
    obtain ⟨v, rest, hrest⟩ :=
      List.exists_cons_of_ne_nil (List.append_ne_nil_of_right_ne_nil ws hvs)
    rw [List.cons_append, hrest] at h
    obtain ⟨hw, hclosed⟩ := h
    exact List.forall_mem_cons.2 ⟨hw, ih (hrest ▸ hclosed)⟩

/-- A line break is not the end of the text. -/
theorem Word.isEnd_of_isNewline {w : Word} (h : w.isNewline = true) : w.isEnd = false := by
  rw [isNewline_iff] at h
  simp [isEnd, token, Token.isEnd, h]

theorem Closed.skip {ws : List Word} (h : Closed ws) : Closed (skipBlank ws) := by
  obtain ⟨nls, hnls, hws⟩ := exists_blank_append_skipBlank ws
  rw [hws, closed_append fun w hw => Word.isEnd_of_isNewline (hnls w hw)] at h
  exact h

/-- The next word that is no line break is the given punctuation or keyword. -/
def Faces (text : String) (ws : List Word) : Prop :=
  ∃ w rest, skipBlank ws = w :: rest ∧ w.is text = true

theorem skipBlank_skipBlank (ws : List Word) : skipBlank (skipBlank ws) = skipBlank ws := by
  obtain ⟨nls, hnls, hws⟩ := exists_blank_append_skipBlank ws
  rw [← skipBlank_append hnls, ← hws]

theorem faces_append {nls ws : List Word} (h : Blank nls) {text : String} :
    Faces text (nls ++ ws) ↔ Faces text ws := by
  unfold Faces
  rw [skipBlank_append h]

theorem faces_cons {w : Word} {ws : List Word} {text : String} (h : w.is text = true) :
    Faces text (w :: ws) :=
  ⟨w, ws, skipBlank_cons (Word.solid_of_is h).1, h⟩

/-- At most one word comes next. -/
theorem Faces.eq {ws : List Word} {a b : String} (ha : Faces a ws) (hb : Faces b ws) : a = b := by
  obtain ⟨w, rest, hw, ha⟩ := ha
  obtain ⟨v, rest', hv, hb⟩ := hb
  rw [hw] at hv
  cases hv
  exact Word.eq_of_is ha hb

/-! ## The words of the language -/

/-- Can the text be the name of a variable? -/
def IsIdentifier (name : String) : Prop :=
  (∃ c cs, name.toList = c :: cs ∧ isWordStart c = true ∧ ∀ d ∈ cs, isWordChar d = true) ∧
    name ∉ Tables.quill.keywords

/-- The scanner finds the word in some text, given the tables of the language. -/
def Word.Legible (w : Word) : Prop :=
  match w.kind with
  | .int value => value ≤ maxLiteral ∧ w.text = ""
  | .symbol => IsIdentifier w.text
  | .keyword => w.text ∈ Tables.quill.keywords
  | .punct => w.text ∈ Tables.quill.puncts
  | .endOfInput => w.text = ""
  | _ => True

/-- All of the words are legible. -/
def AllLegible (ws : List Word) : Prop := ∀ w ∈ ws, w.Legible

@[simp] theorem allLegible_cons {w : Word} {ws : List Word} :
    AllLegible (w :: ws) ↔ w.Legible ∧ AllLegible ws := by
  simp [AllLegible]

@[simp] theorem allLegible_append {ws vs : List Word} :
    AllLegible (ws ++ vs) ↔ AllLegible ws ∧ AllLegible vs := by
  simp [AllLegible, or_imp, forall_and]

/-- A legible word that is a given punctuation has no other form. -/
theorem Word.Legible.eq_punct {w : Word} {text : String} (hw : w.Legible) (h : w.is text = true)
    (hk : text ∉ Tables.quill.keywords) : w = .punct text := by
  rcases w with ⟨kind, wtext⟩
  obtain ⟨hkind, rfl⟩ := is_iff.1 h
  rcases hkind with hkind | hkind <;> cases hkind
  · rfl
  · exact absurd hw hk

/-- A legible word that is a given keyword has no other form. -/
theorem Word.Legible.eq_keyword {w : Word} {text : String} (hw : w.Legible) (h : w.is text = true)
    (hk : text ∉ Tables.quill.puncts) : w = .keyword text := by
  rcases w with ⟨kind, wtext⟩
  obtain ⟨hkind, rfl⟩ := is_iff.1 h
  rcases hkind with hkind | hkind <;> cases hkind
  · exact absurd hw hk
  · rfl

end Scriptorium
