import Scriptorium.Proofs.ExactArithmetic
import Scriptorium.Proofs.ExpressionTexts
import Mathlib.Data.Nat.Digits.Defs

/-!
# Literals

A literal keeps its value on the whole way: from the digits or the text through the scanner
and the parser to the value that is computed.

* `digitsValue_eq_ofDigits` — digits are read in the decimal system.
* `digitsWord?` — the same with a word of 64 bits, checked at every digit;
  `digitsWord?_eq`: it never gives up on a number that is small enough, however long the
  run of digits is.
* `Scanner.next_word`, `tokenize_word` — the scanner takes off what stands after blanks and
  comments, or at the start of a text.
* `exists_token_of_int`, `digits_of_token` — a number in the code was read from a token, and
  this token from its digits.
* `tokenize_quote` — the literal of a text is a token of its own before any other text.
-/

namespace Scriptorium

variable {size : Nat}

/-! ## The value of digits -/

theorem digitsValue_append (digits : List Char) (c : Char) :
    digitsValue (digits ++ [c]) = 10 * digitsValue digits + digitValue c := by
  simp [digitsValue, List.foldl_append]

/-- Digits are read in the decimal system. -/
theorem digitsValue_eq_ofDigits (digits : List Char) :
    digitsValue digits = Nat.ofDigits 10 (digits.reverse.map digitValue) := by
  induction digits using List.reverseRecOn with
  | nil => rfl
  | append_singleton digits c ih =>
    rw [digitsValue_append, ih]
    simp [Nat.ofDigits_cons, Nat.add_comm]

/-! ## Digits and machine words -/

/-- The product of two words, if it fits. -/
def checkedMul (a b : BitVec 64) : Option (BitVec 64) :=
  if a.umulOverflow b then none else some (a * b)

/-- The sum of two words, if it fits. -/
def checkedAdd (a b : BitVec 64) : Option (BitVec 64) :=
  if a.uaddOverflow b then none else some (a + b)

/-- A number with one more digit, if it fits the word. -/
def appendDigit? (n : BitVec 64) (c : Char) : Option (BitVec 64) :=
  (checkedMul n (.ofNat 64 10)).bind (checkedAdd · (.ofNat 64 (digitValue c)))

/-- The number of some digits, if every step fits the word and the end is not too large. -/
def digitsWord? (digits : List Char) : Option (BitVec 64) :=
  (digits.foldlM appendDigit? 0).filter fun n => n.toNat ≤ maxLiteral

/-- The unsigned word for a number, if there is one. -/
def unsigned? (n : Nat) : Option (BitVec 64) := if n < 2 ^ 64 then some (.ofNat 64 n) else none

theorem unsigned?_of_lt {n : Nat} (h : n < 2 ^ 64) : unsigned? n = some (.ofNat 64 n) := if_pos h

theorem unsigned?_of_le {n : Nat} (h : 2 ^ 64 ≤ n) : unsigned? n = none := if_neg (Nat.not_lt.2 h)

theorem checkedMul_ofNat {a b : Nat} (ha : a < 2 ^ 64) (hb : b < 2 ^ 64) :
    checkedMul (.ofNat 64 a) (.ofNat 64 b) = unsigned? (a * b) := by
  simp only [checkedMul, BitVec.umulOverflow, BitVec.toNat_ofNat, Nat.mod_eq_of_lt ha,
    Nat.mod_eq_of_lt hb, decide_eq_true_eq]
  by_cases h : a * b < 2 ^ 64
  · rw [if_neg (Nat.not_le.2 h), unsigned?_of_lt h, BitVec.ofNat_mul]
  · rw [if_pos (Nat.not_lt.1 h), unsigned?_of_le (Nat.not_lt.1 h)]

theorem checkedAdd_ofNat {a b : Nat} (ha : a < 2 ^ 64) (hb : b < 2 ^ 64) :
    checkedAdd (.ofNat 64 a) (.ofNat 64 b) = unsigned? (a + b) := by
  simp only [checkedAdd, BitVec.uaddOverflow, BitVec.toNat_ofNat, Nat.mod_eq_of_lt ha,
    Nat.mod_eq_of_lt hb, decide_eq_true_eq]
  by_cases h : a + b < 2 ^ 64
  · rw [if_neg (Nat.not_le.2 h), unsigned?_of_lt h, BitVec.ofNat_add]
  · rw [if_pos (Nat.not_lt.1 h), unsigned?_of_le (Nat.not_lt.1 h)]

theorem digitValue_lt (c : Char) : digitValue c < 2 ^ 64 := by
  have h : c.toNat < 2 ^ 32 := c.val.toNat_lt
  unfold digitValue
  omega

/-- A digit more: what is lost on the way would not fit either. -/
theorem unsigned?_bind_appendDigit? (n : Nat) (c : Char) :
    (unsigned? n).bind (appendDigit? · c) = unsigned? (10 * n + digitValue c) := by
  by_cases hn : n < 2 ^ 64
  · rw [unsigned?_of_lt hn, Option.bind_some, appendDigit?, checkedMul_ofNat hn (by decide),
      Nat.mul_comm n]
    by_cases hten : 10 * n < 2 ^ 64
    · rw [unsigned?_of_lt hten, Option.bind_some, checkedAdd_ofNat hten (digitValue_lt c)]
    · rw [unsigned?_of_le (by omega), unsigned?_of_le (by omega), Option.bind_none]
  · rw [unsigned?_of_le (by omega), unsigned?_of_le (by omega), Option.bind_none]

theorem foldlM_appendDigit? (digits : List Char) (n : Nat) :
    (unsigned? n).bind (digits.foldlM appendDigit?) =
      unsigned? (digits.foldl (fun n d => 10 * n + digitValue d) n) := by
  induction digits generalizing n with
  | nil => simp
  | cons c digits ih =>
    rw [List.foldl_cons, ← ih, ← unsigned?_bind_appendDigit?, Option.bind_assoc]
    rfl

/-- The word of some digits is their number, unless this is too large. -/
theorem digitsWord?_eq (digits : List Char) :
    (digitsWord? digits).map BitVec.toNat =
      if digitsValue digits ≤ maxLiteral then some (digitsValue digits) else none := by
  have hfold : digits.foldlM appendDigit? 0 = unsigned? (digitsValue digits) :=
    foldlM_appendDigit? digits 0
  have hmax : maxLiteral < 2 ^ 64 := by decide
  rw [digitsWord?, hfold]
  by_cases h : digitsValue digits < 2 ^ 64
  · have hword : (BitVec.ofNat 64 (digitsValue digits)).toNat = digitsValue digits :=
      Nat.mod_eq_of_lt h
    rw [unsigned?_of_lt h]
    by_cases hlarge : digitsValue digits ≤ maxLiteral
    · simp only [Option.filter_some, hword, hlarge, decide_true, if_true, Option.map_some]
    · simp only [Option.filter_some, hword, hlarge, decide_false, if_false, Option.map_none,
        Bool.false_eq_true]
  · rw [unsigned?_of_le (by omega), if_neg (by omega)]
    rfl

/-! ## Scanning a literal -/

/-- The scanner takes off what it finds after blanks and comments. -/
theorem Scanner.next_word {s : Scanner} {gap word after : List Char} {kind : TokenKind}
    (htables : s.tables = .quill) (hsize : s.text.length ≤ s.size)
    (htext : s.text = gap ++ (word ++ after)) (hgap : Trivia .quill (word ++ after) gap)
    (hsolid : Solid (word ++ after))
    (hclass : classify .quill (word ++ after) = (kind, word.length)) :
    s.next.1 = s.place.token kind gap word ∧ s.next.2.text = after := by
  have hlength : gap.length ≤ s.size := by
    rw [htext, List.length_append] at hsize
    omega
  have hpass : Scriptorium.gap s.tables s.size s.text = ⟨gap.length, false⟩ := by
    rw [htables, htext]
    exact gap_of_trivia hgap hsolid hlength
  rw [next_found htext hpass (htables ▸ hclass), List.take_left, List.drop_left]
  exact ⟨rfl, rfl⟩

theorem DigitRun.solid {digits after : List Char} (h : DigitRun digits after) :
    Solid (digits ++ after) := by
  obtain ⟨c, cs, rfl, hword⟩ := h.exists_cons
  obtain ⟨hblank, hslash, -⟩ := ne_of_isWordChar hword
  exact Solid.cons_iff.2 ⟨hblank, fun hc => absurd hc hslash⟩

/-- The text of a token that is a number are its digits. -/
theorem Scanner.digits_next {s : Scanner} {n : Nat} (h : s.next.1.kind = .int n) :
    s.next.1.lexeme.toList ≠ [] ∧ (∀ c ∈ s.next.1.lexeme.toList, c.isDigit = true) ∧
      digitsValue s.next.1.lexeme.toList = n ∧ n ≤ maxLiteral := by
  have hrule := s.rule_next (by simp [h]) (by simp [h])
  rw [h] at hrule
  generalize s.next.1.lexeme.toList = digits at hrule ⊢
  cases hrule with
  | int _ hdigits hvalue => exact ⟨hdigits.ne_nil, hdigits.digit, rfl, hvalue⟩

/-- The text of a token of a text of less than 4 GiB stands under its span. -/
theorem slice_tokenize (tables : Tables) {source : String}
    (hsize : byteLength source.toList < 2 ^ 32) :
    ∀ t ∈ tokenize tables source,
      slice? source.toList t.span.start t.span.stop = some t.lexeme.toList := by
  refine forall_tokenize fun s before hs => ?_
  obtain ⟨kind, gap, word, h⟩ := s.exists_takesOff
  have hsource : source.toList = before ++ gap ++ (word ++ s.next.2.text) := by
    rw [hs.source, h.text, List.append_assoc]
  rw [h.span hs hsize, h.token, Place.token, String.toList_ofList, hsource,
    ← List.append_assoc before]
  exact slice?_append (before ++ gap) word s.next.2.text

theorem digits_of_token {tables : Tables} {source : String} :
    ∀ t ∈ tokenize tables source, ∀ n, t.kind = .int n →
      t.lexeme.toList ≠ [] ∧ (∀ c ∈ t.lexeme.toList, c.isDigit = true) ∧
        digitsValue t.lexeme.toList = n ∧ n ≤ maxLiteral :=
  forall_tokenize fun s _ _ _ h => s.digits_next h

/-! ## Numbers in the code -/

/-- Line breaks apart, a number is spelled by a single word. -/
theorem Spells.eq_int {n : Nat} {ws : List Word}
    (h : Spells (.expr (.literal (.int n) ())) ws) (hws : Trimmed ws) : ws = [⟨.int n, ""⟩] := by
  generalize hp : Phrase.expr (.literal (.int n) ()) = p at h
  cases h with
  | lead hnl _ =>
    obtain ⟨w, hw, hw'⟩ := hws.first
    cases hw
    rw [hnl] at hw'
    cases hw'
  | int value => cases hp; rfl
  | @operation op => cases op <;> cases hp
  | _ => cases hp

/-- A number in the code was read from a token. -/
theorem exists_token_of_int {source : String} {id : ExprId} {n : Nat} {span : Span}
    (h : (parse source).code.arena.expr? id = some ⟨.literal (.int n), span⟩) :
    ∃ t ∈ tokenize .quill source, t.kind = .int n ∧ t.span = span := by
  obtain ⟨before, core, after, e, htokens, -, hbounds, hspells, -, tree, htree, rfl⟩ :=
    ((parseWith_takes .quill source).told id _ h).resolve_right
      fun himplicit => by cases himplicit.1
  -- the stored tree is the number alone, so a single token spells it
  have hnumber : tree = .literal (.int n) ⟨id.index, span⟩ := by
    have hnode : (parseWith .quill source).code.arena.expr? id = _ := h
    simpa [Code.exprTree?, hnode] using htree.symm
  subst hnumber
  obtain ⟨t, rfl, hword⟩ := List.map_eq_singleton_iff.1 (hspells.eq_int hbounds.trimmed)
  obtain ⟨⟨_, hfirst, -, hstart⟩, ⟨_, hlast, -, hstop⟩⟩ := hbounds
  cases hfirst
  cases hlast
  have hkind : t.word.kind = t.kind := by
    unfold Token.word Word.read
    cases t.kind <;> rfl
  have hspan : t.span = span := by
    rw [← show (⟨span.start, span.stop⟩ : Span) = span from rfl, Span.mk.injEq]
    exact ⟨hstart.symm, hstop.symm⟩
  exact ⟨t, by simp [htokens], by rw [← hkind, hword], hspan⟩

theorem evaluate_int {code : Code} {id : ExprId} {n : Nat} {span : Span}
    (h : code.arena.expr? id = some ⟨.literal (.int n), span⟩) (fuel : Nat) (m : Machine) :
    evaluate code (fuel + 1) id m = Step.ofExcept (Value.ofLiteral n) span m := by
  rw [evaluate, h]
  rfl

/-- A number that is not too large for a token has a value, narrow if it fits. -/
theorem exists_ofLiteral {n : Nat} (h : n ≤ maxLiteral) :
    ∃ v, Value.ofLiteral n = .ok v ∧
      v.Denotes (if n ≤ 2147483647 then .narrow else .wide) n := by
  unfold maxLiteral at h
  by_cases hsmall : n ≤ 2147483647
  · have hfits : Width.narrow.Fits n := by
      simp only [Width.fits_iff, Width.least, Width.greatest]
      omega
    obtain ⟨v, hv, hdenotes⟩ := hfits.exists_value
    exact ⟨v, by rw [Value.ofLiteral, hv], by rwa [if_pos hsmall]⟩
  · have hlarge : ¬ Width.narrow.Fits n := by
      simp only [Width.fits_iff, Width.least, Width.greatest]
      omega
    have hfits : Width.wide.Fits n := by
      simp only [Width.fits_iff, Width.least, Width.greatest]
      omega
    obtain ⟨v, hv, hdenotes⟩ := hfits.exists_value
    exact ⟨v, by rw [Value.ofLiteral, Width.value?_eq_none_iff.2 hlarge, hv],
      by rwa [if_neg hsmall]⟩

/-- Numbers keep their value.  Any digits make a single token, and a number in the code was read
from a token, which stands under its span in a text of less than 4 GiB. -/
theorem numbers_keep_value :
    (∀ (s : Scanner) (gap digits after : List Char),
      s.tables = .quill → s.text.length ≤ s.size → s.text = gap ++ (digits ++ after) →
      Trivia .quill (digits ++ after) gap → DigitRun digits after →
      ∀ n, n = Nat.ofDigits 10 (digits.reverse.map digitValue) →
        s.next.1 = s.place.token
          (if n ≤ 9223372036854775807 then .int n else .invalid .integerTooLarge) gap digits ∧
        s.next.2.text = after ∧
        (digitsWord? digits).map BitVec.toNat = if n ≤ 9223372036854775807 then some n else none) ∧
    (∀ source id n span,
      (parse source).code.arena.expr? id = some ⟨.literal (.int n), span⟩ →
      (∃ t ∈ tokenize .quill source, t.kind = .int n ∧ t.span = span ∧
        DigitRun t.lexeme.toList [] ∧
        n = Nat.ofDigits 10 (t.lexeme.toList.reverse.map digitValue) ∧
        n ≤ 9223372036854775807 ∧
        (byteLength source.toList < 2 ^ 32 →
          slice? source.toList span.start span.stop = some t.lexeme.toList)) ∧
      ∀ fuel m, ∃ v, evaluate (parse source).code (fuel + 1) id m = .done v m ∧
        v.Denotes (if n ≤ 2147483647 then .narrow else .wide) n) := by
  constructor
  · intro s gap digits after htables hsize htext hgap hdigits n hn
    rw [← digitsValue_eq_ofDigits] at hn
    subst hn
    obtain ⟨htoken, hrest⟩ :=
      Scanner.next_word htables hsize htext hgap hdigits.solid (hdigits.classify hdigits.noMark)
    exact ⟨htoken, hrest, digitsWord?_eq digits⟩
  · intro source id n span hnode
    obtain ⟨t, ht, hkind, rfl⟩ := exists_token_of_int hnode
    obtain ⟨hne, hdigits, hvalue, hmax⟩ := digits_of_token t ht n hkind
    obtain ⟨v, hv, hdenotes⟩ := exists_ofLiteral hmax
    refine ⟨⟨t, ht, hkind, rfl, ⟨hne, hdigits, by simp⟩, ?_, hmax,
      fun hsize => slice_tokenize .quill hsize t ht⟩, fun fuel m => ⟨v, ?_, hdenotes⟩⟩
    · rw [← digitsValue_eq_ofDigits, hvalue]
    · rw [evaluate_int hnode, hv]
      rfl

theorem numbers_keep_value_wide :
    (Scanner.start .quill " 007;").next.1 = Place.start.token (.int 7) [' '] ['0', '0', '7'] ∧
      (parse "2147483648;").code.arena.expr? ⟨0⟩ = some ⟨.literal (.int 2147483648), ⟨0, 10⟩⟩ ∧
      ∃ v, evaluate (parse "2147483648;").code 1 ⟨0⟩ (.start none .empty (.fixed 0)) =
          .done v (.start none .empty (.fixed 0)) ∧ v.Denotes .wide 2147483648 := by
  have hrun : DigitRun ['0', '0', '7'] [';'] := by
    refine ⟨List.cons_ne_nil _ _, List.all_eq_true.1 rfl, fun c hc => ?_⟩
    cases hc
    rfl
  have hnode : (parse "2147483648;").code.arena.expr? ⟨0⟩ =
      some ⟨.literal (.int 2147483648), ⟨0, 10⟩⟩ := by decide +kernel
  obtain ⟨htoken, -⟩ := numbers_keep_value.1 (.start .quill " 007;") [' '] ['0', '0', '7'] [';'] rfl
    (by decide) rfl (.blank rfl .nil) hrun 7 (by decide)
  exact ⟨htoken, hnode, (numbers_keep_value.2 _ _ _ _ hnode).2 0 _⟩

/-! ## Texts -/

theorem gap_resize {size' : Nat} {text : List Char} (h : text.length ≤ size)
    (h' : text.length ≤ size') : gap .quill size' text = gap .quill size text := by
  have hsame : gap .quill size' (text ++ []) = gap .quill size text :=
    gapFrom_append endsLine_nil h h' (fun _ => rfl) rfl
  rwa [List.append_nil] at hsame

/-- The bound on comments makes no difference once it is large enough. -/
theorem Scans.resize {size' : Nat} {text : List Char} {ws : List Word}
    (h : Scans .quill size text ws) (hsize : text.length ≤ size) (hsize' : text.length ≤ size') :
    Scans .quill size' text ws := by
  induction h with
  | ends hg hnil => exact .ends ((gap_resize hsize hsize').trans hg) hnil
  | unclosed hg hne hw _ ih =>
    exact .unclosed ((gap_resize hsize hsize').trans hg) hne hw (ih (by simp) (by simp))
  | word hg hfound hne hc hw _ ih =>
    subst hfound
    simp only [List.length_drop] at ih
    exact .word ((gap_resize hsize hsize').trans hg) rfl hne hc hw (ih (by omega) (by omega))

theorem solid_quote (text : String) (after : List Char) :
    Solid ((quote text).toList ++ after) := by
  rw [toList_quote]
  exact Solid.cons_iff.2 ⟨rfl, fun h => absurd h (by decide)⟩

/-- What is found at the start of a text is its first token. -/
theorem tokenize_word {source : String} {word after : List Char} {kind : TokenKind}
    (hsource : source.toList = word ++ after) (hsolid : Solid (word ++ after))
    (hclass : classify .quill (word ++ after) = (kind, word.length)) (hend : kind ≠ .endOfInput) :
    ∃ tokens, tokenize .quill source = Place.start.token kind [] word :: tokens := by
  generalize hs : Scanner.start .quill source = s
  have htables : s.tables = .quill := by rw [← hs]; rfl
  have hsize : s.text.length = s.size := by rw [← hs]; exact String.length_toList
  have htext : s.text = [] ++ (word ++ after) := by rw [← hs]; exact hsource
  have hplace : s.place = Place.start := by rw [← hs]; rfl
  have htoken : s.next.1 = Place.start.token kind [] word := by
    rw [← hplace]
    exact (Scanner.next_word htables hsize.le htext .nil hsolid hclass).1
  have hmore : s.next.1.isEnd = false := by
    rw [htoken]
    exact beq_false_of_ne hend
  have hshorter := Scanner.length_next_lt hmore
  obtain ⟨fuel, hfuel⟩ : ∃ fuel, s.size = fuel + 1 := ⟨s.size - 1, by omega⟩
  refine ⟨s.next.2.collect fuel [], ?_⟩
  rw [← htoken, ← Scanner.collect_cons hmore, ← hfuel, ← hs]
  rfl

/-- Whatever comes after the literal of a text, it is the first token, the text can be read
off it, and the tokens after it are those of the rest alone. -/
theorem tokenize_quote (text rest : String) :
    ∃ tokens, tokenize .quill (quote text ++ rest) =
        ⟨.string, quote text, .ofOffsets 0 (byteLength (quote text).toList), .start⟩ :: tokens ∧
      tokens.map Token.word = (tokenize .quill rest).map Token.word ∧ cook (quote text) = text := by
  have hsource : (quote text ++ rest).toList = (quote text).toList ++ rest.toList := by simp
  obtain ⟨tokens, htokens⟩ := tokenize_word hsource (solid_quote text rest.toList)
    (rule_quote text rest.toList).classify (by simp)
  -- scanning the rest gives the same words with the larger bound
  have hwords : (tokenize .quill (quote text ++ rest)).map Token.word =
      ⟨.string, text⟩ :: (tokenize .quill rest).map Token.word := by
    refine map_tokenize ?_
    rw [hsource]
    refine (Reads.string text rest.toList).scans ?_
    refine (tokenize_scans .quill rest).resize String.length_toList.le ?_
    rw [← String.length_toList, hsource, List.length_append]
    omega
  refine ⟨tokens, ?_, ?_, cook_quote text⟩
  · have hoffset : (Place.start.advance (quote text).toList).offset =
        byteLength (quote text).toList := by
      rw [Place.offset_advance]
      exact Nat.zero_add _
    rw [htokens, Place.token, List.nil_append, hoffset, String.ofList_toList]
    rfl
  · rw [htokens] at hwords
    exact (List.cons.inj hwords).2

end Scriptorium
