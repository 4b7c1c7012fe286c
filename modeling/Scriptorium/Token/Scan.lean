import Scriptorium.Text.Decimal
import Scriptorium.Token.Basic
import Scriptorium.Token.Tables

/-!
# Scanning

Scanning splits a text into tokens.  Two functions on plain text make every
decision, and know nothing of positions:

* `gap` — how many characters of blanks and comments come before the next token;
* `classify` — what the token at the start of a text is and how long it is.

A `Scanner` puts them together: it holds the text that is left and the place
reached in it, and `Scanner.next` takes the next token off.  `tokenize` collects
the tokens of a text up to and including the one at its end.
-/

namespace Scriptorium

/-! ## Blanks and comments -/

/-- The characters between tokens that are not part of a comment. -/
def isBlank (c : Char) : Bool := c == ' ' || c == '\t' || c == '\r'

/-- The number of characters up to the end of the first occurrence of `mark`,
counted from `count`. -/
def pastFirst? (mark : List Char) (count : Nat) : List Char → Option Nat
  | [] => if mark.isEmpty then some count else none
  | c :: cs =>
      if mark.isPrefixOf (c :: cs) then some (count + mark.length)
      else pastFirst? mark (count + 1) cs

/-- The blanks and comments before the next token. -/
structure Gap where
  /-- The number of their characters. -/
  length : Nat
  /-- Is the gap followed by a block comment that is never closed? -/
  unclosed : Bool
  deriving DecidableEq, Repr

/-- The gap at the start of `text`, after `count` characters of it were found.
Each round takes blanks and at most one comment; `fuel` bounds the rounds. -/
def gapFrom (tables : Tables) : (fuel count : Nat) → (text : List Char) → Gap
  | 0, count, _ => ⟨count, false⟩
  | fuel + 1, count, text =>
      let blanks := (text.takeWhile isBlank).length
      let count := count + blanks
      let text := text.drop blanks
      if tables.startsLineComment text then
        let comment := (text.takeWhile (· != '\n')).length
        gapFrom tables fuel (count + comment) (text.drop comment)
      else
        match tables.matchBlockComment? text with
        | none => ⟨count, false⟩
        | some (opener, closer) =>
            match pastFirst? closer.toList opener.length (text.drop opener.length) with
            | none => ⟨count, true⟩
            | some comment => gapFrom tables fuel (count + comment) (text.drop comment)

/-- The gap at the start of a text of at most `size` characters: every comment takes
one, so there are no more rounds than that. -/
def gap (tables : Tables) (size : Nat) (text : List Char) : Gap := gapFrom tables size 0 text

/-! ## The token at the start of a text -/

/-- Can a word start with this character? -/
def isWordStart (c : Char) : Bool := c.isAlpha || c == '_'

/-- Can a word go on with this character? -/
def isWordChar (c : Char) : Bool := c.isAlphanum || c == '_'

/-- The number of characters up to the double quote that closes a string literal,
counted from `count`.  A backslash takes the character after it along. -/
def closingQuote? (count : Nat) : List Char → Option Nat
  | [] => none
  | '"' :: _ => some (count + 1)
  | ['\\'] => none
  | '\\' :: _ :: rest => closingQuote? (count + 2) rest
  | _ :: rest => closingQuote? (count + 1) rest

/-- What the token at the start of a text is, and its number of characters. -/
def classify (tables : Tables) : List Char → TokenKind × Nat
  | [] => (.endOfInput, 0)
  | c :: rest =>
      if c = '\n' then (.newline, 1)
      else
        match tables.matchPunct? (c :: rest) with
        | some mark => (.punct, mark.length)
        | none =>
            if c.isDigit then
              let digits := (c :: rest).takeWhile Char.isDigit
              let value := digitsValue digits
              (if value ≤ maxLiteral then .int value else .invalid .integerTooLarge,
                digits.length)
            else if isWordStart c then
              let word := (c :: rest).takeWhile isWordChar
              (if String.ofList word ∈ tables.keywords then .keyword else .symbol, word.length)
            else if c = '"' then
              match closingQuote? 1 rest with
              | some length => (.string, length)
              | none => (.invalid .unterminatedString, rest.length + 1)
            else (.invalid .unexpectedChar, 1)

/-! ## The scanner -/

/-- A text that is being split into tokens. -/
structure Scanner where
  /-- What is recognised. -/
  tables : Tables
  /-- The number of characters of the whole text. -/
  size : Nat
  /-- The text that is left. -/
  text : List Char
  /-- The place at which it starts. -/
  place : Place
  /-- Was the token at the end of the text handed out? -/
  finished : Bool
  deriving Repr

namespace Scanner

/-- The scanner at the start of a text. -/
def start (tables : Tables) (source : String) : Scanner :=
  ⟨tables, source.length, source.toList, .start, false⟩

/-- The scanner after the next `n` characters. -/
def skip (s : Scanner) (n : Nat) : Scanner :=
  { s with text := s.text.drop n, place := s.place.advance (s.text.take n) }

/-- Takes the next `n` characters off as a token. -/
def take (s : Scanner) (kind : TokenKind) (n : Nat) : Token × Scanner :=
  let after := s.skip n
  ({ kind
     lexeme := String.ofList (s.text.take n)
     span := .ofOffsets s.place.offset after.place.offset
     location := s.place.location },
    after)

/-- The next token.  At the end of the text it is the same end token every time. -/
def next (s : Scanner) : Token × Scanner :=
  let gap := gap s.tables s.size s.text
  let s := s.skip gap.length
  if gap.unclosed then s.take (.invalid .unterminatedComment) s.text.length
  else
    let (kind, length) := classify s.tables s.text
    let (token, after) := s.take kind length
    (token, { after with finished := s.finished || token.isEnd })

/-- The next token, unless the end token was handed out before. -/
def next? (s : Scanner) : Option (Token × Scanner) := if s.finished then none else some s.next

/-- Is there a token that was not handed out? -/
def hasMore (s : Scanner) : Bool := !s.finished

/-- Collects the tokens up to the end token, after those already `seen`, last first.
`fuel` bounds their number. -/
def collect : (fuel : Nat) → Scanner → (seen : List Token) → List Token
  | 0, s, seen => (s.next.1 :: seen).reverse
  | fuel + 1, s, seen =>
      let (token, s) := s.next
      if token.isEnd then (token :: seen).reverse else collect fuel s (token :: seen)

end Scanner

/-- The tokens of a text, the end token included: every other token takes a
character, so there are no more of them than characters. -/
def tokenize (tables : Tables) (source : String) : List Token :=
  let s := Scanner.start tables source
  s.collect s.size []

end Scriptorium
