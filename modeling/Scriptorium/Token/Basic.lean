import Scriptorium.Text.Span

/-!
# Tokens

A token is a piece of the source text together with what it is and where it
stands.  Text that belongs to no other kind of token becomes an *invalid* token
that carries the reason, so that scanning never fails; whoever reads the tokens
decides what an invalid one means.
-/

namespace Scriptorium

/-! ## Kinds -/

/-- Why a piece of text is not a token of the language. -/
inductive LexFault where
  /-- No token starts with this character. -/
  | unexpectedChar
  /-- A string literal is not closed before the end of the text. -/
  | unterminatedString
  /-- A block comment is not closed before the end of the text. -/
  | unterminatedComment
  /-- An integer literal is larger than `maxLiteral`. -/
  | integerTooLarge
  deriving DecidableEq, Repr

/-- The text of a fault in an error message. -/
def LexFault.message : LexFault → String
  | .unexpectedChar => "unexpected character"
  | .unterminatedString => "unterminated string literal"
  | .unterminatedComment => "unterminated block comment"
  | .integerTooLarge => "integer literal is too large"

/-- The largest integer that a literal may denote: the largest 64-bit integer. -/
def maxLiteral : Nat := 9223372036854775807

/-- What a token is. -/
inductive TokenKind where
  /-- The end of the text. -/
  | endOfInput
  /-- An integer literal and its value. -/
  | int (value : Nat)
  /-- A string literal. -/
  | string
  /-- An identifier. -/
  | symbol
  /-- A word of the keyword table. -/
  | keyword
  /-- An entry of the punctuation table. -/
  | punct
  /-- A line break. -/
  | newline
  /-- Text that is no token. -/
  | invalid (fault : LexFault)
  deriving DecidableEq, Repr

/-- The name of a kind in a listing of tokens. -/
def TokenKind.label : TokenKind → String
  | .endOfInput => "END"
  | .int _ => "INT"
  | .string => "STRING"
  | .symbol => "SYMBOL"
  | .keyword => "KEYWORD"
  | .punct => "PUNCT"
  | .newline => "NEWLINE"
  | .invalid _ => "INVALID"

/-! ## Tokens -/

/-- A token of a source text. -/
structure Token where
  /-- What the token is. -/
  kind : TokenKind
  /-- The text of the token, quotes and escapes included. -/
  lexeme : String
  /-- The bytes that the token covers. -/
  span : Span
  /-- The row and column of its first character. -/
  location : Location
  deriving DecidableEq, Repr

namespace Token

/-- Is this the token at the end of the text? -/
def isEnd (t : Token) : Bool := t.kind == .endOfInput

/-- Is this token a line break? -/
def isNewline (t : Token) : Bool := t.kind == .newline

/-- Is this token the given punctuation or keyword? -/
def is (t : Token) (text : String) : Bool :=
  (t.kind == .punct || t.kind == .keyword) && t.lexeme == text

/-- How an error message names the token. -/
def describe (t : Token) : String :=
  match t.kind with
  | .endOfInput => "end of input"
  | .newline => "newline"
  | _ => t.lexeme

end Token

end Scriptorium
