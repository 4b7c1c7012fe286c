/-!
# String literals

A string literal is a text between double quotes, in which a backslash stands
before the characters that cannot be written as they are.

* `quote` — the literal of a text;
* `cook` — the text of a literal: the inverse of `quote`, and lenient on
  everything `quote` does not produce.  The quotes may be missing, and a
  backslash before any other character stands for itself.
-/

namespace Scriptorium

/-- How a character is written between the quotes of a literal. -/
def escapeChar : Char → List Char
  | '"' => ['\\', '"']
  | '\\' => ['\\', '\\']
  | '\n' => ['\\', 'n']
  | '\t' => ['\\', 't']
  | '\r' => ['\\', 'r']
  | '\x00' => ['\\', '0']
  | c => [c]

/-- The characters of the literal of a text, quotes included. -/
def quoteChars (cs : List Char) : List Char := '"' :: cs.flatMap escapeChar ++ ['"']

/-- The literal of a text. -/
def quote (text : String) : String := String.ofList (quoteChars text.toList)

/-- The text of the characters between the quotes of a literal. -/
def unescape : List Char → List Char
  | '\\' :: '"' :: rest => '"' :: unescape rest
  | '\\' :: '\\' :: rest => '\\' :: unescape rest
  | '\\' :: 'n' :: rest => '\n' :: unescape rest
  | '\\' :: 't' :: rest => '\t' :: unescape rest
  | '\\' :: 'r' :: rest => '\r' :: unescape rest
  | '\\' :: '0' :: rest => '\x00' :: unescape rest
  | c :: rest => c :: unescape rest
  | [] => []

/-- A text without the double quote that it starts with, if any. -/
def stripOpeningQuote : List Char → List Char
  | '"' :: rest => rest
  | cs => cs

/-- A text without the double quote that it ends with, if any. -/
def stripClosingQuote (cs : List Char) : List Char :=
  if cs.getLast? = some '"' then cs.dropLast else cs

/-- The characters that a literal stands for. -/
def cookChars (lexeme : List Char) : List Char :=
  unescape (stripClosingQuote (stripOpeningQuote lexeme))

/-- The text that a literal stands for. -/
def cook (lexeme : String) : String := String.ofList (cookChars lexeme.toList)

end Scriptorium
