import Scriptorium.Text.NonspacingMark
import Scriptorium.Text.Unprintable

/-!
# Visible text

Text that is shown to a reader who wants to know exactly what it holds is written
with escapes: the usual ones for line breaks, tabs, quotes and backslashes, and
`\u{…}` with the number of the character for everything that cannot be seen.

* `visible` — a text between single or double quotes of the reader's choice; only
  its first character can be a mark that would be drawn on the quote;
* `visibleLiteral` — a text with double quotes around it, in which every mark is
  escaped.
-/

namespace Scriptorium

/-- Is a number in one of the ranges? -/
def inRanges (ranges : Array (Nat × Nat)) (n : Nat) : Bool :=
  ranges.any fun range => range.1 ≤ n && n ≤ range.2

/-- Can the character be seen? -/
def isPrintable (c : Char) : Bool :=
  if c.toNat < 0x7F then 0x20 ≤ c.toNat else !inRanges unprintableRanges c.toNat

/-- Is the character drawn on the one before it? -/
def isNonspacingMark (c : Char) : Bool :=
  0x300 ≤ c.toNat && inRanges nonspacingMarkRanges c.toNat

/-- A character as the number that it has. -/
def numbered (c : Char) : List Char :=
  "\\u\x7b".toList ++ Nat.toDigits 16 c.toNat ++ ['\x7d']

/-- How a character is shown.  `marks` tells whether marks are escaped, and
`singleQuotes` whether single quotes are. -/
def visibleChar (marks singleQuotes : Bool) : Char → List Char
  | '\x00' => ['\\', '0']
  | '\t' => ['\\', 't']
  | '\r' => ['\\', 'r']
  | '\n' => ['\\', 'n']
  | '"' => ['\\', '"']
  | '\\' => ['\\', '\\']
  | c =>
      if c = '\'' then if singleQuotes then ['\\', c] else [c]
      else if marks && isNonspacingMark c then numbered c
      else if isPrintable c then [c]
      else numbered c

/-- The characters of a text as they are shown. -/
def visibleChars : List Char → List Char
  | [] => []
  | c :: cs => visibleChar true true c ++ cs.flatMap (visibleChar false true)

/-- A text as it is shown. -/
def visible (text : String) : String := String.ofList (visibleChars text.toList)

/-- A text as it is shown with double quotes around it. -/
def visibleLiteral (text : String) : String :=
  String.ofList ('"' :: text.toList.flatMap (visibleChar true false) ++ ['"'])

end Scriptorium
