/-!
# The tables of the scanner

The scanner knows numbers, words and string literals; everything else that it
recognises is data.  `Tables` lists the punctuation, the words that are keywords
and the marks that open and close comments, and `Tables.quill` holds those of the
Quill language.

Punctuation is tried in the order of the table, so a longer entry has to stand
before its prefixes; an empty entry matches nothing.
-/

namespace Scriptorium

/-- Does `text` start with `mark`, and is there a mark at all? -/
def startsWithMark (mark : String) (text : List Char) : Bool :=
  mark != "" && mark.toList.isPrefixOf text

/-- What the scanner recognises besides numbers, words and string literals. -/
structure Tables where
  /-- The punctuation, in the order in which it is tried. -/
  puncts : List String
  /-- The words that are keywords. -/
  keywords : List String
  /-- The marks that start a comment up to the end of the line. -/
  lineComments : List String
  /-- The marks that open and close a comment. -/
  blockComments : List (String × String)
  deriving Repr, DecidableEq

namespace Tables

/-- Tables without entries. -/
def empty : Tables := ⟨[], [], [], []⟩

/-- The tables of the Quill language. -/
def quill : Tables where
  puncts :=
    ["(", ")", "\x7b", "\x7d", ",", ".", ";", "-", "+", "*", "/", "==", "!=", "=", ">=", ">",
      "<=", "<", "!"]
  keywords :=
    ["var", "fun", "if", "else", "while", "for", "return", "and", "or", "true", "false"]
  lineComments := ["//"]
  blockComments := [("/*", "*/")]

/-- The first punctuation entry that the text starts with. -/
def matchPunct? (t : Tables) (text : List Char) : Option String :=
  t.puncts.find? fun mark => startsWithMark mark text

/-- Does a line comment start here? -/
def startsLineComment (t : Tables) (text : List Char) : Bool :=
  t.lineComments.any fun mark => startsWithMark mark text

/-- The marks of the block comment that starts here, if one does. -/
def matchBlockComment? (t : Tables) (text : List Char) : Option (String × String) :=
  t.blockComments.find? fun marks => startsWithMark marks.1 text

end Tables

end Scriptorium
