/-!
# Pieces of laid out text

What is printed is put together from pieces: words, and the blanks between them.
A layout is a list of pieces, so that its words can be told from its blanks, and
`render` writes it down.
-/

namespace Scriptorium

/-- A piece of a layout. -/
inductive Piece where
  /-- A word, written as it is. -/
  | text (word : String)
  /-- A line break. -/
  | newline
  /-- A blank between two words. -/
  | space
  /-- The blanks at the start of a line: `level` times `width` of them. -/
  | indent (level width : Nat)
  deriving DecidableEq, Repr

/-- The text of a piece. -/
def Piece.written : Piece → String
  | .text word => word
  | .newline => "\n"
  | .space => " "
  | .indent level width => String.ofList (List.replicate (level * width) ' ')

/-- The text of a layout. -/
def render (pieces : List Piece) : String := String.join (pieces.map Piece.written)

end Scriptorium
