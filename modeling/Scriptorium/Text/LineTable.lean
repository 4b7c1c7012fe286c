import Scriptorium.Text.Span

/-!
# The lines of a source text

A `LineTable` remembers where each line of a text starts, so that an offset found
by the scanner can be shown to a reader as a row and a column, together with the
line it is on.

* `LineTable.line` — the number of the line that an offset lies on;
* `LineTable.location` — its row and column;
* `LineTable.lineText?` — a line without its line break.

Every offset has an answer: one past the end counts as the end of the text, and
one inside a character has the column of the start of its line.

Lines and characters are counted in 32 bits, by `numberAfter`.
-/

namespace Scriptorium

/-- A text with the offsets at which its lines start, in increasing order. -/
structure LineTable where
  /-- The characters of the text. -/
  chars : List Char
  /-- The offset of the start of each line; the first is zero. -/
  starts : List Nat
  /-- The number of bytes of the text. -/
  size : Nat
  deriving Repr

namespace LineTable

/-- The offsets after the newlines of a text that itself starts at `offset`. -/
def startsAfterNewlines (offset : Nat) : List Char → List Nat
  | [] => []
  | c :: cs =>
      let next := offset + c.utf8Size
      if c = '\n' then next :: startsAfterNewlines next cs else startsAfterNewlines next cs

/-- The table of a text.  The starts of its lines are offsets of 32 bits, as those of
spans are. -/
def build (source : String) : LineTable :=
  let chars := source.toList
  let starts := (startsAfterNewlines 0 chars).map (min · Span.maxOffset)
  { chars, starts := 0 :: starts, size := byteLength chars }

/-- The number after `n` others, in 32 bits.  Where `n` does not fit itself, the largest
number is given; after the largest number comes zero. -/
def numberAfter (n : Nat) : UInt32 :=
  (if n < UInt32.size then .ofNat n else 4294967294) + 1

/-- The number of the last line that starts at or before an offset. -/
def line (t : LineTable) (offset : Nat) : UInt32 :=
  numberAfter ((t.starts.takeWhile (· ≤ offset)).length - 1)

/-- The offset at which line `n` starts; lines are counted from one. -/
def lineStart? (t : LineTable) : Nat → Option Nat
  | 0 => none
  | n + 1 => t.starts[n]?

/-- The row and column of an offset. -/
def location (t : LineTable) (offset : Nat) : Location :=
  let row := t.line offset
  let start := (t.lineStart? row).getD 0
  let stop := max start (min offset t.size)
  ⟨row, numberAfter ((slice? t.chars start stop).getD []).length⟩

/-- A text without the line breaks and carriage returns at its end. -/
def trimLineEnd (cs : List Char) : List Char :=
  (cs.reverse.dropWhile fun c => c = '\n' || c = '\r').reverse

/-- The text of line `n` without its line break.  It goes on to the start of the line
with the next number of 32 bits, or to the end of the text. -/
def lineText? (t : LineTable) (n : Nat) : Option (List Char) := do
  let start ← t.lineStart? n
  let stop := (t.lineStart? (UInt32.ofNat n + 1).toNat).getD t.size
  return trimLineEnd ((slice? t.chars start stop).getD [])

end LineTable

end Scriptorium
