/-!
# Places in a source text

A source text is addressed in two ways.  The scanner and the syntax tree use
*offsets*, counted in bytes of the UTF-8 encoding; a reader of an error message
uses a *location*, a row and a column that both start at one and count lines and
characters.

* `Span` — a half-open range of offsets, with its union `Span.merge`;
* `Location` — a row and a column;
* `Place` — an offset together with its location, moved over text one character
  at a time by `Place.step`, so that the two views cannot drift apart.

Only a `Place` holds an offset of any size.  The offsets of a span are cut down to
the largest number of 32 bits by `Span.ofOffsets`; rows and columns are counted in
32 bits, and after the largest number comes zero.
-/

namespace Scriptorium

/-! ## Spans -/

/-- The bytes of a source text from `start` up to, and not including, `stop`. -/
structure Span where
  /-- The offset of the first byte. -/
  start : Nat
  /-- The offset after the last byte. -/
  stop : Nat
  deriving DecidableEq, Repr, Inhabited

namespace Span

/-- The empty span at the start of the text, used before anything was read. -/
def empty : Span := ⟨0, 0⟩

/-- The largest offset that a span can hold. -/
def maxOffset : Nat := 4294967295

/-- The span of two offsets, each cut down to `maxOffset`. -/
def ofOffsets (start stop : Nat) : Span := ⟨min start maxOffset, min stop maxOffset⟩

/-- The smallest span that covers both spans. -/
def merge (a b : Span) : Span := ⟨min a.start b.start, max a.stop b.stop⟩

/-- A span is empty when it ends where it starts. -/
def isEmpty (s : Span) : Bool := s.start == s.stop

/-- The number of bytes covered; a reversed span has none. -/
def length? (s : Span) : Option Nat := if s.start ≤ s.stop then some (s.stop - s.start) else none

/-- The written form `start..stop`. -/
def text (s : Span) : String := s!"{s.start}..{s.stop}"

end Span

/-! ## Locations -/

/-- A number of 32 bits stands for itself where a number of any size is meant. -/
instance coeUInt32Nat : Coe UInt32 Nat := ⟨UInt32.toNat⟩

/-- A row and a column, both counted from one in 32 bits. -/
structure Location where
  ofWords ::
  /-- The number of the line. -/
  row : UInt32
  /-- The number of the character in its line. -/
  col : UInt32
  deriving DecidableEq, Repr, Inhabited

namespace Location

/-- The location with these numbers, of which 32 bits are kept. -/
def mk (row col : Nat) : Location := ⟨.ofNat row, .ofNat col⟩

/-- The location of the first character of a text. -/
def start : Location := ⟨1, 1⟩

/-- The written form `row:col`. -/
def text (l : Location) : String := s!"{l.row}:{l.col}"

end Location

/-! ## Places -/

/-- An offset and the location that it stands for. -/
structure Place where
  /-- The number of bytes before the place. -/
  offset : Nat
  /-- The row and column of the place. -/
  location : Location
  deriving DecidableEq, Repr, Inhabited

namespace Place

/-- The place before the first character. -/
def start : Place := ⟨0, .start⟩

/-- The place after one more character: a newline opens the next row.  Both numbers
are counted on in 32 bits. -/
def step (p : Place) (c : Char) : Place :=
  { offset := p.offset + c.utf8Size
    location :=
      if c = '\n' then ⟨p.location.row + 1, 1⟩
      else ⟨p.location.row, p.location.col + 1⟩ }

/-- The place after a run of characters. -/
def advance (p : Place) (cs : List Char) : Place := cs.foldl step p

end Place

/-! ## Cutting text at byte offsets -/

/-- The text after its first `n` bytes, if a character ends there. -/
def dropBytes? : Nat → List Char → Option (List Char)
  | 0, cs => some cs
  | _ + 1, [] => none
  | n + 1, c :: cs => if c.utf8Size ≤ n + 1 then dropBytes? (n + 1 - c.utf8Size) cs else none

/-- The first `n` bytes of a text, if a character ends there. -/
def takeBytes? (n : Nat) (cs : List Char) : Option (List Char) :=
  (dropBytes? n cs).map fun rest => cs.take (cs.length - rest.length)

/-- The text from offset `start` to offset `stop`, if the offsets are in order
and each lies between two characters or at an end of the text. -/
def slice? (cs : List Char) (start stop : Nat) : Option (List Char) :=
  if start ≤ stop then (dropBytes? start cs).bind (takeBytes? (stop - start)) else none

/-- The number of bytes of a text. -/
def byteLength (cs : List Char) : Nat := cs.foldl (fun bytes c => bytes + c.utf8Size) 0

end Scriptorium
