/-!
# Name tables

The nodes of an arena do not carry text; they carry the number of a text in a
`NameTable`.  A table starts with the empty text under number zero and gives the
next number to each text that it has not seen before.

* `NameTable.intern` — the number of a text, entering it if it is new;
* `NameTable.text?` — the text of a number.
-/

namespace Scriptorium

/-- The number of a text in a name table. -/
structure NameId where
  /-- The position in the table. -/
  index : Nat
  deriving DecidableEq, Repr, Inhabited

/-- The texts that were entered, in order, each once. -/
structure NameTable where
  /-- The text of each number. -/
  texts : Array String
  deriving DecidableEq, Repr

namespace NameTable

/-- The table that holds the empty text only. -/
def empty : NameTable := ⟨#[""]⟩

/-- The number of entries. -/
def size (t : NameTable) : Nat := t.texts.size

/-- The text that shows the size of a table. -/
def describe (t : NameTable) : String :=
  "StringInterner \x7b len: " ++ toString t.size ++ " \x7d"

/-- The number of a text, if it was entered. -/
def find? (t : NameTable) (text : String) : Option NameId := (t.texts.idxOf? text).map .mk

/-- The text of a number, if the table holds one. -/
def text? (t : NameTable) (name : NameId) : Option String := t.texts[name.index]?

/-- The number of a text, and the table with the text in it. -/
def intern (t : NameTable) (text : String) : NameId × NameTable :=
  match t.find? text with
  | some name => (name, t)
  | none => (⟨t.size⟩, ⟨t.texts.push text⟩)

end NameTable

end Scriptorium
