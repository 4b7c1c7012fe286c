import Scriptorium.Report.Diagnostic
import Scriptorium.Text.LineTable

/-!
# Rendering diagnostics

A diagnostic is shown as a headline, then each label with the line it points at,
then notes and calls, and an empty line:

    error[E6005]: division by zero
     --> half.ql:2:9
      |
    2 | println(1 / 0);
      |         ^^^^^ divisor is zero
      = note: …

The carets stand under the characters of the label that are on its first line.  The
text in front of them is made of blanks, and of tabs where the line has tabs, so
that they line up.  Without the source text a place is shown as a span.
-/

namespace Scriptorium

/-! ## Colours -/

/-- When to use colours. -/
inductive ColorMode where
  /-- On a terminal. -/
  | auto
  /-- Always. -/
  | always
  /-- Never. -/
  | never
  deriving DecidableEq, Repr

/-- Are colours used, on a terminal or not? -/
def ColorMode.colors (mode : ColorMode) (terminal : Bool) : Bool :=
  match mode with
  | .auto => terminal
  | .always => true
  | .never => false

/-- How a part of a diagnostic is set apart. -/
inductive Emphasis where
  /-- Bold and red. -/
  | error
  /-- Bold. -/
  | strong
  deriving DecidableEq, Repr

/-- The control sequence that begins an emphasis. -/
def Emphasis.opening : Emphasis → String
  | .error => "\x1b[1;31m"
  | .strong => "\x1b[1m"

/-- The control sequence that ends an emphasis. -/
def Emphasis.closing : String := "\x1b[0m"

/-! ## Views -/

/-- A source text that labels point into. -/
structure SourceFile where
  /-- The name of the text. -/
  path : String
  /-- The lines of the text. -/
  lines : LineTable

/-- The source file of a text. -/
def SourceFile.of (path text : String) : SourceFile := ⟨path, LineTable.build text⟩

/-- How diagnostics are shown. -/
structure View where
  /-- Are parts set apart by colours? -/
  colors : Bool
  /-- The text that labels point into, if it is known. -/
  source : Option SourceFile

/-- The blanks in a text of length `n`. -/
def blanks (n : Nat) : String := String.ofList (List.replicate n ' ')

/-- A text moved to the right end of a column. -/
def alignRight (width : Nat) (text : String) : String := blanks (width - text.length) ++ text

namespace SourceFile

/-- The place where a span starts. -/
def location (f : SourceFile) (span : Span) : Location := f.lines.location span.start

/-- The characters of the line with a number. -/
def lineAt (f : SourceFile) (row : Nat) : List Char := (f.lines.lineText? row).getD []

/-- The number of characters before a place on its line, as a number of 64 bits: a place
in column zero has more of them than any line. -/
def charsBefore (place : Location) : Nat := (place.col.toUInt64 - 1).toNat

/-- The number of carets under a line that a span starts on, after `before`
characters of it: at least one. -/
def caretCount (f : SourceFile) (span : Span) (line : List Char) (before : Nat) : Nat :=
  let covered := ((slice? f.lines.chars span.start span.stop).getD []).takeWhile (· != '\n')
  max 1 (min covered.length (line.length - before))

/-- The characters in front of the carets, below the first `before` of a line. -/
def caretPadding (line : List Char) (before : Nat) : List Char :=
  let under := (line.take before).map fun c => if c = '\t' then '\t' else ' '
  under ++ List.replicate (before - under.length) ' '

end SourceFile

namespace View

/-- A part of a diagnostic with its emphasis. -/
def emphasize (v : View) (emphasis : Emphasis) (text : String) : String :=
  if v.colors then emphasis.opening ++ text ++ Emphasis.closing else text

/-- The place that a span starts at, or the span if the text is not known. -/
def position (v : View) (span : Span) : String :=
  match v.source with
  | some f => f.path ++ ":" ++ (f.location span).text
  | none => span.text

/-- The width of the column of line numbers: wide enough for every label. -/
def gutter (v : View) (labels : List Label) : Nat :=
  match v.source with
  | none => 1
  | some f =>
      match labels.map fun l => (toString (f.location l.span).row).length with
      | [] => 1
      | width :: widths => widths.foldl max width

/-- The lines of a label below its place. -/
def labelBody (v : View) (gutter : Nat) (label : Label) : String :=
  match v.source with
  | none => blanks gutter ++ " = " ++ v.emphasize .error label.message ++ "\n"
  | some f =>
      let place := f.location label.span
      let line := f.lineAt place.row
      let before := SourceFile.charsBefore place
      let carets := String.ofList (List.replicate (f.caretCount label.span line before) '^')
      let underline := if label.message.isEmpty then carets else carets ++ " " ++ label.message
      blanks gutter ++ " |\n"
        ++ alignRight gutter (toString place.row) ++ " | " ++ String.ofList line ++ "\n"
        ++ blanks gutter ++ " | " ++ String.ofList (SourceFile.caretPadding line before)
        ++ v.emphasize .error underline ++ "\n"

/-- The lines of a label. -/
def label (v : View) (gutter : Nat) (label : Label) : String :=
  blanks gutter ++ "--> " ++ v.position label.span ++ "\n" ++ v.labelBody gutter label

/-- A line with a tag. -/
def tagged (v : View) (gutter : Nat) (tag text : String) : String :=
  blanks gutter ++ " = " ++ v.emphasize .strong tag ++ ": " ++ text ++ "\n"

/-- The line of a call. -/
def call (v : View) (gutter : Nat) (frame : CallFrame) : String :=
  v.tagged gutter "trace" s!"in `{frame.name}` called at {v.position frame.callSpan}"

/-- The headline of a diagnostic. -/
def headline (v : View) (d : Diagnostic) : String :=
  v.emphasize .error "error" ++ v.emphasize .strong ("[" ++ d.code.text ++ "]") ++ ": "
    ++ d.headline ++ "\n"

/-- The text of a diagnostic. -/
def render (v : View) (d : Diagnostic) : String :=
  let gutter := v.gutter d.labels
  v.headline d
    ++ String.join (d.labels.map (v.label gutter))
    ++ String.join (d.notes.map (v.tagged gutter "note"))
    ++ String.join (d.trace.map (v.call gutter))
    ++ "\n"

/-- The text of diagnostics, one after the other. -/
def renderAll (v : View) (ds : List Diagnostic) : String := String.join (ds.map v.render)

end View

end Scriptorium
