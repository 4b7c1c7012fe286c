import Scriptorium.Report.ErrorCode
import Scriptorium.Text.Span

/-!
# Diagnostics

A diagnostic is what a reader is told about an error: a code, a message, labels at
places of the source text, notes, and the calls that led to it.
-/

namespace Scriptorium

/-- A call that is under way. -/
structure CallFrame where
  /-- The name of the called function. -/
  name : String
  /-- The call expression. -/
  callSpan : Span
  deriving DecidableEq, Repr

/-- A remark at a place of the source text. -/
structure Label where
  /-- The place. -/
  span : Span
  /-- The remark; it may be empty. -/
  message : String
  deriving DecidableEq, Repr

/-- What a reader is told about an error. -/
structure Diagnostic where
  /-- The kind of the error. -/
  code : ErrorCode
  /-- What is wrong; if empty, the description of the code is shown. -/
  message : String
  /-- Where it is wrong. -/
  labels : List Label
  /-- Further remarks. -/
  notes : List String
  /-- The calls that led to the error, the latest first. -/
  trace : List CallFrame
  deriving DecidableEq, Repr

namespace Diagnostic

/-- The message, or the description of the code if there is none. -/
def headline (d : Diagnostic) : String :=
  if d.message.isEmpty then d.code.description else d.message

/-- The diagnostic on one line. -/
def summary (d : Diagnostic) : String := s!"error[{d.code.text}]: {d.headline}"

end Diagnostic

end Scriptorium
