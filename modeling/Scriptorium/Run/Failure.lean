import Scriptorium.Report.Diagnostic
import Scriptorium.Syntax.Operator

/-!
# Failures of a run

A run that goes wrong ends in a `RunError`: the cause, the place in the program,
notes that help, and the calls that were under way.  An error is made without a
place; the first part of the program that knows one puts it in with `locate`, and
nobody after it changes it.
-/

namespace Scriptorium

/-- Why a run cannot go on. -/
inductive RunFault where
  /-- A name has no value. -/
  | undefinedVariable (name : String)
  /-- A value has another type than the one required. -/
  | typeMismatch (expected got : String)
  /-- A function gets the wrong number of arguments. -/
  | arityMismatch (name : String) (expected got : Nat)
  /-- A value of this type is called. -/
  | notCallable (type : String)
  /-- A number is divided by zero. -/
  | divisionByZero
  /-- The result of an operation does not fit its width. -/
  | integerOverflow (operation : String)
  /-- More calls than `limit` would be under way. -/
  | callDepthExceeded (limit : Nat)
  deriving DecidableEq, Repr

namespace RunFault

/-- The text of a fault in an error message. -/
def message : RunFault → String
  | .undefinedVariable name => s!"undefined variable '{name}'"
  | .typeMismatch expected got => s!"type mismatch: expected {expected}, got {got}"
  | .arityMismatch name expected got =>
      let noun := if expected = 1 then "argument" else "arguments"
      s!"{name} expects {expected} {noun}, got {got}"
  | .notCallable type => s!"{type} is not callable"
  | .divisionByZero => "division by zero"
  | .integerOverflow operation => s!"integer overflow in {operation}"
  | .callDepthExceeded limit => s!"maximum call depth exceeded (limit: {limit})"

/-- The code of a fault. -/
def code : RunFault → ErrorCode
  | .undefinedVariable _ => .undefinedVariable
  | .typeMismatch .. => .typeMismatch
  | .arityMismatch .. => .arityMismatch
  | .notCallable _ => .notCallable
  | .divisionByZero => .divisionByZero
  | .integerOverflow _ => .integerOverflow
  | .callDepthExceeded _ => .callDepthExceeded

/-- What is written at the place of a fault. -/
def label : RunFault → String
  | .undefinedVariable _ => "not found in this scope"
  | .typeMismatch .. => "wrong type here"
  | .arityMismatch .. => "called here"
  | .notCallable _ => "called here"
  | .divisionByZero => "divisor is zero"
  | .integerOverflow _ => "result does not fit"
  | .callDepthExceeded _ => "call exceeds the depth limit"

end RunFault

/-- A fault with its place and circumstances. -/
structure RunError where
  /-- The cause. -/
  fault : RunFault
  /-- The part of the program that failed, once it is known. -/
  span : Option Span
  /-- Remarks for the reader, in order. -/
  notes : List String
  /-- The calls under way, the latest first. -/
  backtrace : List CallFrame
  deriving DecidableEq, Repr

namespace RunError

/-- The error of a fault, with remarks. -/
def ofFault (fault : RunFault) (notes : List String) : RunError := ⟨fault, none, notes, []⟩

/-- A name has no value. -/
def undefinedVariable (name : String) : RunError := ofFault (.undefinedVariable name) []

/-- A name that has no value is assigned to. -/
def undeclaredTarget (name : String) : RunError :=
  ofFault (.undefinedVariable name) ["assignment never declares; use `var` first"]

/-- A value of type `got` stands where an integer is required. -/
def notInteger (got : String) (notes : List String) : RunError :=
  ofFault (.typeMismatch "integer" got) notes

/-- A value of type `got` is an operand of `op`. -/
def binaryOperand (op : BinaryOp) (got : String) : RunError :=
  notInteger got [s!"operator `{op.symbol}` requires integer operands"]

/-- A value of type `got` is the operand of `op`. -/
def unaryOperand (op : UnaryOp) (got : String) : RunError :=
  notInteger got [s!"unary `{op.symbol}` requires an integer operand"]

/-- A value of type `got` is the left operand of `op`. -/
def logicalOperand (op : LogicalOp) (got : String) : RunError :=
  notInteger got [s!"left operand of `{op.symbol}` must be an integer"]

/-- A value of type `got` is a condition. -/
def condition (got : String) : RunError := notInteger got ["conditions must be integers"]

/-- A function gets the wrong number of arguments. -/
def arityMismatch (name : String) (expected got : Nat) : RunError :=
  ofFault (.arityMismatch name expected got) []

/-- A value of type `got` is called. -/
def notCallable (got : String) : RunError :=
  ofFault (.notCallable got) ["only functions can be called"]

/-- A number is divided by zero. -/
def divisionByZero : RunError := ofFault .divisionByZero []

/-- The result of an operator does not fit its width. -/
def overflow (op : BinaryOp) : RunError := ofFault (.integerOverflow op.symbol) []

/-- The negation of a number does not fit its width. -/
def negationOverflow : RunError := ofFault (.integerOverflow "-") []

/-- The number of a literal does not fit 64 bits. -/
def literalOverflow : RunError := ofFault (.integerOverflow "literal") []

/-- More calls than `limit` would be under way. -/
def callDepthExceeded (limit : Nat) : RunError :=
  ofFault (.callDepthExceeded limit) ["the limit can be changed with --max-depth"]

/-- The error at a place, unless its place is known. -/
def locate (e : RunError) (span : Span) : RunError :=
  match e.span with
  | some _ => e
  | none => { e with span := some span }

/-! ## Reports -/

/-- The largest number of calls that a report shows in full. -/
def maxShownCalls : Nat := 16

/-- The calls that a report shows: all, or as many from either end as make up
`maxShownCalls`. -/
def shownCalls (e : RunError) : List CallFrame :=
  let calls := e.backtrace
  if calls.length ≤ maxShownCalls then calls
  else calls.take (maxShownCalls / 2) ++ calls.drop (calls.length - maxShownCalls / 2)

/-- The note on the calls that a report does not show. -/
def omittedNotes (e : RunError) : List String :=
  if e.backtrace.length ≤ maxShownCalls then []
  else [s!"{e.backtrace.length - maxShownCalls} intermediate calls omitted"]

/-- What a reader is told about the error. -/
def diagnostic (e : RunError) : Diagnostic where
  code := e.fault.code
  message := e.fault.message
  labels := e.span.toList.map fun span => ⟨span, e.fault.label⟩
  notes := e.notes ++ e.omittedNotes
  trace := e.shownCalls

end RunError

end Scriptorium
