import Scriptorium.Report.Diagnostic
import Scriptorium.Token.Basic

/-!
# Syntax errors

A syntax error is a `ParseFault`, the cause, at the token where reading stopped.
An invalid token is always reported as the fault of its own text: whatever the
grammar expected there, what the reader has to mend is the text.
-/

namespace Scriptorium

/-- Why a text is not a program. -/
inductive ParseFault where
  /-- The text holds something that is no token. -/
  | lex (fault : LexFault)
  /-- Another token is required. -/
  | unexpectedToken (expected found : String)
  /-- An expression is required. -/
  | expectedExpression (found : String)
  /-- A name is required. -/
  | expectedIdentifier (found : String)
  /-- A block is not closed. -/
  | unterminatedBlock
  /-- Something other than a variable is assigned to. -/
  | invalidAssignmentTarget
  /-- A call has more than `maxItems` arguments. -/
  | tooManyArguments
  /-- A function has more than `maxItems` parameters. -/
  | tooManyParameters
  /-- A `return` stands outside of every function. -/
  | returnOutsideFunction
  deriving DecidableEq, Repr

/-- The largest number of arguments of a call and of parameters of a function. -/
def maxItems : Nat := 255

namespace ParseFault

/-- The text of a fault in an error message. -/
def message : ParseFault → String
  | .lex fault => fault.message
  | .unexpectedToken expected found => s!"expected '{expected}' but got '{found}'"
  | .expectedExpression found => s!"expected expression but got '{found}'"
  | .expectedIdentifier found => s!"expected identifier but got '{found}'"
  | .unterminatedBlock => "unterminated block: expected '\x7d' before end of input"
  | .invalidAssignmentTarget => "invalid assignment target"
  | .tooManyArguments => s!"can't have more than {maxItems} arguments"
  | .tooManyParameters => s!"can't have more than {maxItems} parameters"
  | .returnOutsideFunction => "can't return from outside a function"

/-- The code of a fault. -/
def code : ParseFault → ErrorCode
  | .lex .unterminatedString => .unterminatedString
  | .lex .unexpectedChar => .invalidChar
  | .lex .integerTooLarge => .integerTooLarge
  | .lex .unterminatedComment => .unterminatedComment
  | .unexpectedToken .. => .unexpectedToken
  | .expectedExpression _ => .expectedExpression
  | .expectedIdentifier _ => .expectedIdentifier
  | .unterminatedBlock => .unterminatedBlock
  | .invalidAssignmentTarget => .invalidAssignmentTarget
  | .tooManyArguments => .tooManyArguments
  | .tooManyParameters => .tooManyParameters
  | .returnOutsideFunction => .returnOutsideFunction

/-- What is written at the place of a fault; most say enough in their message. -/
def label : ParseFault → String
  | .unterminatedBlock => "block opened here"
  | .invalidAssignmentTarget => "only variables can be assigned to"
  | .returnOutsideFunction => "not inside a function body"
  | _ => ""

end ParseFault

/-- A fault and where it is. -/
structure ParseError where
  /-- The cause. -/
  fault : ParseFault
  /-- The token at which it was found. -/
  span : Span
  /-- The row and column of that token. -/
  location : Location
  deriving DecidableEq, Repr

namespace ParseError

/-- The error of a fault at a token; an invalid token has a fault of its own. -/
def atToken (fault : ParseFault) (token : Token) : ParseError where
  fault :=
    match token.kind with
    | .invalid lexFault => .lex lexFault
    | _ => fault
  span := token.span
  location := token.location

/-- The written form `row:col: message`. -/
def text (e : ParseError) : String := e.location.text ++ ": " ++ e.fault.message

/-- What a reader is told about the error. -/
def diagnostic (e : ParseError) : Diagnostic :=
  ⟨e.fault.code, e.fault.message, [⟨e.span, e.fault.label⟩], [], []⟩

end ParseError

end Scriptorium
