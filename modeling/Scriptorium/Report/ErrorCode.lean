/-!
# Error codes

Every kind of error has a code under which it can be looked up: `E0…` for the
text itself, `E1…` for its grammar, `E6…` for running it.
-/

namespace Scriptorium

/-- The kinds of errors that have a code. -/
inductive ErrorCode where
  /-- A string literal is not closed. -/
  | unterminatedString
  /-- A character starts no token. -/
  | invalidChar
  /-- An integer literal is out of range. -/
  | integerTooLarge
  /-- A block comment is not closed. -/
  | unterminatedComment
  /-- Another token was required. -/
  | unexpectedToken
  /-- An expression was required. -/
  | expectedExpression
  /-- A block is not closed. -/
  | unterminatedBlock
  /-- A name was required. -/
  | expectedIdentifier
  /-- Something other than a variable is assigned to. -/
  | invalidAssignmentTarget
  /-- A call has more arguments than allowed. -/
  | tooManyArguments
  /-- A function has more parameters than allowed. -/
  | tooManyParameters
  /-- A `return` stands outside of every function. -/
  | returnOutsideFunction
  /-- A name has no value. -/
  | undefinedVariable
  /-- An operand has the wrong type. -/
  | typeMismatch
  /-- A call has the wrong number of arguments. -/
  | arityMismatch
  /-- Something other than a function is called. -/
  | notCallable
  /-- A number is divided by zero. -/
  | divisionByZero
  /-- A result does not fit its width. -/
  | integerOverflow
  /-- Calls are nested too deeply. -/
  | callDepthExceeded
  deriving DecidableEq, Repr

namespace ErrorCode

/-- All codes, in the order of their numbers. -/
def all : List ErrorCode :=
  [.unterminatedString, .invalidChar, .integerTooLarge, .unterminatedComment, .unexpectedToken,
    .expectedExpression, .unterminatedBlock, .expectedIdentifier, .invalidAssignmentTarget,
    .tooManyArguments, .tooManyParameters, .returnOutsideFunction, .undefinedVariable,
    .typeMismatch, .arityMismatch, .notCallable, .divisionByZero, .integerOverflow,
    .callDepthExceeded]

/-- The written form of a code. -/
def text : ErrorCode → String
  | .unterminatedString => "E0001"
  | .invalidChar => "E0002"
  | .integerTooLarge => "E0003"
  | .unterminatedComment => "E0004"
  | .unexpectedToken => "E1001"
  | .expectedExpression => "E1002"
  | .unterminatedBlock => "E1003"
  | .expectedIdentifier => "E1004"
  | .invalidAssignmentTarget => "E1005"
  | .tooManyArguments => "E1006"
  | .tooManyParameters => "E1007"
  | .returnOutsideFunction => "E1008"
  | .undefinedVariable => "E6001"
  | .typeMismatch => "E6002"
  | .arityMismatch => "E6003"
  | .notCallable => "E6004"
  | .divisionByZero => "E6005"
  | .integerOverflow => "E6006"
  | .callDepthExceeded => "E6007"

/-- What a code stands for. -/
def description : ErrorCode → String
  | .unterminatedString => "unterminated string literal"
  | .invalidChar => "invalid character in source"
  | .integerTooLarge => "integer literal too large"
  | .unterminatedComment => "unterminated block comment"
  | .unexpectedToken => "unexpected token"
  | .expectedExpression => "expected expression"
  | .unterminatedBlock => "unterminated block"
  | .expectedIdentifier => "expected identifier"
  | .invalidAssignmentTarget => "invalid assignment target"
  | .tooManyArguments => "too many arguments"
  | .tooManyParameters => "too many parameters"
  | .returnOutsideFunction => "return outside of a function"
  | .undefinedVariable => "undefined variable"
  | .typeMismatch => "type mismatch"
  | .arityMismatch => "wrong number of arguments"
  | .notCallable => "value is not callable"
  | .divisionByZero => "division by zero"
  | .integerOverflow => "integer overflow"
  | .callDepthExceeded => "maximum call depth exceeded"

/-- The code that is written as `text`, if there is one. -/
def ofText? (text : String) : Option ErrorCode := all.find? fun code => code.text == text

end ErrorCode

end Scriptorium
