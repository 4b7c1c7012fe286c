import Scriptorium.Run.Machine
import Scriptorium.Text.Decimal

/-!
# Arguments of the command line

What can be wrong with the command line, and the arguments of `run`: options and
files in any order.  The first bad argument is the one that is reported, and of
several limits the last one counts.
-/

namespace Scriptorium

/-- What is wrong with a command line or the files that it names. -/
inductive CommandError where
  /-- There is no such file. -/
  | missingFile (path : String)
  /-- A file may not be read. -/
  | forbidden (path : String)
  /-- A file is not UTF-8 text. -/
  | notText (path : String)
  /-- A file cannot be read. -/
  | unreadable (path reason : String)
  /-- There is no such command. -/
  | unknownCommand (command : String)
  /-- There is no such option. -/
  | unknownOption (option : String)
  /-- A limit is neither `none` nor a positive number. -/
  | invalidDepth (value : String)
  /-- The arguments do not fit the form of the command. -/
  | usage (form : String)
  deriving DecidableEq, Repr

namespace CommandError

/-- The text of an error. -/
def message : CommandError → String
  | .missingFile path => s!"cannot find file '{path}'"
  | .forbidden path => s!"permission denied reading '{path}'"
  | .notText path => s!"'{path}' contains invalid UTF-8 data"
  | .unreadable path reason => s!"error reading '{path}': {reason}"
  | .unknownCommand command => s!"unknown command '{command}'"
  | .unknownOption option => s!"unknown option '{option}'"
  | .invalidDepth value =>
      s!"invalid value for --max-depth: '{value}' (expected a number or 'none')"
  | .usage form => s!"usage: {form}"

/-- Is the error followed by the list of commands? -/
def wantsUsage : CommandError → Bool
  | .unknownCommand _ | .unknownOption _ | .usage _ => true
  | _ => false

end CommandError

/-- The arguments of `run`. -/
structure RunArguments where
  /-- The files to run, in order. -/
  files : List String
  /-- The largest number of calls under way, if there is one. -/
  callLimit : Option Nat
  deriving DecidableEq, Repr

/-- The largest number that an option can hold. -/
def maxOptionNumber : Nat := 18446744073709551615

/-- The number that a text of decimal digits denotes; a plus sign may come first. -/
def unsignedNumber? (text : String) : Option Nat :=
  let digits :=
    match text.toList with
    | '+' :: rest => rest
    | cs => cs
  if digits.isEmpty || !digits.all Char.isDigit then none
  else
    let n := digitsValue digits
    if n ≤ maxOptionNumber then some n else none

/-- The limit that the value of `--max-depth` asks for. -/
def callLimitOf (value : String) : Except CommandError (Option Nat) :=
  if value = "none" then .ok none
  else
    match unsignedNumber? value with
    | some n => if 0 < n then .ok (some n) else .error (.invalidDepth value)
    | none => .error (.invalidDepth value)

/-- The start of the option that sets a limit. -/
def depthOption : String := "--max-depth="

/-- The rest of a text after the text that it starts with. -/
def afterStart? (start text : String) : Option String :=
  if start.toList.isPrefixOf text.toList then
    some (String.ofList (text.toList.drop start.toList.length))
  else none

/-- Does an argument start like an option? -/
def looksLikeOption (arg : String) : Bool := (afterStart? "-" arg).isSome

/-- Reads arguments of `run` after those in `seen`, whose files are in reverse. -/
def readRunArguments (seen : RunArguments) : List String → Except CommandError RunArguments
  | [] => .ok { seen with files := seen.files.reverse }
  | arg :: args =>
      match afterStart? depthOption arg with
      | some value =>
          match callLimitOf value with
          | .ok callLimit => readRunArguments { seen with callLimit } args
          | .error e => .error e
      | none =>
          if looksLikeOption arg then .error (.unknownOption arg)
          else readRunArguments { seen with files := arg :: seen.files } args

/-- The form of the arguments of `run`. -/
def runForm : String := "quill run <file>... [--max-depth=N|none]"

/-- Reads the arguments of `run`. -/
def parseRunArguments (args : List String) : Except CommandError RunArguments :=
  match readRunArguments ⟨[], some defaultCallLimit⟩ args with
  | .ok found => if found.files.isEmpty then .error (.usage runForm) else .ok found
  | .error e => .error e

end Scriptorium
