import Scriptorium.Run.Failure
import Scriptorium.Syntax.Arena
import Scriptorium.Text.Visible

/-!
# Values

A value is an integer of one of two widths, a text or a function.  Truth values are
integers: exactly the integer one counts as true.

A function is either `native`, provided by whoever runs the program, or `user`,
declared in the program.  A declared function remembers the frame in which it was
declared.  Every function has an identity, given to it when it was made; two
functions are the same value only if they have the same identity.
-/

namespace Scriptorium

/-- The number of a frame of variables. -/
structure FrameId where
  /-- The position in the list of frames. -/
  index : Nat
  deriving DecidableEq, Repr, Inhabited

/-- What a native function does. -/
inductive NativeAction where
  /-- Reads the clock. -/
  | clock
  /-- Prints its arguments. -/
  | print
  /-- Prints each of its arguments and a line break. -/
  | println
  /-- Answers zero. -/
  | zero
  /-- Answers its first argument, or minus one if it has none. -/
  | firstArgument
  /-- Answers the number of its arguments, as a wide integer. -/
  | argumentCount
  /-- Fails. -/
  | raise (error : RunError)
  deriving DecidableEq, Repr

/-- A function that is provided by whoever runs the program. -/
structure NativeFunction where
  /-- Its name. -/
  name : String
  /-- The number of its arguments. -/
  arity : Nat
  /-- What it does. -/
  action : NativeAction
  /-- Which function it is. -/
  identity : Nat
  deriving DecidableEq, Repr

/-- A function that is declared in the program. -/
structure UserFunction where
  /-- Its name. -/
  name : String
  /-- The number of the statement that declares it. -/
  declaration : StmtId
  /-- The names of its parameters. -/
  params : List String
  /-- The statements of its body. -/
  body : Slice StmtId
  /-- The frame that was active at its declaration. -/
  closure : FrameId
  /-- Which function it is. -/
  identity : Nat
  deriving Repr

/-- A value. -/
inductive Value where
  /-- An integer of 32 bits. -/
  | int (n : Int32)
  /-- An integer of 64 bits. -/
  | wide (n : Int64)
  /-- A text. -/
  | str (text : String)
  /-- A function that is provided. -/
  | native (f : NativeFunction)
  /-- A function that is declared. -/
  | user (f : UserFunction)
  deriving Repr

/-! ## Widths -/

/-- The width of an integer. -/
inductive Width where
  /-- The width of 32 bits. -/
  | narrow
  /-- The width of 64 bits. -/
  | wide
  deriving DecidableEq, Repr

namespace Width

/-- The smallest integer of a width. -/
def least : Width → Int
  | .narrow => -2147483648
  | .wide => -9223372036854775808

/-- The largest integer of a width. -/
def greatest : Width → Int
  | .narrow => 2147483647
  | .wide => 9223372036854775807

/-- The value of an integer at a width, if it fits. -/
def value? (w : Width) (n : Int) : Option Value :=
  if w.least ≤ n ∧ n ≤ w.greatest then
    some (match w with
      | .narrow => .int (Int32.ofInt n)
      | .wide => .wide (Int64.ofInt n))
  else none

end Width

namespace Value

/-- The value of an integer literal: narrow if it fits, else wide. -/
def ofLiteral (n : Nat) : Except RunError Value :=
  match Width.narrow.value? n with
  | some v => .ok v
  | none =>
      match Width.wide.value? n with
      | some v => .ok v
      | none => .error .literalOverflow

/-- The value of a truth value. -/
def ofBool (b : Bool) : Value := .int (if b then 1 else 0)

/-- The integer zero: the value of what has no other. -/
def zero : Value := .int 0

/-! ## Questions -/

/-- The integer that a value is, if it is one. -/
def toInt? : Value → Option Int
  | .int n => some n.toInt
  | .wide n => some n.toInt
  | _ => none

/-- Is the value an integer? -/
def isInteger (v : Value) : Bool := v.toInt?.isSome

/-- Does the value count as true? -/
def isTrue (v : Value) : Bool := v.toInt? == some 1

/-- The name of the type of a value. -/
def typeName : Value → String
  | .int _ => "int"
  | .wide _ => "wide int"
  | .str _ => "string"
  | .native _ | .user _ => "function"

/-- Are the values the same?  Integers of different widths never are. -/
def same : Value → Value → Bool
  | .int a, .int b => a == b
  | .wide a, .wide b => a == b
  | .str a, .str b => a == b
  | .native f, .native g => f.identity == g.identity
  | .user f, .user g => f.identity == g.identity
  | _, _ => false

/-! ## Text -/

/-- The text that is printed for a value. -/
def display : Value → String
  | .int n => toString n.toInt
  | .wide n => toString n.toInt
  | .str text => text
  | .native f => s!"<native fn {f.name}>"
  | .user f => s!"<fn {f.name}>"

/-- The text that shows which value it is, the type included.  A declared function
is shown with the number of its name in `names`, zero if it has none. -/
def describe (names : NameTable) : Value → String
  | .int n => s!"Int({n.toInt})"
  | .wide n => s!"Wide({n.toInt})"
  | .str text => "Str(" ++ visibleLiteral text ++ ")"
  | .native f =>
      "Callable(Native \x7b name: " ++ visibleLiteral f.name ++ ", arity: " ++ toString f.arity
        ++ " \x7d)"
  | .user f =>
      let name := (names.find? f.name).getD ⟨0⟩
      "Callable(User \x7b name: " ++ name.describe ++ ", decl: " ++ f.declaration.describe
        ++ ", arity: " ++ toString f.params.length ++ ", .. \x7d)"

end Value

end Scriptorium
