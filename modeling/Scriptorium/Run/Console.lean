/-!
# The console

What a program prints goes to a console, which keeps it or drops it.  The program
cannot tell which.
-/

namespace Scriptorium

/-- Where printed text goes. -/
inductive Console where
  /-- Keeps the text. -/
  | buffer (text : String)
  /-- Drops the text. -/
  | silent
  deriving DecidableEq, Repr

namespace Console

/-- A console that keeps the text and has none. -/
def empty : Console := .buffer ""

/-- Prints a text. -/
def print : Console → (text : String) → Console
  | .buffer printed, text => .buffer (printed ++ text)
  | .silent, _ => .silent

/-- Prints a text and a line break. -/
def println (console : Console) (text : String) : Console := (console.print text).print "\n"

/-- The text that was printed and kept. -/
def output : Console → String
  | .buffer printed => printed
  | .silent => ""

/-- Does the console keep the text? -/
def captures : Console → Bool
  | .buffer _ => true
  | .silent => false

end Console

end Scriptorium
