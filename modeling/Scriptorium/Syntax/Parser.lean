import Scriptorium.Syntax.Parser.Statement
import Scriptorium.Syntax.Tree
import Scriptorium.Token.Scan

/-!
# Parsing

`parse` reads a text as a program.  It always answers: `Parsed` holds the
statements that were completed before the first syntax error, all of them if there
is none, together with the code that they belong to.
-/

namespace Scriptorium

/-- What was read of a text. -/
structure Parsed where
  /-- The complete statements of the top level. -/
  module : List StmtId
  /-- All nodes, those of an unfinished statement included, and their texts. -/
  code : Code
  /-- The first syntax error. -/
  failure : Option ParseError

namespace Parsed

/-- The trees of the statements of the top level. -/
def program (p : Parsed) : List (Stmt Origin) := p.code.stmtsOf p.module

end Parsed

namespace ParseState

/-- What was read when reading stops in a state, with the complete statements in
`seen`, last one first. -/
def finish (s : ParseState) (seen : List StmtId) (failure : Option ParseError) : Parsed :=
  ⟨seen.reverse, ⟨s.arena, s.names⟩, failure⟩

/-- Reads the statements of the top level, after those in `seen`, last one first;
`fuel` bounds their number. -/
def parseFrom : (fuel : Nat) → ParseState → (seen : List StmtId) → Parsed
  | 0, s, seen => s.finish seen none
  | fuel + 1, s, seen =>
      let s := s.skipNewlines
      if s.current.isEnd then s.finish seen none
      else
        match (Parser.declaration Parser.topStatement).run s with
        | .ok stmt s => parseFrom fuel s (stmt :: seen)
        | .error e s => s.finish seen (some e)

end ParseState

/-- Reads a list of tokens.  Every statement takes a token, so there are at most as
many as tokens. -/
def parseTokens (tokens : List Token) : Parsed :=
  (ParseState.start tokens).parseFrom tokens.length []

/-- Reads a text with the given tables. -/
def parseWith (tables : Tables) (source : String) : Parsed := parseTokens (tokenize tables source)

/-- Reads a text of the Quill language. -/
def parse (source : String) : Parsed := parseWith .quill source

end Scriptorium
