import Scriptorium.Syntax.Arena
import Scriptorium.Syntax.ParseError

/-!
# Reading tokens

A `Parser` reads tokens from the front of a list, stores what it has read in an
arena, and stops at the first error.  The state survives an error, so the nodes
that were stored before it can still be seen.

The list ends with the end token, which is never taken off: whoever reads on at
the end of the text finds the end again.
-/

namespace Scriptorium

/-- The tokens that are left and what was made of those before them. -/
structure ParseState where
  /-- The next token. -/
  current : Token
  /-- The tokens after it. -/
  rest : List Token
  /-- The span of the token taken last. -/
  previous : Span
  /-- The number of tokens of the text: nothing in it is nested deeper or repeated
  more often. -/
  size : Nat
  /-- The nodes stored so far. -/
  arena : Arena
  /-- The names and texts met so far. -/
  names : NameTable

namespace ParseState

/-- The state before the first token of a text. -/
def start (tokens : List Token) : ParseState :=
  let state (current : Token) (rest : List Token) : ParseState :=
    ⟨current, rest, .empty, tokens.length, .empty, .empty⟩
  match tokens with
  | [] => state ⟨.endOfInput, "", .empty, .start⟩ []
  | token :: rest => state token rest

/-- The state after the next token is taken. -/
def advance (s : ParseState) : ParseState :=
  match s.rest with
  | [] => { s with previous := s.current.span }
  | token :: rest => { s with current := token, rest, previous := s.current.span }

/-- Takes line breaks off the front of the tokens `current` and `rest`, which come
after the token at `previous`. -/
def dropNewlines (current : Token) (previous : Span) : List Token → Token × Span × List Token
  | [] => (current, previous, [])
  | token :: rest =>
      if current.isNewline then dropNewlines token current.span rest
      else (current, previous, token :: rest)

/-- The state after the line breaks that come next. -/
def skipNewlines (s : ParseState) : ParseState :=
  let (current, previous, rest) := dropNewlines s.current s.previous s.rest
  { s with current, previous, rest }

end ParseState

/-- A computation that reads tokens. -/
abbrev Parser := EStateM ParseError ParseState

/-- An expression that was stored, under its number. -/
structure StoredExpr where
  /-- The number of the node. -/
  id : ExprId
  /-- The node. -/
  node : ExprNode
  deriving DecidableEq, Repr

/-- The text that a stored expression was read from. -/
def StoredExpr.span (e : StoredExpr) : Span := e.node.span

namespace Parser

/-! ## Tokens -/

/-- The next token. -/
def current : Parser Token := return (← get).current

/-- The number of tokens of the text, a bound on repetition and nesting. -/
def size : Parser Nat := return (← get).size

/-- Takes the next token. -/
def advance : Parser Token := modifyGet fun s => (s.current, s.advance)

/-- Takes the line breaks that come next. -/
def skipNewlines : Parser Unit := modify ParseState.skipNewlines

/-- Is the next token the given punctuation or keyword? -/
def check (text : String) : Parser Bool := return (← current).is text

/-- Stops with a fault at a token. -/
def fail {α : Type} (fault : ParseFault) (token : Token) : Parser α :=
  throw (ParseError.atToken fault token)

/-- Takes the given punctuation or keyword, which has to come next. -/
def expect (text : String) : Parser Token := do
  let token ← current
  if token.is text then advance else fail (.unexpectedToken text token.describe) token

/-- Stops because no expression starts at the next token. -/
def expectedExpression {α : Type} : Parser α := do
  let token ← current
  fail (.expectedExpression token.describe) token

/-! ## Spans -/

/-- The span from `first` to the token taken last. -/
def spanFrom (first : Span) : Parser Span := return first.merge (← get).previous

/-! ## Nodes -/

/-- The number of a name or text. -/
def intern (text : String) : Parser NameId := modifyGet fun s =>
  let (name, names) := s.names.intern text
  (name, { s with names })

/-- Stores an expression. -/
def addExpr (kind : ExprKind) (span : Span) : Parser StoredExpr := modifyGet fun s =>
  let node : ExprNode := ⟨kind, span⟩
  let (id, arena) := s.arena.addExpr node
  (⟨id, node⟩, { s with arena })

/-- Stores a statement. -/
def addStmt (kind : StmtKind) (span : Span) : Parser StmtId := modifyGet fun s =>
  let (id, arena) := s.arena.addStmt ⟨kind, span⟩
  (id, { s with arena })

/-- Stores a statement that goes from `first` to the token taken last. -/
def addStmtFrom (kind : StmtKind) (first : Span) : Parser StmtId := do
  addStmt kind (← spanFrom first)

/-- Stores a list of arguments. -/
def addExprs (ids : List ExprId) : Parser (Slice ExprId) := modifyGet fun s =>
  let (slice, arena) := s.arena.addExprs ids
  (slice, { s with arena })

/-- Stores a list of statements. -/
def addStmts (ids : List StmtId) : Parser (Slice StmtId) := modifyGet fun s =>
  let (slice, arena) := s.arena.addStmts ids
  (slice, { s with arena })

/-- Stores a list of parameters. -/
def addParams (names : List NameId) : Parser (Slice NameId) := modifyGet fun s =>
  let (slice, arena) := s.arena.addParams names
  (slice, { s with arena })

/-! ## Names and lists -/

/-- Reads a name. -/
def identifier : Parser NameId := do
  skipNewlines
  let token ← current
  if token.kind = .symbol then
    let _ ← advance
    intern token.lexeme
  else fail (.expectedIdentifier token.describe) token

/-- Reads items with commas between them, after those in `seen`, last one first.
Another item than the first `maxItems` is the fault `tooMany`; `fuel` bounds the
number of items. -/
def itemsFrom {α : Type} (tooMany : ParseFault) (item : Parser α) :
    (fuel : Nat) → (seen : List α) → Parser (List α)
  | 0, seen => return seen.reverse
  | fuel + 1, seen => do
      skipNewlines
      if seen.length ≥ maxItems then fail tooMany (← current)
      let x ← item
      skipNewlines
      if ← check "," then
        let _ ← advance
        itemsFrom tooMany item fuel (x :: seen)
      else return (x :: seen).reverse

/-- Reads the items of a list up to and including the closing parenthesis.  Every
item takes a token, so there are fewer than tokens. -/
def items {α : Type} (tooMany : ParseFault) (item : Parser α) : Parser (List α) := do
  skipNewlines
  let found ←
    if ← check ")" then pure []
    else itemsFrom tooMany item (← size) []
  let _ ← expect ")"
  return found

end Parser

end Scriptorium
