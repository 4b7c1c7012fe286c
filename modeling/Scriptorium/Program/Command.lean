import Scriptorium.Program.Files
import Scriptorium.Program.Script
import Scriptorium.Text.Visible

/-!
# Commands

The command line tool: `run` runs scripts, `parse` prints syntax trees, `lex` prints
tokens, and `fmt` prints the canonical form of a script or checks that a script has
it.  A command answers with what goes to either output and whether it succeeded.
-/

namespace Scriptorium

/-! ## Responses -/

/-- What a command gives. -/
structure Response where
  /-- Did it succeed? -/
  success : Bool
  /-- The text for the standard output. -/
  stdout : String
  /-- The text for the standard error output. -/
  stderr : String
  deriving DecidableEq, Repr

namespace Response

/-- The responses of two commands, one after the other. -/
def append (a b : Response) : Response :=
  ⟨a.success && b.success, a.stdout ++ b.stdout, a.stderr ++ b.stderr⟩

/-- The responses of commands, one after the other. -/
def concat (responses : List Response) : Response := responses.foldl append ⟨true, "", ""⟩

/-- The exit status of a command. -/
def exitStatus (r : Response) : Nat := if r.success then 0 else 1

end Response

/-- The list of commands. -/
def usageText : String :=
  String.join <| List.map (· ++ "\n")
    ["Quill interpreter",
      "",
      "Usage: quill <command> [options]",
      "",
      "Commands:",
      "  run <file>...        Run Quill scripts (in parallel when several)",
      "  parse <file>         Print the syntax tree",
      "  lex <file>           Print the token stream",
      "  fmt <file>           Print the file in canonical form",
      "  help                 Show this help message",
      "  version              Show version information",
      "",
      "Run options:",
      "  --max-depth=<n>      Limit nested calls (default 1000, 'none' for unlimited)",
      "",
      "Format options:",
      "  --check              Exit 1 if the file is not already formatted",
      "",
      "Set RUST_LOG (e.g. RUST_LOG=quill_eval=debug) for trace output."]

/-- The version of the tool. -/
def versionText : String := "Quill 0.1.0\n"

/-- The line of an error. -/
def CommandError.line (e : CommandError) : String := s!"error: {e.message}\n"

/-- The response to an error. -/
def CommandError.response (e : CommandError) : Response :=
  if e.wantsUsage then ⟨false, usageText, e.line ++ "\n"⟩ else ⟨false, "", e.line⟩

/-! ## The commands -/

/-- Where a command is carried out. -/
structure Surroundings where
  /-- The files that it can read. -/
  files : Files
  /-- The clock. -/
  clock : Clock
  /-- Does the standard error output go to a terminal? -/
  terminal : Bool

/-- Diagnostics about a file as they are shown. -/
def showDiagnostics (colors : Bool) (path source : String) (ds : List Diagnostic) : String :=
  View.renderAll ⟨colors, some (SourceFile.of path source)⟩ ds

/-- Runs a script. -/
def runScript (settings : Settings) (colors : Bool) (path source : String) : Response :=
  let result := runSource settings source
  ⟨result.succeeded, result.output, showDiagnostics colors path source result.diagnostics⟩

/-- Runs scripts.  A file that cannot be read stops the command if it is the only
one, and else counts as a script that fails.  Diagnostics about several files have
no colours. -/
def runCommand (around : Surroundings) (args : RunArguments) : Except CommandError Response :=
  let settings := { Settings.standard around.clock with callLimit := args.callLimit }
  match args.files with
  | [path] =>
      (around.files.read path).map (runScript settings (ColorMode.auto.colors around.terminal) path)
  | paths =>
      .ok <| Response.concat <| paths.map fun path =>
        match around.files.read path with
        | .ok source => runScript settings (ColorMode.never.colors around.terminal) path source
        | .error e => ⟨false, "", e.line⟩

/-- Prints the outline of a script, as far as it could be read. -/
def parseCommand (colors : Bool) (path source : String) : Response :=
  let parsed := parse source
  ⟨parsed.failure.isNone, outline parsed.program,
    showDiagnostics colors path source (parsed.failure.toList.map ParseError.diagnostic)⟩

/-- The line of a token. -/
def tokenLine (token : Token) : String :=
  let reason :=
    match token.kind with
    | .invalid fault => s!" ({fault.message})"
    | _ => ""
  s!"{token.location.text} {token.kind.label} '{visible token.lexeme}'" ++ reason ++ "\n"

/-- Is the token one that belongs to no script? -/
def Token.isInvalid (token : Token) : Bool :=
  match token.kind with
  | .invalid _ => true
  | _ => false

/-- Prints the tokens of a script. -/
def lexCommand (source : String) : Response :=
  let tokens := tokenize .quill source
  ⟨!tokens.any Token.isInvalid, String.join (tokens.map tokenLine), ""⟩

/-- Prints the canonical form of a script, or checks that it has it. -/
def formatCommand (check colors : Bool) (path source : String) : Response :=
  let parsed := parse source
  match parsed.failure with
  | some e => ⟨false, "", showDiagnostics colors path source [e.diagnostic]⟩
  | none =>
      let formatted := format parsed.program
      if !check then ⟨true, formatted, ""⟩
      else if formatted = source then ⟨true, "", ""⟩
      else ⟨false, "", s!"'{path}' is not formatted\n"⟩

/-! ## Command lines -/

/-- The only argument, which has to be a file. -/
def singleFile (form : String) : List String → Except CommandError String
  | [path] => if looksLikeOption path then .error (.usage form) else .ok path
  | _ => .error (.usage form)

/-- Carries out a command on the text of a file. -/
def onFile (files : Files) (form : String) (args : List String)
    (command : (path source : String) → Response) : Except CommandError Response := do
  let path ← singleFile form args
  let source ← files.read path
  return command path source

/-- The end of the name of the file at a path, from its last dot on, if the name has
a dot after its first character. -/
def fileExtension? (path : String) : Option (List Char) :=
  match (pathSteps path).getLast? with
  | none => none
  | some name =>
      if name = ".." then none
      else
        let afterDot := name.toList.reverse.takeWhile (· != '.')
        if afterDot.length + 1 < name.length then some afterDot.reverse else none

/-- Is the path that of a script? -/
def isScriptPath (path : String) : Bool :=
  match fileExtension? path with
  | none => false
  | some ending => ending.map Char.toLower == "quill".toList

/-- Carries out a command. -/
def dispatch (around : Surroundings) (command : String) (args : List String) :
    Except CommandError Response := do
  let colors := ColorMode.auto.colors around.terminal
  match command with
  | "run" => runCommand around (← parseRunArguments args)
  | "parse" => onFile around.files "quill parse <file>" args (parseCommand colors)
  | "lex" => onFile around.files "quill lex <file>" args fun _ source => lexCommand source
  | "fmt" =>
      onFile around.files "quill fmt <file> [--check]" (args.filter (· != "--check"))
        (formatCommand (args.contains "--check") colors)
  | "help" | "--help" | "-h" => return ⟨true, usageText, ""⟩
  | "version" | "--version" | "-V" => return ⟨true, versionText, ""⟩
  | _ =>
      if isScriptPath command then runCommand around (← parseRunArguments (command :: args))
      else throw (.unknownCommand command)

/-- Carries out a command line. -/
def runCommandLine (around : Surroundings) : List String → Response
  | [] => ⟨true, usageText, ""⟩
  | command :: args =>
      match dispatch around command args with
      | .ok response => response
      | .error e => e.response

end Scriptorium
