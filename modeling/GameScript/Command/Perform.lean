import GameScript.Command.Options
import GameScript.Command.Usage
import GameScript.Diagnostic.Explain
import GameScript.Diagnostic.Terminal
import GameScript.Diagnostic.Report
import GameScript.Run.Display
import GameScript.Run.Teardown
import GameScript.Tree.Listing

/-!
# What the program does

`request` decides from the arguments whether the program can answer at once or needs a script, and `perform` does what
is asked with the text of that script. Nothing here reads or prints: an `Outcome` says what is to be printed, and the
exit code.
-/

namespace GameScript.Command

open Text

/-- What the program prints, and its exit code. -/
structure Outcome where
  stdout : String
  stderr : String
  code : Nat
deriving DecidableEq, Repr

/-- What is done with a script. -/
inductive Task
  | lex
  | parse
  | run
deriving DecidableEq, Repr

/-- The name of a task. -/
def Task.name : Task → String
  | lex => "lex"
  | parse => "parse"
  | run => "run"

/-- The name of a task in banners. -/
def Task.bannerName : Task → String
  | lex => "Lex"
  | parse => "Parse"
  | run => "Runtime"

/-- What the arguments ask for: an answer that needs no script, or a task with a script. -/
inductive Request
  | answer (o : Outcome)
  | script (task : Task) (path : String) (options : Options)

/-- A line of styled text. -/
def styledLine (color : Bool) (ps : List Piece) : String := writePieces color ps ++ "\n"

/-- The usage text. -/
def usageText (color : Bool) : String := String.join (usage.map (styledLine color))

/-- An error message. -/
def errorLine (color : Bool) (message : String) : String := styledLine color [errorLabel, plain (": " ++ message)]

/-- The request of a task with the arguments after it. -/
def taskRequest (color : Bool) (task : Task) (arguments : List String) : Request :=
  match Options.read defaultCallLimit arguments with
  | .error fault => .answer ⟨"", errorLine color fault.message, 1⟩
  | .ok options =>
    match options.file with
    | none => .answer ⟨"", "Usage: " ++ programName ++ " " ++ task.name ++ " <file.gse>\n", 1⟩
    | some path => .script task path options

/-- The request of a list of arguments. A script's name alone asks to run it. -/
def request (color : Bool) : List String → Request
  | [] => .answer ⟨usageText color, "", 0⟩
  | command :: rest =>
    if command ∈ ["help", "--help", "-h"] then .answer ⟨usageText color, "", 0⟩
    else if command ∈ ["version", "--version", "-V"] then .answer ⟨programName ++ " " ++ version ++ "\n", "", 0⟩
    else if command = "lex" then taskRequest color .lex rest
    else if command = "parse" then taskRequest color .parse rest
    else if command = "run" then taskRequest color .run rest
    else if command.endsWith ".gse" then taskRequest color .run (command :: rest)
    else .answer ⟨usageText color, errorLine color ("unknown command '" ++ command ++ "'"), 1⟩

/-- The outcome for a script that cannot be read. -/
def unreadable (color : Bool) (path reason : String) : Outcome :=
  ⟨"", errorLine color ("cannot read " ++ path ++ ": " ++ reason), 1⟩

/-- A report on a script, as a line. -/
def reportLine (source path : String) (task : Task) (ds : List Diagnostic) : String :=
  Report.text ⟨source, path, task.name, ds⟩ ++ "\n"

/-- The outcome of a task that failed, after it has printed something. -/
def failed (color : Bool) (printed source path : String) (task : Task) (format : Format) (ds : List Diagnostic) :
    Outcome :=
  match format with
  | .json => ⟨printed ++ reportLine source path task ds, "", 1⟩
  | .human =>
    let map := LineMap.ofString source
    let texts := ds.map fun d => d.format color map (some path) ++ "\n"
    ⟨printed, String.join texts ++ styledLine color (bannerFailed task.bannerName ds.length), 1⟩

/-- The outcome of a task that went well, where it prints something for people. -/
def succeeded (listing source path : String) (task : Task) (format : Format) : Outcome :=
  match format with
  | .json => ⟨reportLine source path task [], "", 0⟩
  | .human => ⟨listing, "", 0⟩

/-- Lists the tokens of a script. -/
def performLex (color : Bool) (path source : String) (format : Format) : Outcome :=
  let lexed := tokenize source.toList
  if lexed.errors.isEmpty then
    let map := LineMap.ofString source
    let title := "Tokens (" ++ toString lexed.tokens.length ++ ")"
    let rows := lexed.tokens.map fun t =>
      padLeft 8 (map.position t.span.start).text ++ "  " ++ t.kind.listed ++ "\n"
    let listing := styledLine color (sectionTitle title) ++ "\n" ++ String.join rows ++ "\n"
      ++ styledLine color (bannerOk "Lex")
    succeeded listing source path .lex format
  else failed color "" source path .lex format (lexed.errors.map LexError.toDiagnostic)

/-- Lists the statements of a script, the first of which has the given number. -/
def statementListings (number : Nat) : List Statement → String
  | [] => ""
  | s :: rest =>
    "--- Statement " ++ toString number ++ " ---\n" ++ s.body.listing.write ++ "\n\n"
      ++ statementListings (number + 1) rest

/-- Lists the tree of a script. -/
def performParse (color : Bool) (path source : String) (format : Format) : Outcome :=
  match parse source.toList with
  | .error e => failed color "" source path .parse format [e.toParseError.toDiagnostic]
  | .ok program =>
    let statements := program.body.body
    let title := "Program (" ++ toString statements.length ++ " statements)"
    let listing := styledLine color (sectionTitle title) ++ "\n" ++ statementListings 1 statements
      ++ styledLine color (bannerOk "Parse")
    succeeded listing source path .parse format

/-- The host of scripts that the program runs: one function, which prints its arguments on a line. The state is what
has been printed. -/
def consoleHost : Host String where
  call _ _ arguments memory printed :=
    let line := (memory.renderAll? arguments).getD ""
    .finish (.ok .undefined) memory (printed ++ line ++ "\n")

/-- A memory with a root scope in which the object `console` is bound. -/
def consoleMemory : ScopeId × Memory :=
  let (root, m) := ({} : Memory).newScope none
  let (console, m) := m.newObject [("log", .native ⟨0⟩)]
  (root, m.bind root "console" (.object console))

/-- Runs a script in a fresh memory, which is torn down when the run is over, whatever has come of it. -/
def runScript (options : Options) (program : Program) : Except RuntimeFault Value × Machine String :=
  let (root, memory) := consoleMemory
  let (result, m) := execute consoleHost options.maxDepth root program ⟨memory, 0, ""⟩
  (result, { m with memory := m.memory.teardown root })

/-- Runs a script. -/
def performRun (color : Bool) (path source : String) (options : Options) : Outcome :=
  match parse source.toList with
  | .error e => failed color "" source path .parse options.format [e.toParseError.toDiagnostic]
  | .ok program =>
    match runScript options program with
    | (.ok _, m) =>
      match options.format with
      | .json => ⟨m.state ++ reportLine source path .run [], "", 0⟩
      | .human => ⟨m.state, "", 0⟩
    | (.error fault, m) => failed color m.state source path .run options.format [fault.toDiagnostic]

/-- Does a task with the text of a script. -/
def perform (color : Bool) (task : Task) (path source : String) (options : Options) : Outcome :=
  match task with
  | .lex => performLex color path source options.format
  | .parse => performParse color path source options.format
  | .run => performRun color path source options

/-- Whether styles are shown: not if `NO_COLOR` is set, and else if `FORCE_COLOR` is. -/
def showsColor (noColor forceColor : Bool) : Bool := !noColor && forceColor

end GameScript.Command
