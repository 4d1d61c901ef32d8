import GameScript.Run.Evaluate
import GameScript.Text.Style

/-!
# Help for the command line

The name and version of the program, the usage text, and the banners around listings. All of it is in pieces of styled
text.
-/

namespace GameScript.Command

open Text

/-- The name of the program. -/
def programName : String := "gse"

/-- The version of the program. -/
def version : String := "0.1.0"

/-- What is printed before an error message. -/
def errorLabel : Piece := Style.boldRed.piece "error"

/-- A text between bars. -/
def barred (p : Piece) : List Piece := [Style.dim.piece "===", plain " ", p, plain " ", Style.dim.piece "==="]

/-- The banner of a phase that went well. -/
def bannerOk (phase : String) : List Piece := barred (Style.boldGreen.piece (phase ++ " OK"))

/-- The banner of a phase that failed with so many errors. -/
def bannerFailed (phase : String) (count : Nat) : List Piece :=
  let errors := if count = 1 then "1 error" else toString count ++ " errors"
  barred (Style.boldRed.piece (phase ++ " FAILED: " ++ errors))

/-- The banner of a listing. -/
def sectionTitle (title : String) : List Piece := barred (Style.bold.piece title)

/-- The usage text, a line each. -/
def usage : List (List Piece) :=
  let command (name : String) := Style.green.piece name
  let argument (name : String) := Style.cyan.piece name
  let heading (text : String) := Style.boldYellow.piece text
  [[Style.bold.piece programName, plain " ", Style.dim.piece version, plain " - game script engine"],
    [],
    [heading "Usage", plain ": ", command programName, plain " ", argument "<command>", plain " ", argument "[args]"],
    [],
    [heading "Commands:"],
    [plain "  ", command "run", plain " ", argument "<file>", plain "     Run a script"],
    [plain "  ", command "lex", plain " ", argument "<file>", plain "     Tokenize a script and print tokens"],
    [plain "  ", command "parse", plain " ", argument "<file>", plain "   Parse a script and print the tree"],
    [plain "  ", command "help", plain "            Show this help"],
    [plain "  ", command "version", plain "         Show version"],
    [],
    [heading "Options:"],
    [plain "  ", argument "--format", plain " ", argument "<human|json>",
      plain "  Diagnostic output (default: human)"],
    [plain "  ", argument "--json", plain "                  Same as --format json"],
    [plain "  ", argument "--max-depth", plain " ", argument "<n>",
      plain ("          Maximum nested script calls for run (default: " ++ toString defaultCallLimit ++ ")")],
    [],
    [plain "Set RUST_LOG (e.g. RUST_LOG=gse_interp=debug) to trace execution."]]

end GameScript.Command
