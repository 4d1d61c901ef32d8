import GameScript.Diagnostic.Basic
import GameScript.Source.LineMap
import GameScript.Text.Style

/-!
# Diagnostics on a terminal

A diagnostic is laid out as rows: a header, the place it is about, each source line that a label starts on with the
underlines of its labels, and notes and help. `Diagnostic.rows` says which rows there are and in what order,
`Row.pieces` how one looks, in pieces of styled text. Line numbers stand in a gutter wide enough for the last of them.

A label that goes on after its line is underlined to the end of its first line.
-/

namespace GameScript

open Text

/-- The underline of a label: its line, the columns it covers, and what it says. -/
structure Annotation where
  line : Nat
  column : Nat
  /-- The first column after the underline. -/
  stop : Nat
  style : LabelStyle
  message : Option String
deriving DecidableEq, Repr

/-- The underline of a label in a source; it is at least one column wide. -/
def Label.annotation (map : LineMap) (l : Label) : Annotation :=
  let start := map.position l.span.start
  let stop := map.position l.span.stop
  let stopColumn :=
    if stop.line = start.line then stop.column
    else match map.lineText? start.line with
      | some text => byteLength text + 1
      | none => start.column
  ⟨start.line, start.column, max stopColumn (start.column + 1), l.style, l.message⟩

/-- Underlines of one line stand in this order: primary ones first, then by column. -/
def Annotation.before (a b : Annotation) : Bool :=
  if a.style = b.style then decide (a.column ≤ b.column) else decide (a.style = .primary)

/-- What is printed on a row. -/
inductive Row
  | header (severity : Severity) (code : Option String) (message : String)
  | location (file : String) (position : Position)
  | bar
  | gap
  | source (line : Nat) (text : String)
  | underline (a : Annotation)
  | remark (title text : String)
deriving DecidableEq, Repr

/-- The lines on which underlines stand, in order. -/
def markedLines (as : List Annotation) : List Nat :=
  ((as.map Annotation.line).mergeSort (fun m n => decide (m ≤ n))).eraseDups

/-- The underlines of a line, in order. -/
def annotationsOn (as : List Annotation) (line : Nat) : List Annotation :=
  (as.filter (fun a => a.line = line)).mergeSort Annotation.before

/-- The rows of source lines, after a line that was printed already, if any. -/
def sourceRows (map : LineMap) (as : List Annotation) : (previous : Option Nat) → List Nat → List Row
  | _, [] => []
  | previous, line :: rest =>
    let gap := if previous.any (fun p => decide (p + 1 < line)) then [Row.gap] else []
    let text := String.ofList ((map.lineText? line).getD [])
    gap ++ Row.source line text :: (annotationsOn as line).map .underline ++ sourceRows map as (some line) rest

namespace Diagnostic

/-- The underlines of a diagnostic in a source. -/
def annotations (map : LineMap) (d : Diagnostic) : List Annotation := d.labels.map (Label.annotation map)

/-- The width of the gutter: that of the greatest line number, but at least two. -/
def gutter (map : LineMap) (d : Diagnostic) : Nat :=
  max 2 (((markedLines (d.annotations map)).getLast?.map fun n => (toString n).length).getD 1)

/-- What is called a script without a name. -/
def unnamed : String := "<script>"

/-- The rows of a diagnostic about a source. -/
def rows (map : LineMap) (file : Option String) (d : Diagnostic) : List Row :=
  let as := d.annotations map
  let lines := markedLines as
  let location := match d.primarySpan? with
    | some span => [Row.location (file.getD unnamed) (map.position span.start)]
    | none => []
  let remarks := d.notes.map (Row.remark "note") ++ (d.help.map (Row.remark "help")).toList
  let source :=
    if lines.isEmpty then []
    else Row.bar :: sourceRows map as none lines ++ (if remarks.isEmpty then [] else [Row.bar])
  Row.header d.severity d.code d.message :: location ++ source ++ remarks

end Diagnostic

/-- The style of a severity. -/
def Severity.style : Severity → Style
  | .error => .boldRed
  | .warning => .boldYellow

/-- The style of a label. -/
def LabelStyle.style : LabelStyle → Style
  | .primary => .boldRed
  | .secondary => .blue

/-- The mark that underlines of a label are made of. -/
def LabelStyle.mark : LabelStyle → Char
  | .primary => '^'
  | .secondary => '-'

/-- What a row looks like, without the end of the line. -/
def Row.pieces (gutter : Nat) : Row → List Piece
  | header severity code message =>
    severity.style.piece severity.name
      :: (code.map fun c => Style.boldRed.piece ("[" ++ c ++ "]")).toList
      ++ [plain ": ", Style.bold.piece message]
  | location file position =>
    [plain (blanks gutter), Style.blue.piece "-->", plain (" " ++ file ++ ":" ++ position.text)]
  | bar => [plain (blanks (gutter + 1) ++ " "), Style.blue.piece "|"]
  | gap => [plain (blanks gutter ++ " "), Style.blue.piece "..."]
  | source line text =>
    [Style.boldBlue.piece (padLeft (gutter + 1) (toString line)), plain " ", Style.blue.piece "|",
      plain (" " ++ text)]
  | underline a =>
    [plain (blanks (gutter + 1) ++ " "), Style.blue.piece "|", plain (" " ++ blanks (a.column - 1)),
      a.style.style.piece (String.ofList (List.replicate (a.stop - a.column) a.style.mark))]
      ++ match a.message with
        | none => []
        | some message => [plain " ", a.style.style.piece message]
  | remark title text =>
    [plain (blanks (gutter + 1) ++ " "), Style.cyan.piece "=", plain " ", Style.boldCyan.piece title,
      plain (": " ++ text)]

/-- The text of a diagnostic about a source, where `color` says whether styles are shown. -/
def Diagnostic.format (color : Bool) (map : LineMap) (file : Option String) (d : Diagnostic) : String :=
  let gutter := d.gutter map
  String.join ((d.rows map file).map fun row => writePieces color (row.pieces gutter) ++ "\n")

end GameScript
