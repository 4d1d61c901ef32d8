import GameScript.Diagnostic.Basic
import GameScript.Diagnostic.Code
import GameScript.Source.LineMap
import GameScript.Text.Json

/-!
# Diagnostics for tools

A `Report` holds all diagnostics of one script and counts them; `Report.text` writes it as JSON. What a diagnostic
does not have is left out, except for its labels.
-/

namespace GameScript

open Text

/-- The version of the form of reports. -/
def reportVersion : Nat := 1

/-- All diagnostics of one script, and the phase that they come from. -/
structure Report where
  source : String
  file : String
  phase : String
  diagnostics : List Diagnostic

/-- A member that may be missing. -/
def optionalMember (key : String) : Option String → List (String × Json)
  | none => []
  | some text => [(key, .string text)]

/-- A byte offset with its line and column. -/
def offsetMembers (map : LineMap) (offset : Nat) : List (String × Json) :=
  let p := map.position offset
  [("line", .number p.line), ("column", .number p.column), ("byte_offset", .number offset)]

/-- A label in a report. -/
def Label.json (map : LineMap) (l : Label) : Json :=
  .object <|
    [("style", .string l.style.name)] ++ optionalMember "message" l.message
      ++ [("start", .object (offsetMembers map l.span.start)), ("end", .object (offsetMembers map l.span.stop))]

/-- Where a diagnostic is, with the line for context. -/
def locationJson (map : LineMap) (span : Span) : Json :=
  let line := String.ofList ((map.lineText? (map.position span.start).line).getD [])
  .object (offsetMembers map span.start ++ [("source_line", .string line)])

/-- A diagnostic in a report. -/
def Diagnostic.json (map : LineMap) (d : Diagnostic) : Json :=
  let category := (d.code.bind ErrorCode.find?).map fun e => e.category.name
  .object <|
    [("severity", .string d.severity.name)] ++ optionalMember "code" d.code ++ optionalMember "category" category
      ++ [("message", .string d.message)]
      ++ (d.primarySpan?.map fun span => ("location", locationJson map span)).toList
      ++ [("labels", .list (d.labels.map (Label.json map)))]
      ++ (if d.notes.isEmpty then [] else [("notes", .list (d.notes.map .string))])
      ++ optionalMember "help" d.help

namespace Report

/-- How many diagnostics have a severity. -/
def count (r : Report) (s : Severity) : Nat := r.diagnostics.countP (fun d => d.severity = s)

/-- Whether a report holds no error; warnings are none. -/
def success (r : Report) : Bool := r.count .error = 0

/-- A report as JSON. -/
def json (r : Report) : Json :=
  let map := LineMap.ofString r.source
  .object
    [("version", .number reportVersion), ("file", .string r.file), ("success", .bool r.success),
      ("phase", .string r.phase), ("diagnostics", .list (r.diagnostics.map (Diagnostic.json map))),
      ("error_count", .number (r.count .error)), ("warning_count", .number (r.count .warning))]

/-- The text of a report. -/
def text (r : Report) : String := r.json.write

end Report

end GameScript
