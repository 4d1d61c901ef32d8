import GameScript.Source.Span

/-!
# Diagnostics

A `Diagnostic` is a message for the author of a script, with labels that point into the source, notes and help.
-/

namespace GameScript

/-- How bad it is. -/
inductive Severity
  | error
  | warning
deriving DecidableEq, Repr

/-- The name of a severity. -/
def Severity.name : Severity → String
  | error => "error"
  | warning => "warning"

/-- What a label shows. -/
inductive LabelStyle
  /-- Where the error is. -/
  | primary
  /-- What has to do with it. -/
  | secondary
deriving DecidableEq, Repr

/-- The name of a style. -/
def LabelStyle.name : LabelStyle → String
  | primary => "primary"
  | secondary => "secondary"

/-- A remark on a place in the source. -/
structure Label where
  span : Span
  style : LabelStyle
  message : Option String
deriving DecidableEq, Repr

/-- A message for the author of a script. -/
structure Diagnostic where
  severity : Severity
  code : Option String
  message : String
  labels : List Label
  notes : List String
  help : Option String
deriving DecidableEq, Repr

namespace Diagnostic

/-- An error with a code and one primary label. -/
def error (code : String) (message : String) (span : Span) (label : String) : Diagnostic :=
  ⟨.error, some code, message, [⟨span, .primary, some label⟩], [], none⟩

/-- The place that a diagnostic is about: its first primary label, or else its first label. -/
def primarySpan? (d : Diagnostic) : Option Span :=
  ((d.labels.find? (fun l => l.style = .primary)).or d.labels.head?).map Label.span

/-- Whether a diagnostic is an error. -/
def isError (d : Diagnostic) : Bool := d.severity = .error

end Diagnostic

end GameScript
