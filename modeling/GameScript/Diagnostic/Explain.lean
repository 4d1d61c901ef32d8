import GameScript.Diagnostic.Basic
import GameScript.Parse.Script
import GameScript.Run.Fault

/-!
# Errors as diagnostics

Each error becomes one diagnostic with one primary label. What a lexer's error says is the same whether it is reported
by itself or as the error of a whole script.
-/

namespace GameScript

namespace LexFault

/-- The code of a fault. -/
def code : LexFault → String
  | unexpectedChar _ => "E0001"
  | unterminatedString _ => "E0002"
  | invalidEscape => "E0003"
  | invalidNumber => "E0004"
  | unterminatedComment => "E0005"

/-- What the label of a fault says. -/
def label : LexFault → String
  | unexpectedChar _ => "not valid here"
  | unterminatedString _ => "string starts here"
  | invalidEscape => "unknown escape"
  | invalidNumber => "does not fit in an integer"
  | unterminatedComment => "comment starts here"

end LexFault

/-- The diagnostic of a lexer's error. -/
def LexError.toDiagnostic (e : LexError) : Diagnostic :=
  { Diagnostic.error e.fault.code e.fault.message e.span e.fault.label with help := e.fault.hint }

namespace ParseFault

/-- The code of a fault. A delimiter that the end of the text leaves open is unbalanced, another token in its place
is unexpected. -/
def code : ParseFault → String
  | lexical fault => fault.code
  | expected what found =>
    match what with
    | .braceEnd | .parenEnd => if found.isEnd then "E0103" else "E0100"
    | _ => "E0100"
  | invalidTarget => "E0101"
  | misplacedReturn => "E0102"
  | misplacedLet => "E0102"
  | unmatchedBrace => "E0103"
  | duplicateParameter _ => "E0104"
  | invalidNegation => "E0105"
  | nestedTooDeeply => "E0106"
  | broken _ => "E0100"

/-- What the label of a fault says. -/
def label : ParseFault → String
  | lexical fault => fault.label
  | expected what found =>
    match what with
    | .braceEnd | .parenEnd => if found.isEnd then "unbalanced" else "here"
    | _ => "here"
  | invalidTarget => "cannot assign to this"
  | misplacedReturn => "only allowed at the start of a statement"
  | misplacedLet => "only allowed at the start of a statement"
  | unmatchedBrace => "unbalanced"
  | duplicateParameter _ => "already a parameter"
  | invalidNegation => "needs a number literal"
  | nestedTooDeeply => "nesting limit reached here"
  | broken _ => "here"

end ParseFault

/-- The diagnostic of a parse error. -/
def ParseError.toDiagnostic (e : ParseError) : Diagnostic :=
  { Diagnostic.error e.fault.code e.fault.message e.span e.fault.label with help := e.fault.hint }

namespace RuntimeError

/-- The code of an error. -/
def code : RuntimeError → String
  | undefinedVariable _ => "E0300"
  | alreadyDefined _ => "E0301"
  | typeMismatch _ _ _ => "E0302"
  | typeError _ => "E0303"
  | arityMismatch _ _ => "E0304"
  | notCallable _ => "E0305"
  | notAnObject _ _ => "E0306"
  | danglingReference _ => "E0307"
  | invalidAssignmentTarget => "E0308"
  | returnNotAllowed => "E0309"
  | divisionByZero => "E0310"
  | integerOverflow _ => "E0311"
  | callDepthExceeded _ => "E0312"
  | malformedExpression _ => "E0313"
  | host _ => "E0400"

/-- What the label of an error says. -/
def label : RuntimeError → String
  | undefinedVariable _ => "not defined in any enclosing scope"
  | alreadyDefined _ => "declared again here"
  | typeMismatch _ left right => left.name ++ " and " ++ right.name
  | typeError _ => "here"
  | arityMismatch expected _ => "takes " ++ argumentsText expected
  | notCallable _ => "called here"
  | notAnObject _ _ => "not an object"
  | danglingReference _ => "used here"
  | invalidAssignmentTarget => "cannot assign to this"
  | returnNotAllowed => "no function to return from"
  | divisionByZero => "divisor is zero"
  | integerOverflow _ => "result does not fit in 64 bits"
  | callDepthExceeded _ => "call made here"
  | malformedExpression _ => "here"
  | host _ => "in this call"

/-- Background on an error. -/
def notes : RuntimeError → List String
  | typeMismatch _ _ _ => ["values are never converted between types"]
  | danglingReference _ => ["the object was released while a property reference to it was still held"]
  | host _ => ["raised by a native function"]
  | _ => []

/-- Advice on an error. -/
def help : RuntimeError → Option String
  | undefinedVariable name => some ("declare it first with `let " ++ name ++ " = ...;`")
  | alreadyDefined name => some ("assign with `" ++ name ++ " = ...;` or pick another name")
  | callDepthExceeded _ => some "check for recursion without a base case"
  | _ => none

end RuntimeError

/-- The diagnostic of a run's error. -/
def RuntimeFault.toDiagnostic (f : RuntimeFault) : Diagnostic :=
  { Diagnostic.error f.error.code f.error.message f.span f.error.label with
    notes := f.error.notes
    help := f.error.help }

end GameScript
