import GameScript.Source.Span

/-!
# What can be wrong with the characters of a script

A `LexFault` says what is wrong, a `LexError` also where. The wording is in `LexFault.message` and `LexFault.hint`.
-/

namespace GameScript

/-- Why some characters are no token. -/
inductive LexFault
  | unexpectedChar (c : Char)
  | unterminatedString (quoteMark : Char)
  | unterminatedComment
  | invalidEscape
  | invalidNumber
deriving DecidableEq, Repr

namespace LexFault

/-- The message of a fault. -/
def message : LexFault → String
  | unexpectedChar c => "Unexpected character '" ++ c.toString ++ "'"
  | unterminatedString _ => "Unterminated string"
  | unterminatedComment => "Unterminated block comment"
  | invalidEscape => "Invalid escape sequence"
  | invalidNumber => "Invalid number"

/-- Advice on a fault. -/
def hint : LexFault → Option String
  | unexpectedChar _ => none
  | unterminatedString q => some ("Add a closing '" ++ q.toString ++ "'")
  | unterminatedComment => some "Every '/*' needs a matching '*/'"
  | invalidEscape => some "Valid: \\n \\r \\t \\\\ \\0 \\' \\\""
  | invalidNumber => some "Integers must fit in 64 bits"

end LexFault

/-- A fault and its place. -/
structure LexError where
  fault : LexFault
  span : Span
deriving DecidableEq, Repr

end GameScript
