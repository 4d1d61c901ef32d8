import GameScript.Token.Basic
import GameScript.Token.Fault
import GameScript.Tree.Shape

/-!
# Why a script is no program

A `ParseFault` is a cause: characters that are no token, a token where another was expected, or a form that the
grammar has no place for. The wording of each is in `ParseFault.message` and `ParseFault.hint`.

A `Breach` is no fault of a script but of its reader. Readers are written as if it could happen, so that it can be
said that it never does.
-/

namespace GameScript

/-- What the grammar expected. -/
inductive Expectation
  /-- The end of a statement. -/
  | statementEnd
  /-- The brace that opens a function body. -/
  | blockStart
  /-- The brace that closes a block or an object. -/
  | braceEnd
  /-- The parenthesis that closes arguments, parameters or a group. -/
  | parenEnd
  /-- The colon after a property name. -/
  | colon
  /-- The arrow after parameters. -/
  | arrow
  /-- The equals sign of a declaration. -/
  | initializer
  /-- A name that is declared. -/
  | name
  /-- The name after a point. -/
  | member
  /-- The name of a property in an object literal. -/
  | propertyName
  /-- The start of an expression. -/
  | expression
deriving DecidableEq, Repr

namespace Expectation

/-- The message that another token was found. -/
def message (found : TokenKind) : Expectation → String
  | statementEnd => "Expected ';' after statement, found " ++ found.displayName
  | blockStart => "Expected '\x7b' to start block, found " ++ found.displayName
  | braceEnd =>
    if found.isEnd then "Unclosed '\x7b' - missing '\x7d'"
    else "Expected '\x7d' to close block, found " ++ found.displayName
  | parenEnd => if found.isEnd then "Unclosed '(' - missing ')'" else "Expected ')', found " ++ found.displayName
  | colon => "Expected ':', found " ++ found.displayName
  | arrow => "Expected '=>', found " ++ found.displayName
  | initializer => "Expected '=', found " ++ found.displayName
  | name => "Expected name, found " ++ found.displayName
  | member => "Expected name, found " ++ found.displayName
  | propertyName => "Expected property name, found " ++ found.displayName
  | expression => "Expected expression, found " ++ found.displayName

/-- Advice when another token was found. -/
def hint (found : TokenKind) : Expectation → String
  | statementEnd =>
    match found with
    | .ident _ => "did you forget a ';' at the end of the previous line?"
    | _ => "end statements with ';'"
  | blockStart => "function bodies are blocks: '(a) => \x7b ... \x7d'"
  | braceEnd => "every '\x7b' needs a matching '\x7d'"
  | parenEnd => if found.isEnd then "add ')' to close the parenthesis" else "separate arguments with ','"
  | colon =>
    if found.isSymbol .eq then "object properties use ':', e.g. '\x7b key: 1 \x7d'"
    else "syntax: \x7b key: value \x7d"
  | arrow => "function literals look like '(a, b) => \x7b ... \x7d'"
  | initializer => "declarations need a value, e.g. 'let x = null;'"
  | name =>
    match found with
    | .int _ => "names can't start with a number"
    | _ => "names start with a letter or '_'"
  | member => "property names follow '.', e.g. 'obj.key'"
  | propertyName => "keys are names or quoted strings"
  | expression =>
    if found.isSymbol .semi then "statement is incomplete"
    else if found.isSymbol .rParen then "parentheses need something inside"
    else if found.isEnd then "the script ends in the middle of an expression"
    else "try a value, variable, or function call"

end Expectation

/-- What a reader must not do. -/
inductive Breach
  /-- To look at a token where none is left. -/
  | pastTokens
  /-- To build an operator into a form that does not take it. -/
  | builder (fault : BuilderFault)
deriving DecidableEq, Repr

/-- The text of a breach. -/
def Breach.message : Breach → String
  | pastTokens => "no token is left"
  | builder fault => fault.message

/-- Why a script is no program. -/
inductive ParseFault
  | lexical (fault : LexFault)
  | expected (what : Expectation) (found : TokenKind)
  | nestedTooDeeply
  | unmatchedBrace
  | invalidTarget
  | misplacedReturn
  | misplacedLet
  | invalidNegation
  | duplicateParameter (name : String)
  /-- The reader itself went wrong. -/
  | broken (breach : Breach)

namespace ParseFault

/-- The message of a fault. -/
def message : ParseFault → String
  | lexical fault => fault.message
  | expected what found => what.message found
  | nestedTooDeeply => "Expression nested too deeply"
  | unmatchedBrace => "Unmatched '\x7d'"
  | invalidTarget => "Invalid assignment target"
  | misplacedReturn => "'return' must start a statement"
  | misplacedLet => "'let' must start a statement"
  | invalidNegation => "'-' can only negate a number literal"
  | duplicateParameter name => "Duplicate parameter '" ++ name ++ "'"
  | broken breach => breach.message

/-- Advice on a fault. -/
def hint : ParseFault → Option String
  | lexical fault => fault.hint
  | expected what found => some (what.hint found)
  | nestedTooDeeply => some "split it up using intermediate variables"
  | unmatchedBrace => some "remove it, or add the '\x7b' it was meant to close"
  | invalidTarget => some "only a variable or a property like 'obj.key' can be assigned"
  | misplacedReturn => some "move the 'return' to the beginning of the statement"
  | misplacedLet => some "declare the variable on its own line first"
  | invalidNegation => some "write the subtraction out, e.g. '0 - x'"
  | duplicateParameter _ => none
  | broken _ => none

end ParseFault

/-- A fault and its place. -/
structure ParseError where
  fault : ParseFault
  span : Span

end GameScript
