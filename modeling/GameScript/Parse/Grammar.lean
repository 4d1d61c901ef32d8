import GameScript.Parse.Cursor
import GameScript.Parse.Binding
import GameScript.Tree.Shape

/-!
# The grammar

Readers for expressions, statements and blocks. Expressions, blocks and object literals nest; how deep they may is
bounded, and the readers of one level are built from those of the next (`Level`, `levelAt`). Within a level every
loop reads a token each time round.

An expression is read by operator precedence: first a form that starts one, then, as long as they bind at least as
tightly as asked, suffixes and binary operators (`operatorStep`).
-/

namespace GameScript

open GameScript.Parser

/-- The readers of the forms that nest. `expression` is told how tightly operators must bind. -/
structure Level where
  expression : Nat → Parser Expression
  block : Parser Scope
  object : Parser Expression

/-! ## Parts of expressions -/

/-- One argument of a call, put after those before it; more follow a comma. -/
def argumentStep (inner : Level) (before : List Expression) : Parser (List Expression × Bool) := do
  let e ← inner.expression 0
  let more ← accept .comma
  return (before ++ [e], more)

/-- The arguments of a call, up to the closing parenthesis. -/
def arguments (inner : Level) : Parser (List Expression) := do
  if ← sees .rParen then return [] else repeatWhile (argumentStep inner) []

/-- The name of a property: a name or a string. -/
def propertyKey : Parser String := do
  match ← ahead with
  | .ident key =>
    skip
    return key
  | .string key =>
    skip
    return key
  | _ => failExpected .propertyName

/-- One property of an object literal, put after those before it; more follow a comma. -/
def propertyStep (inner : Level) (before : List Property) : Parser (List Property × Bool) := do
  if ← sees .rBrace then
    return (before, false)
  else
    let key ← propertyKey
    expect .colon .colon
    let value ← inner.expression 0
    let more ← accept .comma
    return (before ++ [⟨key, value⟩], more)

/-- An object literal. -/
def objectForm (inner : Level) : Parser Expression := do
  let start := (← aheadSpan).start
  skip
  let properties ← repeatWhile (propertyStep inner) []
  expect .rBrace .braceEnd
  return .leaf (.object properties) ⟨start, ← lastStop⟩

/-- Whether tokens read `name, …, name ) =>`. -/
def namesThenArrow : List Token → Bool
  | ⟨.ident _, _⟩ :: ⟨.symbol .comma, _⟩ :: rest => namesThenArrow rest
  | ⟨.ident _, _⟩ :: ⟨.symbol .rParen, _⟩ :: ⟨.symbol .fatArrow, _⟩ :: _ => true
  | _ => false

/-- Whether tokens after an opening parenthesis read as the parameters of a function. -/
def parametersThenArrow : List Token → Bool
  | ⟨.symbol .rParen, _⟩ :: ⟨.symbol .fatArrow, _⟩ :: _ => true
  | tokens => namesThenArrow tokens

/-- Whether a function literal is ahead, where a parenthesis is. -/
def seesFunction : Parser Bool := do return parametersThenArrow ((← get).rest.drop 1)

/-- One parameter, put after those before it; more follow a comma. -/
def parameterStep (before : List String) : Parser (List String × Bool) := do
  if ← sees .rParen then
    return (before, false)
  else
    let span ← aheadSpan
    let name ← expectName .name
    if before.contains name then failAt span (.duplicateParameter name)
    else
      let more ← accept .comma
      return (before ++ [name], more)

/-- A function literal. -/
def functionForm (inner : Level) : Parser Expression := do
  let start := (← aheadSpan).start
  skip
  let parameters ← repeatWhile parameterStep []
  expect .rParen .parenEnd
  expect .fatArrow .arrow
  let body ← inner.block
  return .leaf (.function parameters body) ⟨start, ← lastStop⟩

/-- An expression in parentheses: the expression itself, but with the place of the parentheses. -/
def groupForm (inner : Level) : Parser Expression := do
  let start := (← aheadSpan).start
  skip
  let e ← inner.expression 0
  expect .rParen .parenEnd
  return { e with span := ⟨start, ← lastStop⟩ }

/-- A literal ahead. -/
def literalForm (literal : Literal) : Parser Expression := do
  let span ← aheadSpan
  skip
  return .leaf (.value literal) span

/-- A minus sign and a number, which make one literal. -/
def negativeForm : Parser Expression := do
  let span ← aheadSpan
  skip
  let negated : Literal ← match ← ahead with
    | .int n => pure (.int (-n))
    | .float x => pure (.float (-x))
    | _ => failAt span .invalidNegation
  skip
  return .leaf (.value negated) ⟨span.start, ← lastStop⟩

/-- An operator before its operand. -/
def leadingForm (inner : Level) (kind : OperatorKind) : Parser Expression := do
  let span ← aheadSpan
  skip
  let e ← inner.expression operandPower
  build (Expression.prefixed? ⟨kind, span⟩ e.toOperand ⟨span.start, ← lastStop⟩)

/-- A form that starts an expression. -/
def startForm (inner : Level) : Parser Expression := do
  let span ← aheadSpan
  match ← ahead with
  | .int n => literalForm (.int n)
  | .float x => literalForm (.float x)
  | .string s => literalForm (.string s)
  | .bool b => literalForm (.bool b)
  | .null => literalForm .undefined
  | .ident name =>
    skip
    return .leaf (.var ⟨name, .use, span⟩) span
  | .symbol .minus => negativeForm
  | .symbol .lParen => if ← seesFunction then functionForm inner else groupForm inner
  | .symbol .lBrace => inner.object
  | .symbol s =>
    match s.leadingOperator? with
    | some kind => leadingForm inner kind
    | none => failExpected .expression
  | .returnWord => failAt span .misplacedReturn
  | .letWord => failAt span .misplacedLet
  | .endOfText => failExpected .expression

/-- What follows an expression that starts at `start` and is changed by a suffix. -/
def suffixForm (inner : Level) (start : Nat) (e : Expression) : Suffix → Parser Expression
  | .call => do
    skip
    let args ← arguments inner
    expect .rParen .parenEnd
    return .leaf (.call e args) ⟨start, ← lastStop⟩
  | .member => do
    let opSpan ← aheadSpan
    skip
    let keySpan ← aheadSpan
    let key ← expectName .member
    build (Expression.binary? e.toOperand ⟨.child, opSpan⟩ (.var ⟨key, .use, keySpan⟩) ⟨start, ← lastStop⟩)
  | .step kind => do
    let opSpan ← aheadSpan
    skip
    build (Expression.postfixed? e.toOperand ⟨kind, opSpan⟩ ⟨start, ← lastStop⟩)

/-- A binary operator after an expression that starts at `start`, and its right operand. -/
def binaryForm (inner : Level) (start : Nat) (e : Expression) (rule : BinaryRule) : Parser Expression := do
  let opSpan ← aheadSpan
  skip
  if rule.kind.isAssignment && !e.isAssignmentTarget then failAt e.span .invalidTarget
  else
    let rhs ← inner.expression rule.right
    build (Expression.binary? e.toOperand ⟨rule.kind, opSpan⟩ rhs.toOperand ⟨start, ← lastStop⟩)

/-- One suffix or binary operator after an expression, if one binds at least as tightly as asked. -/
def operatorStep (inner : Level) (least start : Nat) (e : Expression) : Parser (Expression × Bool) := do
  let kind ← ahead
  match kind.suffix? with
  | some suffix =>
    if suffix.power < least then return (e, false) else return (← suffixForm inner start e suffix, true)
  | none =>
    match kind.binaryRule? with
    | some rule => if rule.left < least then return (e, false) else return (← binaryForm inner start e rule, true)
    | none => return (e, false)

/-- An expression whose operators bind at least as tightly as asked. -/
def expressionForm (inner : Level) (least : Nat) : Parser Expression := do
  let start := (← aheadSpan).start
  let e ← startForm inner
  repeatWhile (operatorStep inner least start) e

/-! ## Statements -/

/-- The end of a statement: a semicolon, or nothing before the end of the block. -/
def statementEnd : Parser Unit := do
  if ← accept .semi then return ()
  else if (← ahead).isEnd then return ()
  else if ← sees .rBrace then return ()
  else failExpected .statementEnd

/-- A declaration. -/
def letForm (inner : Level) : Parser Expression := do
  let start := (← aheadSpan).start
  skip
  let nameSpan ← aheadSpan
  let name ← expectName .name
  let opSpan ← aheadSpan
  expect .eq .initializer
  let value ← inner.expression 0
  build (Expression.binary? (.var ⟨name, .declare, nameSpan⟩) ⟨.assign, opSpan⟩ value.toOperand ⟨start, ← lastStop⟩)

/-- Whether a statement may end here. -/
def seesStatementEnd : Parser Bool := do
  let kind ← ahead
  return kind.isSymbol .semi || kind.isSymbol .rBrace || kind.isEnd

/-- A return statement; without an expression it returns nothing. -/
def returnForm (inner : Level) : Parser Expression := do
  let span ← aheadSpan
  skip
  let value : Operand ←
    if ← seesStatementEnd then pure (.value .undefined) else Expression.toOperand <$> inner.expression 0
  build (Expression.prefixed? ⟨.ret, span⟩ value ⟨span.start, ← lastStop⟩)

/-- The body of a statement that is neither empty nor a block. -/
def statementBody (inner : Level) : Parser Expression := do
  match ← ahead with
  | .letWord => letForm inner
  | .returnWord => returnForm inner
  | _ => inner.expression 0

/-- A block as a statement; a semicolon may follow it. -/
def blockStatement (inner : Level) : Parser Statement := do
  let scope ← inner.block
  let _ ← accept .semi
  return ⟨.leaf (.block scope) scope.span, scope.span⟩

/-- A statement; a semicolon alone is none. -/
def statementForm (inner : Level) : Parser (Option Statement) := do
  let start := (← aheadSpan).start
  match ← ahead with
  | .symbol .semi =>
    skip
    return none
  | .symbol .lBrace => return some (← blockStatement inner)
  | _ =>
    let body ← statementBody inner
    let span : Span := ⟨start, ← lastStop⟩
    statementEnd
    return some ⟨body, span⟩

/-- One statement, put after those before it; a closing brace and the end of the text end them. -/
def statementStep (inner : Level) (before : List Statement) : Parser (List Statement × Bool) := do
  let kind ← ahead
  if kind.isSymbol .rBrace || kind.isEnd then return (before, false)
  else
    let s ← statementForm inner
    return (before ++ s.toList, true)

/-- Statements up to a closing brace or the end of the text. -/
def statements (inner : Level) : Parser (List Statement) := repeatWhile (statementStep inner) []

/-- A block in braces. -/
def blockForm (inner : Level) : Parser Scope := do
  let start := (← aheadSpan).start
  expect .lBrace .blockStart
  let body ← statements inner
  expect .rBrace .braceEnd
  return ⟨body, ⟨start, ← lastStop⟩⟩

/-! ## Nesting -/

/-- Fails because no further nesting is allowed. -/
def tooDeep {α : Type} : Parser α := do failAt (← aheadSpan) .nestedTooDeeply

/-- The readers with `room` more levels of nesting. -/
def levelAt : (room : Nat) → Level
  | 0 => ⟨fun _ => tooDeep, tooDeep, tooDeep⟩
  | room + 1 =>
    let inner := levelAt room
    ⟨expressionForm inner, blockForm inner, objectForm inner⟩

/-- How deep expressions, blocks and object literals may nest. -/
def maxNesting : Nat := 128

/-- A whole script. Only a closing brace can end its statements before the end of the text. -/
def programForm : Parser Program := do
  let start := (← aheadSpan).start
  let body ← statements (levelAt maxNesting)
  if (← ahead).isEnd then return ⟨⟨body, ⟨start, max (← lastStop) start⟩⟩⟩
  else failAt (← aheadSpan) .unmatchedBrace

/-- An expression at the front of a script. -/
def expressionAtFront : Parser Expression := (levelAt maxNesting).expression 0

/-- The program that tokens make. -/
def parseTokens (tokens : List Token) : Except ParseError Program := programForm.run' (Cursor.ofTokens tokens)

/-- The expression at the front of a list of tokens. -/
def parseExpression (tokens : List Token) : Except ParseError Expression :=
  expressionAtFront.run' (Cursor.ofTokens tokens)

end GameScript
