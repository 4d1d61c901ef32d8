import GameScript.Token.Basic
import GameScript.Tree.Shape

/-!
# Programs as tokens

`Program.tokens` writes a program down as the kinds of tokens of a script that says the same. Operators have levels,
from assignments (0) over prefix operators (7) to calls, property accesses and postfix operators (8); an operand stands
in parentheses exactly when it binds less tightly than its position asks for (`grouped`). A statement whose first token
would be an opening brace stands in parentheses as well, since a brace at the start of a statement opens a block.

`Program.nesting` says how deep the written form nests: each block, each object literal, each pair of parentheses, and
each argument, property value, right operand and operand of a prefix operator is one level below what it stands in.
-/

namespace GameScript

namespace OperatorKind

/-- How tightly an operator binds. -/
def level : OperatorKind → Nat
  | ret | assign | addAssign | subAssign | mulAssign | divAssign | modAssign => 0
  | or => 1
  | and => 2
  | eq | ne => 3
  | lt | le | gt | ge => 4
  | add | sub => 5
  | mul | div | mod => 6
  | not | inc | dec => 7
  | child => 8

/-- The level that the left operand needs; operators of one level group to the left, and what is assigned to is a name
or a property. -/
def leftLevel (k : OperatorKind) : Nat := if k.isAssignment then 8 else k.level

/-- The level that the right operand needs; assignments group to the right. -/
def rightLevel (k : OperatorKind) : Nat := if k.isAssignment then 0 else k.level + 1

/-- The token of an operator. -/
def token : OperatorKind → TokenKind
  | ret => .returnWord
  | not => .symbol .bang
  | assign => .symbol .eq
  | eq => .symbol .eqEq | ne => .symbol .bangEq
  | lt => .symbol .lt | le => .symbol .ltEq | gt => .symbol .gt | ge => .symbol .gtEq
  | and => .symbol .ampAmp | or => .symbol .pipePipe
  | add => .symbol .plus | sub => .symbol .minus
  | mul => .symbol .star | div => .symbol .slash | mod => .symbol .percent
  | addAssign => .symbol .plusEq | subAssign => .symbol .minusEq
  | mulAssign => .symbol .starEq | divAssign => .symbol .slashEq | modAssign => .symbol .percentEq
  | inc => .symbol .plusPlus | dec => .symbol .minusMinus
  | child => .symbol .dot

end OperatorKind

/-- The level of calls, property accesses and postfix operators. -/
def suffixLevel : Nat := 8

/-- The level of an expression: that of its operator, tightest where it has none. -/
def Expression.level : Expression → Nat
  | ⟨_, none, _, _⟩ => 9
  | ⟨none, some op, _, _⟩ => op.kind.level
  | ⟨some _, some _, none, _⟩ => suffixLevel
  | ⟨some _, some op, some _, _⟩ => op.kind.level

/-- The level of an operand. -/
def Operand.level : Operand → Nat
  | .expression e => e.level
  | _ => 9

/-- Tokens between parentheses. -/
def inParentheses (ts : List TokenKind) : List TokenKind := .symbol .lParen :: (ts ++ [.symbol .rParen])

/-- The tokens of something of a level where a level is asked for. -/
def grouped (least level : Nat) (ts : List TokenKind) : List TokenKind := if level < least then inParentheses ts else ts

/-- Lists of tokens with commas between them. -/
def commaSeparated : List (List TokenKind) → List TokenKind
  | [] => []
  | [ts] => ts
  | ts :: us :: rest => ts ++ .symbol .comma :: commaSeparated (us :: rest)

/-- The sign of a floating-point number, which zero has, too. -/
def hasMinusSign (x : Float) : Bool := 9223372036854775808 ≤ x.toBits

/-- The tokens of a literal. A negative number is written as a minus sign and the number negated. -/
def Literal.tokens : Literal → List TokenKind
  | undefined => [.null]
  | bool b => [.bool b]
  | int n => if n < 0 then [.symbol .minus, .int (-n)] else [.int n]
  | float x => if hasMinusSign x then [.symbol .minus, .float (-x)] else [.float x]
  | string s => [.string s]

/-- Whether an expression is a block, a `return` or a declaration: a statement that is not read as an expression. -/
def Expression.isStatementForm : Expression → Bool
  | ⟨some (.block _), none, none, _⟩ => true
  | ⟨none, some ⟨.ret, _⟩, some _, _⟩ => true
  | ⟨some (.var ⟨_, .declare, _⟩), some ⟨.assign, _⟩, some _, _⟩ => true
  | _ => false

/-- Whether a statement is to stand in parentheses, told from its tokens. -/
def Expression.needsParentheses (e : Expression) (ts : List TokenKind) : Bool :=
  !e.isStatementForm && ts.head?.any (·.isSymbol .lBrace)

/-! ## Tokens -/

mutual

/-- The tokens of an operand. -/
def Operand.tokens : Operand → List TokenKind
  | .value literal => literal.tokens
  | .var ⟨name, .use, _⟩ => [.ident name]
  | .var ⟨name, .declare, _⟩ => [.letWord, .ident name]
  | .object ps => .symbol .lBrace :: (commaSeparated (Property.tokensEach ps) ++ [.symbol .rBrace])
  | .block s => s.tokens
  | .expression e => e.tokens
  | .function ps s => inParentheses (commaSeparated (ps.map ([.ident ·]))) ++ .symbol .fatArrow :: s.tokens
  | .call e es => grouped suffixLevel e.level e.tokens ++ inParentheses (commaSeparated (Expression.tokensEach es))

/-- The tokens of properties. -/
def Property.tokensEach : List Property → List (List TokenKind)
  | [] => []
  | ⟨key, e⟩ :: ps => (.string key :: .symbol .colon :: e.tokens) :: Property.tokensEach ps

/-- The tokens of a scope in braces. -/
def Scope.tokens : Scope → List TokenKind
  | ⟨body, _⟩ => .symbol .lBrace :: (Statement.tokensAll body ++ [.symbol .rBrace])

/-- The tokens of statements, each with a semicolon after it. -/
def Statement.tokensAll : List Statement → List TokenKind
  | [] => []
  | ⟨e, _⟩ :: rest =>
    (if e.needsParentheses e.tokens then inParentheses e.tokens else e.tokens)
      ++ .symbol .semi :: Statement.tokensAll rest

/-- The tokens of an expression. -/
def Expression.tokens : Expression → List TokenKind
  | ⟨some a, none, _, _⟩ => a.tokens
  | ⟨some a, some op, some b, _⟩ =>
    grouped op.kind.leftLevel a.level a.tokens ++ op.kind.token :: grouped op.kind.rightLevel b.level b.tokens
  | ⟨some a, some op, none, _⟩ => grouped suffixLevel a.level a.tokens ++ [op.kind.token]
  | ⟨none, some op, some b, _⟩ => op.kind.token :: grouped op.kind.level b.level b.tokens
  | ⟨none, _, _, _⟩ => []

/-- The tokens of expressions. -/
def Expression.tokensEach : List Expression → List (List TokenKind)
  | [] => []
  | e :: es => e.tokens :: Expression.tokensEach es

end

/-- The tokens of a statement with its body, without the semicolon. -/
def Expression.statementTokens (e : Expression) : List TokenKind :=
  if e.needsParentheses e.tokens then inParentheses e.tokens else e.tokens

/-- The tokens of a program, up to the end of the text. -/
def Program.tokens (p : Program) : List TokenKind := Statement.tokensAll p.body.body ++ [.endOfText]

/-! ## Nesting -/

/-- The levels below something of a level where a level is asked for: one more when it stands in parentheses. -/
def depthGrouped (least level depth : Nat) : Nat := if level < least then depth + 1 else depth

mutual

/-- How many levels are below an operand where it stands. -/
def Operand.depth : Operand → Nat
  | .value _ => 0
  | .var _ => 0
  | .object ps => Property.depthAll ps + 1
  | .block s => s.depth + 1
  | .expression e => e.depth
  | .function _ s => s.depth + 1
  | .call e es => max (depthGrouped suffixLevel e.level e.depth) (Expression.depthAll es)

/-- How many levels are below the literal that holds some properties. -/
def Property.depthAll : List Property → Nat
  | [] => 0
  | ⟨_, e⟩ :: ps => max (e.depth + 1) (Property.depthAll ps)

/-- How many levels are below a scope. -/
def Scope.depth : Scope → Nat
  | ⟨body, _⟩ => Statement.depthAll body

/-- How many levels are below a list of statements. -/
def Statement.depthAll : List Statement → Nat
  | [] => 0
  | ⟨e, _⟩ :: rest =>
    max (if e.isStatementForm then e.depth else (if e.needsParentheses e.tokens then e.depth + 1 else e.depth) + 1)
      (Statement.depthAll rest)

/-- How many levels are below an expression where it stands. -/
def Expression.depth : Expression → Nat
  | ⟨some a, none, _, _⟩ => a.depth
  | ⟨some a, some op, some b, _⟩ =>
    max (depthGrouped op.kind.leftLevel a.level a.depth)
      (if op.kind = .child then 0 else depthGrouped op.kind.rightLevel b.level b.depth + 1)
  | ⟨some a, some _, none, _⟩ => depthGrouped suffixLevel a.level a.depth
  | ⟨none, some op, some b, _⟩ => depthGrouped op.kind.level b.level b.depth + 1
  | ⟨none, _, _, _⟩ => 0

/-- How many levels are below a call with some arguments. -/
def Expression.depthAll : List Expression → Nat
  | [] => 0
  | e :: es => max (e.depth + 1) (Expression.depthAll es)

end

/-- How deep the written form of a program nests. -/
def Program.nesting (p : Program) : Nat := p.body.depth

/-! ## Trees without places -/

/-- A name without its place. -/
def Variable.eraseSpan (v : Variable) : Variable := { v with span := {} }

/-- An operator without its place. -/
def Operator.eraseSpan (op : Operator) : Operator := { op with span := {} }

mutual

/-- An operand without places. -/
def Operand.eraseSpans : Operand → Operand
  | .value literal => .value literal
  | .var v => .var v.eraseSpan
  | .object ps => .object (Property.eraseAll ps)
  | .block s => .block s.eraseSpans
  | .expression e => .expression e.eraseSpans
  | .function ps s => .function ps s.eraseSpans
  | .call e es => .call e.eraseSpans (Expression.eraseAll es)

/-- Properties without places. -/
def Property.eraseAll : List Property → List Property
  | [] => []
  | ⟨key, e⟩ :: ps => ⟨key, e.eraseSpans⟩ :: Property.eraseAll ps

/-- A scope without places. -/
def Scope.eraseSpans : Scope → Scope
  | ⟨body, _⟩ => ⟨Statement.eraseAll body, {}⟩

/-- Statements without places. -/
def Statement.eraseAll : List Statement → List Statement
  | [] => []
  | ⟨e, _⟩ :: rest => ⟨e.eraseSpans, {}⟩ :: Statement.eraseAll rest

/-- An expression without places. -/
def Expression.eraseSpans : Expression → Expression
  | ⟨a, op, b, _⟩ => ⟨Operand.eraseSlot a, op.map Operator.eraseSpan, Operand.eraseSlot b, {}⟩

/-- A slot without places. -/
def Operand.eraseSlot : Option Operand → Option Operand
  | none => none
  | some a => some a.eraseSpans

/-- Expressions without places. -/
def Expression.eraseAll : List Expression → List Expression
  | [] => []
  | e :: es => e.eraseSpans :: Expression.eraseAll es

end

/-- A program without places. -/
def Program.eraseSpans (p : Program) : Program := ⟨p.body.eraseSpans⟩

end GameScript
