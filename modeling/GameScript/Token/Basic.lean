import GameScript.Source.Span
import GameScript.Text.Decimal
import GameScript.Text.Quoted

/-!
# Tokens

The words of a script: literals, names, the two keywords, symbols, and the end of the text. Every symbol has one
spelling, and no two symbols share one (`Symbol.spelling_injective`).
-/

namespace GameScript

/-- Operators and delimiters. -/
inductive Symbol
  | plus | minus | star | slash | percent
  | eq | eqEq | bangEq | lt | gt | ltEq | gtEq
  | ampAmp | pipePipe | bang | plusPlus | minusMinus
  | plusEq | minusEq | starEq | slashEq | percentEq
  | fatArrow | dot
  | lBrace | rBrace | lParen | rParen | colon | semi | comma
deriving DecidableEq, Repr

namespace Symbol

/-- Every symbol. -/
def all : List Symbol :=
  [plus, minus, star, slash, percent, eq, eqEq, bangEq, lt, gt, ltEq, gtEq, ampAmp, pipePipe, bang, plusPlus,
    minusMinus, plusEq, minusEq, starEq, slashEq, percentEq, fatArrow, dot, lBrace, rBrace, lParen, rParen, colon,
    semi, comma]

/-- How a symbol is written in a script. -/
def spelling : Symbol → List Char
  | plus => ['+'] | minus => ['-'] | star => ['*'] | slash => ['/'] | percent => ['%']
  | eq => ['='] | eqEq => ['=', '='] | bangEq => ['!', '='] | lt => ['<'] | gt => ['>']
  | ltEq => ['<', '='] | gtEq => ['>', '='] | ampAmp => ['&', '&'] | pipePipe => ['|', '|'] | bang => ['!']
  | plusPlus => ['+', '+'] | minusMinus => ['-', '-']
  | plusEq => ['+', '='] | minusEq => ['-', '='] | starEq => ['*', '='] | slashEq => ['/', '=']
  | percentEq => ['%', '='] | fatArrow => ['=', '>'] | dot => ['.']
  | lBrace => ['\x7b'] | rBrace => ['\x7d'] | lParen => ['('] | rParen => [')']
  | colon => [':'] | semi => [';'] | comma => [',']

/-- The name of a symbol in token listings. -/
def name : Symbol → String
  | plus => "Plus" | minus => "Minus" | star => "Star" | slash => "Slash" | percent => "Percent"
  | eq => "Eq" | eqEq => "EqEq" | bangEq => "BangEq" | lt => "Lt" | gt => "Gt"
  | ltEq => "LtEq" | gtEq => "GtEq" | ampAmp => "AmpAmp" | pipePipe => "PipePipe" | bang => "Bang"
  | plusPlus => "PlusPlus" | minusMinus => "MinusMinus"
  | plusEq => "PlusEq" | minusEq => "MinusEq" | starEq => "StarEq" | slashEq => "SlashEq"
  | percentEq => "PercentEq" | fatArrow => "FatArrow" | dot => "Dot"
  | lBrace => "LBrace" | rBrace => "RBrace" | lParen => "LParen" | rParen => "RParen"
  | colon => "Colon" | semi => "Semi" | comma => "Comma"

/-- How messages call a symbol: its spelling between single quotes. -/
def displayName (s : Symbol) : String := "'" ++ String.ofList s.spelling ++ "'"

theorem mem_all (s : Symbol) : s ∈ all := by cases s <;> decide

theorem spelling_injective {s t : Symbol} (h : s.spelling = t.spelling) : s = t := by
  revert h; cases s <;> cases t <;> decide

end Symbol

/-- What a token is. -/
inductive TokenKind
  | int (n : Int64)
  | float (x : Float)
  | string (s : String)
  | bool (b : Bool)
  | null
  | ident (name : String)
  | letWord
  | returnWord
  | symbol (s : Symbol)
  | endOfText
deriving BEq, Repr, Inhabited

namespace TokenKind

/-- The name of a kind in token listings. -/
def name : TokenKind → String
  | int _ => "Int"
  | float _ => "Float"
  | string _ => "String"
  | bool _ => "Bool"
  | null => "Null"
  | ident _ => "Ident"
  | letWord => "Let"
  | returnWord => "Return"
  | symbol s => s.name
  | endOfText => "Eof"

/-- A token as token listings show it: its name, and what it carries in parentheses. -/
def listed : TokenKind → String
  | int n => "Int(" ++ toString n.toInt ++ ")"
  | float x => "Float(" ++ scriptFloat.write x ++ ")"
  | string s => "String(" ++ Text.quote s ++ ")"
  | bool b => "Bool(" ++ (if b then "true" else "false") ++ ")"
  | ident s => "Ident(" ++ Text.quote s ++ ")"
  | kind => kind.name

/-- How messages call a kind of token. -/
def displayName : TokenKind → String
  | int _ => "a number"
  | float _ => "a number"
  | string _ => "a string"
  | bool _ => "'true' or 'false'"
  | null => "'null'"
  | ident _ => "a name"
  | letWord => "'let'"
  | returnWord => "'return'"
  | symbol s => s.displayName
  | endOfText => "end of file"

/-- Whether this is the given symbol. -/
def isSymbol (s : Symbol) : TokenKind → Bool
  | symbol t => decide (t = s)
  | _ => false

/-- Whether this is the end of the text. -/
def isEnd : TokenKind → Bool
  | endOfText => true
  | _ => false

@[simp] theorem isSymbol_iff {s : Symbol} {k : TokenKind} : k.isSymbol s = true ↔ k = .symbol s := by
  cases k <;> simp [isSymbol]

@[simp] theorem isEnd_iff {k : TokenKind} : k.isEnd = true ↔ k = .endOfText := by
  cases k <;> simp [isEnd]

end TokenKind

/-- A token and its place. -/
structure Token where
  kind : TokenKind
  span : Span
deriving BEq, Repr, Inhabited

end GameScript
