import GameScript.Source.Bytes
import GameScript.Token.Basic
import GameScript.Token.Fault

/-!
# The front of a text

`scan` reads the longest piece at the front of a text: blanks, a comment, a token, or characters that are none. Each
piece is cut off by a function of its own (`blockComment`, `stringBody`, `numberParts`, …) that returns what it takes
and what it leaves.

Main statements: nothing is lost (`scan_append`), something is always taken (`scan_taken_ne_nil`), and so a lexeme
leaves less than it was cut from (`scan_rest_length`).
-/

namespace GameScript

/-! ## Blanks and comments -/

/-- The characters that separate tokens. -/
def isBlank (c : Char) : Bool := c = ' ' || c = '\t' || c = '\r' || c = '\n' || c = '\x0c'

/-- A text cut in two. -/
structure Cut where
  taken : List Char
  rest : List Char

/-- Puts characters before what is taken. -/
def Cut.push (front : List Char) (c : Cut) : Cut := ⟨front ++ c.taken, c.rest⟩

/-- Cuts a text before the first character that a test refuses. -/
def Cut.span (test : Char → Bool) (cs : List Char) : Cut := ⟨cs.takeWhile test, cs.dropWhile test⟩

/-- The text after an opener of a block comment, cut after the closer that ends it, inside `depth` further comments;
also whether there is one. Openers and closers are read from left to right. -/
def blockComment : (depth : Nat) → List Char → Cut × Bool
  | _, [] => (⟨[], []⟩, false)
  | depth, '/' :: '*' :: cs =>
    let (cut, closed) := blockComment (depth + 1) cs
    (cut.push ['/', '*'], closed)
  | 0, '*' :: '/' :: cs => (⟨['*', '/'], cs⟩, true)
  | depth + 1, '*' :: '/' :: cs =>
    let (cut, closed) := blockComment depth cs
    (cut.push ['*', '/'], closed)
  | depth, c :: cs =>
    let (cut, closed) := blockComment depth cs
    (cut.push [c], closed)

/-! ## Strings -/

/-- The longest body of a string between the given quotes: characters other than the quote and the backslash, and
pairs of a backslash and a character on the same line. -/
def stringBody (quoteMark : Char) : List Char → Cut
  | [] => ⟨[], []⟩
  | '\\' :: c :: cs => if c = '\n' then ⟨[], '\\' :: c :: cs⟩ else (stringBody quoteMark cs).push ['\\', c]
  | c :: cs => if c = quoteMark ∨ c = '\\' then ⟨[], c :: cs⟩ else (stringBody quoteMark cs).push [c]

/-- The character that a backslash and this one stand for. -/
def escaped : Char → Option Char
  | 'n' => some '\n'
  | 'r' => some '\r'
  | 't' => some '\t'
  | '\\' => some '\\'
  | '0' => some '\x00'
  | '\'' => some '\''
  | '"' => some '"'
  | _ => none

/-- The content of a string with the given body, or the byte offset of the first backslash that starts no known
escape. -/
def unescape (offset : Nat) : List Char → Except Nat (List Char)
  | [] => .ok []
  | '\\' :: c :: cs =>
    match escaped c with
    | some e => (unescape (offset + 1 + c.utf8Size) cs).map (e :: ·)
    | none => .error offset
  | c :: cs => if c = '\\' then .error offset else (unescape (offset + c.utf8Size) cs).map (c :: ·)

/-! ## Numbers -/

/-- A sign at the front of a text. -/
def signPart : List Char → Cut
  | c :: cs => if c = '+' ∨ c = '-' then ⟨[c], cs⟩ else ⟨[], c :: cs⟩
  | [] => ⟨[], []⟩

/-- An exponent part at the front of a text: its mark, a sign, and at least one digit. -/
def exponentPart : List Char → Cut
  | mark :: cs =>
    let sign := signPart cs
    let digits := Cut.span Char.isDigit sign.rest
    if (mark = 'e' ∨ mark = 'E') ∧ digits.taken ≠ [] then digits.push (mark :: sign.taken) else ⟨[], mark :: cs⟩
  | [] => ⟨[], []⟩

/-- The exponent that an exponent part stands for. -/
def exponentValue (part : List Char) : Int :=
  match part.drop 1 with
  | '-' :: digits => -(digitsValue digits : Int)
  | '+' :: digits => digitsValue digits
  | digits => digitsValue digits

/-- A number at the front of a text: its digits, and for a floating-point number the digits after the point and the
exponent part. -/
structure NumberParts where
  whole : List Char
  fraction : List Char
  exponent : List Char
  rest : List Char

/-- Cuts a number off the front of a text that starts with a digit. A point belongs to it only before a digit. -/
def numberParts (cs : List Char) : NumberParts :=
  let whole := Cut.span Char.isDigit cs
  match whole.rest with
  | '.' :: after =>
    let fraction := Cut.span Char.isDigit after
    if fraction.taken.isEmpty then ⟨whole.taken, [], [], whole.rest⟩
    else
      let exponent := exponentPart fraction.rest
      ⟨whole.taken, fraction.taken, exponent.taken, exponent.rest⟩
  | _ => ⟨whole.taken, [], [], whole.rest⟩

namespace NumberParts

/-- The characters of a number. -/
def taken (p : NumberParts) : List Char :=
  if p.fraction.isEmpty then p.whole else p.whole ++ '.' :: p.fraction ++ p.exponent

/-- The least whole number that is too great for an integer of scripts. -/
def integerBound : Nat := 9223372036854775808

/-- The token of a number; a whole number that does not fit in 64 bits has none. -/
def kind? (p : NumberParts) : Option TokenKind :=
  if p.fraction.isEmpty then
    let n := digitsValue p.whole
    if n < integerBound then some (.int (Int64.ofNat n)) else none
  else
    let exponent := exponentValue p.exponent - (p.fraction.length : Int)
    some (.float (readDecimal (digitsValue (p.whole ++ p.fraction)) exponent))

end NumberParts

/-! ## Words and symbols -/

/-- Whether a character can start a name. -/
def isNameStart (c : Char) : Bool := c.isAlpha || c = '_'

/-- Whether a character can stand in a name after the first. -/
def isNamePart (c : Char) : Bool := c.isAlphanum || c = '_'

/-- The token of a word: a keyword, a literal or a name. -/
def wordKind (word : List Char) : TokenKind :=
  match String.ofList word with
  | "let" => .letWord
  | "return" => .returnWord
  | "true" => .bool true
  | "false" => .bool false
  | "null" => .null
  | name => .ident name

/-- The symbols, longer spellings first. -/
def Symbol.longestFirst : List Symbol :=
  Symbol.all.filter (fun s => s.spelling.length = 2) ++ Symbol.all.filter (fun s => s.spelling.length = 1)

/-- The symbol with the longest spelling at the front of a text. -/
def Symbol.atFront? (cs : List Char) : Option Symbol := Symbol.longestFirst.find? (fun s => s.spelling.isPrefixOf cs)

/-! ## One lexeme -/

/-- What a lexeme is. A fault comes with its place: how many bytes after the front it starts, and how many
bytes it takes. -/
inductive Reading
  | trivia
  | token (kind : TokenKind)
  | fault (fault : LexFault) (skip bytes : Nat)

/-- A lexeme at the front of a text, and the text after it. -/
structure Lexeme extends Cut where
  reading : Reading

/-- The lexeme of a block comment, whose opener is followed by `cs`. -/
def scanComment (cs : List Char) : Lexeme :=
  let (cut, closed) := blockComment 0 cs
  ⟨cut.push ['/', '*'], if closed then .trivia else .fault .unterminatedComment 0 2⟩

/-- The lexeme of a string, whose opening quote is followed by `cs`. -/
def scanString (quoteMark : Char) (cs : List Char) : Lexeme :=
  let body := stringBody quoteMark cs
  match body.rest with
  | c :: rest =>
    if c = quoteMark then
      let reading := match unescape quoteMark.utf8Size body.taken with
        | .ok content => .token (.string (String.ofList content))
        | .error place => .fault .invalidEscape place 2
      ⟨⟨quoteMark :: body.taken ++ [c], rest⟩, reading⟩
    else ⟨body.push [quoteMark], .fault (.unterminatedString quoteMark) 0 (byteLength (quoteMark :: body.taken))⟩
  | [] => ⟨body.push [quoteMark], .fault (.unterminatedString quoteMark) 0 (byteLength (quoteMark :: body.taken))⟩

/-- The lexeme of a number at the front of a text. -/
def scanNumber (cs : List Char) : Lexeme :=
  let parts := numberParts cs
  ⟨⟨parts.taken, parts.rest⟩,
    match parts.kind? with
    | some kind => .token kind
    | none => .fault .invalidNumber 0 (byteLength parts.taken)⟩

/-- The lexeme at the front of a text that is neither blank, comment, string, number nor word. -/
def scanSymbol (c : Char) (cs : List Char) : Lexeme :=
  match Symbol.atFront? (c :: cs) with
  | some s => ⟨⟨s.spelling, (c :: cs).drop s.spelling.length⟩, .token (.symbol s)⟩
  | none => ⟨⟨[c], cs⟩, .fault (.unexpectedChar c) 0 c.utf8Size⟩

/-- The longest lexeme at the front of the text `c :: cs`. -/
def scan (c : Char) (cs : List Char) : Lexeme :=
  if isBlank c then ⟨(Cut.span isBlank cs).push [c], .trivia⟩
  else if c.isDigit then scanNumber (c :: cs)
  else if c = '"' ∨ c = '\'' then scanString c cs
  else if isNameStart c then
    let word := (Cut.span isNamePart cs).push [c]
    ⟨word, .token (wordKind word.taken)⟩
  else
    match c, cs with
    | '/', '/' :: after => ⟨(Cut.span (· ≠ '\n') after).push ['/', '/'], .trivia⟩
    | '/', '*' :: after => scanComment after
    | _, _ => scanSymbol c cs

/-! ## Nothing is lost -/

theorem Cut.span_append (test : Char → Bool) (cs : List Char) :
    (Cut.span test cs).taken ++ (Cut.span test cs).rest = cs := List.takeWhile_append_dropWhile

theorem blockComment_append (depth : Nat) (cs : List Char) :
    (blockComment depth cs).1.taken ++ (blockComment depth cs).1.rest = cs := by
  fun_induction blockComment depth cs <;> simp_all [Cut.push]

theorem stringBody_append (q : Char) (cs : List Char) : (stringBody q cs).taken ++ (stringBody q cs).rest = cs := by
  fun_induction stringBody q cs <;> simp_all [Cut.push]

theorem signPart_append (cs : List Char) : (signPart cs).taken ++ (signPart cs).rest = cs := by
  fun_cases signPart cs <;> simp_all

theorem exponentPart_append (cs : List Char) : (exponentPart cs).taken ++ (exponentPart cs).rest = cs := by
  fun_cases exponentPart cs
  · rename_i cs sign digits h
    have hs : sign.taken ++ sign.rest = cs := signPart_append cs
    have hd : digits.taken ++ digits.rest = sign.rest := Cut.span_append Char.isDigit sign.rest
    simp [digits, sign] at *
    simp [Cut.push, hs, hd]
  · rfl
  · rfl

theorem numberParts_append (cs : List Char) : (numberParts cs).taken ++ (numberParts cs).rest = cs := by
  have hw := Cut.span_append Char.isDigit cs
  unfold numberParts
  dsimp only
  split
  · rename_i after hr
    split
    · simp [NumberParts.taken, hw]
    · rename_i hne
      have hf := Cut.span_append Char.isDigit after
      have he := exponentPart_append (Cut.span Char.isDigit after).rest
      have hne' : (Cut.span Char.isDigit after).taken ≠ [] := by simpa using hne
      simp [NumberParts.taken, hne', he, hf, ← hr, hw]
  · simp [NumberParts.taken, hw]

theorem Symbol.spelling_append_drop {cs : List Char} {s : Symbol} (h : Symbol.atFront? cs = some s) :
    s.spelling ++ cs.drop s.spelling.length = cs := by
  have hp := List.find?_some h
  obtain ⟨rest, rfl⟩ := List.isPrefixOf_iff_prefix.1 hp
  simp

theorem scan_append (c : Char) (cs : List Char) : (scan c cs).taken ++ (scan c cs).rest = c :: cs := by
  unfold scan
  split
  · simp [Cut.push, Cut.span_append]
  split
  · exact numberParts_append _
  split
  · have hb := stringBody_append c cs
    unfold scanString
    dsimp only
    split
    · rename_i d rest hr
      rw [hr] at hb
      split <;> simp_all [Cut.push]
    · rename_i hr
      rw [hr] at hb
      simp_all [Cut.push]
  split
  · simp [Cut.push, Cut.span_append]
  split
  · simp [Cut.push, Cut.span_append]
  · simp [scanComment, Cut.push, blockComment_append]
  · unfold scanSymbol
    split
    · rename_i s hs
      exact Symbol.spelling_append_drop hs
    · rfl

theorem Symbol.spelling_ne_nil (s : Symbol) : s.spelling ≠ [] := by cases s <;> decide

theorem scan_taken_ne_nil (c : Char) (cs : List Char) : (scan c cs).taken ≠ [] := by
  unfold scan
  split
  · simp [Cut.push]
  split
  · rename_i hd
    show (numberParts (c :: cs)).taken ≠ []
    unfold numberParts NumberParts.taken
    dsimp only
    split <;> (try split) <;> (try split) <;> simp_all [Cut.span]
  split
  · unfold scanString
    dsimp only
    split
    · split <;> simp [Cut.push]
    · simp [Cut.push]
  split
  · simp [Cut.push]
  split
  · simp [Cut.push]
  · simp [scanComment, Cut.push]
  · unfold scanSymbol
    split
    · exact Symbol.spelling_ne_nil _
    · simp

/-- A lexeme leaves less than it was cut from. -/
theorem scan_rest_length (c : Char) (cs : List Char) : (scan c cs).rest.length < (c :: cs).length := by
  have h := congrArg List.length (scan_append c cs)
  have hpos := List.length_pos_iff.2 (scan_taken_ne_nil c cs)
  rw [List.length_append] at h
  omega

end GameScript
