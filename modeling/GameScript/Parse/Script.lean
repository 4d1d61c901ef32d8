import GameScript.Source.LineMap
import GameScript.Token.Lexer
import GameScript.Parse.Grammar

/-!
# From text to program

`parse` reads a whole script. What is wrong with its characters is reported before what is wrong with its tokens, and
only the first fault of a script is reported, with its line and column.
-/

namespace GameScript

/-- A parse error and the line and column at which it starts. -/
structure LocatedError extends ParseError where
  position : Position

/-- A parse error in a text. -/
def ParseError.locate (e : ParseError) (source : List Char) : LocatedError :=
  ⟨e, (LineMap.ofChars source).position e.span.start⟩

/-- A lexer's error as a parse error. -/
def LexError.toParseError (e : LexError) : ParseError := ⟨.lexical e.fault, e.span⟩

/-- The program of a text. -/
def parse (source : List Char) : Except LocatedError Program :=
  let lexed := tokenize source
  match lexed.errors with
  | first :: _ => .error (first.toParseError.locate source)
  | [] => (parseTokens lexed.tokens).mapError (·.locate source)

end GameScript
