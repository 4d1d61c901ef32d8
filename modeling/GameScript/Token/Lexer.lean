import GameScript.Token.Scan

/-!
# From text to tokens

`tokenize` reads a text piece by piece. Faults are collected beside the tokens, and reading stops after the
twentieth. The last token is always the end of the text, at its length.
-/

namespace GameScript

/-- The tokens of a text and what is wrong with it. -/
structure Lexed where
  tokens : List Token
  errors : List LexError

namespace Lexed

/-- Puts a token before the others. -/
def addToken (t : Token) (l : Lexed) : Lexed := ⟨t :: l.tokens, l.errors⟩

/-- Puts an error before the others. -/
def addError (e : LexError) (l : Lexed) : Lexed := ⟨l.tokens, e :: l.errors⟩

/-- The end of the text at an offset, and nothing else. -/
def ending (offset : Nat) : Lexed := ⟨[⟨.endOfText, ⟨offset, offset⟩⟩], []⟩

end Lexed

/-- How many errors are reported at most. -/
def maxLexErrors : Nat := 20

/-- The tokens of a text that stands at `offset`, reporting at most `budget` errors. -/
def tokenizeFrom (offset budget : Nat) : List Char → Lexed
  | [] => .ending offset
  | c :: cs =>
    if budget = 0 then .ending (offset + byteLength (c :: cs))
    else
      let lexeme := scan c cs
      let next := offset + byteLength lexeme.taken
      match lexeme.reading with
      | .trivia => tokenizeFrom next budget lexeme.rest
      | .token kind => (tokenizeFrom next budget lexeme.rest).addToken ⟨kind, ⟨offset, next⟩⟩
      | .fault fault skip bytes =>
        (tokenizeFrom next (budget - 1) lexeme.rest).addError ⟨fault, ⟨offset + skip, offset + skip + bytes⟩⟩
  termination_by cs => cs.length
  decreasing_by all_goals exact scan_rest_length c cs

/-- The tokens of a text. -/
def tokenize (source : List Char) : Lexed := tokenizeFrom 0 maxLexErrors source

end GameScript
