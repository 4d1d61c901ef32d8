/-!
# Styled text on a terminal

A style is a list of terminal codes. Where a terminal shows styles, a styled text stands between the escape that
switches its codes on and the one that resets them, also if the text is empty; where it does not, the text stands
alone. Blanks that pad a text to a width are part of the text. A reset that the text has itself would end the style
early, so the style is switched on again after it.
-/

namespace GameScript.Text

/-- The looks that a text can have. -/
inductive Style
  | dim
  | bold
  | green
  | cyan
  | blue
  | boldRed
  | boldYellow
  | boldGreen
  | boldBlue
  | boldCyan
deriving DecidableEq, Repr

/-- The terminal codes of a style. -/
def Style.codes : Style → String
  | .dim => "2"
  | .bold => "1"
  | .green => "32"
  | .cyan => "36"
  | .blue => "34"
  | .boldRed => "1;31"
  | .boldYellow => "1;33"
  | .boldGreen => "1;32"
  | .boldBlue => "1;34"
  | .boldCyan => "1;36"

/-- The escape that switches a style on. -/
def Style.switch (s : Style) : List Char := "\x1b[".toList ++ s.codes.toList ++ ['m']

/-- The escape that resets every style. -/
def resetAll : List Char := "\x1b[0m".toList

/-- A text with a style switched on again after each reset in it. -/
def switchAgain (switch : List Char) : List Char → List Char
  | '\x1b' :: '[' :: '0' :: 'm' :: rest => resetAll ++ switch ++ switchAgain switch rest
  | c :: rest => c :: switchAgain switch rest
  | [] => []

/-- A text without escapes has no resets. -/
theorem switchAgain_of_not_mem (switch : List Char) :
    ∀ {text : List Char}, '\x1b' ∉ text → switchAgain switch text = text
  | [], _ => rfl
  | c :: rest, h => by
    have hc : c ≠ '\x1b' := fun e => h (e ▸ List.mem_cons_self)
    rw [switchAgain, switchAgain_of_not_mem switch fun hr => h (List.mem_cons_of_mem c hr)]
    rintro r rfl
    exact absurd rfl hc

/-- A text in a style, where `color` says whether styles are shown. -/
def Style.apply (s : Style) (color : Bool) (text : String) : String :=
  if color then String.ofList (s.switch ++ switchAgain s.switch text.toList ++ resetAll) else text

/-- A text with the style it is shown in, if any. -/
structure Piece where
  style : Option Style
  text : String
deriving DecidableEq, Repr

/-- A text without a style. -/
def plain (text : String) : Piece := ⟨none, text⟩

/-- A text in a style. -/
def Style.piece (s : Style) (text : String) : Piece := ⟨some s, text⟩

/-- The text of a piece, where `color` says whether styles are shown. -/
def Piece.write (color : Bool) (p : Piece) : String :=
  match p.style with
  | none => p.text
  | some s => s.apply color p.text

/-- The text of pieces, one after another. -/
def writePieces (color : Bool) (ps : List Piece) : String := String.join (ps.map (Piece.write color))

/-- A text with blanks before it, at least `width` characters long. -/
def padLeft (width : Nat) (text : String) : String :=
  String.ofList (List.replicate (width - text.length) ' ') ++ text

/-- So many blanks. -/
def blanks (n : Nat) : String := String.ofList (List.replicate n ' ')

end GameScript.Text
