import GameScript.Source.Span
import GameScript.Source.Bytes

/-!
# Lines of a source text

A `LineMap` knows a text and the offsets at which its lines start. `position` turns a byte offset into a line and a
column, `lineText?` gives a line without its end. Lines and columns are 32-bit words, so offsets are taken modulo
`wordCount`.
-/

namespace GameScript

/-- A text and the offset of the start of each line after the first, in order. -/
structure LineMap where
  chars : List Char
  laterStarts : List Nat

namespace LineMap

/-- How many words of 32 bits there are. -/
def wordCount : Nat := 4294967296

/-- The offsets just after the newlines of a text that itself stands at `offset`. -/
def startsFrom (offset : Nat) : List Char → List Nat
  | [] => []
  | c :: cs => if c = '\n' then (offset + 1) :: startsFrom (offset + 1) cs else startsFrom (offset + c.utf8Size) cs

/-- The lines of a text. -/
def ofChars (chars : List Char) : LineMap := ⟨chars, startsFrom 0 chars⟩

/-- The lines of a text. -/
def ofString (source : String) : LineMap := ofChars source.toList

/-- How many lines there are: one more than newlines. -/
def lineCount (m : LineMap) : Nat := m.laterStarts.length + 1

/-- The place of `offset`, sought from line `line` on, which starts at `start` and before those of the list. -/
def locate (offset : Nat) : (line start : Nat) → List Nat → Position
  | line, start, [] => ⟨line, (offset - start + 1) % wordCount⟩
  | line, start, next :: rest =>
    if next ≤ offset then locate offset (line + 1) next rest else ⟨line, (offset - start + 1) % wordCount⟩

/-- The line and column of a byte offset; one past the end lies on the last line. -/
def position (m : LineMap) (offset : Nat) : Position := locate (offset % wordCount) 1 0 m.laterStarts

/-- The offset at which a line starts. Lines count from 1. -/
def lineStart? (m : LineMap) : Nat → Option Nat
  | 0 => none
  | 1 => some 0
  | n + 2 => m.laterStarts[n]?

/-- The offset at which a line stops, its newline not included. -/
def lineStop (m : LineMap) (line : Nat) : Nat :=
  match m.lineStart? (line + 1) with
  | some next => next - 1
  | none => byteLength m.chars

/-- A text without the carriage returns at its end. -/
def dropTrailingReturns (cs : List Char) : List Char := (cs.reverse.dropWhile (· = '\r')).reverse

/-- The text of a line, without its newline and the carriage returns before it. -/
def lineText? (m : LineMap) (line : Nat) : Option (List Char) :=
  match m.lineStart? line with
  | none => none
  | some start => (slice start (m.lineStop line) m.chars).map dropTrailingReturns

end LineMap

end GameScript
