/-!
# Places in a source text

Offsets count the bytes of the UTF-8 form. A `Span` is the half-open range `start … stop`; `Span.cover` is the
least span around two others. A `Position` is the line and column that a reader sees, both counted from 1.
-/

namespace GameScript

/-- A half-open range of byte offsets. -/
structure Span where
  start : Nat := 0
  stop : Nat := 0
deriving DecidableEq, Repr, Inhabited

namespace Span

/-- The least span that holds both. -/
def cover (s t : Span) : Span := ⟨min s.start t.start, max s.stop t.stop⟩

/-- The least span that holds them all, if there is one. -/
def coverAll : List Span → Option Span
  | [] => none
  | s :: rest => some (rest.foldl cover s)

theorem cover_comm (s t : Span) : s.cover t = t.cover s := by
  simp [cover, Nat.min_comm, Nat.max_comm]

theorem cover_assoc (s t u : Span) : (s.cover t).cover u = s.cover (t.cover u) := by
  simp [cover, Nat.min_assoc, Nat.max_assoc]

theorem cover_self (s : Span) : s.cover s = s := by simp [cover]

end Span

/-- A line and a column, both counted from 1. -/
structure Position where
  line : Nat
  column : Nat
deriving DecidableEq, Repr, Inhabited

/-- The form `line:column`. -/
def Position.text (p : Position) : String := toString p.line ++ ":" ++ toString p.column

end GameScript
