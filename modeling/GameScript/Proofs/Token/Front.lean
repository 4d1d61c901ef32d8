import GameScript.Token.Scan

/-!
# The front of a text

How a text starts tells what is read there. `scan` tries blanks, digits, quotes, names and comments one after the other;
but a character starts at most one of them, so each has an equation that does not mention the others (`scan_of_isBlank`
and those after it). `Front` lists what can come of it.
-/

namespace GameScript

section Characters

variable {c : Char}

theorem isBlank_iff : isBlank c = true ↔ c = ' ' ∨ c = '\t' ∨ c = '\r' ∨ c = '\n' ∨ c = '\x0c' := by
  simp [isBlank, or_assoc]

theorem isDigit_of_isBlank (h : isBlank c = true) : c.isDigit = false := by
  rcases isBlank_iff.1 h with rfl | rfl | rfl | rfl | rfl <;> rfl

theorem isNamePart_of_isBlank (h : isBlank c = true) : isNamePart c = false := by
  rcases isBlank_iff.1 h with rfl | rfl | rfl | rfl | rfl <;> rfl

theorem isBlank_of_isDigit (h : c.isDigit = true) : isBlank c = false := by
  cases hblank : isBlank c with
  | false => rfl
  | true => simp [isDigit_of_isBlank hblank] at h

theorem isBlank_of_isNameStart (h : isNameStart c = true) : isBlank c = false := by
  cases hblank : isBlank c with
  | false => rfl
  | true =>
    rcases isBlank_iff.1 hblank with rfl | rfl | rfl | rfl | rfl <;> cases h

theorem isDigit_of_isNameStart (h : isNameStart c = true) : c.isDigit = false := by
  cases hdigit : c.isDigit with
  | false => rfl
  | true =>
    have hnotDigit : ('9' : Char).toNat < c.toNat := by
      rcases Bool.or_eq_true_iff.1 h with hletter | hunderscore
      · rcases Bool.or_eq_true_iff.1 hletter with hupper | hlower
        · have hle : 'A'.val ≤ c.val := (of_decide_eq_true hupper).1
          exact Nat.lt_of_lt_of_le (by decide) (UInt32.le_iff_toNat_le.1 hle)
        · have hle : 'a'.val ≤ c.val := of_decide_eq_true (Bool.and_eq_true_iff.1 hlower).1
          exact Nat.lt_of_lt_of_le (by decide) (UInt32.le_iff_toNat_le.1 hle)
      · obtain rfl := of_decide_eq_true hunderscore
        decide
    simp only [Char.isDigit, Bool.and_eq_true, decide_eq_true_eq, UInt32.le_iff_toNat_le] at hdigit
    exact absurd hnotDigit (Nat.not_lt.2 hdigit.2)

end Characters

section Fronts

variable {c : Char} {cs : List Char}

theorem scan_of_isBlank (cs : List Char) (h : isBlank c = true) :
    scan c cs = ⟨(Cut.span isBlank cs).push [c], .trivia⟩ := if_pos h

theorem scan_digit (h : c.isDigit = true) : scan c cs = scanNumber (c :: cs) := by
  simp [scan, isBlank_of_isDigit h, h]

theorem scan_quote (h : c = '"' ∨ c = '\'') : scan c cs = scanString c cs := by
  rcases h with rfl | rfl <;> rfl

theorem scan_nameStart (h : isNameStart c = true) : scan c cs =
    ⟨(Cut.span isNamePart cs).push [c], .token (wordKind ((Cut.span isNamePart cs).push [c]).taken)⟩ := by
  have hquote : ¬(c = '"' ∨ c = '\'') := by
    rintro (rfl | rfl) <;> cases h
  simp [scan, isBlank_of_isNameStart h, isDigit_of_isNameStart h, hquote, h]

theorem scan_slashes (after : List Char) :
    scan '/' ('/' :: after) = ⟨(Cut.span (· ≠ '\n') after).push ['/', '/'], .trivia⟩ := rfl

theorem scan_opener (after : List Char) : scan '/' ('*' :: after) = scanComment after := rfl

/-- What starts like nothing else is read as a symbol, if there is one. -/
theorem scan_otherwise (hblank : ¬isBlank c) (hdigit : ¬c.isDigit) (hquote : ¬(c = '"' ∨ c = '\''))
    (hname : ¬isNameStart c) (hslashes : ∀ after, c = '/' → cs ≠ '/' :: after)
    (hopener : ∀ after, c = '/' → cs ≠ '*' :: after) : scan c cs = scanSymbol c cs := by
  unfold scan
  rw [if_neg hblank, if_neg hdigit, if_neg hquote, if_neg hname]
  split
  · exact absurd rfl (hslashes _ rfl)
  · exact absurd rfl (hopener _ rfl)
  · rfl

/-- What can be at the front of a text. -/
inductive Front : Char → List Char → Lexeme → Prop
  | blanks {c : Char} {cs : List Char} (h : isBlank c = true) :
      Front c cs ⟨(Cut.span isBlank cs).push [c], .trivia⟩
  | number {c : Char} {cs : List Char} (h : c.isDigit = true) : Front c cs (scanNumber (c :: cs))
  | string {c : Char} {cs : List Char} (h : c = '"' ∨ c = '\'') : Front c cs (scanString c cs)
  | word {c : Char} {cs : List Char} (h : isNameStart c = true) : Front c cs
      ⟨(Cut.span isNamePart cs).push [c], .token (wordKind ((Cut.span isNamePart cs).push [c]).taken)⟩
  | line {after : List Char} :
      Front '/' ('/' :: after) ⟨(Cut.span (· ≠ '\n') after).push ['/', '/'], .trivia⟩
  | comment {after : List Char} : Front '/' ('*' :: after) (scanComment after)
  | symbol {c : Char} {cs : List Char} : Front c cs (scanSymbol c cs)

theorem front_scan (c : Char) (cs : List Char) : Front c cs (scan c cs) := by
  unfold scan
  split
  · rename_i h
    exact .blanks h
  split
  · rename_i h
    exact .number h
  split
  · rename_i h
    exact .string h
  split
  · rename_i h
    exact .word h
  split
  · exact .line
  · exact .comment
  · exact .symbol

end Fronts

end GameScript
