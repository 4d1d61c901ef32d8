import GameScript.Source.LineMap
import Mathlib

/-!
# Lines and columns, counted

The lines of a text are what stands between its newlines. `IsLine` takes a text apart at one of them; from this it
follows where a `LineMap` lets the line start and stop (`IsLine.lineStart?_eq`, `IsLine.lineStop_eq`), what it gives as
its text (`IsLine.lineText?_eq`), and where it finds an offset that is on the line (`IsLine.position_eq`). Each offset
is on a line (`exists_isLine`), and each newline ends one (`exists_isLine_of_count`).

Main statement: a line map agrees with what can be counted on the bytes of its text (`counts_ofChars`).
-/

namespace GameScript

/-! ## Bytes -/

/-- The bytes of a text in UTF-8. -/
def textBytes (cs : List Char) : List UInt8 := cs.flatMap String.utf8EncodeChar

/-- The byte that ends a line. -/
def newline : UInt8 := 10

/-- How many newlines there are before an offset. -/
def newlinesBefore (source : List Char) (offset : Nat) : Nat := ((textBytes source).take offset).count newline

/-- The line that an offset is on starts at `start`: there is no newline between the two, and one just before `start`,
unless the text starts there. -/
structure StartsLine (source : List Char) (offset start : Nat) : Prop where
  start_le : start ≤ offset
  after_newline : start = 0 ∨ (textBytes source)[start - 1]? = some newline
  no_newline : ∀ i, start ≤ i → i < offset → (textBytes source)[i]? ≠ some newline

section Bytes

variable {cs ds : List Char} {c : Char}

theorem length_textBytes (cs : List Char) : (textBytes cs).length = byteLength cs := by
  induction cs with
  | nil => rfl
  | cons c cs ih => simpa [textBytes] using ih

theorem textBytes_append : textBytes (cs ++ ds) = textBytes cs ++ textBytes ds := List.flatMap_append

/-- No other character has the byte of a newline in it. -/
theorem newline_mem_encode : newline ∈ String.utf8EncodeChar c ↔ c = '\n' := by
  constructor
  · intro h
    have hcode : c.toNat = 10 := by
      simp only [String.utf8EncodeChar, newline, Char.toNat_val] at h
      split_ifs at h <;> simp [← UInt8.toNat_inj] at h <;> omega
    exact Char.toNat_inj.1 hcode
  · rintro rfl
    decide

theorem count_textBytes (cs : List Char) : (textBytes cs).count newline = cs.count '\n' := by
  induction cs with
  | nil => rfl
  | cons c cs ih =>
    have hcons : (textBytes (c :: cs)).count newline =
        (String.utf8EncodeChar c).count newline + (textBytes cs).count newline := List.count_append
    by_cases hc : c = '\n'
    · subst hc
      rw [hcons, ih, List.count_cons_self, Nat.add_comm]
      rfl
    · rw [hcons, ih, List.count_cons_of_ne hc, List.count_eq_zero.2 fun h => hc (newline_mem_encode.1 h), Nat.zero_add]

theorem newline_mem_textBytes : newline ∈ textBytes cs ↔ '\n' ∈ cs := by
  rw [← List.count_pos_iff, count_textBytes, List.count_pos_iff]

end Bytes

/-! ## Lines -/

/-- A line of a text, without its newline, with what stands before and after it. -/
structure IsLine (source before line after : List Char) : Prop where
  source_eq : source = before ++ line ++ after
  before_eq : before = [] ∨ ∃ front, before = front ++ ['\n']
  no_newline : '\n' ∉ line
  after_eq : after = [] ∨ ∃ back, after = '\n' :: back

namespace IsLine

variable {source before line after : List Char} {c : Char}

/-- A newline put in front ends a line of its own. -/
theorem cons_newline (h : IsLine source before line after) : IsLine ('\n' :: source) ('\n' :: before) line after where
  source_eq := by rw [h.source_eq]; rfl
  before_eq := .inr <| by
    rcases h.before_eq with rfl | ⟨front, rfl⟩
    · exact ⟨[], rfl⟩
    · exact ⟨'\n' :: front, rfl⟩
  no_newline := h.no_newline
  after_eq := h.after_eq

/-- Any other character put in front goes to the first line. -/
theorem cons_first (h : IsLine source [] line after) (hc : c ≠ '\n') : IsLine (c :: source) [] (c :: line) after where
  source_eq := by rw [h.source_eq]; rfl
  before_eq := .inl rfl
  no_newline := List.not_mem_cons_of_ne_of_not_mem hc.symm h.no_newline
  after_eq := h.after_eq

theorem cons_later (h : IsLine source before line after) (hb : before ≠ []) :
    IsLine (c :: source) (c :: before) line after where
  source_eq := by rw [h.source_eq]; rfl
  before_eq := .inr <| by
    obtain ⟨front, rfl⟩ := h.before_eq.resolve_left hb
    exact ⟨c :: front, rfl⟩
  no_newline := h.no_newline
  after_eq := h.after_eq

/-- The first line of a text without newlines is all of it. -/
theorem first_nil : IsLine [] [] [] [] := ⟨rfl, .inl rfl, List.not_mem_nil, .inl rfl⟩

theorem first_newline (cs : List Char) : IsLine ('\n' :: cs) [] [] ('\n' :: cs) :=
  ⟨rfl, .inl rfl, List.not_mem_nil, .inr ⟨cs, rfl⟩⟩

end IsLine

/-- Every offset in a text is on a line of it. -/
theorem exists_isLine {source : List Char} {offset : Nat} (h : offset ≤ byteLength source) :
    ∃ before line after, IsLine source before line after ∧ byteLength before ≤ offset ∧
      offset ≤ byteLength before + byteLength line := by
  induction source generalizing offset with
  | nil => exact ⟨[], [], [], .first_nil, Nat.zero_le _, h⟩
  | cons c cs ih =>
    rw [byteLength_cons] at h
    obtain ⟨before, line, after, hline, hle, hstop⟩ := ih (show offset - c.utf8Size ≤ byteLength cs by omega)
    have hpos := c.utf8Size_pos
    by_cases hc : c = '\n'
    · subst hc
      have hone : Char.utf8Size '\n' = 1 := rfl
      rcases Nat.eq_zero_or_pos offset with rfl | hoffset
      · exact ⟨[], [], '\n' :: cs, .first_newline cs, Nat.le_refl _, Nat.le_refl _⟩
      · refine ⟨'\n' :: before, line, after, hline.cons_newline, ?_, ?_⟩ <;> rw [byteLength_cons] <;> omega
    · by_cases hb : before = []
      · subst hb
        refine ⟨[], c :: line, after, hline.cons_first hc, Nat.zero_le _, ?_⟩
        rw [byteLength_nil] at hstop ⊢
        rw [byteLength_cons]
        omega
      · have hbefore := byteLength_pos hb
        refine ⟨c :: before, line, after, hline.cons_later hb, ?_, ?_⟩ <;> rw [byteLength_cons] <;> omega

/-- There is a line after any number of newlines of a text. -/
theorem exists_isLine_of_count {source : List Char} {n : Nat} (h : n ≤ source.count '\n') :
    ∃ before line after, IsLine source before line after ∧ before.count '\n' = n := by
  induction source generalizing n with
  | nil => exact ⟨[], [], [], .first_nil, (Nat.le_zero.1 h).symm⟩
  | cons c cs ih =>
    by_cases hc : c = '\n'
    · subst hc
      rw [List.count_cons_self] at h
      cases n with
      | zero => exact ⟨[], [], '\n' :: cs, .first_newline cs, rfl⟩
      | succ n =>
        obtain ⟨before, line, after, hline, hn⟩ := ih (Nat.le_of_succ_le_succ h)
        exact ⟨'\n' :: before, line, after, hline.cons_newline, by rw [List.count_cons_self, hn]⟩
    · rw [List.count_cons_of_ne hc] at h
      obtain ⟨before, line, after, hline, hn⟩ := ih h
      by_cases hb : before = []
      · subst hb
        exact ⟨[], c :: line, after, hline.cons_first hc, hn⟩
      · exact ⟨c :: before, line, after, hline.cons_later hb, by rw [List.count_cons_of_ne hc, hn]⟩

namespace IsLine

variable {source before line after : List Char}

theorem textBytes_eq (h : IsLine source before line after) :
    textBytes source = textBytes before ++ (textBytes line ++ textBytes after) := by
  rw [h.source_eq, textBytes_append, textBytes_append, List.append_assoc]

/-- The bytes up to an offset on a line are those before the line and some of the line. -/
theorem take_eq (h : IsLine source before line after) {offset : Nat} (hle : byteLength before ≤ offset)
    (hstop : offset ≤ byteLength before + byteLength line) :
    (textBytes source).take offset = textBytes before ++ (textBytes line).take (offset - byteLength before) := by
  rw [h.textBytes_eq, List.take_append, List.take_append, List.take_of_length_le (by rwa [length_textBytes]),
    length_textBytes, length_textBytes, show offset - byteLength before - byteLength line = 0 by omega, List.take_zero,
    List.append_nil]

/-- The newlines before an offset on a line are those before the line. -/
theorem newlinesBefore_eq (h : IsLine source before line after) {offset : Nat} (hle : byteLength before ≤ offset)
    (hstop : offset ≤ byteLength before + byteLength line) : newlinesBefore source offset = before.count '\n' := by
  have hline : newline ∉ (textBytes line).take (offset - byteLength before) := fun hn =>
    h.no_newline (newline_mem_textBytes.1 (List.mem_of_mem_take hn))
  rw [newlinesBefore, h.take_eq hle hstop, List.count_append, count_textBytes, List.count_eq_zero.2 hline, Nat.add_zero]

/-- A line starts where what is before it ends. -/
theorem startsLine (h : IsLine source before line after) {offset : Nat} (hle : byteLength before ≤ offset)
    (hstop : offset ≤ byteLength before + byteLength line) : StartsLine source offset (byteLength before) where
  start_le := hle
  after_newline := by
    rcases h.before_eq with rfl | ⟨front, hfront⟩
    · exact .inl rfl
    · have hbytes : textBytes before = textBytes front ++ [newline] := by rw [hfront, textBytes_append]; rfl
      have hlength : byteLength before - 1 = (textBytes front).length := by
        rw [length_textBytes, hfront, byteLength_append]
        rfl
      rw [h.textBytes_eq, hbytes, hlength, List.append_assoc]
      exact .inr (by simp)
  no_newline := by
    intro i hi hlt hnewline
    have hmem : newline ∈ textBytes line := by
      rw [h.textBytes_eq, List.getElem?_append_right (by rwa [length_textBytes]), length_textBytes,
        List.getElem?_append_left (by rw [length_textBytes]; omega)] at hnewline
      exact List.mem_of_getElem? hnewline
    exact h.no_newline (newline_mem_textBytes.1 hmem)

end IsLine

/-! ## Where lines start -/

namespace LineMap

variable {cs before rest : List Char} {o : Nat}

theorem length_startsFrom (o : Nat) (cs : List Char) : (startsFrom o cs).length = cs.count '\n' := by
  induction cs generalizing o with
  | nil => rfl
  | cons c cs ih =>
    rw [startsFrom]
    split
    · rename_i hc
      rw [List.length_cons, ih, hc, List.count_cons_self]
    · rename_i hc
      rw [ih, List.count_cons_of_ne hc]

/-- The start behind a newline comes after as many others as there are newlines before that one. -/
theorem startsFrom_getElem? (o : Nat) (before rest : List Char) :
    (startsFrom o (before ++ '\n' :: rest))[before.count '\n']? = some (o + byteLength before + 1) := by
  induction before generalizing o with
  | nil => rfl
  | cons c before ih =>
    rw [List.cons_append, startsFrom, byteLength_cons]
    split
    · rename_i hc
      subst hc
      rw [List.count_cons_self, List.getElem?_cons_succ, ih, Nat.add_assoc o 1]
      rfl
    · rename_i hc
      rw [List.count_cons_of_ne hc, ih, Nat.add_assoc o]

theorem lt_of_mem_startsFrom {s : Nat} (h : s ∈ startsFrom o cs) : o < s ∧ s ≤ o + byteLength cs := by
  induction cs generalizing o with
  | nil => cases h
  | cons c cs ih =>
    have hpos := c.utf8Size_pos
    rw [startsFrom] at h
    rw [byteLength_cons]
    split at h
    · rcases List.mem_cons.1 h with rfl | h
      · omega
      · have := ih h
        omega
    · have := ih h
      omega

/-- Starts of lines are in order. -/
theorem pairwise_startsFrom (o : Nat) (cs : List Char) : (startsFrom o cs).Pairwise (· < ·) := by
  induction cs generalizing o with
  | nil => exact .nil
  | cons c cs ih =>
    rw [startsFrom]
    split
    · exact List.pairwise_cons.2 ⟨fun s hs => (lt_of_mem_startsFrom hs).1, ih _⟩
    · exact ih _

/-! ## Seeking an offset -/

/-- An offset behind a newline is sought from there on. -/
theorem locate_behind {offset line start : Nat} (h : o + byteLength before + 1 ≤ offset) :
    locate offset line start (startsFrom o (before ++ '\n' :: rest)) =
      locate offset (line + before.count '\n' + 1) (o + byteLength before + 1)
        (startsFrom (o + byteLength before + 1) rest) := by
  induction before generalizing o line start with
  | nil =>
    rw [byteLength_nil] at h
    rw [List.nil_append, startsFrom, if_pos rfl, locate, if_pos (by omega)]
    rfl
  | cons c before ih =>
    have hpos := c.utf8Size_pos
    rw [byteLength_cons] at h
    rw [List.cons_append, startsFrom, byteLength_cons]
    split
    · rename_i hc
      subst hc
      have hone : Char.utf8Size '\n' = 1 := rfl
      rw [hone] at h ⊢
      rw [locate, if_pos (by omega), ih (by omega), List.count_cons_self]
      congr 1 <;> first | omega | rw [Nat.add_assoc o 1]
    · rename_i hc
      rw [ih (by omega), List.count_cons_of_ne hc, Nat.add_assoc o]

/-- On a line, the place that is known is the right one; so it is behind the last newline. -/
theorem locate_here {offset n start : Nat} {line after : List Char} (hline : '\n' ∉ line)
    (hafter : after = [] ∨ ∃ back, after = '\n' :: back) (h : after = [] ∨ offset ≤ o + byteLength line) :
    locate offset n start (startsFrom o (line ++ after)) = ⟨n, (offset - start + 1) % wordCount⟩ := by
  induction line generalizing o with
  | nil =>
    rcases hafter with rfl | ⟨back, rfl⟩
    · rfl
    · have hle : offset ≤ o := by simpa using h
      rw [List.nil_append, startsFrom, if_pos rfl, locate, if_neg (by omega)]
  | cons c line ih =>
    obtain ⟨hc, hline⟩ := List.ne_and_not_mem_of_not_mem_cons hline
    rw [List.cons_append, startsFrom, if_neg (Ne.symm hc)]
    refine ih hline (h.imp id fun hle => ?_)
    rw [byteLength_cons] at hle
    omega

end LineMap

/-! ## A line in a line map -/

/-- A text has one more line than newlines. -/
theorem length_splitOn (cs : List Char) : (cs.splitOn '\n').length = cs.count '\n' + 1 := by
  induction cs with
  | nil => rfl
  | cons c cs ih =>
    rw [List.splitOn_cons_eq_if_modifyHead]
    by_cases hc : c = '\n'
    · rw [if_pos (beq_iff_eq.2 hc), List.length_cons, ih, hc, List.count_cons_self]
    · rw [if_neg (by simpa using hc), List.length_modifyHead, ih, List.count_cons_of_ne hc]

namespace IsLine

open LineMap

variable {source before line after : List Char} (h : IsLine source before line after)

include h

/-- A line is the piece after as many newlines as are before it. -/
theorem splitOn_eq : (source.splitOn '\n')[before.count '\n']? = some line := by
  have hhead : ((line ++ after).splitOn '\n')[0]? = some line := by
    rcases h.after_eq with rfl | ⟨back, rfl⟩
    · rw [List.append_nil, List.splitOn_eq_singleton h.no_newline]
      rfl
    · rw [List.splitOn_append_cons_self_of_not_mem h.no_newline]
      rfl
  rw [h.source_eq, List.append_assoc]
  rcases h.before_eq with rfl | ⟨front, rfl⟩
  · exact hhead
  · have hlength : (front ++ ['\n']).count '\n' = (front.splitOn '\n').length := by
      rw [length_splitOn, List.count_append, List.count_singleton_self]
    rw [hlength, List.append_assoc, List.singleton_append, List.splitOn_append_cons_self, List.getElem?_append_right
      (Nat.le_refl _), Nat.sub_self]
    exact hhead

theorem lineStart?_eq : (ofChars source).lineStart? (before.count '\n' + 1) = some (byteLength before) := by
  rcases h.before_eq with rfl | ⟨front, rfl⟩
  · rfl
  · have hstart := startsFrom_getElem? 0 front (line ++ after)
    rw [Nat.zero_add] at hstart
    rw [List.count_append, List.count_singleton_self, lineStart?, ofChars, h.source_eq, List.append_assoc,
      List.append_assoc, List.singleton_append, hstart, byteLength_append]
    rfl

theorem lineStop_eq : (ofChars source).lineStop (before.count '\n' + 1) = byteLength before + byteLength line := by
  have hcount : (before ++ line).count '\n' = before.count '\n' := by
    rw [List.count_append, List.count_eq_zero.2 h.no_newline, Nat.add_zero]
  have hnext : (ofChars source).lineStart? (before.count '\n' + 1 + 1) =
      (startsFrom 0 (before ++ line ++ after))[before.count '\n']? := by
    rw [h.source_eq]
    rfl
  rw [lineStop, hnext]
  rcases h.after_eq with rfl | ⟨back, rfl⟩
  · have hnone : (startsFrom 0 (before ++ line ++ []))[before.count '\n']? = none := by
      rw [List.append_nil]
      exact List.getElem?_eq_none (by rw [length_startsFrom, hcount])
    rw [hnone, ofChars, h.source_eq, List.append_nil, byteLength_append]
  · have hsome := startsFrom_getElem? 0 (before ++ line) back
    rw [hcount] at hsome
    rw [hsome, byteLength_append, Nat.zero_add]
    rfl

theorem lineText?_eq : (ofChars source).lineText? (before.count '\n' + 1) = some (dropTrailingReturns line) := by
  have hslice : slice (byteLength before) (byteLength before + byteLength line) source = some line := by
    rw [h.source_eq]
    exact slice_append before line after
  rw [lineText?, h.lineStart?_eq, h.lineStop_eq]
  simp only [ofChars, hslice, Option.map_some]

/-- An offset on a line, and one past the text on the last line, is found there. -/
theorem position_eq {offset : Nat} (hoffset : offset < wordCount) (hle : byteLength before ≤ offset)
    (hstop : after = [] ∨ offset ≤ byteLength before + byteLength line) :
    (ofChars source).position offset =
      ⟨before.count '\n' + 1, (offset - byteLength before + 1) % wordCount⟩ := by
  rw [position, Nat.mod_eq_of_lt hoffset, ofChars, h.source_eq]
  rcases h.before_eq with rfl | ⟨front, rfl⟩
  · exact locate_here h.no_newline h.after_eq (by simpa using hstop)
  · have hlength : byteLength (front ++ ['\n']) = 0 + byteLength front + 1 := by
      rw [byteLength_append, Nat.zero_add]
      rfl
    rw [hlength] at hle hstop ⊢
    rw [List.append_assoc, List.append_assoc, List.singleton_append, locate_behind hle,
      locate_here h.no_newline h.after_eq hstop, List.count_append, List.count_singleton_self]
    congr 1
    omega

/-- The line of an offset and where it starts, as they can be counted. -/
theorem position_counted {offset : Nat} (hle : byteLength before ≤ offset)
    (hstop : offset ≤ byteLength before + byteLength line) (hsize : byteLength source + 1 < wordCount) :
    (ofChars source).position offset =
      ⟨newlinesBefore source offset + 1, offset - byteLength before + 1⟩ := by
  have hoffset : offset ≤ byteLength source := by
    rw [h.source_eq, byteLength_append, byteLength_append]
    omega
  rw [h.position_eq (by omega) hle (.inr hstop), h.newlinesBefore_eq hle hstop, Nat.mod_eq_of_lt (by omega)]

end IsLine

/-! ## Line maps -/

/-- The answers of a search for `x` in numbers in order: where `x` is, or where it could be put in. -/
def IsSearchAnswer (xs : List Nat) (x : Nat) : Except Nat Nat → Prop
  | .ok i => xs[i]? = some x
  | .error i => i ≤ xs.length ∧ (∀ j y, j < i → xs[j]? = some y → y < x) ∧ ∀ j y, i ≤ j → xs[j]? = some y → x < y

/-- The index of the line that the answer of a search among starts of lines tells: the one that starts there, or the
one before the next that starts. -/
def lineOfAnswer : Except Nat Nat → Nat
  | .ok i => i
  | .error i => i - 1

theorem lt_of_pairwise {xs : List Nat} (hxs : xs.Pairwise (· < ·)) {i j x y : Nat} (hx : xs[i]? = some x)
    (hy : xs[j]? = some y) (h : i < j) : x < y := by
  obtain ⟨hi, rfl⟩ := List.getElem?_eq_some_iff.1 hx
  obtain ⟨hj, rfl⟩ := List.getElem?_eq_some_iff.1 hy
  exact List.pairwise_iff_getElem.1 hxs i j hi hj h

/-- In numbers in order, a search for `x` can only tell the last one that is not greater. -/
theorem lineOfAnswer_eq {xs : List Nat} (hxs : xs.Pairwise (· < ·)) {k s x : Nat} (hs : xs[k]? = some s) (hle : s ≤ x)
    (hnext : ∀ t, xs[k + 1]? = some t → x < t) {answer : Except Nat Nat} (h : IsSearchAnswer xs x answer) :
    lineOfAnswer answer = k := by
  have hbelow {i : Nat} (hlength : i < xs.length) (hi : k + 1 < i + 1) : ∃ t, xs[k + 1]? = some t ∧ x < t := by
    have hk : k + 1 < xs.length := by omega
    exact ⟨xs[k + 1], List.getElem?_eq_getElem hk, hnext _ (List.getElem?_eq_getElem hk)⟩
  cases answer with
  | ok i =>
    have hi : xs[i]? = some x := h
    rcases Nat.lt_trichotomy i k with hlt | heq | hgt
    · have := lt_of_pairwise hxs hi hs hlt
      omega
    · exact heq
    · obtain ⟨t, ht, hxt⟩ := hbelow (List.getElem?_eq_some_iff.1 hi).1 (Nat.succ_lt_succ hgt)
      rcases Nat.eq_or_lt_of_le (Nat.succ_le_of_lt hgt) with rfl | hlt
      · obtain rfl := Option.some.inj (hi.symm.trans ht)
        omega
      · have := lt_of_pairwise hxs ht hi hlt
        omega
  | error i =>
    obtain ⟨hlength, hbefore, hbehind⟩ := h
    have hki : k < i := by
      by_contra hik
      have := hbehind k s (Nat.le_of_not_lt hik) hs
      omega
    suffices i = k + 1 by rw [this]; rfl
    by_contra hne
    obtain ⟨t, ht, hxt⟩ := hbelow (i := i - 1) (by omega) (by omega)
    have := hbefore (k + 1) t (by omega) ht
    omega

namespace LineMap

variable {source : List Char}

/-- The starts of all lines. -/
def lineStarts (m : LineMap) : List Nat := 0 :: m.laterStarts

theorem lineStart?_succ (m : LineMap) (n : Nat) : m.lineStart? (n + 1) = m.lineStarts[n]? := by
  cases n <;> rfl

theorem lineCount_eq (source : List Char) : (ofChars source).lineCount = source.count '\n' + 1 :=
  congrArg (· + 1) (length_startsFrom 0 source)

theorem pairwise_lineStarts (source : List Char) : (ofChars source).lineStarts.Pairwise (· < ·) :=
  List.pairwise_cons.2 ⟨fun _ hs => (lt_of_mem_startsFrom hs).1, pairwise_startsFrom 0 source⟩

theorem lineText?_eq (source : List Char) (n : Nat) :
    (ofChars source).lineText? (n + 1) = ((source.splitOn '\n')[n]?).map (·.rdropWhile (· = '\r')) := by
  rcases Nat.lt_or_ge (source.count '\n') n with hn | hn
  · have hstart : (ofChars source).lineStart? (n + 1) = none := by
      rw [lineStart?_succ]
      refine List.getElem?_eq_none ?_
      rw [lineStarts, List.length_cons]
      exact (lineCount_eq source).le.trans hn
    rw [lineText?, hstart, List.getElem?_eq_none (by rw [length_splitOn]; omega)]
    rfl
  · obtain ⟨before, line, after, hline, rfl⟩ := exists_isLine_of_count hn
    rw [hline.lineText?_eq, hline.splitOn_eq]
    rfl

/-- A line map says of a text what can be counted on its bytes. -/
structure Counts (m : LineMap) (source : List Char) : Prop where
  /-- The line of an offset comes after the newlines before it, its column counts from the start of that line. -/
  position_eq : ∀ offset ≤ byteLength source, ∃ start, StartsLine source offset start ∧
    m.lineStart? (newlinesBefore source offset + 1) = some start ∧
    m.position offset = ⟨newlinesBefore source offset + 1, offset - start + 1⟩
  /-- Nothing that is computed on the way exceeds a word. -/
  position_lt : ∀ offset ≤ byteLength source, offset < wordCount ∧ (m.position offset).line < wordCount ∧
    (m.position offset).column < wordCount
  lineStarts_lt : ∀ start ∈ m.lineStarts, start < wordCount
  /-- Whatever way a search among the starts of lines goes, its answer tells the line. -/
  line_of_search : ∀ offset ≤ byteLength source, ∀ answer, IsSearchAnswer m.lineStarts offset answer →
    (m.position offset).line = lineOfAnswer answer + 1
  /-- Later offsets have later lines, or later columns on the same line. -/
  increasing : ∀ first second, first < second → second ≤ byteLength source →
    (m.position first).line < (m.position second).line ∨
      (m.position first).line = (m.position second).line ∧ (m.position first).column < (m.position second).column
  lineCount_eq : m.lineCount = (textBytes source).count newline + 1
  /-- The text of a line is the piece between newlines, without the carriage returns at its end. -/
  lineText?_eq : ∀ n, m.lineText? (n + 1) = ((source.splitOn '\n')[n]?).map (·.rdropWhile (· = '\r'))
  lineText?_zero : m.lineText? 0 = none
  /-- In the text of a line, a column counts bytes of the source. -/
  byte_at : ∀ offset ≤ byteLength source, ∀ text, m.lineText? (m.position offset).line = some text →
    (m.position offset).column - 1 < byteLength text →
    ∃ b, (textBytes text)[(m.position offset).column - 1]? = some b ∧ (textBytes source)[offset]? = some b
  past_end : ∀ offset, byteLength source < offset → offset + 1 < wordCount → (m.position offset).line = m.lineCount

end LineMap

section Counting

open LineMap

variable {source before line : List Char}

/-- The next line starts behind this one. -/
theorem IsLine.lt_next {after : List Char} (h : IsLine source before line after) {next : Nat}
    (hnext : (ofChars source).lineStarts[before.count '\n' + 1]? = some next) :
    byteLength before + byteLength line < next := by
  have hstop := h.lineStop_eq
  rw [lineStop, lineStart?_succ, hnext] at hstop
  have hpos := (lt_of_mem_startsFrom (List.mem_of_getElem? (show (startsFrom 0 source)[_]? = some next from hnext))).1
  dsimp only at hstop
  omega

/-- The last line is the one that nothing comes after. -/
theorem exists_last_isLine (source : List Char) : ∃ before line, IsLine source before line [] := by
  obtain ⟨before, line, after, hline, -, hstop⟩ := exists_isLine (Nat.le_refl (byteLength source))
  rw [hline.source_eq, byteLength_append, byteLength_append] at hstop
  obtain rfl : after = [] := by
    by_contra hafter
    have := byteLength_pos hafter
    omega
  exact ⟨before, line, hline⟩

theorem IsLine.count_eq (h : IsLine source before line []) : source.count '\n' = before.count '\n' := by
  rw [h.source_eq, List.append_nil, List.count_append, List.count_eq_zero.2 h.no_newline, Nat.add_zero]

theorem newlinesBefore_le (source : List Char) (offset : Nat) : newlinesBefore source offset ≤ offset :=
  List.count_le_length.trans (List.length_take_le _ _)

theorem newlinesBefore_mono {first second : Nat} (h : first ≤ second) :
    newlinesBefore source first ≤ newlinesBefore source second :=
  (List.take_prefix_take_left h).sublist.count_le _

/-- The bytes of the text of a line are those of the source behind its start. -/
theorem IsLine.exists_byte {after : List Char} (h : IsLine source before line after) {i : Nat}
    (hi : i < byteLength (dropTrailingReturns line)) :
    ∃ b, (textBytes (dropTrailingReturns line))[i]? = some b ∧ (textBytes source)[byteLength before + i]? = some b := by
  obtain ⟨returns, hreturns⟩ : dropTrailingReturns line <+: line := List.rdropWhile_prefix _ _
  have hbytes : textBytes source = textBytes before ++
      (textBytes (dropTrailingReturns line) ++ (textBytes returns ++ textBytes after)) := by
    conv_lhs => rw [h.textBytes_eq, ← hreturns, textBytes_append]
    rw [List.append_assoc]
  rw [← length_textBytes] at hi
  refine ⟨_, List.getElem?_eq_getElem hi, ?_⟩
  rw [hbytes, List.getElem?_append_right (by rw [length_textBytes]; omega), length_textBytes, Nat.add_sub_cancel_left,
    List.getElem?_append_left hi, List.getElem?_eq_getElem hi]

/-- **A line map counts.** It agrees with what can be counted on the bytes of its text, when they are fewer than the
words of 32 bits less one. -/
theorem LineMap.counts_ofChars (h : byteLength source + 1 < wordCount) : (ofChars source).Counts source where
  position_eq := by
    intro offset hoffset
    obtain ⟨before, line, after, hline, hle, hstop⟩ := exists_isLine hoffset
    refine ⟨byteLength before, hline.startsLine hle hstop, ?_, hline.position_counted hle hstop h⟩
    rw [hline.newlinesBefore_eq hle hstop]
    exact hline.lineStart?_eq
  position_lt := by
    intro offset hoffset
    obtain ⟨before, line, after, hline, hle, hstop⟩ := exists_isLine hoffset
    have hlines := newlinesBefore_le source offset
    rw [hline.position_counted hle hstop h]
    exact ⟨by omega, show newlinesBefore source offset + 1 < wordCount by omega,
      show offset - byteLength before + 1 < wordCount by omega⟩
  lineStarts_lt := by
    intro start hstart
    rcases List.mem_cons.1 hstart with rfl | hstart
    · decide
    · have := (lt_of_mem_startsFrom hstart).2
      omega
  line_of_search := by
    intro offset hoffset answer hanswer
    obtain ⟨before, line, after, hline, hle, hstop⟩ := exists_isLine hoffset
    have hstart := hline.lineStart?_eq
    rw [lineStart?_succ] at hstart
    rw [hline.position_counted hle hstop h, hline.newlinesBefore_eq hle hstop, lineOfAnswer_eq
      (pairwise_lineStarts source) hstart hle (fun next hnext => hstop.trans_lt (hline.lt_next hnext)) hanswer]
  increasing := by
    intro first second hlt hsecond
    obtain ⟨before, line, after, hline, hle, hstop⟩ := exists_isLine hsecond
    obtain ⟨before', line', after', hline', hle', hstop'⟩ := exists_isLine (hlt.le.trans hsecond)
    rw [hline.position_counted hle hstop h, hline'.position_counted hle' hstop' h]
    have hlines : newlinesBefore source first ≤ newlinesBefore source second := newlinesBefore_mono hlt.le
    rcases Nat.eq_or_lt_of_le hlines with heq | hless
    · right
      have hstarts := hline.lineStart?_eq
      rw [← hline.newlinesBefore_eq hle hstop, ← heq, hline'.newlinesBefore_eq hle' hstop', hline'.lineStart?_eq,
        Option.some_inj] at hstarts
      exact ⟨congrArg (· + 1) heq, by dsimp only; omega⟩
    · exact .inl (Nat.succ_lt_succ hless)
  lineCount_eq := by rw [lineCount_eq, count_textBytes]
  lineText?_eq := lineText?_eq source
  lineText?_zero := rfl
  byte_at := by
    intro offset hoffset text htext hcolumn
    obtain ⟨before, line, after, hline, hle, hstop⟩ := exists_isLine hoffset
    have hposition := hline.position_counted hle hstop h
    rw [hposition, hline.newlinesBefore_eq hle hstop, hline.lineText?_eq, Option.some_inj] at htext
    subst htext
    rw [hposition, Nat.add_sub_cancel] at hcolumn ⊢
    obtain ⟨b, hb, hsource⟩ := hline.exists_byte hcolumn
    exact ⟨b, hb, by rwa [Nat.add_sub_cancel' hle] at hsource⟩
  past_end := by
    intro offset hpast hoffset
    obtain ⟨before, line, hline⟩ := exists_last_isLine source
    have hbefore : byteLength before ≤ offset := by
      rw [hline.source_eq, byteLength_append, byteLength_append] at hpast
      omega
    rw [hline.position_eq (by omega) hbefore (.inl rfl), lineCount_eq, hline.count_eq]

/-- A line with a character of two bytes and a carriage return, an empty line, and one that is not ended. -/
def threeLines : List Char := ['é', '\r', '\n', '\n', 'b']

/-- The newline stands on the line that it ends, and the carriage return is no part of the text of that line. -/
theorem threeLines_counted :
    byteLength threeLines + 1 < LineMap.wordCount ∧
      (∃ start, StartsLine threeLines 3 start ∧ (LineMap.ofChars threeLines).position 3 = ⟨1, 3 - start + 1⟩) ∧
      (LineMap.ofChars threeLines).lineText? 1 = some ['é'] ∧ (LineMap.ofChars threeLines).lineCount = 3 ∧
      ((LineMap.ofChars threeLines).position 7).line = 3 := by
  have hsize : byteLength threeLines + 1 < LineMap.wordCount := by decide
  have hcounts := LineMap.counts_ofChars hsize
  obtain ⟨start, hstart, -, hposition⟩ := hcounts.position_eq 3 (by decide)
  refine ⟨hsize, ⟨start, hstart, hposition⟩, (hcounts.lineText?_eq 0).trans (by decide), hcounts.lineCount_eq, ?_⟩
  exact (hcounts.past_end 7 (by decide) (by decide)).trans hcounts.lineCount_eq

end Counting

end GameScript
