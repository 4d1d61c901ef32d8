import GameScript.Proofs.Diagnostic.Rendering

/-!
# Colour and text

A terminal that shows styles gets the same text as one that does not, with codes in between. `withoutColor` takes the
codes out of a text. No piece of a row has an escape that is not its style's, as long as the texts of the diagnostic, the
name of the file and the source have none (`Row.escapeFree_pieces`, `escapeFree_of_mem_rows`), so the codes that are
taken out of a piece are those that its style put in (`withoutCodes_write`), blanks of a padded number included.

Main statement: colour changes nothing (`color_changes_nothing`).
-/

namespace GameScript

open LineMap

namespace Text

/-! ## Terminal codes -/

/-- What stands behind the terminal code that a text starts with: an escape, a bracket, numbers between semicolons
and an `m`. -/
def afterCode? : List Char → Option (List Char)
  | '\x1b' :: '[' :: cs =>
    match cs.dropWhile fun c => c.isDigit || c == ';' with
    | 'm' :: rest => some rest
    | _ => none
  | _ => none

theorem length_of_afterCode? {cs rest : List Char} (h : afterCode? cs = some rest) : rest.length < cs.length := by
  unfold afterCode? at h
  split at h
  · rename_i cs
    split at h
    · rename_i heq
      obtain rfl := Option.some.inj h
      have hsuffix : cs.dropWhile (fun c => c.isDigit || c == ';') <:+ cs := List.dropWhile_suffix _
      have hle := hsuffix.length_le
      rw [heq] at hle
      simp only [List.length_cons] at hle ⊢
      omega
    · cases h
  · cases h

/-- A text without the terminal codes in it. -/
def withoutCodes (text : List Char) : List Char :=
  match _h : afterCode? text with
  | some rest => withoutCodes rest
  | none =>
    match text with
    | [] => []
    | c :: rest => c :: withoutCodes rest
termination_by text.length
decreasing_by
  · exact length_of_afterCode? _h
  · exact Nat.lt_succ_self _

/-- What a terminal shows of a text, but for the styles. -/
def withoutColor (text : String) : String := String.ofList (withoutCodes text.toList)

theorem withoutCodes_nil : withoutCodes [] = [] := by
  rw [withoutCodes]
  rfl

theorem withoutCodes_of_afterCode? {text rest : List Char} (h : afterCode? text = some rest) :
    withoutCodes text = withoutCodes rest := by
  rw [withoutCodes]
  split
  · rename_i h'
    rw [Option.some.inj (h.symm.trans h')]
  · rename_i h'
    cases h.symm.trans h'

theorem withoutCodes_cons {c : Char} (hc : c ≠ '\x1b') (rest : List Char) :
    withoutCodes (c :: rest) = c :: withoutCodes rest := by
  have hnone : afterCode? (c :: rest) = none := by
    unfold afterCode?
    split
    · rename_i heq
      exact absurd (List.cons.inj heq).1 hc
    · rfl
  rw [withoutCodes]
  split
  · rename_i h
    cases hnone.symm.trans h
  · rfl

/-- What stands before the first escape stays. -/
theorem withoutCodes_append {cs : List Char} (h : '\x1b' ∉ cs) (rest : List Char) :
    withoutCodes (cs ++ rest) = cs ++ withoutCodes rest := by
  induction cs with
  | nil => rfl
  | cons c cs ih =>
    obtain ⟨hc, hcs⟩ := not_or.1 (mt List.mem_cons.2 h)
    rw [List.cons_append, withoutCodes_cons (Ne.symm hc), ih hcs, List.cons_append]

theorem withoutCodes_switch (s : Style) (rest : List Char) : withoutCodes (s.switch ++ rest) = withoutCodes rest := by
  refine withoutCodes_of_afterCode? ?_
  cases s <;> rfl

theorem withoutCodes_resetAll (rest : List Char) : withoutCodes (resetAll ++ rest) = withoutCodes rest :=
  withoutCodes_of_afterCode? rfl

/-! ## Texts without escapes -/

/-- A text has no escape in it. -/
def EscapeFree (text : String) : Prop := '\x1b' ∉ text.toList

instance : DecidablePred EscapeFree := fun text => inferInstanceAs (Decidable ('\x1b' ∉ text.toList))

section EscapeFree

variable {s t : String}

@[simp] theorem escapeFree_append : EscapeFree (s ++ t) ↔ EscapeFree s ∧ EscapeFree t := by
  rw [EscapeFree, String.toList_append, List.mem_append, not_or]
  rfl

theorem escapeFree_replicate {c : Char} (hc : c ≠ '\x1b') (n : Nat) :
    EscapeFree (String.ofList (List.replicate n c)) := by
  rw [EscapeFree, String.toList_ofList]
  exact fun h => hc (List.eq_of_mem_replicate h).symm

@[simp] theorem escapeFree_blanks (n : Nat) : EscapeFree (blanks n) := escapeFree_replicate (by decide) n

@[simp] theorem escapeFree_padLeft {width : Nat} : EscapeFree (padLeft width t) ↔ EscapeFree t :=
  escapeFree_append.trans (and_iff_right (escapeFree_blanks _))

@[simp] theorem escapeFree_repr (n : Nat) : EscapeFree n.repr := by
  intro h
  rw [Nat.toList_repr] at h
  exact absurd (Nat.isDigit_of_mem_toDigits (by decide) (by decide) h) (by decide)

/-- The marks on rows. -/
theorem escapeFree_marks : ∀ mark ∈ ["[", "]", ":", ": ", " ", "-->", "|", "...", "="], EscapeFree mark := by decide

end EscapeFree

/-! ## Pieces -/

section Pieces

variable {p : Piece} {ps : List Piece}

/-- The codes of a piece are those of its style. -/
theorem withoutCodes_write (h : EscapeFree p.text) (rest : List Char) :
    withoutCodes ((p.write true).toList ++ rest) = p.text.toList ++ withoutCodes rest := by
  obtain ⟨style, text⟩ := p
  cases style with
  | none => exact withoutCodes_append h rest
  | some s =>
    have hwrite : ((Piece.mk (some s) text).write true).toList = s.switch ++ text.toList ++ resetAll := by
      simp only [Piece.write, Style.apply, if_true, String.toList_ofList, switchAgain_of_not_mem s.switch h]
    rw [hwrite, List.append_assoc, List.append_assoc, withoutCodes_switch, withoutCodes_append h, withoutCodes_resetAll]

theorem writePieces_cons (color : Bool) (p : Piece) (ps : List Piece) :
    writePieces color (p :: ps) = p.write color ++ writePieces color ps := String.join_cons

theorem writePieces_append (color : Bool) (ps qs : List Piece) :
    writePieces color (ps ++ qs) = writePieces color ps ++ writePieces color qs := by
  induction ps with
  | nil => exact String.empty_append.symm
  | cons p ps ih => rw [List.cons_append, writePieces_cons, writePieces_cons, ih, String.append_assoc]

theorem withoutCodes_writePieces (h : ∀ p ∈ ps, EscapeFree p.text) (rest : List Char) :
    withoutCodes ((writePieces true ps).toList ++ rest) = (writePieces false ps).toList ++ withoutCodes rest := by
  induction ps with
  | nil => rfl
  | cons p ps ih =>
    obtain ⟨hp, hps⟩ := List.forall_mem_cons.1 h
    rw [writePieces_cons, writePieces_cons, String.toList_append, String.toList_append, List.append_assoc,
      withoutCodes_write hp, ih hps, write_false, List.append_assoc]

end Pieces

end Text

open Text

/-! ## Rows -/

/-- The texts on a row that are neither marks nor blanks nor numbers. -/
def Row.texts : Row → List String
  | header _ code message => code.toList ++ [message]
  | location file _ => [file]
  | bar => []
  | gap => []
  | source _ text => [text]
  | underline a => a.message.toList
  | remark title text => [title, text]

@[simp] theorem escapeFree_positionText (p : Position) : EscapeFree p.text := by
  rw [Position.text, escapeFree_append, escapeFree_append]
  exact ⟨⟨escapeFree_repr _, by decide⟩, escapeFree_repr _⟩

theorem escapeFree_severityName (s : Severity) : EscapeFree s.name := by
  cases s <;> decide

theorem escapeFree_underline (style : LabelStyle) (n : Nat) :
    EscapeFree (String.ofList (List.replicate n style.mark)) := by
  cases style <;> exact escapeFree_replicate (by decide) n

/-- The pieces of a row have no escapes that its texts do not have. -/
theorem Row.escapeFree_pieces {row : Row} (h : ∀ t ∈ row.texts, EscapeFree t) (gutter : Nat) :
    ∀ p ∈ row.pieces gutter, EscapeFree p.text := by
  have hmarks := escapeFree_marks
  simp only [List.forall_mem_cons] at hmarks
  cases row with
  | header severity code message =>
    have hname := escapeFree_severityName severity
    cases code <;> simp_all [Row.pieces, Row.texts, plain, Style.piece]
  | underline a =>
    have hunderline := escapeFree_underline a.style (a.stop - a.column)
    cases hmessage : a.message <;> simp_all [Row.pieces, Row.texts, plain, Style.piece]
  | _ => simp_all [Row.pieces, Row.texts, plain, Style.piece]

/-- What a line says stands in the source. -/
theorem mem_of_lineText? {source text : List Char} {line : Nat} (h : (ofChars source).lineText? line = some text)
    {c : Char} (hc : c ∈ text) : c ∈ source := by
  obtain ⟨n, rfl⟩ : ∃ n, line = n + 1 := by
    cases line with
    | zero => cases h
    | succ n => exact ⟨n, rfl⟩
  rcases Nat.lt_or_ge (source.count '\n') n with hn | hn
  · rw [lineText?_eq, List.getElem?_eq_none (by rw [length_splitOn]; omega)] at h
    cases h
  · obtain ⟨before, line, after, hline, rfl⟩ := exists_isLine_of_count hn
    rw [hline.lineText?_eq] at h
    obtain rfl := Option.some.inj h
    have hmem : c ∈ line := (List.rdropWhile_prefix (· = '\r') line).subset hc
    rw [hline.source_eq]
    exact List.mem_append_left _ (List.mem_append_right _ hmem)

section Rows

variable {source : List Char} {row : Row}

theorem escapeFree_of_mem_sourceRows (hsource : '\x1b' ∉ source) {as : List Annotation}
    (has : ∀ a ∈ as, ∀ t ∈ a.message, EscapeFree t) {previous : Option Nat} {lines : List Nat}
    (h : row ∈ sourceRows (ofChars source) as previous lines) : ∀ t ∈ row.texts, EscapeFree t := by
  induction lines generalizing previous with
  | nil => cases h
  | cons line rest ih =>
    simp only [sourceRows, List.mem_append, List.mem_cons, List.mem_map, or_assoc] at h
    rcases h with h | rfl | ⟨a, ha, rfl⟩ | h
    · split at h
      · obtain rfl := List.mem_singleton.1 h
        exact List.forall_mem_nil _
      · cases h
    · intro t ht
      obtain rfl := List.mem_singleton.1 ht
      rw [EscapeFree, String.toList_ofList]
      cases htext : (ofChars source).lineText? line with
      | none => exact List.not_mem_nil
      | some text => exact mt (mem_of_lineText? htext) hsource
    · rw [annotationsOn, List.mem_mergeSort] at ha
      exact fun t ht => has a (List.mem_of_mem_filter ha) t (Option.mem_toList.1 ht)
    · exact ih h

end Rows

/-! ## Diagnostics -/

/-- The texts of a diagnostic. -/
def Diagnostic.texts (d : Diagnostic) : List String :=
  d.code.toList ++ [d.message] ++ d.labels.filterMap Label.message ++ d.notes ++ d.help.toList

/-- A row and the end of its line, in pieces. -/
def Row.linePieces (gutter : Nat) (row : Row) : List Piece := row.pieces gutter ++ [plain "\n"]

theorem format_eq_writePieces (color : Bool) (map : LineMap) (file : Option String) (d : Diagnostic) :
    d.format color map file = writePieces color ((d.rows map file).flatMap (Row.linePieces (d.gutter map))) := by
  rw [Diagnostic.format]
  induction d.rows map file with
  | nil => rfl
  | cons row rows ih =>
    rw [List.map_cons, String.join_cons, ih, List.flatMap_cons, Row.linePieces, writePieces_append, writePieces_append]
    rfl

section Diagnostics

variable {source : String} {file : Option String} {d : Diagnostic}

theorem escapeFree_of_mem_rows (hsource : EscapeFree source) (hfile : ∀ name ∈ file, EscapeFree name)
    (hd : ∀ t ∈ d.texts, EscapeFree t) {row : Row} (h : row ∈ d.rows (ofString source) file) :
    ∀ t ∈ row.texts, EscapeFree t := by
  simp only [Diagnostic.texts, List.forall_mem_append, List.forall_mem_singleton] at hd
  obtain ⟨⟨⟨⟨hcode, hmessage⟩, hlabels⟩, hnotes⟩, hhelp⟩ := hd
  simp only [Diagnostic.rows, List.mem_cons, List.mem_append, or_assoc] at h
  rcases h with rfl | h | h | h | h
  · exact List.forall_mem_append.2 ⟨hcode, List.forall_mem_singleton.2 hmessage⟩
  · split at h
    · obtain rfl := List.mem_singleton.1 h
      refine List.forall_mem_singleton.2 ?_
      cases file with
      | none => decide
      | some name => exact hfile name rfl
    · cases h
  · split at h
    · cases h
    · simp only [List.cons_append, List.mem_cons, List.mem_append] at h
      rcases h with rfl | h | h
      · exact List.forall_mem_nil _
      · refine escapeFree_of_mem_sourceRows hsource (fun a ha t ht => ?_) h
        obtain ⟨l, hl, rfl⟩ := List.mem_map.1 ha
        exact hlabels t (List.mem_filterMap.2 ⟨l, hl, ht⟩)
      · split at h
        · cases h
        · obtain rfl := List.mem_singleton.1 h
          exact List.forall_mem_nil _
  · obtain ⟨note, hnote, rfl⟩ := List.mem_map.1 h
    exact List.forall_mem_cons.2 ⟨by decide, List.forall_mem_singleton.2 (hnotes note hnote)⟩
  · obtain ⟨help, hmem, rfl⟩ := Option.map_eq_some_iff.1 (Option.mem_toList.1 h)
    exact List.forall_mem_cons.2 ⟨by decide, List.forall_mem_singleton.2 (hhelp help (Option.mem_toList.2 hmem))⟩

/-- **Colour changes nothing.** Where no text of a diagnostic, neither the source nor the name of the file has an escape
in it, what is written with colour is what is written without, once the terminal codes are taken out. -/
theorem color_changes_nothing (hsource : EscapeFree source) (hfile : ∀ name ∈ file, EscapeFree name)
    (hd : ∀ t ∈ d.texts, EscapeFree t) :
    withoutColor (d.format true (ofString source) file) = d.format false (ofString source) file := by
  have hpieces : ∀ p ∈ (d.rows (ofString source) file).flatMap (Row.linePieces (d.gutter (ofString source))),
      EscapeFree p.text := by
    intro p hp
    obtain ⟨row, hrow, hp⟩ := List.mem_flatMap.1 hp
    rcases List.mem_append.1 hp with hp | hp
    · exact Row.escapeFree_pieces (escapeFree_of_mem_rows hsource hfile hd hrow) _ p hp
    · obtain rfl := List.mem_singleton.1 hp
      decide
  have hcodes := withoutCodes_writePieces hpieces []
  rw [withoutCodes_nil, List.append_nil, List.append_nil] at hcodes
  rw [format_eq_writePieces, format_eq_writePieces, withoutColor, hcodes, String.ofList_toList]

/-- A warning about one byte of the second line, with a note. -/
def oddByte : Diagnostic :=
  ⟨.warning, none, "odd", [⟨⟨3, 4⟩, .secondary, some "this"⟩], ["see above"], none⟩

/-- On the row of the second line, the blanks before its number stand between codes. -/
theorem color_changes_nothing_oddByte :
    EscapeFree "ab\ncd\n" ∧ (∀ name ∈ some "a.gs", EscapeFree name) ∧ (∀ t ∈ oddByte.texts, EscapeFree t) ∧
      writePieces true ((Row.source 2 "cd").pieces 2) = "\x1b[1;34m  2\x1b[0m \x1b[34m|\x1b[0m cd" ∧
      withoutColor (oddByte.format true (ofString "ab\ncd\n") (some "a.gs")) =
        oddByte.format false (ofString "ab\ncd\n") (some "a.gs") := by
  have hsource : EscapeFree "ab\ncd\n" := by decide
  have hfile : ∀ name ∈ some "a.gs", EscapeFree name := by decide
  have hd : ∀ t ∈ oddByte.texts, EscapeFree t := by decide
  exact ⟨hsource, hfile, hd, by decide, color_changes_nothing hsource hfile hd⟩

end Diagnostics

end GameScript
