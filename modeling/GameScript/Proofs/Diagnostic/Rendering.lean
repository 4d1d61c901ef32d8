import GameScript.Diagnostic.Terminal
import GameScript.Proofs.Source.Lines

/-!
# Labels in terminal text

What a label becomes on a terminal can be told from the bytes of the source alone. Its underline stands below the line
that it starts on (`Label.IsUnderlinedBy`), and a `DrawnLine` is such a line with the underlines below it, in the order
of `Label.before`. Underlines are sorted after they are made, so it has to be shown that on one line their order is that
of the labels they are made of (`annotationsOn_eq`). The rows of a diagnostic are those of its drawn lines
(`sourceRows_eq`), and the bars of all of them stand in the same column, because no line number is wider than the gutter
that the greatest one asks for (`Row.bar_aligned`).

Main statement: every label is placed (`labels_placed`).
-/

namespace GameScript

open Text LineMap

/-! ## Underlines -/

/-- The underline of a label, on a line that starts at `start` and has a text: it starts where the label does, and
covers the bytes of the label up to its end, or up to the end of the text where the label goes on after the line. Its
column is at least 1 and less than where it stops, and the line starts no later than the label (`StartsLine.start_le`);
so no difference that is drawn takes more away than there is. -/
structure Label.IsUnderlinedBy (source text : List Char) (l : Label) (a : Annotation) : Prop where
  line_eq : a.line = newlinesBefore source l.span.start + 1
  /-- There are as many columns before the underline as bytes of the line before the label. -/
  place : ∃ start, StartsLine source l.span.start start ∧ 1 ≤ a.column ∧ a.column - 1 = l.span.start - start ∧
    a.column < a.stop ∧ a.stop - a.column = max 1
      ((if newlinesBefore source l.span.stop = newlinesBefore source l.span.start then l.span.stop
        else start + byteLength text) - l.span.start)
  style_eq : a.style = l.style
  message_eq : a.message = l.message

/-- The text of a line, counted from 1: the piece between newlines without the carriage returns at its end. -/
def IsLineText (source : List Char) (line : Nat) (text : List Char) : Prop :=
  1 ≤ line ∧ ((source.splitOn '\n')[line - 1]?).map (·.rdropWhile (· = '\r')) = some text

section Underlines

variable {source : List Char} {l : Label}

theorem lineText?_of_isLineText {line : Nat} {text : List Char} (h : IsLineText source line text) :
    (ofChars source).lineText? line = some text := by
  obtain ⟨n, rfl⟩ : ∃ n, line = n + 1 := ⟨line - 1, by have := h.1; omega⟩
  rw [lineText?_eq]
  exact h.2

/-- A label that lies in the source starts on a line of it. -/
theorem exists_isLineText {offset : Nat} (h : offset ≤ byteLength source) :
    ∃ text, IsLineText source (newlinesBefore source offset + 1) text := by
  obtain ⟨before, line, after, hline, hle, hstop⟩ := exists_isLine h
  refine ⟨dropTrailingReturns line, Nat.le_add_left _ _, ?_⟩
  rw [Nat.add_sub_cancel, hline.newlinesBefore_eq hle hstop, hline.splitOn_eq]
  rfl

/-- Where the underline of a label starts. -/
theorem annotation_place (hsize : byteLength source + 1 < wordCount) {before line after : List Char}
    (hline : IsLine source before line after) (hle : byteLength before ≤ l.span.start)
    (hstop : l.span.start ≤ byteLength before + byteLength line) :
    (l.annotation (ofChars source)).line = newlinesBefore source l.span.start + 1 ∧
      (l.annotation (ofChars source)).column = l.span.start - byteLength before + 1 := by
  rw [Label.annotation, hline.position_counted hle hstop hsize]
  exact ⟨rfl, rfl⟩

theorem annotation_line (hsize : byteLength source + 1 < wordCount) (hl : l.span.start ≤ byteLength source) :
    (l.annotation (ofChars source)).line = newlinesBefore source l.span.start + 1 := by
  obtain ⟨before, line, after, hline, hle, hstop⟩ := exists_isLine hl
  exact (annotation_place hsize hline hle hstop).1

/-- Two offsets behind as many newlines are on lines that start at the same place. -/
theorem start_eq_of_newlinesBefore {before line after before' line' after' : List Char} {offset offset' : Nat}
    (hline : IsLine source before line after) (hle : byteLength before ≤ offset)
    (hstop : offset ≤ byteLength before + byteLength line) (hline' : IsLine source before' line' after')
    (hle' : byteLength before' ≤ offset') (hstop' : offset' ≤ byteLength before' + byteLength line')
    (h : newlinesBefore source offset = newlinesBefore source offset') : byteLength before = byteLength before' := by
  have hstart := hline.lineStart?_eq
  rw [← hline.newlinesBefore_eq hle hstop, h, hline'.newlinesBefore_eq hle' hstop', hline'.lineStart?_eq] at hstart
  exact (Option.some.inj hstart).symm

theorem annotation_eq (hsize : byteLength source + 1 < wordCount) {text : List Char}
    {before line after : List Char} (hline : IsLine source before line after) (hle : byteLength before ≤ l.span.start)
    (hend : l.span.start ≤ byteLength before + byteLength line) (hstop : l.span.stop ≤ byteLength source)
    (htext : IsLineText source (newlinesBefore source l.span.start + 1) text) :
    l.annotation (ofChars source) =
      ⟨newlinesBefore source l.span.start + 1, l.span.start - byteLength before + 1,
        max (if newlinesBefore source l.span.stop = newlinesBefore source l.span.start
          then l.span.stop - byteLength before + 1 else byteLength text + 1) (l.span.start - byteLength before + 1 + 1),
        l.style, l.message⟩ := by
  obtain ⟨before', line', after', hline', hle', hend'⟩ := exists_isLine hstop
  rw [Label.annotation, hline.position_counted hle hend hsize, hline'.position_counted hle' hend' hsize]
  dsimp only
  rw [lineText?_of_isLineText htext]
  dsimp only
  by_cases h : newlinesBefore source l.span.stop = newlinesBefore source l.span.start
  · have hstart := start_eq_of_newlinesBefore hline' hle' hend' hline hle hend h
    rw [if_pos (congrArg (· + 1) h), if_pos h, hstart]
  · rw [if_neg fun heq => h (Nat.succ.inj heq), if_neg h]

theorem isUnderlinedBy_annotation (hsize : byteLength source + 1 < wordCount) (hle : l.span.start ≤ l.span.stop)
    (hstop : l.span.stop ≤ byteLength source) {text : List Char}
    (htext : IsLineText source (newlinesBefore source l.span.start + 1) text) :
    l.IsUnderlinedBy source text (l.annotation (ofChars source)) := by
  obtain ⟨before, line, after, hline, hstart, hend⟩ := exists_isLine (hle.trans hstop)
  rw [annotation_eq hsize hline hstart hend hstop htext]
  refine ⟨rfl, ⟨byteLength before, hline.startsLine hstart hend, Nat.le_add_left _ _, rfl, ?_, ?_⟩, rfl, rfl⟩
  · exact Nat.lt_of_lt_of_le (Nat.lt_succ_self _) (Nat.le_max_right _ _)
  · dsimp only
    split <;> omega

end Underlines

/-! ## The lines of labels -/

/-- The lines of underlines are in order, each of them once. -/
theorem pairwise_lt_eraseDups {ns : List Nat} (h : ns.Pairwise (· ≤ ·)) : ns.eraseDups.Pairwise (· < ·) := by
  induction hn : ns.length using Nat.strong_induction_on generalizing ns with
  | _ n ih =>
    -- what is left after the first number has been taken out is shorter, but no tail of the list
    cases ns with
    | nil => exact .nil
    | cons a ns =>
      obtain ⟨ha, hns⟩ := List.pairwise_cons.1 h
      rw [List.eraseDups_cons]
      refine List.pairwise_cons.2 ⟨fun b hb => ?_, ?_⟩
      · obtain ⟨hb, hne⟩ := List.mem_filter.1 (List.mem_eraseDups.1 hb)
        have hba : b ≠ a := by simpa using hne
        have := ha b hb
        omega
      · refine ih _ ?_ (hns.filter _) rfl
        rw [← hn, List.length_cons]
        exact Nat.lt_succ_of_le (List.length_filter_le _ _)

theorem pairwise_markedLines (as : List Annotation) : (markedLines as).Pairwise (· < ·) := by
  refine pairwise_lt_eraseDups ?_
  have htrans (a b c : Nat) (hab : decide (a ≤ b) = true) (hbc : decide (b ≤ c) = true) : decide (a ≤ c) = true :=
    decide_eq_true ((of_decide_eq_true hab).trans (of_decide_eq_true hbc))
  have htotal (a b : Nat) : (decide (a ≤ b) || decide (b ≤ a)) = true := by
    simpa using Nat.le_total a b
  exact (List.pairwise_mergeSort htrans htotal (as.map Annotation.line)).imp fun h => of_decide_eq_true h

theorem mem_markedLines {as : List Annotation} {n : Nat} : n ∈ markedLines as ↔ ∃ a ∈ as, a.line = n := by
  rw [markedLines, List.mem_eraseDups, List.mem_mergeSort, List.mem_map]

/-- What the order of underlines says. -/
theorem order_of_before {a b : Annotation} (h : a.before b = true) :
    a.style = b.style ∧ a.column ≤ b.column ∨ a.style = .primary ∧ b.style = .secondary := by
  unfold Annotation.before at h
  split at h
  · rename_i hstyle
    exact .inl ⟨hstyle, of_decide_eq_true h⟩
  · rename_i hstyle
    have ha := of_decide_eq_true h
    refine .inr ⟨ha, ?_⟩
    cases hb : b.style with
    | primary => exact absurd (ha.trans hb.symm) hstyle
    | secondary => rfl

/-! ## Labels on one line -/

/-- Labels that start on one line stand in this order: primary ones first, then by where they start. -/
def Label.before (a b : Label) : Bool :=
  if a.style = b.style then decide (a.span.start ≤ b.span.start) else decide (a.style = .primary)

theorem Label.before_trans (a b c : Label) (hab : a.before b = true) (hbc : b.before c = true) :
    a.before c = true := by
  unfold Label.before at *
  cases ha : a.style <;> cases hb : b.style <;> cases hc : c.style <;> simp_all <;> omega

theorem Label.before_total (a b : Label) : (a.before b || b.before a) = true := by
  unfold Label.before
  cases ha : a.style <;> cases hb : b.style <;> simp <;> omega

/-- The labels that start on a line, in order. -/
def labelsOn (source : List Char) (labels : List Label) (line : Nat) : List Label :=
  (labels.filter fun l => newlinesBefore source l.span.start + 1 = line).mergeSort Label.before

section LabelsOn

variable {source : List Char} {labels : List Label} {line : Nat}

/-- On one line, columns are in the order of offsets. -/
theorem annotation_before_eq {a b : Label} (hsize : byteLength source + 1 < wordCount)
    (ha : a.span.start ≤ byteLength source) (hb : b.span.start ≤ byteLength source)
    (h : newlinesBefore source a.span.start = newlinesBefore source b.span.start) :
    (a.annotation (ofChars source)).before (b.annotation (ofChars source)) = a.before b := by
  obtain ⟨before, line, after, hline, hle, hstop⟩ := exists_isLine ha
  obtain ⟨before', line', after', hline', hle', hstop'⟩ := exists_isLine hb
  have hstart := start_eq_of_newlinesBefore hline hle hstop hline' hle' hstop' h
  have hcolumn := (annotation_place hsize hline hle hstop).2
  have hcolumn' := (annotation_place hsize hline' hle' hstop').2
  have hcolumns : (a.annotation (ofChars source)).column ≤ (b.annotation (ofChars source)).column ↔
      a.span.start ≤ b.span.start := by
    rw [hcolumn, hcolumn']
    omega
  unfold Annotation.before Label.before
  rw [decide_eq_decide.2 hcolumns]
  rfl

/-- To sort the underlines of a line is to sort its labels. -/
theorem annotationsOn_eq (hsize : byteLength source + 1 < wordCount)
    (hlabels : ∀ l ∈ labels, l.span.start ≤ byteLength source) :
    annotationsOn (labels.map (Label.annotation (ofChars source))) line =
      (labelsOn source labels line).map (Label.annotation (ofChars source)) := by
  have hfilter : (labels.map (Label.annotation (ofChars source))).filter (fun a => a.line = line) =
      (labels.filter fun l => newlinesBefore source l.span.start + 1 = line).map
        (Label.annotation (ofChars source)) := by
    rw [List.filter_map]
    congr 1
    refine List.filter_congr fun l hl => ?_
    rw [Function.comp_apply, annotation_line hsize (hlabels l hl)]
  rw [annotationsOn, hfilter, labelsOn, List.map_mergeSort]
  intro a ha b hb
  obtain ⟨ha, hla⟩ := List.mem_filter.1 ha
  obtain ⟨hb, hlb⟩ := List.mem_filter.1 hb
  simp only [decide_eq_true_eq] at hla hlb
  exact (annotation_before_eq hsize (hlabels a ha) (hlabels b hb) (by omega)).symm

end LabelsOn

/-! ## Drawn lines -/

/-- A line of the source as it is drawn: whether dots stand above it, its number and text, the labels that start on it
and their underlines. -/
structure DrawnLine where
  gap : Bool
  line : Nat
  text : List Char
  labels : List Label
  underlines : List Annotation

/-- The rows of a drawn line; its underlines stand directly below it. -/
def DrawnLine.rows (b : DrawnLine) : List Row :=
  (if b.gap then [Row.gap] else []) ++ Row.source b.line (String.ofList b.text) :: b.underlines.map .underline

/-- Lines as they are drawn after a line that was drawn already, if any. -/
def drawnLines (source : List Char) (labels : List Label) : (previous : Option Nat) → List Nat → List DrawnLine
  | _, [] => []
  | previous, line :: rest =>
    ⟨previous.any fun p => decide (p + 1 < line), line, ((ofChars source).lineText? line).getD [],
      labelsOn source labels line, (labelsOn source labels line).map (Label.annotation (ofChars source))⟩ ::
      drawnLines source labels (some line) rest

section DrawnLines

variable {source : List Char} {labels : List Label}

theorem sourceRows_eq (hsize : byteLength source + 1 < wordCount)
    (hlabels : ∀ l ∈ labels, l.span.start ≤ byteLength source) (previous : Option Nat) (lines : List Nat) :
    sourceRows (ofChars source) (labels.map (Label.annotation (ofChars source))) previous lines =
      (drawnLines source labels previous lines).flatMap DrawnLine.rows := by
  induction lines generalizing previous with
  | nil => rfl
  | cons line rest ih =>
    rw [sourceRows, drawnLines, List.flatMap_cons, ih, annotationsOn_eq hsize hlabels]
    simp [DrawnLine.rows]

theorem map_line_drawnLines (previous : Option Nat) (lines : List Nat) :
    (drawnLines source labels previous lines).map DrawnLine.line = lines := by
  induction lines generalizing previous with
  | nil => rfl
  | cons line rest ih => rw [drawnLines, List.map_cons, ih]

/-- Dots stand above a line exactly when the line before it is not the one that was drawn last. -/
theorem isChain_drawnLines {lines : List Nat} (h : lines.Pairwise (· < ·)) (previous : Option Nat) :
    (drawnLines source labels previous lines).IsChain fun a b => b.gap = true ↔ a.line + 1 ≠ b.line := by
  induction lines generalizing previous with
  | nil => exact .nil
  | cons line rest ih =>
    obtain ⟨hline, hrest⟩ := List.pairwise_cons.1 h
    rw [drawnLines, List.isChain_cons]
    refine ⟨fun b hb => ?_, ih hrest _⟩
    cases rest with
    | nil => cases hb
    | cons next rest =>
      obtain rfl := Option.some.inj hb
      have hlt := hline next List.mem_cons_self
      simp only [Option.any_some, decide_eq_true_eq]
      omega

theorem mem_drawnLines {previous : Option Nat} {lines : List Nat} {b : DrawnLine}
    (h : b ∈ drawnLines source labels previous lines) :
    b.line ∈ lines ∧ b.text = ((ofChars source).lineText? b.line).getD [] ∧ b.labels = labelsOn source labels b.line ∧
      b.underlines = b.labels.map (Label.annotation (ofChars source)) := by
  induction lines generalizing previous with
  | nil => cases h
  | cons line rest ih =>
    rcases List.mem_cons.1 h with rfl | h
    · exact ⟨List.mem_cons_self, rfl, rfl, rfl⟩
    · exact (ih h).imp_left (List.mem_cons_of_mem _)

/-- Nothing stands above the first line. -/
theorem first_gap_drawnLines {lines : List Nat} : ∀ b ∈ (drawnLines source labels none lines).head?, b.gap = false := by
  intro b hb
  cases lines with
  | nil => cases hb
  | cons line rest =>
    obtain rfl := Option.some.inj hb
    rfl

theorem flatMap_labels_drawnLines (previous : Option Nat) (lines : List Nat) :
    (drawnLines source labels previous lines).flatMap DrawnLine.labels = lines.flatMap (labelsOn source labels) := by
  induction lines generalizing previous with
  | nil => rfl
  | cons line rest ih => rw [drawnLines, List.flatMap_cons, List.flatMap_cons, ih]

end DrawnLines

/-- Sorting out by a number that each item has leaves out no item and takes none twice. -/
theorem perm_flatMap_filter {α : Type} {f : α → Nat} {ns : List Nat} (hns : ns.Nodup) {items : List α}
    (h : ∀ a ∈ items, f a ∈ ns) : (ns.flatMap fun n => items.filter fun a => f a = n).Perm items := by
  induction ns generalizing items with
  | nil =>
    cases items with
    | nil => exact .nil
    | cons a items => exact absurd (h a List.mem_cons_self) List.not_mem_nil
  | cons n ns ih =>
    obtain ⟨hn, hns⟩ := List.nodup_cons.1 hns
    have hother : (ns.flatMap fun m => (items.filter fun a => !decide (f a = n)).filter fun a => f a = m) =
        ns.flatMap fun m => items.filter fun a => f a = m := by
      refine List.flatMap_congr fun m hm => ?_
      rw [List.filter_filter]
      refine List.filter_congr fun a _ => ?_
      by_cases ha : f a = m
      · have hne : m ≠ n := fun he => hn (he ▸ hm)
        simp [ha, hne]
      · simp [ha]
    rw [List.flatMap_cons, ← hother]
    refine (List.Perm.append_left _ (ih hns fun a ha => ?_)).trans (List.filter_append_perm _ _)
    obtain ⟨ha, hne⟩ := List.mem_filter.1 ha
    exact (List.mem_cons.1 (h a ha)).resolve_left (by simpa using hne)

/-! ## What rows look like -/

/-- The text of a row without colour. -/
def Row.text (gutter : Nat) (row : Row) : String := writePieces false (row.pieces gutter)

/-- Whether a bar is drawn on a row. -/
def Row.hasBar : Row → Bool
  | .bar | .source _ _ | .underline _ => true
  | _ => false

section Rows

variable {gutter : Nat}

theorem write_false (p : Piece) : p.write false = p.text := by
  unfold Piece.write Style.apply
  split <;> rfl

theorem writePieces_false (ps : List Piece) : writePieces false ps = String.join (ps.map Piece.text) := by
  rw [writePieces, List.map_congr_left fun p _ => write_false p]

theorem Row.text_bar : Row.bar.text gutter = blanks (gutter + 1) ++ " " ++ "|" := by
  simp [Row.text, writePieces_false, Row.pieces, plain, Style.piece, String.join, -String.reduceAppend]

theorem Row.text_gap : Row.gap.text gutter = blanks gutter ++ " " ++ "..." := by
  simp [Row.text, writePieces_false, Row.pieces, plain, Style.piece, String.join, -String.reduceAppend]

theorem Row.text_source (line : Nat) (text : String) :
    (Row.source line text).text gutter = padLeft (gutter + 1) (toString line) ++ " " ++ "|" ++ (" " ++ text) := by
  simp [Row.text, writePieces_false, Row.pieces, plain, Style.piece, String.join, -String.reduceAppend]

/-- What a label says, behind the marks of its underline. -/
def Annotation.remark (a : Annotation) : String :=
  match a.message with
  | none => ""
  | some message => " " ++ message

theorem Row.text_underline (a : Annotation) :
    (Row.underline a).text gutter = blanks (gutter + 1) ++ " " ++ "|" ++ (" " ++ blanks (a.column - 1) ++
      String.ofList (List.replicate (a.stop - a.column) a.style.mark) ++ a.remark) := by
  cases h : a.message <;>
    simp [Row.text, writePieces_false, Row.pieces, plain, Style.piece, String.join, String.append_assoc,
      Annotation.remark, h, -String.reduceAppend]

/-- Greater numbers are not shorter. -/
theorem length_toString_mono {m n : Nat} (h : m ≤ n) : (toString m).length ≤ (toString n).length := by
  have hpos : 0 < n.repr.length := Nat.length_repr_pos
  exact (Nat.length_repr_le_iff hpos).2 (h.trans_lt ((Nat.length_repr_le_iff hpos).1 (Nat.le_refl _)))

theorem length_padLeft {width : Nat} {text : String} (h : text.length ≤ width) :
    (padLeft width text).length = width := by
  simp [padLeft]
  omega

theorem getElem?_behind {front back : String} {n : Nat} (h : front.length = n) :
    (front ++ "|" ++ back).toList[n]? = some '|' := by
  have hfront : front.toList.length = n := h ▸ String.length_toList
  rw [String.toList_append, String.toList_append, List.append_assoc, List.getElem?_append_right hfront.le, hfront,
    Nat.sub_self]
  rfl

/-- The bar of a row stands behind the gutter, if a line number is no wider than that. -/
theorem Row.bar_aligned {row : Row} (hbar : row.hasBar = true)
    (hline : ∀ line text, row = .source line text → (toString line).length ≤ gutter) :
    (row.text gutter).toList[gutter + 2]? = some '|' := by
  have hblanks : (blanks (gutter + 1) ++ " ").length = gutter + 2 := by
    rw [blanks, String.length_append, String.length_ofList, List.length_replicate]
    rfl
  cases row with
  | bar =>
    rw [Row.text_bar, ← String.append_empty (s := blanks (gutter + 1) ++ " " ++ "|")]
    exact getElem?_behind hblanks
  | source line text =>
    rw [Row.text_source]
    refine getElem?_behind ?_
    rw [String.length_append, length_padLeft ((hline line text rfl).trans (Nat.le_succ _))]
    rfl
  | underline a =>
    rw [Row.text_underline]
    exact getElem?_behind hblanks
  | _ => cases hbar

end Rows

/-! ## Diagnostics -/

/-- A drawn line shows its text and, directly below, the underlines of those of some labels that start on it. -/
structure DrawnLine.Shows (source : List Char) (labels : List Label) (b : DrawnLine) : Prop where
  text_eq : IsLineText source b.line b.text
  labels_perm : b.labels.Perm (labels.filter fun l => newlinesBefore source l.span.start + 1 = b.line)
  underlined : List.Forall₂ (fun l a => l.IsUnderlinedBy source b.text a) b.labels b.underlines
  /-- Primary ones come first, then columns decide. -/
  ordered : b.underlines.Pairwise fun a a' =>
    a.style = a'.style ∧ a.column ≤ a'.column ∨ a.style = .primary ∧ a'.style = .secondary
  /-- Labels that are alike in this stay in the order in which they are given. -/
  stable : ∀ l m : Label, l.style = m.style → l.span.start = m.span.start →
    [l, m].Sublist (labels.filter fun l => newlinesBefore source l.span.start + 1 = b.line) → [l, m].Sublist b.labels

namespace Diagnostic

/-- The lines of a source that are drawn for a diagnostic. -/
def drawn (source : List Char) (d : Diagnostic) : List DrawnLine :=
  drawnLines source d.labels none (markedLines (d.annotations (ofChars source)))

/-- The rows of notes and help. -/
def remarks (d : Diagnostic) : List Row := d.notes.map (Row.remark "note") ++ (d.help.map (Row.remark "help")).toList

/-- Where the labels of a diagnostic are placed. -/
structure PlacesLabels (source : List Char) (d : Diagnostic) : Prop where
  rows_eq : ∀ file, d.rows (ofChars source) file =
    Row.header d.severity d.code d.message ::
      (d.primarySpan?.map fun span =>
        Row.location (file.getD unnamed) ((ofChars source).position span.start)).toList ++
      (if d.labels.isEmpty then []
        else Row.bar :: (d.drawn source).flatMap DrawnLine.rows ++ (if d.remarks.isEmpty then [] else [Row.bar])) ++
      d.remarks
  /-- The lines that labels start on are drawn, each of them once and in order. -/
  mem_lines_iff : ∀ n, n ∈ (d.drawn source).map DrawnLine.line ↔
    ∃ l ∈ d.labels, newlinesBefore source l.span.start + 1 = n
  increasing : ((d.drawn source).map DrawnLine.line).Pairwise (· < ·)
  /-- Dots stand between lines that are not adjacent. -/
  gaps : (d.drawn source).IsChain fun b c => c.gap = true ↔ b.line + 1 ≠ c.line
  first_gap : ∀ b ∈ (d.drawn source).head?, b.gap = false
  /-- Each label is underlined once, on the line that it starts on. -/
  labels_perm : ((d.drawn source).flatMap DrawnLine.labels).Perm d.labels
  shows : ∀ b ∈ d.drawn source, b.Shows source d.labels
  /-- What the rows look like. -/
  format_eq : ∀ file, d.format false (ofChars source) file =
    String.join ((d.rows (ofChars source) file).map fun row => row.text (d.gutter (ofChars source)) ++ "\n")
  gap_text : Row.gap.text (d.gutter (ofChars source)) = blanks (d.gutter (ofChars source)) ++ " " ++ "..."
  source_text : ∀ b ∈ d.drawn source, (Row.source b.line (String.ofList b.text)).text (d.gutter (ofChars source)) =
    padLeft (d.gutter (ofChars source) + 1) (toString b.line) ++ " " ++ "|" ++ (" " ++ String.ofList b.text)
  underline_text : ∀ b ∈ d.drawn source, ∀ a ∈ b.underlines,
    (Row.underline a).text (d.gutter (ofChars source)) =
      blanks (d.gutter (ofChars source) + 1) ++ " " ++ "|" ++ (" " ++ blanks (a.column - 1) ++
        String.ofList (List.replicate (a.stop - a.column) a.style.mark) ++ a.remark)
  /-- The bars of all rows stand in one column. -/
  aligned : ∀ file, ∀ row ∈ d.rows (ofChars source) file, row.hasBar = true →
    (row.text (d.gutter (ofChars source))).toList[d.gutter (ofChars source) + 2]? = some '|'

end Diagnostic

section Placed

variable {source : List Char} {d : Diagnostic}

theorem source_mem_sourceRows {map : LineMap} {as : List Annotation} {line : Nat} {text : String}
    {previous : Option Nat} {lines : List Nat} (h : Row.source line text ∈ sourceRows map as previous lines) :
    line ∈ lines := by
  induction lines generalizing previous with
  | nil => cases h
  | cons n rest ih =>
    rw [sourceRows] at h
    rcases List.mem_append.1 h with h | h
    · rcases List.mem_append.1 h with h | h
      · split at h <;> simp at h
      · rcases List.mem_cons.1 h with h | h
        · obtain ⟨rfl, -⟩ := Row.source.inj h
          exact List.mem_cons_self
        · simp at h
    · exact List.mem_cons_of_mem _ (ih h)

/-- The number of a row is one of the lines that underlines stand on. -/
theorem source_mem_rows {map : LineMap} {file : Option String} {line : Nat} {text : String}
    (h : Row.source line text ∈ d.rows map file) : line ∈ markedLines (d.annotations map) := by
  simp only [Diagnostic.rows, List.mem_cons, List.mem_append, reduceCtorEq, false_or] at h
  rcases h with (h | h) | h
  · split at h <;> simp at h
  · split at h
    · cases h
    · rcases List.mem_append.1 h with h | h
      · exact source_mem_sourceRows ((List.mem_cons.1 h).resolve_left (by simp))
      · split at h <;> simp at h
  · simp at h

theorem mem_markedLines_annotations (hsize : byteLength source + 1 < wordCount)
    (hlabels : ∀ l ∈ d.labels, l.span.start ≤ byteLength source) {n : Nat} :
    n ∈ markedLines (d.annotations (ofChars source)) ↔
      ∃ l ∈ d.labels, newlinesBefore source l.span.start + 1 = n := by
  rw [mem_markedLines, Diagnostic.annotations]
  simp only [List.mem_map, exists_exists_and_eq_and]
  exact exists_congr fun l => and_congr_right fun hl => by rw [annotation_line hsize (hlabels l hl)]

/-- No line number is wider than the gutter. -/
theorem length_le_gutter {map : LineMap} {n : Nat} (h : n ∈ markedLines (d.annotations map)) :
    (toString n).length ≤ d.gutter map := by
  cases hlast : (markedLines (d.annotations map)).getLast? with
  | none =>
    rw [List.getLast?_eq_none_iff.1 hlast] at h
    cases h
  | some last =>
    have hn : n ≤ last := by
      obtain ⟨front, hfront⟩ := List.getLast?_eq_some_iff.1 hlast
      have hsorted := pairwise_markedLines (d.annotations map)
      rw [hfront] at h hsorted
      rcases List.mem_append.1 h with h | h
      · exact ((List.pairwise_append.1 hsorted).2.2 n h last List.mem_cons_self).le
      · exact (List.mem_singleton.1 h).le
    rw [Diagnostic.gutter, hlast]
    exact (length_toString_mono hn).trans (Nat.le_max_right _ _)

theorem rows_eq_drawn (hsize : byteLength source + 1 < wordCount)
    (hlabels : ∀ l ∈ d.labels, l.span.start ≤ byteLength source) (file : Option String) :
    d.rows (ofChars source) file =
      Row.header d.severity d.code d.message ::
        (d.primarySpan?.map fun span =>
          Row.location (file.getD Diagnostic.unnamed) ((ofChars source).position span.start)).toList ++
        (if d.labels.isEmpty then []
          else Row.bar :: (d.drawn source).flatMap DrawnLine.rows ++ (if d.remarks.isEmpty then [] else [Row.bar])) ++
        d.remarks := by
  have hempty : (markedLines (d.annotations (ofChars source))).isEmpty = d.labels.isEmpty := by
    rw [Bool.eq_iff_iff, List.isEmpty_iff, List.isEmpty_iff, List.eq_nil_iff_forall_not_mem,
      List.eq_nil_iff_forall_not_mem]
    simp only [mem_markedLines_annotations hsize hlabels]
    exact ⟨fun h l hl => h _ ⟨l, hl, rfl⟩, fun h n ⟨l, hl, _⟩ => h l hl⟩
  have hsource : sourceRows (ofChars source) (d.annotations (ofChars source)) none
      (markedLines (d.annotations (ofChars source))) = (d.drawn source).flatMap DrawnLine.rows :=
    sourceRows_eq hsize hlabels none _
  rw [Diagnostic.rows]
  simp only [hempty, hsource]
  cases d.primarySpan? <;> rfl

theorem shows_drawn (hsize : byteLength source + 1 < wordCount)
    (hlabels : ∀ l ∈ d.labels, l.span.start ≤ l.span.stop ∧ l.span.stop ≤ byteLength source) {b : DrawnLine}
    (hb : b ∈ d.drawn source) : b.Shows source d.labels := by
  have hstarts (l : Label) (hl : l ∈ d.labels) : l.span.start ≤ byteLength source :=
    (hlabels l hl).1.trans (hlabels l hl).2
  obtain ⟨hline, htext, hb, hunderlines⟩ := mem_drawnLines hb
  have hmem {l : Label} (hl : l ∈ b.labels) : l ∈ d.labels ∧ newlinesBefore source l.span.start + 1 = b.line := by
    rw [hb, labelsOn, List.mem_mergeSort] at hl
    simpa using List.mem_filter.1 hl
  have htext : IsLineText source b.line b.text := by
    obtain ⟨l, hl, hlb⟩ := (mem_markedLines_annotations hsize hstarts).1 hline
    obtain ⟨text, hltext⟩ := exists_isLineText (hstarts l hl)
    rw [hlb] at hltext
    rw [htext, lineText?_of_isLineText hltext]
    exact hltext
  -- sorting labels keeps them all, and those apart that are alike; underlines are sorted as their labels are
  refine ⟨htext, ?_, ?_, ?_, fun l m hstyle hstart hlm => ?_⟩
  · rw [hb]
    exact List.mergeSort_perm _ _
  · rw [hunderlines, List.forall₂_map_right_iff, List.forall₂_same]
    intro l hl
    obtain ⟨hl, hlb⟩ := hmem hl
    exact isUnderlinedBy_annotation hsize (hlabels l hl).1 (hlabels l hl).2 (hlb ▸ htext)
  · rw [hunderlines, List.pairwise_map]
    have hsorted : b.labels.Pairwise fun l m => l.before m = true := by
      rw [hb]
      exact List.pairwise_mergeSort Label.before_trans Label.before_total _
    refine hsorted.imp_of_mem fun {l m} hl hm hlm => ?_
    obtain ⟨hl, hlb⟩ := hmem hl
    obtain ⟨hm, hmb⟩ := hmem hm
    rw [← annotation_before_eq hsize (hstarts l hl) (hstarts m hm) (by omega)] at hlm
    exact order_of_before hlm
  · rw [hb]
    exact List.pair_sublist_mergeSort Label.before_trans Label.before_total (by simp [Label.before, hstyle, hstart]) hlm

/-- **Every label is placed.** In a source of fewer bytes than the words of 32 bits less one, a diagnostic whose labels
lie in the source draws each line that a label starts on, with the underlines of these labels below it. -/
theorem labels_placed (hsize : byteLength source + 1 < wordCount)
    (hlabels : ∀ l ∈ d.labels, l.span.start ≤ l.span.stop ∧ l.span.stop ≤ byteLength source) :
    d.PlacesLabels source := by
  have hstarts (l : Label) (hl : l ∈ d.labels) : l.span.start ≤ byteLength source :=
    (hlabels l hl).1.trans (hlabels l hl).2
  have hlines : (d.drawn source).map DrawnLine.line = markedLines (d.annotations (ofChars source)) :=
    map_line_drawnLines none _
  have hmem (n : Nat) := mem_markedLines_annotations hsize hstarts (n := n)
  have hsorted := pairwise_markedLines (d.annotations (ofChars source))
  exact
    { rows_eq := rows_eq_drawn hsize hstarts
      mem_lines_iff := fun n => by rw [hlines, hmem]
      increasing := hlines ▸ hsorted
      gaps := isChain_drawnLines hsorted none
      first_gap := first_gap_drawnLines
      labels_perm := by
        have hlabelsOn : (d.drawn source).flatMap DrawnLine.labels =
            (markedLines (d.annotations (ofChars source))).flatMap (labelsOn source d.labels) :=
          flatMap_labels_drawnLines none _
        rw [hlabelsOn]
        refine (List.Perm.flatMap_left _ fun n _ => List.mergeSort_perm _ _).trans ?_
        exact perm_flatMap_filter (hsorted.imp Nat.ne_of_lt) fun l hl => (hmem _).2 ⟨l, hl, rfl⟩
      shows := fun b hb => shows_drawn hsize hlabels hb
      format_eq := fun file => rfl
      gap_text := Row.text_gap
      source_text := fun b _ => Row.text_source b.line _
      underline_text := fun b _ a _ => Row.text_underline a
      aligned := fun file row hrow hbar => Row.bar_aligned hbar fun line text hsource =>
        length_le_gutter (source_mem_rows (hsource ▸ hrow)) }

/-- Four lines and the start of a fifth; the third one is empty, and the fourth one ends in a carriage return. -/
def crowdedText : List Char := "ab\ncde\n\nfg\r\nh".toList

/-- Labels on the second and the fourth line: one that goes on after its line, an empty one, one on the carriage return,
and a primary one between the first two. -/
def crowded : Diagnostic :=
  ⟨.error, none, "too much", [⟨⟨3, 9⟩, .secondary, some "from here"⟩, ⟨⟨5, 5⟩, .secondary, none⟩,
    ⟨⟨10, 11⟩, .primary, some "end"⟩, ⟨⟨4, 6⟩, .primary, some "here"⟩], [], some "split it"⟩

/-- The primary label comes first on its line, and the one on the carriage return gets a mark behind the text. -/
theorem labels_placed_crowded :
    byteLength crowdedText + 1 < wordCount ∧
      (∀ l ∈ crowded.labels, l.span.start ≤ l.span.stop ∧ l.span.stop ≤ byteLength crowdedText) ∧
      crowded.PlacesLabels crowdedText ∧
      (crowded.drawn crowdedText).map (fun b => (b.gap, b.line, b.text, b.underlines)) =
        [(false, 2, "cde".toList, [⟨2, 2, 4, .primary, some "here"⟩, ⟨2, 1, 4, .secondary, some "from here"⟩,
            ⟨2, 3, 4, .secondary, none⟩]),
          (true, 4, "fg".toList, [⟨4, 3, 4, .primary, some "end"⟩])] := by
  have hsize : byteLength crowdedText + 1 < wordCount := by decide
  have hlabels : ∀ l ∈ crowded.labels, l.span.start ≤ l.span.stop ∧ l.span.stop ≤ byteLength crowdedText := by decide
  exact ⟨hsize, hlabels, labels_placed hsize hlabels, by cbv⟩

end Placed

end GameScript
