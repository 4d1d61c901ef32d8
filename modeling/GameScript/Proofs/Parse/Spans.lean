import GameScript.Proofs.Parse.Layout
import GameScript.Proofs.Parse.Texts
import GameScript.Proofs.Token.Excerpt

/-!
# Spans select what they stand for

The tokens between two places are those of an excerpt of the text (`Reads.excerpt`), and the parts that stand there
select such excerpts. As tokens follow one another without overlap, so do the parts (`Laid.bounds`); and what is read
where the text is cut off is read of the excerpt, whose tokens are the same but for their places
(`Part.Alone.isReadFrom`).
-/

namespace GameScript

open Cursor GameScript.Parser

/-! ## Places -/

/-- Tokens that follow one another without overlap, and each of which starts where it stops or before. -/
structure InOrder (row : List Token) : Prop where
  pairwise : row.Pairwise fun t u => t.span.stop ≤ u.span.start
  start_le : ∀ t ∈ row, t.span.start ≤ t.span.stop

section Order

variable {row after : List Token} {first last : Token}

theorem InOrder.left (h : InOrder (row ++ after)) : InOrder row :=
  ⟨(List.pairwise_append.1 h.pairwise).1, fun t ht => h.start_le t (List.mem_append_left _ ht)⟩

theorem InOrder.right (h : InOrder (row ++ after)) : InOrder after :=
  ⟨(List.pairwise_append.1 h.pairwise).2.1, fun t ht => h.start_le t (List.mem_append_right _ ht)⟩

theorem InOrder.first_le (h : InOrder (first :: row)) : ∀ t ∈ first :: row, first.span.start ≤ t.span.start := by
  intro t ht
  rcases List.mem_cons.1 ht with rfl | ht
  · exact Nat.le_refl _
  · exact (h.start_le first List.mem_cons_self).trans ((List.pairwise_cons.1 h.pairwise).1 t ht)

theorem InOrder.le_last (h : InOrder (row ++ [last])) : ∀ t ∈ row ++ [last], t.span.stop ≤ last.span.stop := by
  intro t ht
  rcases List.mem_append.1 ht with ht | ht
  · have hle := (List.pairwise_append.1 h.pairwise).2.2 t ht last (List.mem_singleton_self _)
    exact hle.trans (h.start_le last (by simp))
  · rw [List.mem_singleton.1 ht]

theorem stopOf_snoc (offset : Nat) (row : List Token) (last : Token) :
    stopOf offset (row ++ [last]) = last.span.stop := by
  simp [stopOf]

end Order

section Bounds

variable {c d : Cursor} {xs : List Part}

/-- Parts stand where the tokens are from which they were read, and follow one another without overlap. -/
theorem Cursor.Laid.bounds (h : Laid c d xs) {row : List Token} (hrow : c.rest = row ++ d.rest) (horder : InOrder row)
    {lo hi : Nat} (hlo : ∀ t ∈ row, lo ≤ t.span.start) (hhi : ∀ t ∈ row, t.span.stop ≤ hi) :
    (∀ x ∈ xs, lo ≤ x.span.start ∧ x.span.stop ≤ hi) ∧ xs.Pairwise fun x y => x.span.stop ≤ y.span.start := by
  induction h generalizing row lo hi with
  | nil => exact ⟨by simp, .nil⟩
  | @cons c c' d' d x xs hgap hpast hspan _ _ hrest _ ih =>
    obtain ⟨gap, hgap⟩ := hgap.exists_read
    obtain ⟨front, last, hfront, hstop⟩ := hpast.read
    obtain ⟨others, hothers⟩ := hrest.upto.exists_read
    obtain rfl : row = gap ++ (front ++ [last]) ++ others := by
      have hall : row ++ d.rest = (gap ++ (front ++ [last]) ++ others) ++ d.rest := by
        rw [← hrow, hgap, hfront, hothers]
        simp
      exact List.append_cancel_right hall
    obtain ⟨first, hfirst, hplace⟩ : ∃ first ∈ front ++ [last], c'.place = first.span := by
      cases front with
      | nil => exact ⟨last, by simp, place_of_rest hfront⟩
      | cons first front => exact ⟨first, by simp, place_of_rest hfront⟩
    have hbehind : ∀ t ∈ others, last.span.stop ≤ t.span.start := fun t ht =>
      (List.pairwise_append.1 horder.pairwise).2.2 last (by simp) t ht
    have hinside := ih hothers horder.right (fun t ht => hlo t (by simp [ht])) fun t ht => hhi t (by simp [ht])
    have hlater := ih hothers horder.right hbehind fun t ht => hhi t (by simp [ht])
    rw [hplace, hstop] at hspan
    refine ⟨?_, .cons (fun y hy => ?_) hinside.2⟩
    · intro y hy
      rcases List.mem_cons.1 hy with rfl | hy
      · rw [hspan]
        exact ⟨hlo first (List.mem_append_left _ (List.mem_append_right _ hfirst)), hhi last (by simp)⟩
      · exact hinside.1 y hy
    · rw [hspan]
      exact (hlater.1 y hy).1

end Bounds

/-! ## Excerpts -/

/-- What reading a text by itself has to give: a statement is the only one of a script, and an expression all that is
read up to the end. -/
def Part.IsReadFrom (w : List Char) : Part → Prop
  | .statement t => ∃ q, parse w = .ok q ∧ Statement.eraseAll q.body.body = Statement.eraseAll [t]
  | .expression e => (tokenize w).errors = [] ∧ ∃ f d, expressionAtFront (.ofTokens (tokenize w).tokens) = .ok (f, d) ∧
      d.rest.map Token.kind = [.endOfText] ∧ f.eraseSpans = e.eraseSpans
  | _ => True

/-- The place of a part selects a text, which is read as that part, and the places of what is directly inside the part
are inside its own, in order and without overlap. -/
structure Part.Selects (source : List Char) (x : Part) : Prop where
  start_le : x.span.start ≤ x.span.stop
  text : ∃ w, slice x.span.start x.span.stop source = some w ∧ x.IsReadFrom w
  inside : ∀ y ∈ x.children, x.span.start ≤ y.span.start ∧ y.span.stop ≤ x.span.stop
  inOrder : x.children.Pairwise fun y z => y.span.stop ≤ z.span.start

section Excerpts

variable {c d : Cursor} {x : Part} {w : List Char} {row : List Token}

/-- What is read where the text is cut off is read of the excerpt. -/
theorem Part.Alone.isReadFrom (h : x.Alone c d) (hrow : c.rest = row ++ d.rest) (hw : Lexes w (row.map Token.kind)) :
    x.IsReadFrom w := by
  have hcut : (c.cut d.rest.length).rest = row ++ [⟨.endOfText, {}⟩] := by simp [Cursor.cut, hrow]
  have hspells : (c.cut d.rest.length).Spells (row.map Token.kind ++ [.endOfText]) :=
    ⟨by rw [hcut, List.map_append, List.map_singleton], by simp⟩
  have hend : (d.cut d.rest.length).rest.head?.map Token.kind = some .endOfText := by rw [rest_cut_self]; rfl
  obtain ⟨herrors, hkinds⟩ := hw.tokenize
  have hjoins : (c.cut d.rest.length).Joins [.endOfText] (row.map Token.kind) (.ofTokens (tokenize w).tokens) :=
    ⟨.inl rfl, hw.endOfText_not_mem, hspells, spells_ofTokens hkinds⟩
  cases x with
  | expression e =>
    obtain ⟨f, d', hf, hsame, ts, hts⟩ :=
      (followsItself_levelAt [.endOfText] maxNesting).expression 0 _ _ ⟨_, hjoins⟩ e _ h
    obtain rfl := hts.eq_nil hend
    exact ⟨herrors, f, d', hf, hts.second.1, hsame.symm⟩
  | statement t =>
    rcases follows_statements (followsItself_levelAt [.endOfText] maxNesting) [] [] [] rfl ⟨_, hjoins⟩ h with
      ⟨ss, d', hss, hsame, ts, hts, -⟩ | ⟨_, _, _, ⟨⟩, -⟩
    obtain rfl := hts.eq_nil hend
    obtain ⟨q, hq, rfl⟩ := programForm_of_statements (spells_ofTokens hkinds) hss hts.second
    exact ⟨q, parse_eq_ok_iff.2 ⟨herrors, parseTokens_eq_ok_iff.2 ⟨d', hq⟩⟩, hsame⟩
  | _ => trivial

end Excerpts

section Sources

variable {source : List Char} {tokens : List Token} {c d : Cursor} {x : Part} {xs : List Part}

theorem Reads.inOrder {offset budget : Nat} {errors : List LexError} (h : Reads offset budget source tokens errors) :
    InOrder tokens := ⟨h.pairwise_tokens, fun t ht => (h.token_place t ht).start_lt_stop.le⟩

/-- A place among some tokens or behind them, where one more is ahead. -/
def Cursor.Among (tokens : List Token) (c : Cursor) : Prop := ∃ before last, tokens ++ [last] = before ++ c.rest

theorem Cursor.Upto.among (h : c.Upto d) (hc : c.Among tokens) : d.Among tokens := by
  obtain ⟨before, last, hbefore⟩ := hc
  obtain ⟨front, hfront⟩ := h.exists_read
  exact ⟨before ++ front, last, by rw [hbefore, hfront, List.append_assoc]⟩

/-- What is read between two places is some tokens in a row. -/
theorem Cursor.Past.exists_row (h : c.Past d) (hc : c.Among tokens) : ∃ before front last after,
    tokens = before ++ (front ++ [last]) ++ after ∧ c.rest = (front ++ [last]) ++ d.rest ∧
      d.lastStop = last.span.stop := by
  obtain ⟨before, final, hbefore⟩ := hc
  obtain ⟨front, last, hfront, hstop⟩ := h.read
  obtain ⟨t, rest, hd⟩ := h.closed.rest_eq_cons
  obtain ⟨after, final', hafter⟩ : ∃ after final', d.rest = after ++ [final'] := by
    rcases List.eq_nil_or_concat d.rest with hnil | ⟨after, final', hafter⟩
    · rw [hd] at hnil
      cases hnil
    · exact ⟨after, final', by simpa using hafter⟩
  refine ⟨before, front, last, after, ?_, by simp [hfront], hstop⟩
  have hall : tokens ++ [final] = (before ++ (front ++ [last]) ++ after) ++ [final'] := by
    rw [hbefore, hfront, hafter]
    simp
  exact (List.append_inj' hall rfl).1

variable (hreads : GameScript.Reads 0 maxLexErrors source tokens [])

include hreads

/-- The text between two places: it is read as the tokens that are read there, all of which stand in it. -/
theorem Cursor.Past.exists_excerpt (h : c.Past d) (hc : c.Among tokens) : ∃ row before w after,
    source = before ++ w ++ after ∧ c.place.start = byteLength before ∧ d.lastStop = byteLength before + byteLength w ∧
      c.rest = row ++ d.rest ∧ Lexes w (row.map Token.kind) ∧ InOrder row ∧
      (∀ t ∈ row, c.place.start ≤ t.span.start) ∧ ∀ t ∈ row, t.span.stop ≤ d.lastStop := by
  obtain ⟨before, front, last, after, htokens, hrest, hstop⟩ := h.exists_row hc
  subst htokens
  have horder : InOrder (front ++ [last]) := hreads.inOrder.left.right
  obtain ⟨first, more, hrow⟩ : ∃ first more, front ++ [last] = first :: more :=
    List.exists_cons_of_ne_nil (by simp)
  have hplace : c.place = first.span := place_of_rest (by rw [hrest, hrow, List.cons_append])
  rw [hrow] at hreads
  obtain ⟨xs, w, ys, rfl, hw, hstart, hend⟩ := hreads.excerpt
  rw [← hrow, stopOf_snoc, Nat.zero_add, ← hstop] at hend
  rw [Nat.zero_add, ← hplace] at hstart
  refine ⟨front ++ [last], xs, w, ys, rfl, hstart, hend, hrest, hrow ▸ hw, horder, ?_, ?_⟩
  · rw [hplace, hrow]
    exact (hrow ▸ horder).first_le
  · rw [hstop]
    exact horder.le_last

/-- A part that takes the tokens between two places selects their text. -/
theorem Cursor.Past.selects (h : c.Past d) (hc : c.Among tokens) (hspan : x.span = ⟨c.place.start, d.lastStop⟩)
    (hinner : Laid c d x.children) (halone : x.Alone c d) : x.Selects source := by
  obtain ⟨row, before, w, after, rfl, hstart, hstop, hrest, hw, horder, hlo, hhi⟩ := h.exists_excerpt hreads hc
  have hbounds := hinner.bounds hrest horder hlo hhi
  rw [hstart, hstop] at hspan hbounds
  refine ⟨?_, ⟨w, ?_, halone.isReadFrom hrest hw⟩, ?_, hbounds.2⟩
  · rw [hspan]
    exact Nat.le_add_right ..
  · rw [hspan]
    exact slice_append before w after
  · rw [hspan]
    exact hbounds.1

/-- What is read stops behind where it starts. -/
theorem Cursor.Past.place_le (h : c.Past d) (hc : c.Among tokens) : c.place.start ≤ d.lastStop := by
  obtain ⟨row, before, w, after, rfl, hstart, hstop, -⟩ := h.exists_excerpt hreads hc
  rw [hstart, hstop]
  exact Nat.le_add_right ..

/-- What stands somewhere selects its text, and so does all that is inside it. -/
theorem Cursor.Laid.selects (h : Laid c d xs) (hc : c.Among tokens) : ∀ x ∈ xs, ∀ y, x.Within y → y.Selects source := by
  induction h with
  | nil => simp
  | cons hgap hpast hspan hinner halone hrest ihinner ihrest =>
    intro x hx y hy
    have hc' := hgap.among hc
    rcases List.mem_cons.1 hx with rfl | hx
    · rcases Relation.ReflTransGen.cases_head hy with rfl | ⟨z, hz, hy⟩
      · exact hpast.selects hreads hc' hspan hinner halone
      · exact ihinner hc' z hz y hy
    · exact ihrest (hpast.upto.among hc') x hx y hy

end Sources

/-- The statements of a program stand where they were read, and its own place goes up to where the last token stops. -/
theorem covers_programForm {c : Cursor} (hc : c.Closed) :
    Sure (fun p d => Laid c d (p.body.body.map .statement) ∧
      p.body.span = ⟨c.place.start, max d.lastStop c.place.start⟩ ∧ d.rest.head?.map Token.kind = some .endOfText)
      (programForm c) := by
  refine sure_bind (sure_place hc ?_)
  refine (laid_statements (laysOut_levelAt (Nat.le_refl _)) (localTo_levelAt (Nat.le_refl _)) hc).bind
    fun ss d hss => ?_
  refine sure_bind (sure_ahead hss.upto.closed fun t rest hr => ?_)
  split
  · rename_i hend
    exact sure_bind (sure_stop (sure_pure ⟨hss, rfl, by simp [hr, TokenKind.isEnd_iff.1 hend]⟩))
  · exact sure_bind (sure_aheadSpan hss.upto.closed fun _ => sure_failAt fun _ => by simp)

/-- A program selects its text, be there anything to read or not. -/
theorem selects_program {source : List Char} {tokens : List Token} {last : Token} {p : Program} {d : Cursor}
    (hreads : Reads 0 maxLexErrors source tokens [])
    (hlast : last = ⟨.endOfText, ⟨byteLength source, byteLength source⟩⟩)
    (hd : programForm (.ofTokens (tokens ++ [last])) = .ok (p, d)) : (Part.scope p.body).Selects source := by
  have hrest : (Cursor.ofTokens (tokens ++ [last])).rest = tokens ++ [last] := by
    simp [hlast, Cursor.ofTokens, closeTokens, TokenKind.isEnd]
  have hall : (Cursor.ofTokens (tokens ++ [last])).Among tokens := ⟨[], last, by rw [hrest, List.nil_append]⟩
  obtain ⟨hlaid, hspan, hend⟩ := (covers_programForm (closed_ofTokens _)).of_eq_ok hd
  rcases hlaid.upto.2 with rfl | hpast
  · -- the end is ahead at once, so there is no token but that
    obtain rfl : tokens = [] := by
      cases tokens with
      | nil => rfl
      | cons t tokens =>
        obtain ⟨-, w, -, -, hw, -⟩ := hreads.token_place t List.mem_cons_self
        rw [hrest] at hend
        exact absurd (by simpa using hend) hw.ne_end
    have hplace : (Part.scope p.body).span = ⟨byteLength source, byteLength source⟩ := by
      rw [Part.span, hspan, place_of_rest hrest]
      simp [hlast, Cursor.ofTokens, closeTokens]
    obtain ⟨hinside, hinOrder⟩ : (∀ y ∈ p.body.body.map Part.statement,
        byteLength source ≤ y.span.start ∧ y.span.stop ≤ byteLength source) ∧ _ :=
      hlaid.bounds (List.nil_append _).symm hreads.inOrder (by simp) (by simp)
    refine ⟨by rw [hplace], ⟨[], ?_, trivial⟩, ?_, hinOrder⟩
    · rw [hplace]
      simpa using slice_append source [] []
    · rw [hplace]
      exact hinside
  · have hle := hpast.place_le hreads hall
    rw [Nat.max_eq_left hle] at hspan
    exact hpast.selects hreads hall hspan hlaid trivial

/-- The tokens of a text that a program is read from are read without a fault, and in front of the end they make the
program. -/
theorem exists_reads_of_parse {source : List Char} {p : Program} (h : parse source = .ok p) :
    ∃ tokens d, Reads 0 maxLexErrors source tokens [] ∧
      programForm (.ofTokens (tokens ++ [⟨.endOfText, ⟨byteLength source, byteLength source⟩⟩])) = .ok (p, d) := by
  obtain ⟨herrors, hparse⟩ := parse_eq_ok_iff.1 h
  obtain ⟨tokens, errors, hreads, heq⟩ := exists_reads_tokenize source
  rw [heq] at herrors hparse
  obtain rfl : errors = [] := herrors
  obtain ⟨d, hd⟩ := parseTokens_eq_ok_iff.1 hparse
  exact ⟨tokens, d, hreads, hd⟩

/-- What is inside a program selects its text as the program does. -/
theorem selects_within {source : List Char} {tokens : List Token} {p : Program} {d : Cursor}
    (hreads : Reads 0 maxLexErrors source tokens [])
    (hd : programForm (.ofTokens (tokens ++ [⟨.endOfText, ⟨byteLength source, byteLength source⟩⟩])) = .ok (p, d))
    {x : Part} (hx : (Part.scope p.body).Within x) : x.Selects source := by
  rcases Relation.ReflTransGen.cases_head hx with rfl | ⟨y, hy, hyx⟩
  · exact selects_program hreads rfl hd
  · have hlaid := (covers_programForm (closed_ofTokens _)).of_eq_ok hd
    refine hlaid.1.selects hreads ⟨[], ⟨.endOfText, ⟨byteLength source, byteLength source⟩⟩, ?_⟩ y hy x hyx
    simp [Cursor.ofTokens, closeTokens, TokenKind.isEnd]

/-- **Spans select what they stand for.** A program that a text is read as, and each part of it, has for its place an
excerpt of the text. What is directly inside a part is in its place, in order and without overlap. The text of a
statement is that of a script of this statement alone, and the text of an expression is read as this expression. -/
theorem spans_select_text {source : List Char} {p : Program} (h : parse source = .ok p) (x : Part)
    (hx : (Part.scope p.body).Within x) : x.Selects source := by
  obtain ⟨tokens, d, hreads, hd⟩ := exists_reads_of_parse h
  exact selects_within hreads hd hx

/-- The sum in the program of `let x = (a + 1);`. -/
def enclosedSum : Expression := .binary (.var ⟨"a", .use, ⟨9, 10⟩⟩) ⟨.add, ⟨11, 12⟩⟩ (.value (.int 1)) ⟨8, 15⟩

/-- The program of `let x = (a + 1);`. -/
def declaredSum : Program :=
  let value : Operand := .expression enclosedSum
  ⟨⟨[⟨.binary (.var ⟨"x", .declare, ⟨4, 5⟩⟩) ⟨.assign, ⟨6, 7⟩⟩ value ⟨0, 15⟩, ⟨0, 15⟩⟩], ⟨0, 16⟩⟩⟩

theorem enclosedSum_selects : (Part.scope declaredSum.body).Within (.expression enclosedSum) ∧
    (Part.expression enclosedSum).Selects "let x = (a + 1);".toList := by
  have hp : parse "let x = (a + 1);".toList = .ok declaredSum := by cbv
  have hwithin : (Part.scope declaredSum.body).Within (.expression enclosedSum) := by
    refine .head (List.mem_singleton_self _) (.head (List.mem_singleton_self _) (.single ?_))
    simp [Statement.bodyPart, Expression.isStatementForm, Expression.binary, Part.children, Expression.parts,
      Operand.parts]
  exact ⟨hwithin, spans_select_text hp _ hwithin⟩

end GameScript
