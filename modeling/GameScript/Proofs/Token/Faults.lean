import GameScript.Proofs.Token.Accounted

/-!
# Where lexer errors are

A span selects a text when it starts and stops on character boundaries (`Span.Selects`); then there are characters
before it, in it and after it (`selects_append`, `exists_of_slice`).

The place of a lexer error is where a piece of what is read stands (`placed_of_scan`), with one exception: of an invalid
escape it is always two bytes, which is too short when the escaped character takes more than one. Such a span stops
inside that character (`LexError.CutsEscape`) and selects nothing.

Main statement: no other span of a lexer error is wrong (`selects_iff_of_mem_errors`).
-/

namespace GameScript

/-! ## Boundaries -/

/-- An offset between two characters of a text, or before or behind all of them. -/
def IsBoundary (source : List Char) (n : Nat) : Prop := ∃ before after, source = before ++ after ∧ byteLength before = n

/-- A span that lies in a text, from one character boundary to another, so that the text between can be cut out. -/
structure Span.Selects (source : List Char) (span : Span) : Prop where
  start_le : span.start ≤ span.stop
  stop_le : span.stop ≤ byteLength source
  start_boundary : IsBoundary source span.start
  stop_boundary : IsBoundary source span.stop
  text : ∃ w, slice span.start span.stop source = some w

theorem selects_append (before w after : List Char) :
    Span.Selects (before ++ w ++ after) ⟨byteLength before, byteLength before + byteLength w⟩ where
  start_le := Nat.le_add_right ..
  stop_le := by simp
  start_boundary := ⟨before, w ++ after, List.append_assoc .., rfl⟩
  stop_boundary := ⟨before ++ w, after, rfl, byteLength_append ..⟩
  text := ⟨w, slice_append before w after⟩

/-- The span of no characters at the end of a text. -/
theorem selects_end (source : List Char) : Span.Selects source ⟨byteLength source, byteLength source⟩ := by
  simpa using selects_append source [] []

theorem exists_of_dropBytes {n : Nat} {cs back : List Char} (h : dropBytes n cs = some back) :
    ∃ front, cs = front ++ back ∧ byteLength front = n := by
  induction cs generalizing n with
  | nil =>
    cases n with
    | zero => exact ⟨[], by simpa [dropBytes] using h, rfl⟩
    | succ n => cases h
  | cons c cs ih =>
    cases n with
    | zero => exact ⟨[], by simpa [dropBytes] using h, rfl⟩
    | succ n =>
      rw [dropBytes] at h
      split at h
      · obtain ⟨front, rfl, hfront⟩ := ih h
        exact ⟨c :: front, rfl, by rw [byteLength_cons]; omega⟩
      · cases h

theorem exists_of_takeBytes {n : Nat} {cs front : List Char} (h : takeBytes n cs = some front) :
    ∃ back, cs = front ++ back ∧ byteLength front = n := by
  induction cs generalizing n front with
  | nil =>
    cases n with
    | zero =>
      cases h
      exact ⟨[], rfl, rfl⟩
    | succ n => cases h
  | cons c cs ih =>
    cases n with
    | zero =>
      cases h
      exact ⟨c :: cs, rfl, rfl⟩
    | succ n =>
      rw [takeBytes] at h
      split at h
      · obtain ⟨front, hfront, rfl⟩ := Option.map_eq_some_iff.1 h
        obtain ⟨back, rfl, hlength⟩ := ih hfront
        exact ⟨back, rfl, by rw [byteLength_cons]; omega⟩
      · cases h

/-- What is cut out of a text stands there. -/
theorem exists_of_slice {start stop : Nat} {source w : List Char} (h : slice start stop source = some w) :
    ∃ before after, source = before ++ w ++ after ∧ start = byteLength before ∧
      stop = byteLength before + byteLength w := by
  unfold slice at h
  split at h
  · obtain ⟨rest, hrest, hw⟩ := Option.bind_eq_some_iff.1 h
    obtain ⟨before, rfl, hbefore⟩ := exists_of_dropBytes hrest
    obtain ⟨after, rfl, hlength⟩ := exists_of_takeBytes hw
    exact ⟨before, after, (List.append_assoc ..).symm, hbefore.symm, by omega⟩
  · cases h

theorem selects_of_slice {source w : List Char} {span : Span} (h : slice span.start span.stop source = some w) :
    span.Selects source := by
  obtain ⟨before, after, rfl, hstart, hstop⟩ := exists_of_slice h
  obtain ⟨start, stop⟩ := span
  subst hstart hstop
  exact selects_append before w after

/-- A token that spells what stands at its place selects its text. -/
theorem Token.Placed.selects {source : List Char} {t : Token} (h : t.Placed 0 source) : t.span.Selects source := by
  obtain ⟨before, w, after, rfl, -, hspan⟩ := h
  rw [hspan, Nat.zero_add]
  exact selects_append before w after

/-! ## Faults of one lexeme -/

/-- An error that is the place of a backslash and one byte, behind which stands a character of more bytes than one. -/
def LexError.CutsEscape (offset : Nat) (source : List Char) (e : LexError) : Prop :=
  e.fault = .invalidEscape ∧ ∃ before c after, source = before ++ '\\' :: c :: after ∧ 1 < c.utf8Size ∧
    e.span = ⟨offset + byteLength before, offset + byteLength before + 2⟩

/-- An error that is the place of some of the characters of a text, which itself stands at an offset. -/
def LexError.Placed (offset : Nat) (source : List Char) (e : LexError) : Prop :=
  ∃ before w after, source = before ++ w ++ after ∧
    e.span = ⟨offset + byteLength before, offset + byteLength before + byteLength w⟩

/-- An error whose place is right, or that cuts an escape. -/
def LexError.Located (offset : Nat) (source : List Char) (e : LexError) : Prop :=
  e.Placed offset source ∨ e.CutsEscape offset source

section Lexemes

variable {offset : Nat} {cs : List Char} {e : LexError}

theorem LexError.Located.behind {front : List Char} (h : e.Located (offset + byteLength front) cs) :
    e.Located offset (front ++ cs) := by
  rcases h with ⟨before, w, after, rfl, hspan⟩ | ⟨hfault, before, c, after, rfl, hc, hspan⟩
  · refine .inl ⟨front ++ before, w, after, by simp, ?_⟩
    rw [hspan, byteLength_append, Nat.add_assoc]
  · refine .inr ⟨hfault, front ++ before, c, after, by simp, hc, ?_⟩
    rw [hspan, byteLength_append, Nat.add_assoc]

/-- What stands at the front of a text. -/
theorem located_front {fault : LexFault} {w after : List Char} :
    LexError.Located offset (w ++ after) ⟨fault, ⟨offset, offset + byteLength w⟩⟩ :=
  .inl ⟨[], w, after, rfl, rfl⟩

/-- An unknown escape starts with a backslash in the body. -/
theorem exists_backslash {place : Nat} (h : unescape offset cs = .error place) :
    ∃ before after, cs = before ++ '\\' :: after ∧ place = offset + byteLength before := by
  fun_induction unescape offset cs with
  | case1 => cases h
  | case2 offset c cs e he ih =>
    obtain ⟨before, after, rfl, rfl⟩ := ih (Except.error_of_map_eq_error h)
    refine ⟨'\\' :: c :: before, after, rfl, ?_⟩
    simp only [byteLength_cons, show Char.utf8Size '\\' = 1 from rfl, Nat.add_assoc]
  | case3 offset c cs he =>
    cases h
    exact ⟨[], c :: cs, rfl, rfl⟩
  | case4 offset cs =>
    cases h
    exact ⟨[], cs, rfl, rfl⟩
  | case5 offset c cs _ _ ih =>
    obtain ⟨before, after, rfl, rfl⟩ := ih (Except.error_of_map_eq_error h)
    exact ⟨c :: before, after, rfl, by rw [byteLength_cons, Nat.add_assoc]⟩

/-- Two bytes from a backslash on are the backslash and the character behind it, unless this one takes more. -/
theorem located_escape {before after : List Char} {c : Char} :
    LexError.Located offset (before ++ '\\' :: c :: after)
      ⟨.invalidEscape, ⟨offset + byteLength before, offset + byteLength before + 2⟩⟩ := by
  have hc := c.utf8Size_pos
  rcases Nat.lt_or_eq_of_le (show 1 ≤ c.utf8Size from hc) with hlong | hshort
  · exact .inr ⟨rfl, before, c, after, rfl, hlong, rfl⟩
  · refine .inl ⟨before, ['\\', c], after, by simp, ?_⟩
    rw [byteLength_cons, byteLength_cons, ← hshort]
    rfl

theorem located_of_scanString {q : Char} {fault : LexFault} {skip bytes : Nat}
    (h : (scanString q cs).reading = .fault fault skip bytes) :
    LexError.Located offset ((scanString q cs).taken ++ (scanString q cs).rest)
      ⟨fault, ⟨offset + skip, offset + skip + bytes⟩⟩ := by
  have hfront (fault : LexFault) (body after : List Char) : LexError.Located offset (q :: body ++ after)
      ⟨fault, ⟨offset + 0, offset + 0 + byteLength (q :: body)⟩⟩ := located_front
  unfold scanString at h ⊢
  generalize stringBody q cs = body at h ⊢
  obtain ⟨taken, rest⟩ := body
  cases rest with
  | nil =>
    cases h
    exact hfront _ taken []
  | cons d rest =>
    by_cases hd : d = q
    · simp only [hd, if_true] at h ⊢
      split at h
      · cases h
      · rename_i place hplace
        cases h
        obtain ⟨before, after, rfl, rfl⟩ := exists_backslash hplace
        -- if nothing else, the closing quote is behind the backslash
        obtain ⟨c, more, hmore⟩ : ∃ c more, after ++ q :: rest = c :: more :=
          List.exists_cons_of_ne_nil (by simp)
        have hescape : LexError.Located offset ((q :: before) ++ '\\' :: c :: more) _ := located_escape
        rw [← hmore, byteLength_cons] at hescape
        simpa [Nat.add_assoc] using hescape
    · simp only [hd, if_false] at h ⊢
      cases h
      exact hfront _ taken (d :: rest)

/-- The place of a fault is that of some of the characters that are read, or it cuts an escape. -/
theorem located_of_scan {c : Char} {fault : LexFault} {skip bytes : Nat}
    (h : (scan c cs).reading = .fault fault skip bytes) :
    LexError.Located offset ((scan c cs).taken ++ (scan c cs).rest)
      ⟨fault, ⟨offset + skip, offset + skip + bytes⟩⟩ := by
  have hfront := front_scan c cs
  generalize scan c cs = lexeme at h hfront
  cases hfront with
  | blanks => cases h
  | number =>
    unfold scanNumber at h ⊢
    dsimp only at h ⊢
    split at h
    · cases h
    · cases h
      exact located_front
  | string => exact located_of_scanString h
  | word => cases h
  | line => cases h
  | @comment after =>
    have hopener (w : List Char) : LexError.Located offset (['/', '*'] ++ w)
        ⟨.unterminatedComment, ⟨offset, offset + 2⟩⟩ := located_front
    unfold scanComment at h ⊢
    dsimp only at h ⊢
    split at h
    · cases h
    · cases h
      exact hopener _
  | @symbol c cs =>
    have hone : LexError.Located offset ([c] ++ cs) ⟨.unexpectedChar c, ⟨offset, offset + c.utf8Size⟩⟩ := located_front
    unfold scanSymbol at h ⊢
    split at h
    · cases h
    · cases h
      exact hone

end Lexemes

/-! ## Errors of a text -/

/-- The place of each error is that of some characters of the text, or cuts an escape. -/
theorem Reads.located {offset budget : Nat} {cs : List Char} {tokens : List Token} {errors : List LexError}
    (h : Reads offset budget cs tokens errors) : ∀ e ∈ errors, e.Located offset cs := by
  induction h with
  | done => simp
  | spent => simp
  | @trivia _ _ c cs _ _ _ _ ih =>
    intro e he
    rw [← scan_append c cs]
    exact (ih e he).behind
  | @token _ _ c cs _ _ _ _ _ ih =>
    intro e he
    rw [← scan_append c cs]
    exact (ih e he).behind
  | @fault _ _ c cs _ _ _ _ _ hscan _ ih =>
    intro e he
    rw [← scan_append c cs]
    rcases List.mem_cons.1 he with rfl | he
    · exact located_of_scan hscan
    · exact (ih e he).behind

/-- A span that stops inside a character selects nothing. -/
theorem LexError.CutsEscape.not_selects {source : List Char} {e : LexError} (h : e.CutsEscape 0 source) :
    ¬e.span.Selects source := by
  rintro ⟨-, -, -, -, w, hw⟩
  obtain ⟨-, before, c, after, rfl, hc, hspan⟩ := h
  have hno : ¬c.utf8Size ≤ 1 := Nat.not_le.2 hc
  have hbackslash : Char.utf8Size '\\' = 1 := rfl
  rw [hspan, Nat.zero_add, slice, if_pos (Nat.le_add_right ..), dropBytes_append, Nat.add_sub_cancel_left] at hw
  simp [takeBytes, hbackslash, hno] at hw

/-- The span of a lexer error selects its text, unless it cuts an escape. -/
theorem selects_iff_of_mem_errors {source : List Char} {e : LexError} (he : e ∈ (tokenize source).errors) :
    e.span.Selects source ↔ ¬e.CutsEscape 0 source := by
  obtain ⟨tokens, errors, hreads, heq⟩ := exists_reads_tokenize source
  rw [heq] at he
  refine ⟨fun h hcuts => hcuts.not_selects h, fun h => ?_⟩
  obtain ⟨before, w, after, rfl, hspan⟩ := (hreads.located e he).resolve_right h
  rw [hspan, Nat.zero_add]
  exact selects_append before w after

end GameScript
