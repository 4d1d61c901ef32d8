import GameScript.Proofs.Token.Comments
import GameScript.Proofs.Token.Spells

/-!
# Where every character goes

`Reads offset budget cs tokens errors` is the run of `tokenizeFrom` on a text that stands at `offset`: piece after
piece, what it adds to the tokens and to the errors (`exists_reads`). Each fact about the run is an induction on it.

* Tokens spell what stands at their place, in order and without overlap (`Reads.token_place`,
  `Reads.pairwise_tokens`); errors are in order, too, and at most as many as asked for (`Reads.pairwise_errors`,
  `Reads.length_errors`).
* The last error that is asked for ends the run (`Reads.stop_le_last`).
* A text without errors is cut into tokens and gaps (`Reads.tiles`).

Together: `tokenize_accounts`.
-/

namespace GameScript

/-! ## Gaps -/

/-- A piece of a text that is no token: blanks, a comment up to the end of its line, or a block comment. The second
text is what follows the piece. -/
inductive Gap : List Char → List Char → Prop
  | blanks {piece after : List Char} (h : ∀ c ∈ piece, isBlank c = true) : Gap piece after
  | line {body after : List Char} (hbody : '\n' ∉ body) (hend : ∀ c ∈ after.head?, c = '\n') :
      Gap ('/' :: '/' :: body) after
  | block {tail after : List Char} (h : CommentTail tail) : Gap ('/' :: '*' :: tail) after

/-- A text that stands at an offset, cut into tokens and the gaps between them. -/
inductive Tiles : Nat → List Char → List Token → Prop
  | nil {offset : Nat} : Tiles offset [] []
  | gap {offset : Nat} {piece cs : List Char} {tokens : List Token} (hpiece : Gap piece cs)
      (h : Tiles (offset + byteLength piece) cs tokens) : Tiles offset (piece ++ cs) tokens
  | token {offset : Nat} {kind : TokenKind} {w cs : List Char} {tokens : List Token} (hw : Spells kind w)
      (h : Tiles (offset + byteLength w) cs tokens) :
      Tiles offset (w ++ cs) (⟨kind, ⟨offset, offset + byteLength w⟩⟩ :: tokens)

theorem head?_dropWhile_eq {p : Char → Bool} (cs : List Char) : ∀ c ∈ (cs.dropWhile p).head?, p c = false := by
  intro c hc
  have hne : cs.dropWhile p ≠ [] := by
    intro hnil
    simp [hnil] at hc
  have hhead := List.head_dropWhile_not p hne
  rw [List.head?_eq_some_head hne, Option.mem_some_iff] at hc
  rwa [hc] at hhead

theorem scanNumber_ne_trivia {cs : List Char} : (scanNumber cs).reading ≠ .trivia := by
  unfold scanNumber
  dsimp only
  split <;> simp

theorem scanString_ne_trivia {q : Char} {cs : List Char} : (scanString q cs).reading ≠ .trivia := by
  unfold scanString
  dsimp only
  split
  · split
    · dsimp only
      split <;> simp
    · simp
  · simp

theorem scanSymbol_ne_trivia {c : Char} {cs : List Char} : (scanSymbol c cs).reading ≠ .trivia := by
  unfold scanSymbol
  split <;> simp

/-- What is read as no token is a gap. -/
theorem gap_of_scan {c : Char} {cs : List Char} (h : (scan c cs).reading = .trivia) :
    Gap (scan c cs).taken (scan c cs).rest := by
  have hfront := front_scan c cs
  generalize scan c cs = lexeme at h hfront
  cases hfront with
  | blanks hblank =>
    apply Gap.blanks
    intro d hd
    rcases List.mem_cons.1 hd with rfl | hd
    · exact hblank
    · exact forall_span_taken isBlank cs d hd
  | number => exact absurd h scanNumber_ne_trivia
  | string => exact absurd h scanString_ne_trivia
  | word => cases h
  | @line after =>
    apply Gap.line
    · intro hmem
      simpa using forall_span_taken (· ≠ '\n') after _ hmem
    · intro d hd
      simpa using head?_dropWhile_eq after d hd
  | @comment after =>
    unfold scanComment at h ⊢
    dsimp only at h ⊢
    split at h
    · rename_i hclosed
      exact .block (commentTail_of_closed hclosed)
    · cases h
  | symbol => exact absurd h scanSymbol_ne_trivia

/-! ## Faults -/

theorem Except.error_of_map_eq_error {ε α β : Type} {f : α → β} {x : Except ε α} {e : ε} (h : x.map f = .error e) :
    x = .error e := by
  cases x with
  | error d =>
    cases h
    rfl
  | ok a => cases h

/-- An unknown escape stands in the body. -/
theorem unescape_error {offset place : Nat} {cs : List Char} (h : unescape offset cs = .error place) :
    place < offset + byteLength cs := by
  have hbackslash : Char.utf8Size '\\' = 1 := rfl
  fun_induction unescape offset cs with
  | case1 => cases h
  | case2 offset c cs e he ih =>
    have hplace := ih (Except.error_of_map_eq_error h)
    simp only [byteLength_cons]
    omega
  | case3 offset c cs he =>
    cases h
    simp only [byteLength_cons]
    omega
  | case4 offset cs =>
    cases h
    simp only [byteLength_cons]
    omega
  | case5 offset c cs _ _ ih =>
    have hplace := ih (Except.error_of_map_eq_error h)
    simp only [byteLength_cons]
    omega

theorem skip_lt_of_scanString {q : Char} {cs : List Char} {fault : LexFault} {skip bytes : Nat}
    (h : (scanString q cs).reading = .fault fault skip bytes) : skip < byteLength (scanString q cs).taken := by
  have hq := q.utf8Size_pos
  unfold scanString at h ⊢
  generalize stringBody q cs = body at h ⊢
  obtain ⟨taken, rest⟩ := body
  cases rest with
  | nil =>
    cases h
    simp only [Cut.push, byteLength_append, byteLength_cons]
    omega
  | cons d rest =>
    by_cases hd : d = q
    · simp only [hd, if_true] at h ⊢
      split at h
      · cases h
      · rename_i place hplace
        cases h
        have hlt := unescape_error hplace
        simp only [byteLength_append, byteLength_cons]
        omega
    · simp only [hd, if_false] at h ⊢
      cases h
      simp only [Cut.push, byteLength_append, byteLength_cons]
      omega

/-- A fault starts in what is read. -/
theorem skip_lt_of_scan {c : Char} {cs : List Char} {fault : LexFault} {skip bytes : Nat}
    (h : (scan c cs).reading = .fault fault skip bytes) : skip < byteLength (scan c cs).taken := by
  have hpos := byteLength_pos (scan_taken_ne_nil c cs)
  have hfront := front_scan c cs
  generalize scan c cs = lexeme at h hpos hfront
  cases hfront with
  | blanks => cases h
  | number =>
    unfold scanNumber at h hpos ⊢
    dsimp only at h hpos ⊢
    split at h
    · cases h
    · cases h
      exact hpos
  | string => exact skip_lt_of_scanString h
  | word => cases h
  | line => cases h
  | comment =>
    unfold scanComment at h hpos ⊢
    dsimp only at h hpos ⊢
    split at h
    · cases h
    · cases h
      exact hpos
  | @symbol c =>
    have hc := c.utf8Size_pos
    unfold scanSymbol at h ⊢
    split at h
    · cases h
    · cases h
      simpa using hc

/-! ## The run -/

/-- What the run on a text that stands at an offset adds to the tokens and to the errors, of which it reports at most
`budget`. -/
inductive Reads : (offset budget : Nat) → List Char → List Token → List LexError → Prop
  | done {offset budget : Nat} : Reads offset budget [] [] []
  | spent {offset : Nat} {cs : List Char} : Reads offset 0 cs [] []
  | trivia {offset budget : Nat} {c : Char} {cs : List Char} {tokens : List Token} {errors : List LexError}
      (hscan : (scan c cs).reading = .trivia)
      (h : Reads (offset + byteLength (scan c cs).taken) (budget + 1) (scan c cs).rest tokens errors) :
      Reads offset (budget + 1) (c :: cs) tokens errors
  | token {offset budget : Nat} {c : Char} {cs : List Char} {kind : TokenKind} {tokens : List Token}
      {errors : List LexError} (hscan : (scan c cs).reading = .token kind)
      (h : Reads (offset + byteLength (scan c cs).taken) (budget + 1) (scan c cs).rest tokens errors) :
      Reads offset (budget + 1) (c :: cs) (⟨kind, ⟨offset, offset + byteLength (scan c cs).taken⟩⟩ :: tokens) errors
  | fault {offset budget : Nat} {c : Char} {cs : List Char} {fault : LexFault} {skip bytes : Nat}
      {tokens : List Token} {errors : List LexError} (hscan : (scan c cs).reading = .fault fault skip bytes)
      (h : Reads (offset + byteLength (scan c cs).taken) budget (scan c cs).rest tokens errors) :
      Reads offset (budget + 1) (c :: cs) tokens (⟨fault, ⟨offset + skip, offset + skip + bytes⟩⟩ :: errors)

/-- What is read and what is left end where the text ends. -/
theorem stop_scan (offset : Nat) (c : Char) (cs : List Char) :
    offset + byteLength (scan c cs).taken + byteLength (scan c cs).rest = offset + byteLength (c :: cs) := by
  rw [Nat.add_assoc, ← byteLength_append, scan_append]

theorem exists_reads (offset budget : Nat) (cs : List Char) : ∃ tokens errors, Reads offset budget cs tokens errors ∧
    tokenizeFrom offset budget cs =
      ⟨tokens ++ [⟨.endOfText, ⟨offset + byteLength cs, offset + byteLength cs⟩⟩], errors⟩ := by
  fun_induction tokenizeFrom offset budget cs with
  | case1 offset budget => exact ⟨[], [], .done, rfl⟩
  | case2 offset c cs => exact ⟨[], [], .spent, rfl⟩
  | case3 offset budget c cs hb lexeme next hscan ih =>
    obtain ⟨tokens, errors, hreads, heq⟩ := ih
    obtain ⟨n, rfl⟩ := Nat.exists_eq_succ_of_ne_zero hb
    have hstop : next + byteLength lexeme.rest = offset + byteLength (c :: cs) := stop_scan offset c cs
    rw [heq, hstop]
    exact ⟨_, _, .trivia hscan hreads, rfl⟩
  | case4 offset budget c cs hb lexeme next kind hscan ih =>
    obtain ⟨tokens, errors, hreads, heq⟩ := ih
    obtain ⟨n, rfl⟩ := Nat.exists_eq_succ_of_ne_zero hb
    have hstop : next + byteLength lexeme.rest = offset + byteLength (c :: cs) := stop_scan offset c cs
    rw [heq, hstop]
    exact ⟨_, _, .token hscan hreads, rfl⟩
  | case5 offset budget c cs hb lexeme next fault skip bytes hscan ih =>
    obtain ⟨tokens, errors, hreads, heq⟩ := ih
    obtain ⟨n, rfl⟩ := Nat.exists_eq_succ_of_ne_zero hb
    have hstop : next + byteLength lexeme.rest = offset + byteLength (c :: cs) := stop_scan offset c cs
    rw [heq, hstop]
    exact ⟨_, _, .fault hscan hreads, rfl⟩

/-- The run on a whole text, which stands at the start. -/
theorem exists_reads_tokenize (source : List Char) : ∃ tokens errors, Reads 0 maxLexErrors source tokens errors ∧
    tokenize source = ⟨tokens ++ [⟨.endOfText, ⟨byteLength source, byteLength source⟩⟩], errors⟩ := by
  obtain ⟨tokens, errors, hreads, heq⟩ := exists_reads 0 maxLexErrors source
  rw [Nat.zero_add] at heq
  exact ⟨tokens, errors, hreads, heq⟩

/-- A token that spells what stands at its place in a text, which itself stands at an offset. -/
def Token.Placed (offset : Nat) (cs : List Char) (t : Token) : Prop :=
  ∃ before w after, cs = before ++ w ++ after ∧ Spells t.kind w ∧
    t.span = ⟨offset + byteLength before, offset + byteLength before + byteLength w⟩

namespace Token.Placed

variable {offset : Nat} {cs : List Char} {t : Token}

theorem behind {front : List Char} (h : t.Placed (offset + byteLength front) cs) : t.Placed offset (front ++ cs) := by
  obtain ⟨before, w, after, rfl, hw, hspan⟩ := h
  refine ⟨front ++ before, w, after, by simp, hw, ?_⟩
  rw [hspan, byteLength_append, Nat.add_assoc]

theorem start_le (h : t.Placed offset cs) : offset ≤ t.span.start := by
  obtain ⟨before, w, after, -, -, hspan⟩ := h
  rw [hspan]
  exact Nat.le_add_right ..

theorem start_lt_stop (h : t.Placed offset cs) : t.span.start < t.span.stop := by
  obtain ⟨before, w, after, -, hw, hspan⟩ := h
  rw [hspan]
  exact Nat.lt_add_of_pos_right (byteLength_pos hw.ne_nil)

end Token.Placed

section Run

variable {offset budget : Nat} {cs : List Char} {tokens : List Token} {errors : List LexError}

/-- A token spells what stands at its place. -/
theorem Reads.token_place (h : Reads offset budget cs tokens errors) : ∀ t ∈ tokens, t.Placed offset cs := by
  induction h with
  | done => simp
  | spent => simp
  | @trivia _ _ c cs _ _ _ _ ih =>
    intro t ht
    rw [← scan_append c cs]
    exact (ih t ht).behind
  | @token _ _ c cs kind _ _ hscan _ ih =>
    intro t ht
    rw [← scan_append c cs]
    rcases List.mem_cons.1 ht with rfl | ht
    · exact ⟨[], _, _, rfl, spells_of_scan hscan, rfl⟩
    · exact (ih t ht).behind
  | @fault _ _ c cs _ _ _ _ _ _ _ ih =>
    intro t ht
    rw [← scan_append c cs]
    exact (ih t ht).behind

/-- Tokens stand one after the other. -/
theorem Reads.pairwise_tokens (h : Reads offset budget cs tokens errors) :
    tokens.Pairwise fun t u => t.span.stop ≤ u.span.start := by
  induction h with
  | done => exact .nil
  | spent => exact .nil
  | trivia _ _ ih => exact ih
  | token _ h ih => exact .cons (fun u hu => (h.token_place u hu).start_le) ih
  | fault _ _ ih => exact ih

theorem Reads.error_start (h : Reads offset budget cs tokens errors) : ∀ e ∈ errors, offset ≤ e.span.start := by
  induction h with
  | done => simp
  | spent => simp
  | trivia _ _ ih => exact fun e he => Nat.le_of_add_right_le (ih e he)
  | token _ _ ih => exact fun e he => Nat.le_of_add_right_le (ih e he)
  | fault _ _ ih =>
    intro e he
    rcases List.mem_cons.1 he with rfl | he
    · exact Nat.le_add_right ..
    · exact Nat.le_of_add_right_le (ih e he)

/-- Errors stand one after the other. -/
theorem Reads.pairwise_errors (h : Reads offset budget cs tokens errors) :
    errors.Pairwise fun e f => e.span.start < f.span.start := by
  induction h with
  | done => exact .nil
  | spent => exact .nil
  | trivia _ _ ih => exact ih
  | token _ _ ih => exact ih
  | fault hscan h ih =>
    have hskip := skip_lt_of_scan hscan
    apply List.Pairwise.cons _ ih
    intro f hf
    exact Nat.lt_of_lt_of_le (Nat.add_lt_add_left hskip _) (h.error_start f hf)

theorem Reads.length_errors (h : Reads offset budget cs tokens errors) : errors.length ≤ budget := by
  induction h with
  | done => exact Nat.zero_le _
  | spent => exact Nat.zero_le _
  | trivia _ _ ih => exact ih
  | token _ _ ih => exact ih
  | fault _ _ ih => exact Nat.succ_le_succ ih

theorem Reads.tokens_eq_nil (h : Reads offset budget cs tokens errors) (hbudget : budget = 0) : tokens = [] := by
  cases h with
  | done => rfl
  | spent => rfl
  | trivia => cases hbudget
  | token => cases hbudget
  | fault => cases hbudget

/-- Nothing is read after the last error that is asked for. -/
theorem Reads.stop_le_last (h : Reads offset budget cs tokens errors) :
    ∀ e ∈ errors[budget - 1]?, ∀ t ∈ tokens, t.span.stop ≤ e.span.start := by
  induction h with
  | done => simp
  | spent => simp
  | trivia _ _ ih => exact ih
  | token _ h ih =>
    intro e he t ht
    rcases List.mem_cons.1 ht with rfl | ht
    · exact h.error_start e (List.mem_of_getElem? he)
    · exact ih e he t ht
  | @fault _ budget _ _ _ _ _ _ _ _ h ih =>
    cases budget with
    | zero =>
      -- the budget is spent with this error
      simp [h.tokens_eq_nil rfl]
    | succ budget => exact ih

/-- A text without errors consists of tokens and gaps. -/
theorem Reads.tiles (h : Reads offset budget cs tokens errors) (hbudget : budget ≠ 0) (herrors : errors = []) :
    Tiles offset cs tokens := by
  induction h with
  | done => exact .nil
  | spent => exact absurd rfl hbudget
  | @trivia _ _ c cs _ _ hscan _ ih =>
    rw [← scan_append c cs]
    exact .gap (gap_of_scan hscan) (ih hbudget herrors)
  | @token _ _ c cs _ _ _ hscan _ ih =>
    rw [← scan_append c cs]
    exact .token (spells_of_scan hscan) (ih hbudget herrors)
  | fault => cases herrors

end Run

/-! ## One token alone -/

/-- A spelled token alone is read as that token. -/
theorem Spells.tokenize {kind : TokenKind} {w : List Char} (h : Spells kind w) : tokenize w =
    ⟨[⟨kind, ⟨0, byteLength w⟩⟩, ⟨.endOfText, ⟨byteLength w, byteLength w⟩⟩], []⟩ := by
  obtain ⟨c, cs, rfl⟩ := List.exists_cons_of_ne_nil h.ne_nil
  rw [GameScript.tokenize, tokenizeFrom]
  simp only [h.scan, maxLexErrors, Nat.zero_add]
  rw [tokenizeFrom]
  rfl

theorem Spells.ne_end {kind : TokenKind} {w : List Char} (h : Spells kind w) : kind ≠ .endOfText := by
  rintro rfl
  cases h with
  | keyword h => simp [keywords] at h

/-- **Every byte is accounted for.** The last token is the end of the text. The others take at least one byte each, lie
between characters of the text, are in order and do not overlap, and each is what its own text is read as. At most
twenty errors are reported, in order, and no token comes after the twentieth. A text without errors is cut into these
tokens and gaps. -/
theorem tokenize_accounts (source : List Char) : ∃ tokens : List Token,
    (tokenize source).tokens = tokens ++ [⟨.endOfText, ⟨byteLength source, byteLength source⟩⟩] ∧
    (∀ t ∈ tokens, t.kind ≠ .endOfText ∧ t.span.start < t.span.stop ∧
      ∃ w, slice t.span.start t.span.stop source = some w ∧
        tokenize w = ⟨[⟨t.kind, ⟨0, byteLength w⟩⟩, ⟨.endOfText, ⟨byteLength w, byteLength w⟩⟩], []⟩) ∧
    tokens.Pairwise (fun t u => t.span.stop ≤ u.span.start) ∧
    (tokenize source).errors.length ≤ 20 ∧
    (tokenize source).errors.Pairwise (fun e f => e.span.start < f.span.start) ∧
    (∀ e ∈ (tokenize source).errors[19]?, ∀ t ∈ tokens, t.span.stop ≤ e.span.start) ∧
    ((tokenize source).errors = [] → Tiles 0 source tokens) := by
  obtain ⟨tokens, errors, hreads, heq⟩ := exists_reads_tokenize source
  rw [heq]
  refine ⟨tokens, rfl, ?_, hreads.pairwise_tokens, hreads.length_errors, hreads.pairwise_errors, hreads.stop_le_last,
    hreads.tiles (by decide)⟩
  intro t ht
  have hlt := (hreads.token_place t ht).start_lt_stop
  obtain ⟨before, w, after, rfl, hw, hspan⟩ := hreads.token_place t ht
  refine ⟨hw.ne_end, hlt, w, ?_, hw.tokenize⟩
  rw [hspan, Nat.zero_add]
  exact slice_append before w after

end GameScript
