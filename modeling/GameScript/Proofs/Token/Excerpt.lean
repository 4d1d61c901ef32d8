import GameScript.Proofs.Token.Accounted
import Mathlib

/-!
# Excerpts of a text

What is read at the front of a text is read there, too, when the text is cut off after it (`scan_excerpt`): whatever
made a piece end is either still there or replaced by the end of the text, and no piece goes on past that.

So where some tokens of a text without faults stand in a row, the text from where the first one starts to where the last
one stops is read as these tokens (`Reads.excerpt`).
-/

namespace GameScript

/-! ## Pieces that are cut off where they end -/

section Pieces

variable {cs ys : List Char}

/-- A text of two parts that leaves at least the second one leaves that after some of the first one. -/
theorem exists_rest_of_append {ts rs : List Char} (h : ts ++ rs = cs ++ ys) (hle : ys.length ≤ rs.length) :
    ∃ rest, cs = ts ++ rest ∧ rs = rest ++ ys := by
  rcases List.append_eq_append_iff.1 h with ⟨rest, rfl, rfl⟩ | ⟨taken, rfl, rfl⟩
  · exact ⟨rest, rfl, rfl⟩
  · obtain rfl : taken = [] := List.length_eq_zero_iff.1 (by rw [List.length_append] at hle; omega)
    exact ⟨[], by simp, by simp⟩

theorem span_excerpt {test : Char → Bool} (h : ys.length ≤ (Cut.span test (cs ++ ys)).rest.length) :
    Cut.span test (cs ++ ys) = (Cut.span test cs).followedBy ys := by
  obtain ⟨rest, hcs, hrest⟩ := exists_rest_of_append (Cut.span_append test (cs ++ ys)) h
  have hhead : ∀ c ∈ rest.head?, test c = false := by
    intro c hc
    apply head?_dropWhile_eq (p := test) (cs ++ ys)
    rw [show (cs ++ ys).dropWhile test = rest ++ ys from hrest]
    simp [List.head?_append, show rest.head? = some c from hc]
  have hspan : Cut.span test cs = ⟨(Cut.span test (cs ++ ys)).taken, rest⟩ := by
    conv_lhs => rw [hcs]
    rw [span_followedBy hhead, span_of_forall (forall_span_taken test _)]
    rfl
  rw [hspan, Cut.followedBy, ← hrest]

theorem span_taken_eq_nil {test : Char → Bool} (h : (Cut.span test (cs ++ ys)).taken = []) :
    (Cut.span test cs).taken = [] := by
  cases cs with
  | nil => rfl
  | cons c cs => cases hc : test c <;> simp_all [Cut.span]

/-- What leaves all of a text takes nothing. -/
theorem cut_eq_of_le {c : Cut} (h : c.taken ++ c.rest = ys) (hle : ys.length ≤ c.rest.length) : c = ⟨[], ys⟩ := by
  obtain ⟨taken, left⟩ := c
  obtain rfl : taken = [] := by
    refine List.length_eq_zero_iff.1 ?_
    rw [← h, List.length_append] at hle
    dsimp only at hle
    omega
  rw [← h]
  rfl

theorem signPart_excerpt (h : ys.length ≤ (signPart (cs ++ ys)).rest.length) :
    signPart (cs ++ ys) = (signPart cs).followedBy ys := by
  cases cs with
  | nil => exact cut_eq_of_le (signPart_append ys) h
  | cons c cs =>
    simp only [List.cons_append, signPart]
    split <;> rfl

theorem span_rest_length_le (test : Char → Bool) (cs : List Char) : (Cut.span test cs).rest.length ≤ cs.length :=
  (List.dropWhile_sublist test).length_le

theorem exponentPart_rest_length_le (cs : List Char) : (exponentPart cs).rest.length ≤ cs.length := by
  have hall := congrArg List.length (exponentPart_append cs)
  rw [List.length_append] at hall
  omega

theorem exponentPart_excerpt (h : ys.length ≤ (exponentPart (cs ++ ys)).rest.length) :
    exponentPart (cs ++ ys) = (exponentPart cs).followedBy ys := by
  cases cs with
  | nil => exact cut_eq_of_le (exponentPart_append ys) h
  | cons mark cs =>
    simp only [List.cons_append, exponentPart] at h ⊢
    split at h
    · rename_i hmark
      -- the exponent ends in the first part, and so do its sign and its digits
      have hleft : ys.length ≤ (Cut.span Char.isDigit (signPart (cs ++ ys)).rest).rest.length := h
      have hsign := signPart_excerpt (hleft.trans (span_rest_length_le ..))
      have hdigits : Cut.span Char.isDigit (signPart (cs ++ ys)).rest =
          (Cut.span Char.isDigit (signPart cs).rest).followedBy ys := by
        rw [hsign] at hleft ⊢
        exact span_excerpt hleft
      have hmark' : (mark = 'e' ∨ mark = 'E') ∧ (Cut.span Char.isDigit (signPart cs).rest).taken ≠ [] := by
        rwa [hdigits] at hmark
      rw [if_pos hmark, if_pos hmark', hdigits, hsign]
      rfl
    · rename_i hmark
      have hno : ¬((mark = 'e' ∨ mark = 'E') ∧ (Cut.span Char.isDigit (signPart cs).rest).taken ≠ []) := by
        rintro ⟨he, hdigits⟩
        refine hmark ⟨he, fun hnil => hdigits ?_⟩
        cases cs with
        | nil => rfl
        | cons c cs =>
          simp only [List.cons_append, signPart] at hnil ⊢
          split
          · rename_i hsign
            rw [if_pos hsign] at hnil
            exact span_taken_eq_nil hnil
          · rename_i hsign
            rw [if_neg hsign, ← List.cons_append] at hnil
            exact span_taken_eq_nil hnil
      rw [if_neg hmark, if_neg hno]
      rfl

/-- A number leaves no more than its first digits do. -/
theorem numberParts_rest_length_le (cs : List Char) :
    (numberParts cs).rest.length ≤ (Cut.span Char.isDigit cs).rest.length := by
  unfold numberParts
  dsimp only
  split
  · rename_i after hafter
    split
    · exact Nat.le_refl _
    · rw [hafter]
      exact (exponentPart_rest_length_le _).trans ((span_rest_length_le ..).trans (Nat.le_succ _))
  · exact Nat.le_refl _

theorem numberParts_excerpt (h : ys.length ≤ (numberParts (cs ++ ys)).rest.length) :
    numberParts (cs ++ ys) = { numberParts cs with rest := (numberParts cs).rest ++ ys } := by
  have hwhole := span_excerpt (h.trans (numberParts_rest_length_le _))
  unfold numberParts at h ⊢
  rw [hwhole] at h ⊢
  generalize Cut.span Char.isDigit cs = whole at h ⊢
  obtain ⟨taken, left⟩ := whole
  cases left with
  | nil =>
    simp only [Cut.followedBy, List.nil_append] at h ⊢
    split at h
    · rename_i after
      split at h
      · rename_i hempty
        simp [hempty]
      · have hle := (exponentPart_rest_length_le _).trans (span_rest_length_le Char.isDigit after)
        rw [List.length_cons] at h
        dsimp only at h
        omega
    · rfl
  | cons c after =>
    by_cases hc : c = '.'
    · subst hc
      simp only [Cut.followedBy, List.cons_append] at h ⊢
      split at h
      · rename_i hempty
        have hempty' : (Cut.span Char.isDigit after).taken.isEmpty = true := by
          rw [List.isEmpty_iff] at hempty ⊢
          exact span_taken_eq_nil hempty
        rw [if_pos hempty, if_pos hempty']
        rfl
      · rename_i hfraction
        have hexponent : ys.length ≤ (exponentPart (Cut.span Char.isDigit (after ++ ys)).rest).rest.length := h
        have hdigits := span_excerpt (hexponent.trans (exponentPart_rest_length_le _))
        rw [hdigits] at hexponent hfraction ⊢
        have hpart := exponentPart_excerpt hexponent
        have hfraction' : ¬(Cut.span Char.isDigit after).taken.isEmpty = true := hfraction
        rw [if_neg hfraction', Cut.followedBy, hpart, if_neg hfraction']
        rfl
    · simp [Cut.followedBy, hc]

theorem scanNumber_excerpt (h : ys.length ≤ (scanNumber (cs ++ ys)).rest.length) :
    scanNumber (cs ++ ys) = (scanNumber cs).followedBy ys := by
  rw [scanNumber, numberParts_excerpt h]
  rfl

theorem scanComment_excerpt (hfault : (scanComment (cs ++ ys)).Faultless)
    (h : ys.length ≤ (scanComment (cs ++ ys)).rest.length) :
    scanComment (cs ++ ys) = (scanComment cs).followedBy ys := by
  have hclosed : (blockComment 0 (cs ++ ys)).2 = true := by
    refine Decidable.byContradiction fun hopen => hfault .unterminatedComment 0 2 ?_
    simp [scanComment, hopen]
  obtain ⟨rest, hcs, hrest⟩ := exists_rest_of_append (blockComment_append 0 (cs ++ ys)) h
  -- what is taken is the tail of a comment, and is so before whatever follows it
  have htail := blockComment_tail (commentTail_of_closed hclosed) 0 rest
  rw [← hcs] at htail
  refine scanComment_append (fun fault skip bytes hread => ?_) ys
  simp [scanComment, htail, blockCommentAfter] at hread

theorem scanString_excerpt {q : Char} (hq : q ≠ '\\') (hfault : (scanString q (cs ++ ys)).Faultless)
    (h : ys.length ≤ (scanString q (cs ++ ys)).rest.length) :
    scanString q (cs ++ ys) = (scanString q cs).followedBy ys := by
  have hall := stringBody_append q (cs ++ ys)
  have hspells (content : List Char) (h : unescape q.utf8Size (stringBody q (cs ++ ys)).taken = .ok content) :
      SpellsContent q content (stringBody q (cs ++ ys)).taken := spellsContent_unescape (cs ++ ys) h
  unfold scanString at hfault h
  generalize hbody : stringBody q (cs ++ ys) = body at hfault h hall hspells
  obtain ⟨taken, left⟩ := body
  dsimp only at hfault h hall hspells
  split at hfault
  · rename_i c rest
    split at hfault
    · rename_i hc
      subst hc
      simp only [if_true] at h
      cases hread : unescape c.utf8Size taken with
      | error place => exact absurd (by simp [hread]) (hfault .invalidEscape place 2)
      | ok content =>
        have hall' : (taken ++ [c]) ++ rest = cs ++ ys := by simpa using hall
        obtain ⟨rest', rfl, rfl⟩ := exists_rest_of_append hall' h
        have hwhole := (hspells content hread).stringBody hq (rest' ++ ys)
        have hcut := (hspells content hread).stringBody hq rest'
        simp [scanString, hwhole, hcut, Lexeme.followedBy, Cut.followedBy]
    · exact absurd rfl (hfault _ _ _)
  · exact absurd rfl (hfault _ _ _)

/-- The longest symbol at the front of a text is the longest one of its first part, if it is in there. -/
theorem atFront?_excerpt {s : Symbol} (h : Symbol.atFront? (cs ++ ys) = some s) (hs : s.spelling <+: cs) :
    Symbol.atFront? cs = some s := by
  obtain ⟨-, longer, others, hall, hno⟩ := List.find?_eq_some_iff_append.1 h
  refine List.find?_eq_some_iff_append.2 ⟨List.isPrefixOf_iff_prefix.2 hs, longer, others, hall, fun t ht => ?_⟩
  have hno := hno t ht
  rw [Bool.not_eq_true', ← Bool.not_eq_true, List.isPrefixOf_iff_prefix] at hno ⊢
  exact fun hpre => hno (hpre.trans (List.prefix_append cs ys))

theorem scanSymbol_excerpt {c : Char} (hfault : (scanSymbol c (cs ++ ys)).Faultless)
    (h : ys.length ≤ (scanSymbol c (cs ++ ys)).rest.length) :
    scanSymbol c (cs ++ ys) = (scanSymbol c cs).followedBy ys := by
  unfold scanSymbol at hfault h ⊢
  cases hs : Symbol.atFront? (c :: (cs ++ ys)) with
  | none =>
    rw [hs] at hfault
    exact absurd rfl (hfault _ _ _)
  | some s =>
    rw [hs] at h
    obtain ⟨rest, hcs, hrest⟩ : ∃ rest, c :: cs = s.spelling ++ rest ∧ _ :=
      exists_rest_of_append (Symbol.spelling_append_drop hs) h
    have hcut : Symbol.atFront? (c :: cs) = some s := atFront?_excerpt hs (hcs ▸ List.prefix_append _ _)
    have hdrop : (c :: cs).drop s.spelling.length = rest := by rw [hcs, List.drop_left]
    simp only [hcut, hdrop, ← List.cons_append, hrest]
    rfl

theorem scanComment_rest_length_le (cs : List Char) : (scanComment cs).rest.length ≤ cs.length := by
  have hall := congrArg List.length (blockComment_append 0 cs)
  rw [List.length_append] at hall
  show (blockComment 0 cs).1.rest.length ≤ cs.length
  omega

/-- What is read at the front of a text is read there when the text is cut off after it. -/
theorem scan_excerpt {c : Char} (hfault : (scan c (cs ++ ys)).Faultless)
    (h : ys.length ≤ (scan c (cs ++ ys)).rest.length) : scan c (cs ++ ys) = (scan c cs).followedBy ys := by
  by_cases hblank : isBlank c
  · rw [scan_of_isBlank _ hblank] at h ⊢
    rw [scan_of_isBlank _ hblank, span_excerpt h]
    rfl
  by_cases hdigit : c.isDigit
  · rw [scan_digit hdigit, ← List.cons_append] at h ⊢
    rw [scan_digit hdigit]
    exact scanNumber_excerpt h
  by_cases hquote : c = '"' ∨ c = '\''
  · rw [scan_quote hquote] at hfault h ⊢
    rw [scan_quote hquote]
    exact scanString_excerpt (by rcases hquote with rfl | rfl <;> decide) hfault h
  by_cases hname : isNameStart c
  · rw [scan_nameStart hname] at h ⊢
    rw [scan_nameStart hname, span_excerpt h]
    rfl
  -- a comment takes its opener, so the opener is not cut
  by_cases hslashes : ∃ after, c = '/' ∧ cs ++ ys = '/' :: after
  · obtain ⟨after, rfl, hafter⟩ := hslashes
    have hcut : ['/'] ++ after = cs ++ ys := hafter.symm
    rw [hafter, scan_slashes] at h
    obtain ⟨front, rfl, rfl⟩ := exists_rest_of_append hcut (h.trans (span_rest_length_le ..))
    rw [hafter, scan_slashes, List.singleton_append, scan_slashes, span_excerpt h]
    rfl
  by_cases hopener : ∃ after, c = '/' ∧ cs ++ ys = '*' :: after
  · obtain ⟨after, rfl, hafter⟩ := hopener
    have hcut : ['*'] ++ after = cs ++ ys := hafter.symm
    rw [hafter, scan_opener] at hfault h
    obtain ⟨front, rfl, rfl⟩ := exists_rest_of_append hcut (h.trans (scanComment_rest_length_le _))
    rw [hafter, scan_opener, List.singleton_append, scan_opener]
    exact scanComment_excerpt hfault h
  have hsymbol := scan_otherwise hblank hdigit hquote hname (fun after hc hcs => hslashes ⟨after, hc, hcs⟩)
    fun after hc hcs => hopener ⟨after, hc, hcs⟩
  rw [hsymbol] at hfault h ⊢
  rw [scan_otherwise hblank hdigit hquote hname (fun after hc hcs => hslashes ⟨after ++ ys, hc, by rw [hcs]; rfl⟩)
    fun after hc hcs => hopener ⟨after ++ ys, hc, by rw [hcs]; rfl⟩]
  exact scanSymbol_excerpt hfault h

/-- What is read at the front of a text is read at the front of each part of it that does not end before. -/
theorem exists_scan_excerpt {c : Char} {ws : List Char} (hfault : (scan c cs).Faultless)
    (h : (scan c cs).rest = ws ++ ys) : ∃ zs, cs = zs ++ ys ∧ (scan c zs).taken = (scan c cs).taken ∧
      (scan c zs).rest = ws ∧ (scan c zs).reading = (scan c cs).reading := by
  have hall := scan_append c cs
  rw [h, ← List.append_assoc] at hall
  obtain ⟨zs, hzs⟩ : ∃ zs, (scan c cs).taken ++ ws = c :: zs := by
    obtain ⟨d, ds, hd⟩ := List.exists_cons_of_ne_nil (scan_taken_ne_nil c cs)
    rw [hd] at hall ⊢
    obtain rfl : d = c := (List.cons.inj hall).1
    exact ⟨ds ++ ws, rfl⟩
  obtain rfl : zs ++ ys = cs := by simpa [hzs] using hall
  have hcut := scan_excerpt hfault (by rw [h, List.length_append]; exact Nat.le_add_left ..)
  rw [hcut] at h ⊢
  exact ⟨zs, rfl, rfl, List.append_cancel_right h, rfl⟩

end Pieces

/-! ## Tokens in a row -/

section Rows

variable {offset budget : Nat} {cs : List Char} {row after : List Token}

/-- Where the last of some tokens stops; without tokens, at the offset. -/
def stopOf (offset : Nat) (row : List Token) : Nat := (row.getLast?.map fun t => t.span.stop).getD offset

theorem stopOf_cons (t : Token) (row : List Token) : stopOf offset (t :: row) = stopOf t.span.stop row := by
  simp [stopOf, List.getLast?_cons]

/-- A text that is read as some tokens first is read as these alone when it is cut off after the last of them. -/
theorem Reads.front (h : Reads offset budget cs (row ++ after) []) :
    ∃ w ys, cs = w ++ ys ∧ Lexes w (row.map Token.kind) ∧ stopOf offset row = offset + byteLength w := by
  generalize htokens : row ++ after = tokens at h
  generalize herrors : ([] : List LexError) = errors at h
  induction h generalizing row with
  | done =>
    obtain ⟨rfl, -⟩ := List.append_eq_nil_iff.1 htokens
    exact ⟨[], [], rfl, .nil, rfl⟩
  | @spent _ cs =>
    obtain ⟨rfl, -⟩ := List.append_eq_nil_iff.1 htokens
    exact ⟨[], cs, rfl, .nil, rfl⟩
  | @trivia offset _ c cs _ _ hscan _ ih =>
    cases row with
    | nil => exact ⟨[], c :: cs, rfl, .nil, rfl⟩
    | cons t row =>
      obtain ⟨w, ys, hrest, hw, hstop⟩ := ih htokens herrors
      obtain ⟨zs, rfl, htaken, rfl, hread⟩ := exists_scan_excerpt (by simp [Lexeme.Faultless, hscan]) hrest
      refine ⟨c :: zs, ys, rfl, .trivia (hread.trans hscan) hw, ?_⟩
      rw [stopOf_cons] at hstop ⊢
      rw [hstop, ← htaken, stop_scan]
  | @token offset _ c cs kind _ _ hscan _ ih =>
    cases row with
    | nil => exact ⟨[], c :: cs, rfl, .nil, rfl⟩
    | cons t row =>
      obtain ⟨rfl, hrow⟩ := List.cons.inj htokens
      obtain ⟨w, ys, hrest, hw, hstop⟩ := ih hrow herrors
      obtain ⟨zs, rfl, htaken, rfl, hread⟩ := exists_scan_excerpt (by simp [Lexeme.Faultless, hscan]) hrest
      refine ⟨c :: zs, ys, rfl, .token (hread.trans hscan) hw, ?_⟩
      rw [stopOf_cons, hstop, ← htaken, stop_scan]
  | fault => cases herrors

/-- An excerpt of what is left behind a lexeme is one of the whole text. -/
theorem exists_excerpt_behind {c : Char} {ks : List TokenKind} {first : Token}
    (h : ∃ xs w ys, (scan c cs).rest = xs ++ w ++ ys ∧ Lexes w ks ∧
      first.span.start = offset + byteLength (scan c cs).taken + byteLength xs ∧
        stopOf (offset + byteLength (scan c cs).taken) (first :: row) =
          offset + byteLength (scan c cs).taken + byteLength xs + byteLength w) :
    ∃ xs w ys, c :: cs = xs ++ w ++ ys ∧ Lexes w ks ∧ first.span.start = offset + byteLength xs ∧
      stopOf offset (first :: row) = offset + byteLength xs + byteLength w := by
  obtain ⟨xs, w, ys, hrest, hw, hstart, hstop⟩ := h
  refine ⟨(scan c cs).taken ++ xs, w, ys, ?_, hw, ?_, ?_⟩
  · rw [← scan_append c cs, hrest]
    simp
  · rw [hstart, byteLength_append, Nat.add_assoc]
  · rw [stopOf_cons] at hstop ⊢
    rw [hstop, byteLength_append, Nat.add_assoc offset]

/-- The text from where the first of some tokens in a row starts to where the last one stops is read as these tokens. -/
theorem Reads.excerpt {before : List Token} {first : Token}
    (h : Reads offset budget cs (before ++ first :: row ++ after) []) : ∃ xs w ys, cs = xs ++ w ++ ys ∧
      Lexes w ((first :: row).map Token.kind) ∧ first.span.start = offset + byteLength xs ∧
        stopOf offset (first :: row) = offset + byteLength xs + byteLength w := by
  generalize htokens : before ++ first :: row ++ after = tokens at h
  generalize herrors : ([] : List LexError) = errors at h
  induction h generalizing before with
  | done => simp at htokens
  | spent => simp at htokens
  | trivia _ _ ih => exact exists_excerpt_behind (ih htokens herrors)
  | @token offset _ c cs kind _ _ hscan hreads ih =>
    cases before with
    | nil =>
      subst herrors
      have hall := Reads.token hscan hreads
      rw [← htokens] at hall
      obtain ⟨w, ys, hcs, hw, hstop⟩ := hall.front
      obtain ⟨rfl, -⟩ := List.cons.inj htokens
      exact ⟨[], w, ys, hcs, hw, rfl, hstop⟩
    | cons t before => exact exists_excerpt_behind (ih (List.cons.inj htokens).2 herrors)
  | fault => cases herrors

end Rows

end GameScript
