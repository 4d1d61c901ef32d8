import GameScript.Token.Lexer
import GameScript.Proofs.Token.Front

/-!
# What a text is made of

`Lexes cs ks` says that a text is read without a fault and makes tokens of the kinds `ks`, wherever it stands. That is
what `tokenizeFrom` does with it (`Lexes.tokenizeFrom`), and it is so of every text without a fault
(`lexes_of_errors_eq_nil`).

Blanks end every token (`scan_apart`): names, numbers and symbols contain none, and strings are closed before it. A
line break ends every other lexeme that a text without faults can have open at its end, but for blanks, which go on
with it. So texts of which each is read without a fault are read so one after the other, when a line break stands
between them (`Lexes.append`).
-/

namespace GameScript

/-! ## Pieces before a blank -/

/-- A text that is empty or starts with a blank. -/
def Apart (rest : List Char) : Prop := ∀ c ∈ rest.head?, isBlank c = true

theorem apart_cons {c : Char} {cs : List Char} : Apart (c :: cs) ↔ isBlank c = true := by simp [Apart]

section Pieces

variable {rest : List Char}

/-- A cut of a text that other text follows. -/
def Cut.followedBy (c : Cut) (ys : List Char) : Cut := ⟨c.taken, c.rest ++ ys⟩

theorem span_followedBy {test : Char → Bool} (h : ∀ c ∈ rest.head?, test c = false) (cs : List Char) :
    Cut.span test (cs ++ rest) = (Cut.span test cs).followedBy rest := by
  induction cs with
  | nil =>
    cases rest with
    | nil => rfl
    | cons c rest => simp [Cut.span, Cut.followedBy, h c rfl]
  | cons c cs ih =>
    simp only [Cut.span, Cut.followedBy, Cut.mk.injEq] at ih
    cases hc : test c <;> simp [Cut.span, Cut.followedBy, hc, ih]

theorem digits_apart (hrest : Apart rest) (cs : List Char) :
    Cut.span Char.isDigit (cs ++ rest) = (Cut.span Char.isDigit cs).followedBy rest :=
  span_followedBy (fun c hc => isDigit_of_isBlank (hrest c hc)) cs

/-- A comment in brackets is the same whatever follows it. -/
theorem blockComment_append_of_closed (depth : Nat) (cs ys : List Char) (h : (blockComment depth cs).2 = true) :
    blockComment depth (cs ++ ys) = ((blockComment depth cs).1.followedBy ys, true) := by
  fun_induction blockComment depth cs with
  | case1 => cases h
  | case2 depth cs cut closed hrec ih =>
    simp only [hrec] at ih
    simp [blockComment, ih h, Cut.followedBy, Cut.push]
  | case3 cs => simp [blockComment, Cut.followedBy]
  | case4 depth cs cut closed hrec ih =>
    simp only [hrec] at ih
    simp [blockComment, ih h, Cut.followedBy, Cut.push]
  | case5 depth c cs hopen hclose hclose' cut closed hrec ih =>
    simp only [hrec] at ih
    cases cs with
    | nil =>
      obtain ⟨-, rfl⟩ : _ ∧ closed = false := by simpa [blockComment, eq_comm] using hrec
      cases h
    | cons d cs =>
      rw [List.cons_append, List.cons_append, blockComment.eq_5, ← List.cons_append, ih h]
      · rfl
      · rintro _ rfl hd
        cases hd
        exact hopen _ rfl rfl
      · rintro _ rfl rfl hd
        cases hd
        exact hclose _ rfl rfl rfl
      · rintro k _ rfl rfl hd
        cases hd
        exact hclose' k _ rfl rfl rfl

/-- A string is the same whatever follows its closing quote. -/
theorem stringBody_append_of_closed {q : Char} (hq : q ≠ '\\') (cs ys : List Char) {rest : List Char}
    (h : (stringBody q cs).rest = q :: rest) : stringBody q (cs ++ ys) = (stringBody q cs).followedBy ys := by
  fun_induction stringBody q cs with
  | case1 => cases h
  | case2 cs => simp [stringBody, Cut.followedBy]
  | case3 c cs hc ih =>
    have hrest : (stringBody q cs).rest = q :: rest := h
    simp [stringBody, hc, ih hrest, Cut.followedBy, Cut.push]
  | case4 c cs hno hc =>
    obtain ⟨rfl, -⟩ : c = q ∧ cs = rest := by simpa using h
    rw [List.cons_append, stringBody.eq_3 _ _ _ fun _ _ hc' => absurd hc' hq, if_pos (.inl rfl)]
    rfl
  | case5 c cs hno hc ih =>
    have hrest : (stringBody q cs).rest = q :: rest := h
    rw [List.cons_append, stringBody.eq_3 _ _ _ fun _ _ hc' => absurd (.inr hc') hc, if_neg hc, ih hrest]
    rfl

theorem signPart_apart (hrest : Apart rest) (cs : List Char) :
    signPart (cs ++ rest) = (signPart cs).followedBy rest := by
  cases cs with
  | nil =>
    cases rest with
    | nil => rfl
    | cons c rest =>
      have hsign : ¬(c = '+' ∨ c = '-') := by
        rintro (rfl | rfl)
        · cases apart_cons.1 hrest
        · cases apart_cons.1 hrest
      simp [signPart, Cut.followedBy, hsign]
  | cons c cs =>
    simp only [List.cons_append, signPart]
    split <;> rfl

theorem exponentPart_apart (hrest : Apart rest) (cs : List Char) :
    exponentPart (cs ++ rest) = (exponentPart cs).followedBy rest := by
  cases cs with
  | nil =>
    cases rest with
    | nil => rfl
    | cons c rest =>
      have hmark : ¬(c = 'e' ∨ c = 'E') := by
        rintro (rfl | rfl)
        · cases apart_cons.1 hrest
        · cases apart_cons.1 hrest
      simp [exponentPart, Cut.followedBy, hmark]
  | cons mark cs =>
    simp only [List.cons_append, exponentPart, signPart_apart hrest, Cut.followedBy, digits_apart hrest]
    split <;> simp [Cut.push]

theorem numberParts_apart (hrest : Apart rest) (cs : List Char) :
    numberParts (cs ++ rest) = { numberParts cs with rest := (numberParts cs).rest ++ rest } := by
  unfold numberParts
  rw [digits_apart hrest]
  generalize Cut.span Char.isDigit cs = whole
  obtain ⟨taken, after⟩ := whole
  match after with
  | [] =>
    simp only [Cut.followedBy, List.nil_append]
    split
    · cases apart_cons.1 hrest
    · rfl
  | c :: after =>
    by_cases hc : c = '.'
    · subst hc
      simp only [Cut.followedBy, List.cons_append, digits_apart hrest, exponentPart_apart hrest]
      split <;> rfl
    · simp [Cut.followedBy, hc]

theorem isPrefixOf_apart (hrest : Apart rest) {w : List Char} (h : ∀ c ∈ w, isBlank c = false) (cs : List Char) :
    w.isPrefixOf (cs ++ rest) = w.isPrefixOf cs := by
  induction w generalizing cs with
  | nil => simp
  | cons a w ih =>
    cases cs with
    | nil =>
      cases rest with
      | nil => rfl
      | cons c rest =>
        have hne : a ≠ c := by
          rintro rfl
          simp [apart_cons.1 hrest] at h
        simp [List.isPrefixOf, hne]
    | cons c cs => simp [List.isPrefixOf, ih fun d hd => h d (List.mem_cons_of_mem a hd)]

theorem Symbol.isBlank_of_mem_spelling (s : Symbol) : ∀ c ∈ s.spelling, isBlank c = false := by
  cases s <;> simp [Symbol.spelling, isBlank]

theorem atFront?_apart (hrest : Apart rest) (cs : List Char) :
    Symbol.atFront? (cs ++ rest) = Symbol.atFront? cs := by
  simp only [Symbol.atFront?, isPrefixOf_apart hrest (Symbol.isBlank_of_mem_spelling _)]

/-- A lexeme of a text that other text follows. -/
def Lexeme.followedBy (l : Lexeme) (ys : List Char) : Lexeme := ⟨l.toCut.followedBy ys, l.reading⟩

/-- A lexeme that is a token or none, but no fault. -/
def Lexeme.Faultless (l : Lexeme) : Prop := ∀ fault skip bytes, l.reading ≠ .fault fault skip bytes

theorem scanNumber_apart (hrest : Apart rest) (cs : List Char) :
    scanNumber (cs ++ rest) = (scanNumber cs).followedBy rest := by
  rw [scanNumber, numberParts_apart hrest]
  rfl

theorem scanString_append {q : Char} (hq : q ≠ '\\') {cs : List Char} (h : (scanString q cs).Faultless)
    (ys : List Char) : scanString q (cs ++ ys) = (scanString q cs).followedBy ys := by
  obtain ⟨rest, hrest⟩ : ∃ rest, (stringBody q cs).rest = q :: rest := by
    unfold scanString at h
    dsimp only at h
    split at h
    · rename_i c rest hr
      split at h
      · rename_i hc
        exact ⟨rest, hc ▸ hr⟩
      · exact absurd rfl (h _ _ _)
    · exact absurd rfl (h _ _ _)
  simp [scanString, stringBody_append_of_closed hq cs ys hrest, hrest, Cut.followedBy, Lexeme.followedBy]

theorem scanComment_append {cs : List Char} (h : (scanComment cs).Faultless) (ys : List Char) :
    scanComment (cs ++ ys) = (scanComment cs).followedBy ys := by
  have hclosed : (blockComment 0 cs).2 = true := by
    refine Decidable.byContradiction fun hopen => h .unterminatedComment 0 2 ?_
    simp [scanComment, hopen]
  simp [scanComment, blockComment_append_of_closed 0 cs ys hclosed, hclosed, Cut.followedBy, Lexeme.followedBy,
    Cut.push]

theorem scanSymbol_apart (hrest : Apart rest) (c : Char) (cs : List Char) :
    scanSymbol c (cs ++ rest) = (scanSymbol c cs).followedBy rest := by
  have hfront : Symbol.atFront? (c :: (cs ++ rest)) = Symbol.atFront? (c :: cs) := atFront?_apart hrest (c :: cs)
  unfold scanSymbol
  rw [hfront]
  cases hs : Symbol.atFront? (c :: cs) with
  | none => rfl
  | some s =>
    have hle : s.spelling.length ≤ (c :: cs).length := by
      have := congrArg List.length (Symbol.spelling_append_drop hs)
      rw [List.length_append] at this
      omega
    dsimp only
    rw [← List.cons_append, List.drop_append_of_le_length hle]
    rfl

/-- What is read at the front of a text, and is not blank, is the same where a blank or nothing follows the text; a
comment up to the end of the line wants a line break there. -/
theorem scan_apart {c : Char} {cs : List Char} (hblank : isBlank c = false) (h : (scan c cs).Faultless)
    (hrest : Apart rest) (hline : (scan c cs).reading = .trivia → rest.head? = some '\n') :
    scan c (cs ++ rest) = (scan c cs).followedBy rest := by
  by_cases hdigit : c.isDigit
  · rw [scan_digit hdigit, scan_digit hdigit]
    exact scanNumber_apart hrest (c :: cs)
  by_cases hquote : c = '"' ∨ c = '\''
  · rw [scan_quote hquote] at h ⊢
    rw [scan_quote hquote]
    exact scanString_append (by rcases hquote with rfl | rfl <;> decide) h _
  by_cases hname : isNameStart c
  · have hspan := span_followedBy (fun d hd => isNamePart_of_isBlank (hrest d hd)) cs
    rw [scan_nameStart hname, scan_nameStart hname, hspan]
    rfl
  by_cases hslashes : ∃ after, c = '/' ∧ cs = '/' :: after
  · obtain ⟨after, rfl, rfl⟩ := hslashes
    have hspan : Cut.span (· ≠ '\n') (after ++ rest) = (Cut.span (· ≠ '\n') after).followedBy rest :=
      span_followedBy (by simp [show rest.head? = some '\n' from hline rfl]) after
    rw [List.cons_append, scan_slashes, scan_slashes, hspan]
    rfl
  by_cases hopener : ∃ after, c = '/' ∧ cs = '*' :: after
  · obtain ⟨after, rfl, rfl⟩ := hopener
    exact scanComment_append h _
  -- what follows makes no opener of a comment of the last character
  have hextended {d : Char} (hd : isBlank d = false) (hno : ¬∃ after, c = '/' ∧ cs = d :: after) (after : List Char)
      (hc : c = '/') : cs ++ rest ≠ d :: after := by
    intro hafter
    cases cs with
    | nil => exact absurd (hrest d (by rw [show rest = d :: after from hafter]; rfl)) (by simp [hd])
    | cons e cs => exact hno ⟨cs, hc, by rw [(List.cons.inj hafter).1]⟩
  rw [scan_otherwise (by simp [hblank]) hdigit hquote hname (hextended rfl hslashes) (hextended rfl hopener),
    scan_otherwise (by simp [hblank]) hdigit hquote hname (fun after hc hcs => hslashes ⟨after, hc, hcs⟩)
      fun after hc hcs => hopener ⟨after, hc, hcs⟩]
  exact scanSymbol_apart hrest c cs

end Pieces

/-! ## Texts -/

/-- A text that is read without a fault, and the kinds of its tokens. -/
inductive Lexes : List Char → List TokenKind → Prop
  | nil : Lexes [] []
  | trivia {c : Char} {cs : List Char} {ks : List TokenKind} (h : (scan c cs).reading = .trivia)
      (hrest : Lexes (scan c cs).rest ks) : Lexes (c :: cs) ks
  | token {c : Char} {cs : List Char} {k : TokenKind} {ks : List TokenKind} (h : (scan c cs).reading = .token k)
      (hrest : Lexes (scan c cs).rest ks) : Lexes (c :: cs) (k :: ks)

theorem Lexes.tokenizeFrom {offset budget : Nat} {cs : List Char} {ks : List TokenKind} (hbudget : budget ≠ 0)
    (h : Lexes cs ks) : (tokenizeFrom offset budget cs).errors = [] ∧
      (tokenizeFrom offset budget cs).tokens.map Token.kind = ks ++ [.endOfText] := by
  induction h generalizing offset with
  | nil =>
    rw [GameScript.tokenizeFrom]
    exact ⟨rfl, rfl⟩
  | @trivia c cs ks hc hrest ih =>
    rw [GameScript.tokenizeFrom]
    simpa only [hbudget, if_false, hc] using ih
  | @token c cs k ks hc hrest ih =>
    rw [GameScript.tokenizeFrom]
    simpa [hbudget, hc, Lexed.addToken] using ih

theorem lexes_of_errors_eq_nil {offset budget : Nat} {cs : List Char} (hbudget : budget ≠ 0)
    (h : (tokenizeFrom offset budget cs).errors = []) : ∃ ks, Lexes cs ks := by
  fun_induction GameScript.tokenizeFrom offset budget cs with
  | case1 => exact ⟨[], .nil⟩
  | case2 => exact absurd rfl hbudget
  | case3 offset budget c cs hb lexeme next hc ih =>
    obtain ⟨ks, hks⟩ := ih hbudget h
    exact ⟨ks, .trivia hc hks⟩
  | case4 offset budget c cs hb lexeme next k hc ih =>
    obtain ⟨ks, hks⟩ := ih hbudget h
    exact ⟨k :: ks, .token hc hks⟩
  | case5 => cases h

theorem lexes_blank_iff {c : Char} {cs : List Char} {ks : List TokenKind} (h : isBlank c = true) :
    Lexes (c :: cs) ks ↔ Lexes (cs.dropWhile isBlank) ks := by
  have hscan := scan_of_isBlank cs h
  constructor
  · intro hlexes
    cases hlexes with
    | trivia _ hrest =>
      rw [hscan] at hrest
      exact hrest
    | token hc _ =>
      rw [hscan] at hc
      cases hc
  · intro hrest
    refine .trivia (by rw [hscan]) ?_
    rw [hscan]
    exact hrest

/-- Texts that are read without faults are read so one after the other, with a line break between them. -/
theorem Lexes.append {xs ys : List Char} {ks ls : List TokenKind} (h : Lexes xs ks) (h' : Lexes ('\n' :: ys) ls) :
    Lexes (xs ++ '\n' :: ys) (ks ++ ls) := by
  induction h with
  | nil => exact h'
  | @trivia c cs ks hc hrest ih =>
    rw [List.cons_append]
    cases hblank : isBlank c with
    | false =>
      have hscan : scan c (cs ++ '\n' :: ys) = _ :=
        scan_apart hblank (by simp [Lexeme.Faultless, hc]) (apart_cons.2 rfl) fun _ => rfl
      exact .trivia (by rw [hscan]; exact hc) (by rw [hscan]; exact ih)
    | true =>
      -- blanks at the end of the first text and the line break are one lexeme
      rw [scan_of_isBlank cs hblank] at ih
      rw [lexes_blank_iff hblank, List.dropWhile_append]
      split
      · rename_i hempty
        have hnone : cs.dropWhile isBlank = [] := List.isEmpty_iff.1 hempty
        have hrest : Lexes (cs.dropWhile isBlank ++ '\n' :: ys) (ks ++ ls) := ih
        rw [hnone, List.nil_append] at hrest
        exact ((lexes_blank_iff rfl).1 hrest : Lexes (ys.dropWhile isBlank) (ks ++ ls))
      · exact ih
  | @token c cs k ks hc hrest ih =>
    have hblank : isBlank c = false := by
      refine Bool.eq_false_iff.2 fun hblank => ?_
      rw [scan_of_isBlank cs hblank] at hc
      cases hc
    have hscan : scan c (cs ++ '\n' :: ys) = _ :=
      scan_apart hblank (by simp [Lexeme.Faultless, hc]) (apart_cons.2 rfl) fun _ => rfl
    rw [List.cons_append]
    exact .token (by rw [hscan]; exact hc) (by rw [hscan]; exact ih)

theorem wordKind_ne_end (word : List Char) : wordKind word ≠ .endOfText := by
  unfold wordKind
  split <;> simp

theorem NumberParts.kind?_ne_end (p : NumberParts) : p.kind? ≠ some .endOfText := by
  unfold NumberParts.kind?
  split
  · dsimp only
    split <;> simp
  · simp

/-- No lexeme is the end of the text. -/
theorem scan_ne_end (c : Char) (cs : List Char) : (scan c cs).reading ≠ .token .endOfText := by
  have hfront := front_scan c cs
  generalize scan c cs = lexeme at hfront
  cases hfront with
  | blanks => simp
  | number =>
    have hkind := NumberParts.kind?_ne_end (numberParts (c :: cs))
    unfold scanNumber
    dsimp only
    split
    · rename_i kind hk
      simpa [hk] using hkind
    · simp
  | string =>
    unfold scanString
    dsimp only
    split
    · split
      · split <;> simp
      · simp
    · simp
  | word => simpa using wordKind_ne_end _
  | line => simp
  | comment =>
    unfold scanComment
    dsimp only
    split <;> simp
  | symbol =>
    unfold scanSymbol
    split <;> simp

/-- No token but the last is the end of the text. -/
theorem Lexes.endOfText_not_mem {cs : List Char} {ks : List TokenKind} (h : Lexes cs ks) : .endOfText ∉ ks := by
  induction h with
  | nil => exact List.not_mem_nil
  | trivia _ _ ih => exact ih
  | @token c cs k ks hc _ ih =>
    refine fun hmem => ?_
    rcases List.mem_cons.1 hmem with rfl | hmem
    · exact scan_ne_end c cs hc
    · exact ih hmem

/-! ## Scripts one after the other -/

/-- Two scripts, one after the other, with a line break and a semicolon between them. -/
def joined (xs ys : List Char) : List Char := xs ++ '\n' :: ';' :: ys

end GameScript
