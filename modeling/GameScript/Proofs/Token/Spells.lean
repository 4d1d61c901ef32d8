import Mathlib.Data.List.TakeWhile
import GameScript.Proofs.Token.Lexes

/-!
# How tokens are spelled

`Spells kind w` is the grammar of tokens: `w` is a text of a token of that kind. It knows nothing of the order in which
`scan` tries things, nor of where a token stops.

* A spelled token is read as what it spells, alone and before a blank (`Spells.scan`, `Spells.scan_apart`).
* Whatever is read as a token spells it (`spells_of_scan`).
-/

namespace GameScript

/-- A run of digits; there is at least one. -/
def IsDigits (ds : List Char) : Prop := ds ≠ [] ∧ ∀ c ∈ ds, c.isDigit = true

/-- The exponent part of a number, and the exponent that it spells. -/
inductive SpellsExponent : Int → List Char → Prop
  | absent : SpellsExponent 0 []
  | bare {mark : Char} {ds : List Char} (hmark : mark = 'e' ∨ mark = 'E') (hds : IsDigits ds) :
      SpellsExponent (digitsValue ds) (mark :: ds)
  | plus {mark : Char} {ds : List Char} (hmark : mark = 'e' ∨ mark = 'E') (hds : IsDigits ds) :
      SpellsExponent (digitsValue ds) (mark :: '+' :: ds)
  | minus {mark : Char} {ds : List Char} (hmark : mark = 'e' ∨ mark = 'E') (hds : IsDigits ds) :
      SpellsExponent (-digitsValue ds) (mark :: '-' :: ds)

/-- What stands between quotes `q`, and the characters that it spells: each as it is or escaped, the backslash and the
quote always escaped. -/
inductive SpellsContent (q : Char) : List Char → List Char → Prop
  | nil : SpellsContent q [] []
  | raw {c : Char} {content body : List Char} (hquote : c ≠ q) (hbackslash : c ≠ '\\')
      (h : SpellsContent q content body) : SpellsContent q (c :: content) (c :: body)
  | escape {e c : Char} {content body : List Char} (he : escaped e = some c) (h : SpellsContent q content body) :
      SpellsContent q (c :: content) ('\\' :: e :: body)

/-- The words that are no names, and the tokens that they spell. -/
def keywords : List (String × TokenKind) :=
  [("let", .letWord), ("return", .returnWord), ("true", .bool true), ("false", .bool false), ("null", .null)]

/-- A text of a token of the given kind. -/
inductive Spells : TokenKind → List Char → Prop
  | keyword {word : String} {kind : TokenKind} (h : (word, kind) ∈ keywords) : Spells kind word.toList
  | name {c : Char} {cs : List Char} (hstart : isNameStart c = true) (hpart : ∀ d ∈ cs, isNamePart d = true)
      (hword : String.ofList (c :: cs) ∉ keywords.map Prod.fst) : Spells (.ident (String.ofList (c :: cs))) (c :: cs)
  | symbol (s : Symbol) : Spells (.symbol s) s.spelling
  | int {ds : List Char} (hds : IsDigits ds) (hbound : digitsValue ds < NumberParts.integerBound) :
      Spells (.int (Int64.ofNat (digitsValue ds))) ds
  | float {whole fraction part : List Char} {exponent : Int} (hwhole : IsDigits whole) (hfraction : IsDigits fraction)
      (hpart : SpellsExponent exponent part) :
      Spells (.float (readDecimal (digitsValue (whole ++ fraction)) (exponent - fraction.length)))
        (whole ++ '.' :: fraction ++ part)
  | string {q : Char} {content body : List Char} (hq : q = '"' ∨ q = '\'') (h : SpellsContent q content body) :
      Spells (.string (String.ofList content)) (q :: body ++ [q])

theorem Spells.ne_nil {kind : TokenKind} {w : List Char} (h : Spells kind w) : w ≠ [] := by
  cases h with
  | keyword h =>
    simp only [keywords, List.mem_cons, Prod.mk.injEq, List.not_mem_nil, or_false] at h
    rcases h with ⟨rfl, -⟩ | ⟨rfl, -⟩ | ⟨rfl, -⟩ | ⟨rfl, -⟩ | ⟨rfl, -⟩ <;> decide
  | name => exact List.cons_ne_nil _ _
  | symbol s => exact s.spelling_ne_nil
  | int hds => exact hds.1
  | float => simp
  | string => simp

/-- All of a text passes the test that cuts it. -/
theorem span_of_forall {test : Char → Bool} {cs : List Char} (h : ∀ c ∈ cs, test c = true) :
    Cut.span test cs = ⟨cs, []⟩ := by
  have htaken : cs.takeWhile test = cs := List.takeWhile_eq_self_iff.2 h
  have hrest : cs.dropWhile test = [] := List.dropWhile_eq_nil_iff.2 h
  rw [Cut.span, htaken, hrest]

/-! ## Spelled tokens are read -/

section Read

theorem IsDigits.exists_cons {ds : List Char} (h : IsDigits ds) : ∃ d rest, ds = d :: rest ∧ d.isDigit = true := by
  obtain ⟨d, rest, rfl⟩ := List.exists_cons_of_ne_nil h.1
  exact ⟨d, rest, rfl, h.2 d (List.mem_cons_self ..)⟩

theorem signPart_digits {ds : List Char} (h : IsDigits ds) : signPart ds = ⟨[], ds⟩ := by
  obtain ⟨d, rest, rfl, hd⟩ := h.exists_cons
  have hsign : ¬(d = '+' ∨ d = '-') := by
    rintro (rfl | rfl) <;> cases hd
  simp [signPart, hsign]

theorem exponentValue_bare {mark : Char} {ds : List Char} (h : IsDigits ds) :
    exponentValue (mark :: ds) = digitsValue ds := by
  obtain ⟨d, rest, rfl, hd⟩ := h.exists_cons
  unfold exponentValue
  split
  · rename_i heq
    cases heq
    cases hd
  · rename_i heq
    cases heq
    cases hd
  · rfl

variable {exponent : Int} {part : List Char}

theorem SpellsExponent.exponentPart (h : SpellsExponent exponent part) : exponentPart part = ⟨part, []⟩ := by
  cases h with
  | absent => rfl
  | bare hmark hds =>
    simp [GameScript.exponentPart, signPart_digits hds, span_of_forall hds.2, hmark, hds.1, Cut.push]
  | plus hmark hds => simp [GameScript.exponentPart, signPart, span_of_forall hds.2, hmark, hds.1, Cut.push]
  | minus hmark hds => simp [GameScript.exponentPart, signPart, span_of_forall hds.2, hmark, hds.1, Cut.push]

theorem SpellsExponent.exponentValue (h : SpellsExponent exponent part) : exponentValue part = exponent := by
  cases h with
  | absent => rfl
  | bare _ hds => exact exponentValue_bare hds
  | plus => rfl
  | minus => rfl

/-- No digit starts an exponent part, so the digits before it end there. -/
theorem SpellsExponent.isDigit_head (h : SpellsExponent exponent part) : ∀ c ∈ part.head?, c.isDigit = false := by
  have hmark : ∀ mark : Char, mark = 'e' ∨ mark = 'E' → mark.isDigit = false := by
    rintro mark (rfl | rfl) <;> rfl
  cases h with
  | absent => simp
  | bare hm _ => simp [hmark _ hm]
  | plus hm _ => simp [hmark _ hm]
  | minus hm _ => simp [hmark _ hm]

theorem numberParts_digits {ds : List Char} (h : IsDigits ds) : numberParts ds = ⟨ds, [], [], []⟩ := by
  simp [numberParts, span_of_forall h.2]

theorem numberParts_float {whole fraction : List Char} (hwhole : IsDigits whole) (hfraction : IsDigits fraction)
    (hpart : SpellsExponent exponent part) :
    numberParts (whole ++ '.' :: fraction ++ part) = ⟨whole, fraction, part, []⟩ := by
  have hspan : Cut.span Char.isDigit (whole ++ '.' :: (fraction ++ part)) = ⟨whole, '.' :: (fraction ++ part)⟩ := by
    rw [span_followedBy (by simp), span_of_forall hwhole.2]
    rfl
  have hspan' : Cut.span Char.isDigit (fraction ++ part) = ⟨fraction, part⟩ := by
    rw [span_followedBy hpart.isDigit_head, span_of_forall hfraction.2]
    rfl
  simp [numberParts, hspan, hspan', hfraction.1, hpart.exponentPart]

theorem scanNumber_digits {ds : List Char} (h : IsDigits ds) (hbound : digitsValue ds < NumberParts.integerBound) :
    scanNumber ds = ⟨⟨ds, []⟩, .token (.int (Int64.ofNat (digitsValue ds)))⟩ := by
  simp [scanNumber, numberParts_digits h, NumberParts.taken, NumberParts.kind?, hbound]

theorem scanNumber_float {whole fraction : List Char} (hwhole : IsDigits whole) (hfraction : IsDigits fraction)
    (hpart : SpellsExponent exponent part) :
    scanNumber (whole ++ '.' :: fraction ++ part) = ⟨⟨whole ++ '.' :: fraction ++ part, []⟩,
      .token (.float (readDecimal (digitsValue (whole ++ fraction)) (exponent - fraction.length)))⟩ := by
  rw [scanNumber, numberParts_float hwhole hfraction hpart]
  simp [NumberParts.taken, NumberParts.kind?, hfraction.1, hpart.exponentValue]

variable {q : Char} {content body : List Char}

theorem SpellsContent.stringBody (h : SpellsContent q content body) (hq : q ≠ '\\') (rest : List Char) :
    stringBody q (body ++ q :: rest) = ⟨body, q :: rest⟩ := by
  induction h with
  | nil =>
    rw [List.nil_append, GameScript.stringBody.eq_3 _ _ _ fun _ _ hc => absurd hc hq]
    simp
  | raw hquote hbackslash _ ih =>
    rw [List.cons_append, GameScript.stringBody.eq_3 _ _ _ fun _ _ hc => absurd hc hbackslash]
    simp [hquote, hbackslash, ih, Cut.push]
  | @escape e c _ _ he _ ih =>
    have hline : e ≠ '\n' := by
      rintro rfl
      cases he
    simp [GameScript.stringBody, hline, ih, Cut.push]

theorem SpellsContent.unescape (h : SpellsContent q content body) (offset : Nat) :
    unescape offset body = .ok content := by
  induction h generalizing offset with
  | nil => rfl
  | raw _ hbackslash _ ih =>
    rw [GameScript.unescape.eq_3 _ _ _ fun _ _ hc => absurd hc hbackslash]
    simp [hbackslash, ih, Except.map]
  | escape he _ ih => simp [GameScript.unescape, he, ih, Except.map]

theorem wordKind_of_notMem {word : List Char} (h : String.ofList word ∉ keywords.map Prod.fst) :
    wordKind word = .ident (String.ofList word) := by
  simp only [keywords, List.map_cons, List.map_nil, List.mem_cons, List.not_mem_nil, not_or, or_false] at h
  simp [wordKind, h]

/-- A spelled token is read as what it spells. -/
theorem Spells.scan {kind : TokenKind} {c : Char} {cs : List Char} (h : Spells kind (c :: cs)) :
    scan c cs = ⟨⟨c :: cs, []⟩, .token kind⟩ := by
  generalize hw : c :: cs = w at h
  cases h with
  | keyword h =>
    simp only [keywords, List.mem_cons, Prod.mk.injEq, List.not_mem_nil, or_false] at h
    rcases h with ⟨rfl, rfl⟩ | ⟨rfl, rfl⟩ | ⟨rfl, rfl⟩ | ⟨rfl, rfl⟩ | ⟨rfl, rfl⟩ <;> cases hw <;> rfl
  | name hstart hpart hword =>
    cases hw
    rw [scan_nameStart hstart, span_of_forall hpart]
    simp [Cut.push, wordKind_of_notMem hword]
  | symbol s => cases s <;> cases hw <;> rfl
  | int hds hbound =>
    obtain ⟨d, rest, rfl, hd⟩ := hds.exists_cons
    cases hw
    rw [scan_digit hd, scanNumber_digits hds hbound]
  | @float whole fraction part exponent hwhole hfraction hpart =>
    have hnumber := scanNumber_float hwhole hfraction hpart
    obtain ⟨d, rest, rfl, hd⟩ := hwhole.exists_cons
    rw [List.cons_append, List.cons_append] at hw hnumber
    cases hw
    rw [scan_digit hd]
    exact hnumber
  | @string _ content body hq h =>
    cases hw
    have hbackslash : c ≠ '\\' := by rcases hq with rfl | rfl <;> decide
    have hbody : stringBody c (body ++ [c]) = ⟨body, [c]⟩ := h.stringBody hbackslash []
    simp [scan_quote hq, scanString, hbody, h.unescape]

/-- A spelled token is read so before a blank, too. -/
theorem Spells.scan_apart {kind : TokenKind} {c : Char} {cs rest : List Char} (h : Spells kind (c :: cs))
    (hrest : Apart rest) : GameScript.scan c (cs ++ rest) = ⟨⟨c :: cs, rest⟩, .token kind⟩ := by
  have halone := h.scan
  have hblank : isBlank c = false := by
    cases hc : isBlank c with
    | false => rfl
    | true =>
      rw [scan_of_isBlank cs hc] at halone
      cases congrArg Lexeme.reading halone
  rw [GameScript.scan_apart hblank (by simp [Lexeme.Faultless, halone]) hrest (by simp [halone]), halone]
  rfl

end Read

/-! ## What is read is spelled -/

section Spelled

theorem forall_span_taken (test : Char → Bool) (cs : List Char) : ∀ c ∈ (Cut.span test cs).taken, test c = true :=
  fun _ => List.mem_takeWhile_imp

theorem isDigits_span {cs : List Char} (h : (Cut.span Char.isDigit cs).taken ≠ []) :
    IsDigits (Cut.span Char.isDigit cs).taken :=
  ⟨h, forall_span_taken Char.isDigit cs⟩

theorem signPart_taken (cs : List Char) :
    (signPart cs).taken = [] ∨ (signPart cs).taken = ['+'] ∨ (signPart cs).taken = ['-'] := by
  fun_cases signPart cs
  · rename_i h
    rcases h with rfl | rfl <;> simp
  · exact .inl rfl
  · exact .inl rfl

theorem spellsExponent_exponentPart (cs : List Char) :
    SpellsExponent (exponentValue (exponentPart cs).taken) (exponentPart cs).taken := by
  fun_cases exponentPart cs
  · rename_i mark cs sign digits h
    have hdigits : IsDigits digits.taken := isDigits_span h.2
    rcases signPart_taken cs with hs | hs | hs
    · simp only [Cut.push, show sign.taken = [] from hs]
      rw [List.singleton_append, exponentValue_bare hdigits]
      exact .bare h.1 hdigits
    · simp only [Cut.push, show sign.taken = ['+'] from hs]
      exact .plus h.1 hdigits
    · simp only [Cut.push, show sign.taken = ['-'] from hs]
      exact .minus h.1 hdigits
  · exact .absent
  · exact .absent

theorem numberParts_runs (cs : List Char) (h : (Cut.span Char.isDigit cs).taken ≠ []) :
    IsDigits (numberParts cs).whole ∧ ((numberParts cs).fraction = [] ∨ IsDigits (numberParts cs).fraction ∧
      SpellsExponent (exponentValue (numberParts cs).exponent) (numberParts cs).exponent) := by
  have hwhole := isDigits_span h
  unfold numberParts
  dsimp only
  split
  · rename_i after _
    split
    · exact ⟨hwhole, .inl rfl⟩
    · rename_i hfraction
      have hne : (Cut.span Char.isDigit after).taken ≠ [] := by simpa using hfraction
      exact ⟨hwhole, .inr ⟨isDigits_span hne, spellsExponent_exponentPart _⟩⟩
  · exact ⟨hwhole, .inl rfl⟩

theorem spells_of_scanNumber {c : Char} {cs : List Char} {kind : TokenKind} (hdigit : c.isDigit = true)
    (h : (scanNumber (c :: cs)).reading = .token kind) : Spells kind (scanNumber (c :: cs)).taken := by
  obtain ⟨hwhole, hfraction⟩ := numberParts_runs (c :: cs) (by simp [Cut.span, hdigit])
  have hkind : (numberParts (c :: cs)).kind? = some kind := by
    unfold scanNumber at h
    dsimp only at h
    split at h
    · rename_i hk
      cases h
      exact hk
    · cases h
  show Spells kind (numberParts (c :: cs)).taken
  generalize numberParts (c :: cs) = p at hwhole hfraction hkind
  rcases hfraction with hnone | ⟨hfraction, hpart⟩
  · simp only [NumberParts.kind?, NumberParts.taken, hnone, List.isEmpty_nil, if_true] at hkind ⊢
    split at hkind
    · rename_i hbound
      cases hkind
      exact .int hwhole hbound
    · cases hkind
  · have hne : p.fraction.isEmpty = false := by simp [hfraction.1]
    simp only [NumberParts.kind?, NumberParts.taken, hne, Bool.false_eq_true, if_false] at hkind ⊢
    cases hkind
    exact .float hwhole hfraction hpart

theorem Except.exists_of_map_eq_ok {ε α β : Type} {f : α → β} {x : Except ε α} {b : β} (h : x.map f = .ok b) :
    ∃ a, x = .ok a ∧ b = f a := by
  cases x with
  | error e => cases h
  | ok a =>
    cases h
    exact ⟨a, rfl, rfl⟩

theorem spellsContent_unescape {q : Char} (cs : List Char) {offset : Nat} {content : List Char}
    (h : unescape offset (stringBody q cs).taken = .ok content) : SpellsContent q content (stringBody q cs).taken := by
  fun_induction stringBody q cs generalizing offset content with
  | case1 =>
    cases h
    exact .nil
  | case2 =>
    cases h
    exact .nil
  | case3 c cs hc ih =>
    simp only [Cut.push, List.cons_append, List.nil_append, unescape] at h ⊢
    split at h
    · rename_i e he
      obtain ⟨content, hrec, rfl⟩ := Except.exists_of_map_eq_ok h
      exact .escape he (ih hrec)
    · cases h
  | case4 =>
    cases h
    exact .nil
  | case5 c cs hno hc ih =>
    obtain ⟨hquote, hbackslash⟩ := not_or.1 hc
    simp only [Cut.push, List.cons_append, List.nil_append] at h ⊢
    rw [unescape.eq_3 _ _ _ fun _ _ hc' => absurd hc' hbackslash, if_neg hbackslash] at h
    obtain ⟨content, hrec, rfl⟩ := Except.exists_of_map_eq_ok h
    exact .raw hquote hbackslash (ih hrec)

theorem spells_wordKind {c : Char} {cs : List Char} (hstart : isNameStart c = true)
    (hpart : ∀ d ∈ cs, isNamePart d = true) : Spells (wordKind (c :: cs)) (c :: cs) := by
  by_cases hword : String.ofList (c :: cs) ∈ keywords.map Prod.fst
  · obtain ⟨⟨word, kind⟩, hmem, hw⟩ := List.mem_map.1 hword
    have hlist : word.toList = c :: cs := by rw [show word = _ from hw, String.toList_ofList]
    have hkind : wordKind (c :: cs) = kind := by
      rw [← hlist]
      simp only [keywords, List.mem_cons, Prod.mk.injEq, List.not_mem_nil, or_false] at hmem
      rcases hmem with ⟨rfl, rfl⟩ | ⟨rfl, rfl⟩ | ⟨rfl, rfl⟩ | ⟨rfl, rfl⟩ | ⟨rfl, rfl⟩ <;> rfl
    rw [hkind, ← hlist]
    exact .keyword hmem
  · rw [wordKind_of_notMem hword]
    exact .name hstart hpart hword

theorem spells_of_scanString {q : Char} {cs : List Char} {kind : TokenKind} (hq : q = '"' ∨ q = '\'')
    (h : (scanString q cs).reading = .token kind) : Spells kind (scanString q cs).taken := by
  have hcontent (content : List Char) (hread : unescape q.utf8Size (stringBody q cs).taken = .ok content) :
      SpellsContent q content (stringBody q cs).taken := spellsContent_unescape cs hread
  unfold scanString at h ⊢
  generalize stringBody q cs = body at h hcontent ⊢
  obtain ⟨taken, rest⟩ := body
  cases rest with
  | nil => cases h
  | cons d rest =>
    by_cases hd : d = q
    · subst hd
      simp only [if_true] at h ⊢
      split at h
      · rename_i content hread
        cases h
        exact .string hq (hcontent content hread)
      · cases h
    · simp [hd] at h

theorem spells_of_scanSymbol {c : Char} {cs : List Char} {kind : TokenKind}
    (h : (scanSymbol c cs).reading = .token kind) : Spells kind (scanSymbol c cs).taken := by
  unfold scanSymbol at h ⊢
  split at h
  · rename_i s _
    cases h
    exact .symbol s
  · cases h

theorem scanComment_ne_token {cs : List Char} {kind : TokenKind} : (scanComment cs).reading ≠ .token kind := by
  unfold scanComment
  dsimp only
  split <;> simp

/-- Whatever is read as a token spells it. -/
theorem spells_of_scan {c : Char} {cs : List Char} {kind : TokenKind} (h : (scan c cs).reading = .token kind) :
    Spells kind (scan c cs).taken := by
  have hfront := front_scan c cs
  generalize scan c cs = lexeme at h hfront
  cases hfront with
  | blanks => cases h
  | number hdigit => exact spells_of_scanNumber hdigit h
  | string hquote => exact spells_of_scanString hquote h
  | word hname =>
    cases h
    exact spells_wordKind hname (forall_span_taken isNamePart cs)
  | line => cases h
  | comment => exact absurd h scanComment_ne_token
  | symbol => exact spells_of_scanSymbol h

end Spelled

end GameScript
