import GameScript.Proofs.Token.Comments
import GameScript.Proofs.Token.Spells

/-!
# Tokens written apart

`Writes kinds text` says that a text spells tokens of the given kinds one after the other, with a separator behind
each: blanks, comments to the end of their line and balanced block comments, a blank first (`IsSeparator`).

* Whatever the spellings and the separators, reading gives the kinds back (`tokenize_of_writes`).
* Every integer that fits and every string can be spelled (`spells_toDigits`, `exists_spells_string`).
-/

namespace GameScript

/-! ## What can be written -/

/-- A number is spelled by its decimal digits. -/
theorem spells_toDigits {n : Nat} (h : n < NumberParts.integerBound) :
    Spells (.int (Int64.ofNat n)) (Nat.toDigits 10 n) := by
  have hvalue : digitsValue (Nat.toDigits 10 n) = n := Nat.ofDigitChars_ten_toDigits
  have hdigits : IsDigits (Nat.toDigits 10 n) :=
    ⟨Nat.toDigits_ne_nil, fun _ hc => Nat.isDigit_of_mem_toDigits (by decide) (by decide) hc⟩
  have hspells := Spells.int hdigits (by rwa [hvalue])
  rwa [hvalue] at hspells

/-- Between either quotes, every string can be spelled: it is enough to escape the backslash and the quote. -/
theorem exists_spells_string {q : Char} (hq : q = '"' ∨ q = '\'') (content : List Char) :
    ∃ body, SpellsContent q content body := by
  have hquote : escaped q = some q := by rcases hq with rfl | rfl <;> rfl
  induction content with
  | nil => exact ⟨[], .nil⟩
  | cons c content ih =>
    obtain ⟨body, hbody⟩ := ih
    by_cases hc : c = q
    · subst hc
      exact ⟨'\\' :: c :: body, .escape hquote hbody⟩
    by_cases hbackslash : c = '\\'
    · subst hbackslash
      exact ⟨'\\' :: '\\' :: body, .escape rfl hbody⟩
    · exact ⟨c :: body, .raw hc hbackslash hbody⟩

/-! ## Separators -/

/-- What is no token: blanks, comments with the line break that ends them, and block comments. -/
inductive Trivia : List Char → Prop
  | nil : Trivia []
  | blank {c : Char} {cs : List Char} (hc : isBlank c = true) (h : Trivia cs) : Trivia (c :: cs)
  | line {body cs : List Char} (hbody : '\n' ∉ body) (h : Trivia cs) : Trivia ('/' :: '/' :: body ++ '\n' :: cs)
  | block {tail cs : List Char} (htail : CommentTail tail) (h : Trivia cs) : Trivia ('/' :: '*' :: tail ++ cs)

/-- What may stand behind a token: trivia that start with a blank. -/
def IsSeparator (gap : List Char) : Prop := Trivia gap ∧ ∃ c cs, gap = c :: cs ∧ isBlank c = true

theorem IsSeparator.apart {gap : List Char} (h : IsSeparator gap) (rest : List Char) : Apart (gap ++ rest) := by
  obtain ⟨-, c, cs, rfl, hc⟩ := h
  exact apart_cons.2 hc

/-- Tokens of the given kinds, each followed by a separator. -/
inductive Writes : List TokenKind → List Char → Prop
  | nil : Writes [] []
  | cons {kind : TokenKind} {kinds : List TokenKind} {w gap text : List Char} (hw : Spells kind w)
      (hgap : IsSeparator gap) (h : Writes kinds text) : Writes (kind :: kinds) (w ++ gap ++ text)

/-! ## Reading -/

section Read

variable {text : List Char} {kinds : List TokenKind}

/-- Blanks in front make no difference. -/
theorem lexes_dropWhile_isBlank : Lexes (text.dropWhile isBlank) kinds ↔ Lexes text kinds := by
  cases text with
  | nil => rfl
  | cons c cs =>
    cases hc : isBlank c with
    | true => rw [lexes_blank_iff hc, List.dropWhile_cons_of_pos hc]
    | false => rw [List.dropWhile_cons_of_neg (by simp [hc])]

theorem scan_line {body : List Char} (h : '\n' ∉ body) (rest : List Char) :
    scan '/' ('/' :: body ++ '\n' :: rest) = ⟨⟨'/' :: '/' :: body, '\n' :: rest⟩, .trivia⟩ := by
  have hbody : ∀ c ∈ body, (decide (c ≠ '\n')) = true := by
    rintro c hc
    simpa using fun heq : c = '\n' => h (heq ▸ hc)
  have hspan : Cut.span (· ≠ '\n') (body ++ '\n' :: rest) = ⟨body, '\n' :: rest⟩ := by
    rw [span_followedBy (by simp), span_of_forall hbody]
    rfl
  show Lexeme.mk ((Cut.span (· ≠ '\n') (body ++ '\n' :: rest)).push ['/', '/']) .trivia = _
  rw [hspan]
  rfl

theorem scan_block {tail : List Char} (h : CommentTail tail) (rest : List Char) :
    scan '/' ('*' :: tail ++ rest) = ⟨⟨'/' :: '*' :: tail, rest⟩, .trivia⟩ := by
  have hcomment := blockComment_tail h 0 rest
  show scanComment (tail ++ rest) = _
  rw [scanComment, hcomment]
  simp [blockCommentAfter, Cut.push]

/-- Trivia in front make no difference. -/
theorem Trivia.lexes {gap : List Char} (h : Trivia gap) (htext : Lexes text kinds) : Lexes (gap ++ text) kinds := by
  induction h with
  | nil => exact htext
  | blank hc _ ih => exact (lexes_blank_iff hc).2 (lexes_dropWhile_isBlank.2 ih)
  | @line body cs hbody _ ih =>
    have hscan := scan_line hbody (cs ++ text)
    have hbreak : Lexes ('\n' :: (cs ++ text)) kinds := (lexes_blank_iff rfl).2 (lexes_dropWhile_isBlank.2 ih)
    have hline : Lexes ('/' :: ('/' :: body ++ '\n' :: (cs ++ text))) kinds :=
      .trivia (by rw [hscan]) (by rw [hscan]; exact hbreak)
    simpa using hline
  | @block tail cs htail _ ih =>
    have hscan := scan_block htail (cs ++ text)
    have hcomment : Lexes ('/' :: ('*' :: tail ++ (cs ++ text))) kinds :=
      .trivia (by rw [hscan]) (by rw [hscan]; exact ih)
    simpa using hcomment

theorem Writes.lexes (h : Writes kinds text) : Lexes text kinds := by
  induction h with
  | nil => exact .nil
  | @cons kind kinds w gap text hw hgap _ ih =>
    obtain ⟨c, cs, rfl⟩ := List.exists_cons_of_ne_nil hw.ne_nil
    have hscan := hw.scan_apart (hgap.apart text)
    rw [List.append_assoc, List.cons_append]
    apply Lexes.token
    · rw [hscan]
    · rw [hscan]
      exact hgap.1.lexes ih

/-- **Reading undoes spelling.** Tokens that are spelled one after the other, with separators between and behind them
and any trivia in front, are read without a fault as tokens of those kinds. -/
theorem tokenize_of_writes {lead : List Char} (hlead : Trivia lead) (h : Writes kinds text) :
    (tokenize (lead ++ text)).errors = [] ∧
      (tokenize (lead ++ text)).tokens.map Token.kind = kinds ++ [.endOfText] :=
  (hlead.lexes h.lexes).tokenizeFrom (by decide)

/-- A comment in a comment, an operator where a comment has just ended, and a string with an escaped quote. -/
theorem tokenize_commented_assignment :
    Trivia "/*a/*b*/*/".toList ∧
      Writes [.ident "x", .symbol .plusEq, .string "it's"]
        ("x".toList ++ " //*/\n".toList ++ ("+=".toList ++ " ".toList ++ ("'it\\'s'".toList ++ "\n".toList ++ []))) ∧
      (tokenize ("/*a/*b*/*/".toList ++ "x //*/\n+= 'it\\'s'\n".toList)).errors = [] ∧
      (tokenize ("/*a/*b*/*/".toList ++ "x //*/\n+= 'it\\'s'\n".toList)).tokens.map Token.kind =
        [.ident "x", .symbol .plusEq, .string "it's", .endOfText] := by
  have hlead : Trivia "/*a/*b*/*/".toList := by
    have hinner : CommentTail ['b', '*', '/'] := .plain (by simp [OpensOrCloses]) .close
    have htail : CommentTail ('a' :: ('/' :: '*' :: ['b', '*', '/'] ++ ['*', '/'])) :=
      .plain (by simp [OpensOrCloses]) (.nest hinner .close)
    exact .block htail .nil
  have hline : IsSeparator " //*/\n".toList :=
    ⟨.blank rfl (show Trivia ('/' :: '/' :: ['*', '/'] ++ '\n' :: []) from .line (by decide) .nil), _, _, rfl, rfl⟩
  have hblank : ∀ c, isBlank c = true → IsSeparator [c] := fun c hc => ⟨.blank hc .nil, c, [], rfl, hc⟩
  have hname : Spells (.ident "x") "x".toList := .name rfl (by simp) (by decide)
  have hstring : Spells (.string "it's") "'it\\'s'".toList :=
    .string (.inr rfl) (.raw (by decide) (by decide) (.raw (by decide) (by decide)
      (.escape rfl (.raw (by decide) (by decide) .nil))))
  have hwrites := Writes.cons hname hline
    (.cons (.symbol .plusEq) (hblank ' ' rfl) (.cons hstring (hblank '\n' rfl) .nil))
  exact ⟨hlead, hwrites, tokenize_of_writes hlead hwrites⟩

end Read

end GameScript
