import GameScript.Proofs.Parse.Texts
import GameScript.Proofs.Run.Defensive
import GameScript.Proofs.Token.Writes
import GameScript.Proofs.Tree.Printer
import GameScript.Run.Display
import GameScript.Run.Script
import Mathlib

/-!
# Integers are written as they are shown

The lexer knows digits, which must stay below `NumberParts.integerBound`, and the parser puts a minus sign before them
into the literal. So the text of an integer is read as that integer (`lexes_shown`, `parseTokens_returned`), except for
the least one: its digits without the sign are one too many for the lexer (`least_integer_not_written`).

Main statement: `integers_written_as_shown`.
-/

namespace GameScript

/-! ## From the text to the tokens -/

section Texts

variable {rest : List Char} {ks : List TokenKind}

theorem lexes_token {c : Char} {cs w : List Char} {k : TokenKind} (hscan : scan c cs = ⟨⟨w, rest⟩, .token k⟩)
    (h : Lexes rest ks) : Lexes (c :: cs) (k :: ks) := .token (by rw [hscan]) (by rw [hscan]; exact h)

/-- Digits end before what is neither a digit nor a point. -/
theorem scanNumber_before {ds : List Char} (h : IsDigits ds) (hbound : digitsValue ds < NumberParts.integerBound)
    (hrest : ∀ c ∈ rest.head?, c.isDigit = false ∧ c ≠ '.') :
    scanNumber (ds ++ rest) = ⟨⟨ds, rest⟩, .token (.int (Int64.ofNat (digitsValue ds)))⟩ := by
  have hspan : Cut.span Char.isDigit (ds ++ rest) = ⟨ds, rest⟩ := by
    rw [span_followedBy fun c hc => (hrest c hc).1, span_of_forall h.2]
    rfl
  have hparts : numberParts (ds ++ rest) = ⟨ds, [], [], rest⟩ := by
    unfold numberParts
    rw [hspan]
    dsimp only
    split
    · exact absurd rfl (hrest '.' rfl).2
    · rfl
  simp [scanNumber, hparts, NumberParts.taken, NumberParts.kind?, hbound]

/-- A minus sign before a digit is a symbol of its own. -/
theorem scan_minus {d : Char} {cs : List Char} (h : d.isDigit = true) :
    scan '-' (d :: cs) = ⟨⟨['-'], d :: cs⟩, .token (.symbol .minus)⟩ := by
  have hminus : ('-' == d) = false := by simpa using fun heq : '-' = d => by simp [← heq] at h
  have heq : ('=' == d) = false := by simpa using fun heq : '=' = d => by simp [← heq] at h
  have hfront : Symbol.atFront? ('-' :: d :: cs) = some .minus := by
    simp [Symbol.atFront?, Symbol.longestFirst, Symbol.all, Symbol.spelling, List.filter, List.find?, List.isPrefixOf,
      hminus, heq]
  show scanSymbol '-' (d :: cs) = _
  rw [scanSymbol, hfront]
  rfl

theorem lexes_toDigits {k : Nat} (hk : k < NumberParts.integerBound)
    (hrest : ∀ c ∈ rest.head?, c.isDigit = false ∧ c ≠ '.') (h : Lexes rest ks) :
    Lexes (Nat.toDigits 10 k ++ rest) (.int (Int64.ofNat k) :: ks) := by
  have hvalue : digitsValue (Nat.toDigits 10 k) = k := Nat.ofDigitChars_ten_toDigits
  have hdigits : IsDigits (Nat.toDigits 10 k) :=
    ⟨Nat.toDigits_ne_nil, fun _ hc => Nat.isDigit_of_mem_toDigits (by decide) (by decide) hc⟩
  have hscan := scanNumber_before hdigits (by rwa [hvalue]) hrest
  rw [hvalue] at hscan
  obtain ⟨d, ds, hds, hd⟩ := hdigits.exists_cons
  rw [hds] at hscan ⊢
  rw [List.cons_append, ← scan_digit hd] at hscan
  exact lexes_token hscan h

/-- The text of an integer other than the least one, before what is neither a digit nor a point, reads as the tokens of
the literal. -/
theorem lexes_shown {n : Int64} (hn : n ≠ Int64.minValue) (hrest : ∀ c ∈ rest.head?, c.isDigit = false ∧ c ≠ '.')
    (h : Lexes rest ks) : Lexes ((toString n.toInt).toList ++ rest) ((Literal.int n).tokens ++ ks) := by
  have hlow : -2 ^ 63 < n.toInt := lt_of_le_of_ne n.le_toInt fun heq => hn (Int64.toInt_inj.1 heq.symm)
  have hhigh := n.toInt_lt
  have hback := Int64.ofInt_toInt n
  have hsign : n < 0 ↔ n.toInt < 0 := Int64.lt_iff_toInt_lt
  rw [Literal.tokens, if_congr hsign rfl rfl]
  cases hvalue : n.toInt with
  | ofNat k =>
    rw [hvalue] at hlow hhigh hback
    have hk : Int64.ofNat k = n := Int64.ofInt_eq_ofNat.symm.trans hback
    have htext : (toString (Int.ofNat k)).toList = Nat.toDigits 10 k := String.toList_ofList
    rw [if_neg (by simp), htext, ← hk]
    exact lexes_toDigits (by simpa [NumberParts.integerBound] using hhigh) hrest h
  | negSucc k =>
    rw [hvalue] at hlow hhigh hback
    have hk : Int64.ofNat (k + 1) = -n := by
      rw [← hback, ← Int64.ofInt_neg, ← Int64.ofInt_eq_ofNat]
      rfl
    have htext : (toString (Int.negSucc k)).toList = '-' :: Nat.toDigits 10 (k + 1) := by
      simp [toString, Int.repr, Nat.repr]
    rw [if_pos (Int.negSucc_lt_zero k), htext, ← hk]
    have hbound : k + 1 < NumberParts.integerBound := by
      rw [Int.negSucc_eq] at hlow
      unfold NumberParts.integerBound
      omega
    have hdigits := lexes_toDigits hbound hrest h
    obtain ⟨d, ds, hds, hd⟩ : ∃ d ds, Nat.toDigits 10 (k + 1) = d :: ds ∧ d.isDigit = true :=
      IsDigits.exists_cons ⟨Nat.toDigits_ne_nil, fun _ hc => Nat.isDigit_of_mem_toDigits (by decide) (by decide) hc⟩
    rw [hds] at hdigits ⊢
    exact lexes_token (scan_minus hd) hdigits

theorem lexes_returned {n : Int64} (hn : n ≠ Int64.minValue) :
    Lexes ("return " ++ toString n.toInt ++ ";").toList (.returnWord :: (Literal.int n).tokens ++ [.symbol .semi]) := by
  have hsemi : Lexes [';'] [.symbol .semi] := .token rfl .nil
  have hshown := lexes_shown hn (by simp) hsemi
  have hblank : Lexes (' ' :: ((toString n.toInt).toList ++ [';'])) ((Literal.int n).tokens ++ [.symbol .semi]) :=
    Trivia.lexes (.blank rfl .nil) hshown
  have htext : ("return " ++ toString n.toInt ++ ";").toList =
      'r' :: 'e' :: 't' :: 'u' :: 'r' :: 'n' :: ' ' :: ((toString n.toInt).toList ++ [';']) := by
    simp
  rw [htext]
  exact lexes_token rfl hblank

end Texts

/-! ## From the tokens to the value -/

/-- Tokens of known kinds, one of them first. -/
theorem exists_token {ts : List Token} {k : TokenKind} {ks : List TokenKind} (h : ts.map Token.kind = k :: ks) :
    ∃ span rest, ts = ⟨k, span⟩ :: rest ∧ rest.map Token.kind = ks := by
  obtain ⟨⟨_, span⟩, rest, rfl, rfl, hrest⟩ := List.map_eq_cons_iff.1 h
  exact ⟨span, rest, rfl, hrest⟩

section Tokens

variable {n : Int64} {ts : List Token}

/-- The tokens of an integer alone are an expression. -/
theorem expressionAtFront_integer (h : ts.map Token.kind = (Literal.int n).tokens ++ [.endOfText]) :
    ∃ span c, expressionAtFront (Cursor.ofTokens ts) = .ok (.leaf (.value (.int n)) span, c) ∧
      c.rest.map Token.kind = [.endOfText] := by
  rw [Literal.tokens] at h
  split at h
  · obtain ⟨sign, _, rfl, hdigits⟩ := exists_token h
    obtain ⟨digits, _, rfl, hstop⟩ := exists_token hdigits
    obtain ⟨stop, _, rfl, hnone⟩ := exists_token hstop
    obtain rfl := List.map_eq_nil_iff.1 hnone
    have hread : expressionAtFront (Cursor.ofTokens [⟨.symbol .minus, sign⟩, ⟨.int (-n), digits⟩, ⟨.endOfText, stop⟩]) =
        .ok (.leaf (.value (.int (- -n))) ⟨sign.start, digits.stop⟩, ⟨digits.stop, [⟨.endOfText, stop⟩]⟩) := rfl
    rw [Int64.neg_neg] at hread
    exact ⟨_, _, hread, rfl⟩
  · obtain ⟨digits, _, rfl, hstop⟩ := exists_token h
    obtain ⟨stop, _, rfl, hnone⟩ := exists_token hstop
    obtain rfl := List.map_eq_nil_iff.1 hnone
    exact ⟨digits, ⟨digits.stop, [⟨.endOfText, stop⟩]⟩, rfl, rfl⟩

/-- The tokens of a return statement with an integer are a program that returns the integer. -/
theorem parseTokens_returned
    (h : ts.map Token.kind = .returnWord :: (Literal.int n).tokens ++ [.symbol .semi, .endOfText]) :
    ∃ opSpan place span whole, parseTokens ts =
      .ok ⟨⟨[⟨.prefixed ⟨.ret, opSpan⟩ (.value (.int n)) place, span⟩], whole⟩⟩ := by
  obtain ⟨word, rest, rfl, hvalue⟩ := exists_token h
  change rest.map Token.kind = (Literal.int n).tokens ++ _ at hvalue
  rw [Literal.tokens] at hvalue
  split at hvalue
  · obtain ⟨sign, _, rfl, hdigits⟩ := exists_token hvalue
    obtain ⟨digits, _, rfl, hsemi⟩ := exists_token hdigits
    obtain ⟨semi, _, rfl, hstop⟩ := exists_token hsemi
    obtain ⟨stop, _, rfl, hnone⟩ := exists_token hstop
    obtain rfl := List.map_eq_nil_iff.1 hnone
    have hread : parseTokens [⟨.returnWord, word⟩, ⟨.symbol .minus, sign⟩, ⟨.int (-n), digits⟩, ⟨.symbol .semi, semi⟩,
        ⟨.endOfText, stop⟩] = .ok ⟨⟨[⟨.prefixed ⟨.ret, word⟩ (.value (.int (- -n))) ⟨word.start, digits.stop⟩,
          ⟨word.start, digits.stop⟩⟩], ⟨word.start, max semi.stop word.start⟩⟩⟩ := rfl
    rw [Int64.neg_neg] at hread
    exact ⟨_, _, _, _, hread⟩
  · obtain ⟨digits, _, rfl, hsemi⟩ := exists_token hvalue
    obtain ⟨semi, _, rfl, hstop⟩ := exists_token hsemi
    obtain ⟨stop, _, rfl, hnone⟩ := exists_token hstop
    obtain rfl := List.map_eq_nil_iff.1 hnone
    exact ⟨word, ⟨word.start, digits.stop⟩, ⟨word.start, digits.stop⟩, ⟨word.start, max semi.stop word.start⟩, rfl⟩

end Tokens

/-- **Integers are written as they are shown.** Every integer but the least has a text, the same in every memory. Put
into a return statement, the text is a script that, wherever it runs, returns the integer and leaves everything as it
was; alone, it is read without a fault and to its end as the literal of the integer. -/
theorem integers_written_as_shown {σ : Type} (host : Host σ) (limit : Nat) (scope : ScopeId) (m : Machine σ) {n : Int64}
    (hn : n ≠ Int64.minValue) :
    ∃ text, m.memory.render? (.int n) = some text ∧
      (∃ p, parse ("return " ++ text ++ ";").toList = .ok p ∧ execute host limit scope p m = (.ok (.int n), m)) ∧
      runSource host limit scope ("return " ++ text ++ ";").toList m = (.ok (.int n), m) ∧
      (tokenize text.toList).errors = [] ∧
      ∃ span c, expressionAtFront (Cursor.ofTokens (tokenize text.toList).tokens) =
          .ok (.leaf (.value (.int n)) span, c) ∧ c.rest.map Token.kind = [.endOfText] := by
  have hshown : m.memory.render? (.int n) = some (toString n.toInt) := by
    obtain ⟨bound, hbound⟩ : ∃ bound, m.memory.renderBound = bound + 1 :=
      Nat.exists_eq_add_one.2 (by simp [Memory.renderBound])
    rw [Memory.render?, hbound]
    rfl
  have hreturned := (lexes_returned hn).tokenize
  rw [List.append_assoc] at hreturned
  obtain ⟨opSpan, place, span, whole, hread⟩ := parseTokens_returned hreturned.2
  have hparse := parse_eq_ok_iff.2 ⟨hreturned.1, hread⟩
  have halone : Lexes (toString n.toInt).toList (Literal.int n).tokens := by
    simpa using lexes_shown hn (by simp) Lexes.nil
  refine ⟨_, hshown, ⟨_, hparse, rfl⟩, ?_, halone.tokenize.1, expressionAtFront_integer halone.tokenize.2⟩
  rw [runSource, hparse]
  rfl

/-- The least integer but one is written as it is shown. -/
theorem integers_written_as_shown_low :
    -9223372036854775807 ≠ Int64.minValue ∧
      idleMachine.memory.render? (.int (-9223372036854775807)) = some "-9223372036854775807" ∧
      runSource idleHost 5 ⟨0⟩ "return -9223372036854775807;".toList idleMachine =
        (.ok (.int (-9223372036854775807)), idleMachine) := by
  have hn : (-9223372036854775807 : Int64) ≠ Int64.minValue := by decide
  obtain ⟨text, hshown, -, hrun, -⟩ := integers_written_as_shown idleHost 5 ⟨0⟩ idleMachine hn
  have htext : idleMachine.memory.render? (.int (-9223372036854775807)) = some "-9223372036854775807" := by rfl
  obtain rfl := Option.some.inj (hshown.symm.trans htext)
  exact ⟨hn, htext, hrun⟩

/-- The least integer is the value of a script and has a text, but the script that returns what the text says is not
read: the lexer finds that the digits do not fit in 64 bits. -/
theorem least_integer_not_written :
    (runSource idleHost 5 ⟨0⟩ "return -9223372036854775807 - 1;".toList idleMachine).1 = .ok (.int Int64.minValue) ∧
      idleMachine.memory.render? (.int Int64.minValue) = some "-9223372036854775808" ∧
      runSource idleHost 5 ⟨0⟩ "return -9223372036854775808;".toList idleMachine =
        (.error (.parse ⟨⟨.lexical .invalidNumber, ⟨8, 27⟩⟩, ⟨1, 9⟩⟩), idleMachine) := by
  refine ⟨?_, by rfl, ?_⟩
  · cbv
  · cbv

end GameScript
