import GameScript.Parse.Grammar
import GameScript.Proofs.Tree.Canonical
import GameScript.Proofs.Tree.Printer

/-!
# Levels and powers

Printers speak of levels, readers of powers. Something of a level can be read where at most its `leftPower` stands open,
and its own last operand is read with its `rightPower`; the table of binary operators agrees with both
(`exists_symbol_of_binary`).

What comes after an expression must not be taken for a part of it. `Stops least ks` says so of tokens that follow an
expression read with a power, `Ends level ks` of those that follow an expression of a level in place. At its other end,
the first tokens of an expression tell that one starts (`opens_tokens`), and that no parameters of a function do
(`parametersThenArrow_eq_false`).
-/

namespace GameScript

/-- The power that may stand open before something of a level. -/
def leftPower (level : Nat) : Nat := if level = 0 then 2 else min (2 * level + 1) 16

/-- The power with which something of a level reads its last operand. -/
def rightPower (level : Nat) : Nat := if level = 0 then 1 else min (2 * level + 2) operandPower

theorem leftPower_mono {m n : Nat} (h : m ≤ n) : leftPower m ≤ leftPower n := by
  unfold leftPower
  split <;> split <;> omega

theorem leftPower_le (n : Nat) : leftPower n ≤ 16 := by
  unfold leftPower
  split <;> omega

/-- The table of binary operators, told by levels. -/
theorem exists_symbol_of_binary {k : OperatorKind} (h : k.arity = .binary) (hk : k ≠ .child) :
    ∃ s : Symbol, k.token = .symbol s ∧ s.suffix? = none ∧
      s.binaryRule? = some ⟨k, leftPower k.level, rightPower k.level⟩ := by
  cases k <;> first | exact ⟨_, rfl, rfl, rfl⟩ | exact absurd h (by decide) | exact absurd rfl hk

/-- The right operand of an operator can be read with the power of the operator. -/
theorem rightPower_le_leftPower (k : OperatorKind) : rightPower k.level ≤ leftPower k.rightLevel := by
  cases k <;> decide

theorem level_le_six {k : OperatorKind} (h : k.arity = .binary) (hk : k ≠ .child) : k.level ≤ 6 := by
  cases k <;> first | decide | exact absurd h (by decide) | exact absurd rfl hk

theorem two_le_left {k : TokenKind} {r : BinaryRule} (h : k.binaryRule? = some r) : 2 ≤ r.left := by
  cases k with
  | symbol s =>
    revert h
    cases s <;> simp [TokenKind.binaryRule?, Symbol.binaryRule?] <;> rintro rfl <;> decide
  | _ => cases h

/-! ## The end of an expression -/

/-- No token that follows goes on with an expression read with a power. -/
def Stops (least : Nat) (ks : List TokenKind) : Prop :=
  ∀ k ∈ ks.head?, k.suffix? = none ∧ (∀ r ∈ k.binaryRule?, r.left < least) ∧ k ≠ .symbol .fatArrow

/-- No token that follows goes on with the last operand of something of a level. -/
def Ends (level : Nat) (ks : List TokenKind) : Prop :=
  ks.head? ≠ some (.symbol .fatArrow) ∧ (level < suffixLevel → Stops (rightPower level) ks)

section Stops

variable {l m n : Nat} {ks : List TokenKind}

/-- More power takes less of what follows; and no operator binds more loosely than assignments. -/
theorem Stops.mono (h : Stops l ks) (hl : l ≤ m ∨ l ≤ 2) : Stops m ks := by
  intro k hk
  obtain ⟨hs, hb, ha⟩ := h k hk
  refine ⟨hs, fun r hr => ?_, ha⟩
  have hlt := hb r hr
  have h2 := two_le_left hr
  omega

theorem Stops.ends (h : Stops l ks) (hl : l ≤ leftPower n) : Ends n ks := by
  refine ⟨fun hk => ?_, fun hn => h.mono ?_⟩
  · exact (h _ hk).2.2 rfl
  · unfold leftPower at hl
    unfold rightPower operandPower
    unfold suffixLevel at hn
    split at hl <;> split <;> omega

theorem ends_of_suffixLevel_le (hn : suffixLevel ≤ n) (hk : ks.head? ≠ some (.symbol .fatArrow)) : Ends n ks :=
  ⟨hk, fun h => absurd h (by omega)⟩

/-- An operator does not go on with the last operand of what binds tightly enough to be its left operand. -/
theorem ends_operator {k : OperatorKind} (h : k.arity = .binary) (hk : k ≠ .child) (hn : k.leftLevel ≤ n) :
    Ends n (k.token :: ks) := by
  obtain ⟨s, ht, hs, hb⟩ := exists_symbol_of_binary h hk
  have harrow : s ≠ .fatArrow := by
    rintro rfl
    cases hb
  refine ⟨by simpa [ht] using harrow, fun hlt => ?_⟩
  have hlevel : k.isAssignment = false ∧ k.level ≤ n := by
    cases ha : k.isAssignment
    · exact ⟨rfl, by simpa [OperatorKind.leftLevel, ha] using hn⟩
    · exact absurd hlt (Nat.not_lt.2 (by simpa [OperatorKind.leftLevel, ha, suffixLevel] using hn))
  have hpos : 0 < k.level := by
    have hno := hlevel.1
    cases k <;> first | decide | exact absurd h (by decide) | exact absurd hno (by decide)
  have hsix := level_le_six h hk
  intro k' hk'
  obtain rfl : k.token = k' := by simpa using hk'
  rw [ht]
  refine ⟨hs, fun r hr => ?_, by simpa using harrow⟩
  obtain rfl : (⟨k, leftPower k.level, rightPower k.level⟩ : BinaryRule) = r := by
    simpa [TokenKind.binaryRule?, hb] using hr
  have hle := hlevel.2
  simp only [leftPower, rightPower, operandPower]
  rw [if_neg (by omega), if_neg (by omega)]
  omega

theorem stops_symbol {s : Symbol} (hs : s.suffix? = none) (hb : s.binaryRule? = none) (ha : s ≠ .fatArrow) :
    Stops l (.symbol s :: ks) := by
  intro k hk
  obtain rfl : TokenKind.symbol s = k := by simpa using hk
  exact ⟨hs, fun r hr => by simp [TokenKind.binaryRule?, hb] at hr, by simpa using ha⟩

end Stops

/-! ## The start of an expression -/

/-- Whether a token can start an expression. -/
def TokenKind.StartsExpression : TokenKind → Prop
  | .int _ | .float _ | .string _ | .bool _ | .null | .ident _ => True
  | .symbol s => s ∈ [.minus, .lParen, .lBrace, .bang, .plusPlus, .minusMinus]
  | _ => False

/-- No symbol but those starts an expression. -/
theorem TokenKind.StartsExpression.isSymbol_eq_false {k : TokenKind} (h : k.StartsExpression) {s : Symbol}
    (hs : s ∉ [Symbol.minus, .lParen, .lBrace, .bang, .plusPlus, .minusMinus]) : k.isSymbol s = false := by
  refine Bool.eq_false_iff.2 fun hk => hs ?_
  rwa [TokenKind.isSymbol_iff.1 hk] at h

theorem TokenKind.StartsExpression.isEnd_eq_false {k : TokenKind} (h : k.StartsExpression) : k.isEnd = false := by
  cases k <;> first | rfl | exact absurd h id

/-- Whether a token goes on with an expression. -/
def TokenKind.GoesOn (k : TokenKind) : Prop := k.suffix? ≠ none ∨ k.binaryRule? ≠ none

/-- Whether tokens start as an expression does: when a name is first, it is all or an operator or a suffix follows. -/
def Opens : List TokenKind → Prop
  | [] => False
  | [k] => k.StartsExpression
  | k :: k' :: _ => k.StartsExpression ∧ (∀ name, k = .ident name → k'.GoesOn)

section Opens

variable {ts us ks : List TokenKind} {k : TokenKind}

theorem Opens.exists_cons (h : Opens ts) : ∃ k rest, ts = k :: rest ∧ k.StartsExpression := by
  match ts, h with
  | [k], h => exact ⟨k, [], rfl, h⟩
  | k :: k' :: rest, h => exact ⟨k, k' :: rest, rfl, h.1⟩

theorem Opens.append (h : Opens ts) (hk : k.GoesOn) : Opens (ts ++ k :: us) := by
  match ts, h with
  | [_], h => exact ⟨h, fun _ _ => hk⟩
  | _ :: _ :: _, h => exact h

theorem opens_symbol {s : Symbol} (hs : s ∈ [Symbol.minus, .lParen, .lBrace, .bang, .plusPlus, .minusMinus]) :
    Opens (.symbol s :: us) := by
  cases us with
  | nil => exact hs
  | cons _ _ => exact ⟨hs, fun _ h => by cases h⟩

theorem opens_inParentheses : Opens (inParentheses ts ++ us) := opens_symbol (by decide)

theorem opens_grouped {least level : Nat} (h : Opens ts) (hk : k.GoesOn) :
    Opens (grouped least level ts ++ k :: us) := by
  unfold grouped
  split
  · exact opens_inParentheses
  · exact h.append hk

theorem opens_literal (l : Literal) : Opens l.tokens := by
  cases l with
  | int n =>
    rw [Literal.tokens]
    split <;> simp [Opens, TokenKind.StartsExpression]
  | float x =>
    rw [Literal.tokens]
    split <;> simp [Opens, TokenKind.StartsExpression]
  | _ => exact trivial

theorem goesOn_token {op : OperatorKind} (h : op.arity = .binary ∨ op.arity = .either) : op.token.GoesOn := by
  cases op <;> first
    | exact .inl (by decide) | exact .inr (by decide) | exact absurd h (by decide)

theorem opens_leading {op : OperatorKind} (h : op.arity ≠ .binary) (hret : op ≠ .ret) : Opens (op.token :: us) := by
  cases op <;> first
    | exact opens_symbol (by decide) | exact absurd rfl hret | exact absurd rfl h

mutual

theorem opens_operand (a : Operand) (h : (Node.operand a).Canonical) : Opens a.tokens := by
  match a with
  | .value l => exact opens_literal l
  | .var ⟨name, .use, _⟩ => exact trivial
  | .var ⟨name, .declare, _⟩ => exact absurd h.proper (by simp [Node.Proper])
  | .object ps =>
    rw [Operand.tokens]
    exact opens_symbol (by decide)
  | .block s => exact absurd h.proper id
  | .expression e =>
    rw [Operand.tokens]
    exact opens_tokens e (h.child (by simp [Node.children]))
  | .function ps s =>
    rw [Operand.tokens]
    exact opens_inParentheses
  | .call e es =>
    rw [Operand.tokens]
    exact opens_grouped (opens_tokens e (h.child (by simp [Node.children]))) (.inl (by decide))
termination_by sizeOf a

/-- The first tokens of an expression tell that it is one. -/
theorem opens_tokens (e : Expression) (h : (Node.expression e).Canonical) : Opens e.tokens := by
  match e, formed_of_canonical h with
  | _, .leaf a span ha _ =>
    rw [Expression.leaf, Expression.tokens]
    exact opens_operand a ha
  | _, .binary a op b span ha _ hop _ _ =>
    rw [Expression.binary, Expression.tokens]
    exact opens_grouped (opens_operand a ha) (goesOn_token (.inl hop))
  | _, .prefixed op b span hb hop hret =>
    rw [Expression.prefixed, Expression.tokens]
    exact opens_leading hop hret
  | _, .postfixed a op span ha hop =>
    rw [Expression.postfixed, Expression.tokens]
    exact opens_grouped (opens_operand a ha) (goesOn_token (.inr hop))
termination_by sizeOf e
decreasing_by
  all_goals simp [Expression.leaf, Expression.binary, Expression.postfixed]
  all_goals omega

end

/-- A name that an expression in parentheses starts with stands alone in them, or an operator or a suffix follows. -/
theorem Opens.after_name {name : String} (h : Opens ts) (ht : .ident name :: k :: us = ts ++ .symbol .rParen :: ks) :
    (k = .symbol .rParen ∧ us = ks) ∨ k.GoesOn := by
  match ts, h with
  | [_], _ =>
    obtain ⟨-, rfl, rfl⟩ : _ ∧ k = .symbol .rParen ∧ us = ks := by simpa using ht
    exact .inl ⟨rfl, rfl⟩
  | k₁ :: k₂ :: rest, h =>
    obtain ⟨rfl, rfl, -⟩ : .ident name = k₁ ∧ k = k₂ ∧ us = rest ++ .symbol .rParen :: ks := by simpa using ht
    exact .inr (h.2 name rfl)

theorem not_goesOn {s : Symbol} (hs : s.suffix? = none) (hb : s.binaryRule? = none) :
    ¬(TokenKind.symbol s).GoesOn := by
  simp [TokenKind.GoesOn, TokenKind.suffix?, TokenKind.binaryRule?, hs, hb]

/-- In front of an expression in parentheses, no parameters of a function are seen. -/
theorem parametersThenArrow_eq_false {tokens : List Token} (h : Opens ts)
    (hks : ks.head? ≠ some (.symbol .fatArrow)) (ht : tokens.map Token.kind = ts ++ .symbol .rParen :: ks) :
    parametersThenArrow tokens = false := by
  unfold parametersThenArrow
  split
  · obtain ⟨k, rest, rfl, hk⟩ := h.exists_cons
    obtain ⟨rfl, -⟩ : .symbol .rParen = k ∧ _ := by simpa using ht
    simp [TokenKind.StartsExpression] at hk
  · unfold namesThenArrow
    split
    · rcases h.after_name (by simpa using ht) with ⟨hk, -⟩ | hk
      · cases hk
      · exact absurd hk (not_goesOn rfl rfl)
    · rcases h.after_name (by simpa using ht) with ⟨-, rfl⟩ | hk
      · exact absurd rfl hks
      · exact absurd hk (not_goesOn rfl rfl)
    · rfl

/-- In front of the parameters of a function, they are seen. -/
theorem namesThenArrow_eq_true {names : List String} {tokens : List Token} (hn : names ≠ [])
    (ht : tokens.map Token.kind =
      commaSeparated (names.map ([.ident ·])) ++ .symbol .rParen :: .symbol .fatArrow :: ks) :
    namesThenArrow tokens = true := by
  induction names generalizing tokens with
  | nil => exact absurd rfl hn
  | cons name rest ih =>
    cases rest with
    | nil =>
      obtain ⟨⟨_, _⟩, _, rfl, rfl, h₁⟩ := List.map_eq_cons_iff.1 ht
      obtain ⟨⟨_, _⟩, _, rfl, rfl, h₂⟩ := List.map_eq_cons_iff.1 h₁
      obtain ⟨⟨_, _⟩, _, rfl, rfl, -⟩ := List.map_eq_cons_iff.1 h₂
      rfl
    | cons name' rest =>
      obtain ⟨⟨_, _⟩, _, rfl, rfl, h₁⟩ := List.map_eq_cons_iff.1 ht
      obtain ⟨⟨_, _⟩, _, rfl, rfl, h₂⟩ := List.map_eq_cons_iff.1 h₁
      have hrest := ih (by simp) h₂
      exact hrest

theorem parametersThenArrow_eq_true {names : List String} {tokens : List Token}
    (ht : tokens.map Token.kind =
      commaSeparated (names.map ([.ident ·])) ++ .symbol .rParen :: .symbol .fatArrow :: ks) :
    parametersThenArrow tokens = true := by
  unfold parametersThenArrow
  split
  · rfl
  · rename_i hno
    refine namesThenArrow_eq_true (fun hn => ?_) ht
    subst hn
    obtain ⟨⟨_, _⟩, _, rfl, rfl, h₁⟩ := List.map_eq_cons_iff.1 ht
    obtain ⟨⟨_, _⟩, _, rfl, rfl, -⟩ := List.map_eq_cons_iff.1 h₁
    exact hno _ _ _ rfl

end Opens

/-! ## What is seen ahead, told from kinds -/

/-- `namesThenArrow`, told from kinds. -/
def namesAhead : List TokenKind → Bool
  | .ident _ :: .symbol .comma :: rest => namesAhead rest
  | .ident _ :: .symbol .rParen :: .symbol .fatArrow :: _ => true
  | _ => false

/-- `parametersThenArrow`, told from kinds. -/
def parametersAhead : List TokenKind → Bool
  | .symbol .rParen :: .symbol .fatArrow :: _ => true
  | ks => namesAhead ks

theorem namesThenArrow_eq (l : List Token) : namesThenArrow l = namesAhead (l.map Token.kind) := by
  fun_induction namesThenArrow l with
  | case1 name _ _ rest ih => simpa [namesAhead] using ih
  | case2 => simp [namesAhead]
  | case3 l hcomma harrow =>
    symm
    unfold namesAhead
    split
    · rename_i name rest heq
      obtain ⟨⟨_, _⟩, _, rfl, rfl, h₁⟩ := List.map_eq_cons_iff.1 heq
      obtain ⟨⟨_, _⟩, _, rfl, rfl, -⟩ := List.map_eq_cons_iff.1 h₁
      exact (hcomma _ _ _ _ rfl).elim
    · rename_i name rest heq
      obtain ⟨⟨_, _⟩, _, rfl, rfl, h₁⟩ := List.map_eq_cons_iff.1 heq
      obtain ⟨⟨_, _⟩, _, rfl, rfl, h₂⟩ := List.map_eq_cons_iff.1 h₁
      obtain ⟨⟨_, _⟩, _, rfl, rfl, -⟩ := List.map_eq_cons_iff.1 h₂
      exact (harrow _ _ _ _ _ rfl).elim
    · rfl

theorem parametersThenArrow_eq (l : List Token) : parametersThenArrow l = parametersAhead (l.map Token.kind) := by
  unfold parametersThenArrow
  split
  · rfl
  · rename_i l hno
    rw [namesThenArrow_eq]
    unfold parametersAhead
    split
    · rename_i rest heq
      obtain ⟨⟨_, _⟩, _, rfl, rfl, h₁⟩ := List.map_eq_cons_iff.1 heq
      obtain ⟨⟨_, _⟩, _, rfl, rfl, -⟩ := List.map_eq_cons_iff.1 h₁
      exact (hno _ _ _ rfl).elim
    · rfl

/-- What is seen where the parameters of a function are: names with commas between them, and no comma at the end. -/
theorem exists_of_namesAhead {ks : List TokenKind} (h : namesAhead ks = true) :
    ∃ (names : List String) (rest : List TokenKind), names ≠ [] ∧
      ks = commaSeparated (names.map ([.ident ·])) ++ .symbol .rParen :: .symbol .fatArrow :: rest := by
  fun_induction namesAhead ks with
  | case1 name rest ih =>
    obtain ⟨names, rest', hne, rfl⟩ := ih h
    obtain ⟨name', names, rfl⟩ := List.exists_cons_of_ne_nil hne
    exact ⟨name :: name' :: names, rest', by simp, rfl⟩
  | case2 name rest => exact ⟨[name], rest, by simp, rfl⟩
  | case3 => cases h

theorem exists_of_parametersAhead {ks : List TokenKind} (h : parametersAhead ks = true) :
    ∃ (names : List String) (rest : List TokenKind),
      ks = commaSeparated (names.map ([.ident ·])) ++ .symbol .rParen :: .symbol .fatArrow :: rest := by
  unfold parametersAhead at h
  split at h
  · rename_i rest
    exact ⟨[], rest, rfl⟩
  · obtain ⟨names, rest, -, hks⟩ := exists_of_namesAhead h
    exact ⟨names, rest, hks⟩

end GameScript
