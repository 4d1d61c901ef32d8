import GameScript.Proofs.Parse.Derivations
import GameScript.Proofs.Parse.Local

/-!
# Forms that are cut off behind what they read

The readers of all forms are local: expressions, statements and blocks are read where the text is cut off right behind
them, since what ends them is either a token of their own or something that the end of the text may stand for. Only
function literals are seen by tokens further ahead, but what is read of them goes behind those
(`local_parenthesisForm`).

A level with more room reads all that one with less room does, so this holds from each level to those with more room
(`localTo_levelAt`).
-/

namespace GameScript

open Cursor GameScript.Parser

/-! ## Expressions -/

/-- A level whose readers answer as those of another one do, also where the text is cut off behind what they read. -/
structure Level.LocalTo (l l' : Level) : Prop where
  sound : l.Sound
  sound' : l'.Sound
  expression : ∀ least c, c.Closed → Local c 0 1 (l.expression least c) (l'.expression least)
  block : ∀ c, c.Closed → Local c 0 1 (l.block c) l'.block
  object : ∀ c, c.Closed → Local c 0 1 (l.object c) l'.object

/-! ### Functions and parentheses -/

section Parentheses

variable {c : Cursor} {t : Token} {rest : List Token} {m n : Nat}

/-- Parameters and an arrow that are seen where the text is cut off are seen where it is not. -/
theorem parametersThenArrow_of_cut (h : parametersThenArrow (rest.take m ++ [⟨.endOfText, {}⟩]) = true) :
    parametersThenArrow rest = true := by
  rw [parametersThenArrow_eq, List.map_append] at h
  have hfront : parametersAhead ((rest.take m).map Token.kind) = true :=
    (parametersAhead_append (.inl rfl) _ []).symm.trans h
  obtain ⟨names, ks, hks⟩ := exists_of_parametersAhead hfront
  have hall : rest.map Token.kind = commaSeparated (names.map ([.ident ·])) ++ .symbol .rParen :: .symbol .fatArrow ::
      (ks ++ (rest.drop m).map Token.kind) := by
    rw [← List.take_append_drop m rest, List.map_append, hks]
    simp
  exact parametersThenArrow_eq_true hall

/-- A function that is seen by its arrow is read beyond it. -/
theorem sure_functionForm_behind {inner : Level} {names : List String} {ks : List TokenKind} (h : inner.Sound)
    (hc : c.Closed) (hr : c.rest = t :: rest) (ht : t.kind ≠ .endOfText) (hks : rest.map Token.kind =
      commaSeparated (names.map ([.ident ·])) ++ .symbol .rParen :: .symbol .fatArrow :: ks) :
    Sure (fun _ d => d.rest.length < ks.length) (functionForm inner c) := by
  have hrest : c.next.rest = rest := by rw [next_of_rest hr ht]
  refine sure_bind (sure_aheadSpan hc fun span => ?_)
  refine sure_bind (sure_skip hc ?_)
  have hstart : c.next.AmongParameters names (.symbol .fatArrow :: ks) [] :=
    ⟨names, rfl, List.nodup_nil, fun h => absurd rfl h, hrest ▸ hks⟩
  refine (sure_loop keeps_parameterStep.progresses (fun _ _ hd h => takes_parameterStep hd h) hc.next hstart).bind
    fun ps d₁ ⟨_, _, h₁, hkinds₁⟩ => ?_
  refine (takes_expect h₁).bind fun _ d₂ h₂ => ?_
  refine (takes_expect h₂.closed).bind fun _ d₃ h₃ => ?_
  refine (h.block d₃ h₃.closed).bind fun body d₄ ⟨h₄, _⟩ => ?_
  refine sure_bind (sure_lastStop fun stop => sure_pure ?_)
  have hkinds : d₃.rest.map Token.kind = ks := by
    have hboth := h₂.2.symm.trans hkinds₁
    rw [h₃.2] at hboth
    simpa using hboth
  rw [← hkinds, List.length_map]
  exact h₄.2

/-- The arrow is seen, too, where the text is cut off behind the function. -/
theorem parametersThenArrow_cut {inner : Level} {f : Expression} {d : Cursor} (hc : c.Closed) (h : inner.Sound)
    (hr : c.rest = t :: rest) (ht : t.kind ≠ .endOfText) (hsees : parametersThenArrow rest = true)
    (hx : functionForm inner c = .ok (f, d)) (hn : n ≤ d.rest.length) :
    parametersThenArrow (rest.take (rest.length - n) ++ [⟨.endOfText, {}⟩]) = true := by
  rw [parametersThenArrow_eq] at hsees
  obtain ⟨names, ks, hks⟩ := exists_of_parametersAhead hsees
  have hbehind := (sure_functionForm_behind h hc hr ht hks).of_eq_ok hx
  have hlength := congrArg List.length hks
  rw [List.length_map, List.length_append, List.length_cons, List.length_cons] at hlength
  -- the parameters and the arrow are in front of all that is cut off
  generalize hfront : commaSeparated (names.map ([.ident ·])) = front at hks hlength
  have htake : rest.length - n = front.length + ((ks.length - n) + 2) := by omega
  have hcut : (rest.take (rest.length - n) ++ [(⟨.endOfText, {}⟩ : Token)]).map Token.kind =
      commaSeparated (names.map ([.ident ·])) ++
        .symbol .rParen :: .symbol .fatArrow :: (ks.take (ks.length - n) ++ [.endOfText]) := by
    rw [List.map_append, List.map_take, hks, htake, List.take_length_add_append, hfront]
    simp
  exact parametersThenArrow_eq_true hcut

end Parentheses

section Forms

variable {inner inner' : Level} {c : Cursor} {t : Token} {rest : List Token} (hc : c.Closed)

include hc

theorem local_propertyKey : Local c 0 1 (propertyKey c) propertyKey := by
  obtain ⟨t, rest, hr⟩ := hc.rest_eq_cons
  refine local_ahead_bind hr ?_ (Nat.le_refl _)
  cases hk : t.kind with
  | ident key =>
    exact (local_skip hc hr (by simp [hk])).bind (k := 0) (fun _ _ _ hd => local_pure hd key) (Nat.le_refl _)
  | string key =>
    exact (local_skip hc hr (by simp [hk])).bind (k := 0) (fun _ _ _ hd => local_pure hd key) (Nat.le_refl _)
  | _ => exact local_failExpected

theorem local_parameterStep (before : List String) :
    Local c 1 0 (parameterStep before c) (parameterStep before) := by
  refine local_sees_bind (k := 0) hc (fun _ _ _ _ => (local_pure hc _).mono (Nat.zero_le _) (Nat.le_refl _)) ?_
    (Nat.le_refl _) (Nat.le_refl _)
  refine local_aheadSpan_bind hc (fun span => ?_) (Nat.le_refl _)
  refine ((local_expectName hc).bind (s := 1) (k := 0) (fun name d _ hd => ?_) (Nat.zero_le _)).mono (Nat.le_refl _)
    (Nat.zero_le _)
  split
  · exact local_failAt
  · refine (local_accept hd).bind (k := 0) (fun more d _ hd => ?_) (Nat.zero_le _)
    exact (local_pure hd _).mono (Nat.zero_le _) (Nat.le_refl _)

theorem local_literalForm (hr : c.rest = t :: rest) (ht : t.kind ≠ .endOfText) (literal : Literal) :
    Local c 0 1 (literalForm literal c) (literalForm literal) := by
  refine local_aheadSpan_bind hc (fun span => ?_) (Nat.le_refl _)
  exact (local_skip hc hr ht).bind (k := 0) (fun _ d _ hd => local_pure hd _) (Nat.le_refl _)

theorem local_negativeForm (hr : c.rest = t :: rest) (ht : t.kind ≠ .endOfText) :
    Local c 0 1 (negativeForm c) negativeForm := by
  refine local_aheadSpan_bind hc (fun span => ?_) (Nat.le_refl _)
  refine ((local_skip hc hr ht).bind (s := 0) (k := 1) (fun _ d _ hd => ?_) (Nat.zero_le _)).mono (Nat.le_refl _)
    (by decide)
  obtain ⟨t', rest', hr'⟩ := hd.rest_eq_cons
  refine local_ahead_bind hr' ?_ (Nat.le_refl _)
  have hleaf (literal : Literal) (ht' : t'.kind ≠ .endOfText) : Local d 0 1 ((do
      skip
      return .leaf (.value literal) ⟨span.start, ← lastStop⟩ : Parser Expression) d) (do
      skip
      return .leaf (.value literal) ⟨span.start, ← lastStop⟩) :=
    (local_skip hd hr' ht').bind (k := 0) (fun _ d _ hd => local_lastStop_bind (local_pure hd _)) (Nat.le_refl _)
  cases hk : t'.kind with
  | int n => exact hleaf (.int (-n)) (by simp [hk])
  | float x => exact hleaf (.float (-x)) (by simp [hk])
  | _ => exact local_failAt_bind

variable (h : inner.LocalTo inner')

include h

theorem local_argumentStep (before : List Expression) :
    Local c 0 0 (argumentStep inner before c) (argumentStep inner' before) := by
  refine ((h.expression 0 c hc).bind (s := 0) (k := 0) (fun e d _ hd => ?_) (Nat.le_refl _)).mono (Nat.le_refl _)
    (Nat.zero_le _)
  exact (local_accept hd).bind (k := 0) (fun more d _ hd => local_pure hd _) (Nat.le_refl _)

theorem local_arguments : Local c 1 0 (arguments inner c) (arguments inner') := by
  refine local_sees_bind (k := 0) hc (fun _ _ _ _ => (local_pure hc _).mono (Nat.zero_le _) (Nat.le_refl _)) ?_
    (Nat.le_refl _) (Nat.le_refl _)
  exact (local_repeatWhile (keeps_argumentStep h.sound).progresses (keeps_argumentStep h.sound').progresses
    (fun before c hc => local_argumentStep hc h before) [] hc).mono (Nat.zero_le _) (Nat.le_refl _)

theorem local_propertyStep (before : List Property) :
    Local c 1 0 (propertyStep inner before c) (propertyStep inner' before) := by
  refine local_sees_bind (k := 0) hc (fun _ _ _ _ => (local_pure hc _).mono (Nat.zero_le _) (Nat.le_refl _)) ?_
    (Nat.le_refl _) (Nat.le_refl _)
  refine Local.mono (e := 3) ?_ (Nat.zero_le _) (Nat.zero_le _)
  refine (local_propertyKey hc).bind (s := 0) (k := 2) (fun key d _ hd => ?_) (Nat.zero_le _)
  refine (local_expect hd).bind (k := 1) (fun _ d _ hd => ?_) (Nat.zero_le _)
  refine (h.expression 0 d hd).bind (k := 0) (fun e d _ hd => ?_) (Nat.le_refl _)
  exact (local_accept hd).bind (k := 0) (fun more d _ hd => local_pure hd _) (Nat.le_refl _)

theorem local_objectForm : Local c 0 1 (objectForm inner c) (objectForm inner') := by
  refine local_aheadSpan_bind hc (fun span => ?_) (Nat.le_refl _)
  refine (local_skip_any hc).bind (k := 1) (fun _ d _ hd => ?_) (Nat.zero_le _)
  refine (local_repeatWhile (keeps_propertyStep h.sound).progresses (keeps_propertyStep h.sound').progresses
    (fun before c hc => local_propertyStep hc h before) [] hd).bind (k := 1) (fun ps d _ hd => ?_) (Nat.le_refl _)
  refine (local_expect hd).bind (k := 0) (fun _ d _ hd => ?_) (Nat.le_refl _)
  exact local_lastStop_bind (local_pure hd _)

theorem local_functionForm : Local c 0 1 (functionForm inner c) (functionForm inner') := by
  refine local_aheadSpan_bind hc (fun span => ?_) (Nat.le_refl _)
  refine Local.mono (e := 3) ?_ (Nat.le_refl _) (by decide)
  refine (local_skip_any hc).bind (k := 3) (fun _ d _ hd => ?_) (Nat.zero_le _)
  refine (local_repeatWhile keeps_parameterStep.progresses keeps_parameterStep.progresses
    (fun before c hc => local_parameterStep hc before) [] hd).bind (k := 3) (fun ps d _ hd => ?_) (by decide)
  refine (local_expect hd).bind (k := 2) (fun _ d _ hd => ?_) (Nat.zero_le _)
  refine (local_expect hd).bind (k := 1) (fun _ d _ hd => ?_) (Nat.zero_le _)
  refine (h.block d hd).bind (k := 0) (fun body d _ hd => ?_) (Nat.le_refl _)
  exact local_lastStop_bind (local_pure hd _)

theorem local_groupForm : Local c 0 1 (groupForm inner c) (groupForm inner') := by
  refine local_aheadSpan_bind hc (fun span => ?_) (Nat.le_refl _)
  refine Local.mono (e := 2) ?_ (Nat.le_refl _) (by decide)
  refine (local_skip_any hc).bind (k := 2) (fun _ d _ hd => ?_) (Nat.zero_le _)
  refine (h.expression 0 d hd).bind (k := 1) (fun e d _ hd => ?_) (Nat.zero_le _)
  refine (local_expect hd).bind (k := 0) (fun _ d _ hd => ?_) (Nat.le_refl _)
  exact local_lastStop_bind (local_pure hd _)

theorem local_leadingForm (kind : OperatorKind) : Local c 0 1 (leadingForm inner kind c) (leadingForm inner' kind) := by
  refine local_aheadSpan_bind hc (fun span => ?_) (Nat.le_refl _)
  refine (local_skip_any hc).bind (k := 1) (fun _ d _ hd => ?_) (Nat.zero_le _)
  refine (h.expression operandPower d hd).bind (k := 0) (fun e d _ hd => ?_) (Nat.le_refl _)
  exact local_lastStop_bind (local_build hd _)

/-- Where a parenthesis is, a function is seen or an expression in parentheses is read. What is read of a function goes
behind the arrow by which it is seen. -/
theorem local_parenthesisForm (hr : c.rest = t :: rest) (ht : t.kind ≠ .endOfText) :
    Local c 0 1 ((do if ← seesFunction then functionForm inner else groupForm inner : Parser Expression) c)
      (do if ← seesFunction then functionForm inner' else groupForm inner') := by
  intro a d hx
  rw [seesFunction_bind, hr, List.drop_one, List.tail_cons] at hx
  have hcutSees {n : Nat} (hn : n ≤ rest.length) (f : Bool → Parser Expression) :
      (seesFunction >>= f) (c.cut n) =
        f (parametersThenArrow (rest.take (rest.length - n) ++ [⟨.endOfText, {}⟩])) (c.cut n) := by
    rw [seesFunction_bind, rest_cut hr hn, List.drop_one, List.tail_cons]
  cases hsees : parametersThenArrow rest with
  | true =>
    rw [hsees, if_pos rfl] at hx
    obtain ⟨hd, hle, hcut⟩ := local_functionForm hc h a d hx
    refine ⟨hd, hle, fun n hn => ?_⟩
    rw [hr, List.length_cons] at hle
    rw [hcutSees (by omega), parametersThenArrow_cut (n := n) hc h.sound hr ht hsees hx hn]
    exact hcut n hn
  | false =>
    rw [hsees, if_neg Bool.false_ne_true] at hx
    obtain ⟨hd, hle, hcut⟩ := local_groupForm hc h a d hx
    refine ⟨hd, hle, fun n hn => ?_⟩
    rw [hr, List.length_cons] at hle
    rw [hcutSees (by omega), Bool.eq_false_iff.2 fun h => Bool.eq_false_iff.1 hsees (parametersThenArrow_of_cut h)]
    exact hcut n hn

theorem local_startForm : Local c 0 1 (startForm inner c) (startForm inner') := by
  refine local_aheadSpan_bind hc (fun span => ?_) (Nat.le_refl _)
  obtain ⟨t, rest, hr⟩ := hc.rest_eq_cons
  refine local_ahead_bind hr ?_ (Nat.le_refl _)
  cases hk : t.kind with
  | int n => exact local_literalForm hc hr (by simp [hk]) _
  | float x => exact local_literalForm hc hr (by simp [hk]) _
  | string s => exact local_literalForm hc hr (by simp [hk]) _
  | bool b => exact local_literalForm hc hr (by simp [hk]) _
  | null => exact local_literalForm hc hr (by simp [hk]) _
  | ident name =>
    exact (local_skip hc hr (by simp [hk])).bind (k := 0) (fun _ d _ hd => local_pure hd _) (Nat.le_refl _)
  | letWord => exact local_failAt
  | returnWord => exact local_failAt
  | endOfText => exact local_failExpected
  | symbol s =>
    cases s with
    | minus => exact local_negativeForm hc hr (by simp [hk])
    | lBrace => exact h.object c hc
    | lParen => exact local_parenthesisForm hc h hr (by simp [hk])
    | bang => exact local_leadingForm hc h _
    | plusPlus => exact local_leadingForm hc h _
    | minusMinus => exact local_leadingForm hc h _
    | _ => exact local_failExpected

theorem local_suffixForm {start : Nat} {e : Expression} (hr : c.rest = t :: rest) (ht : t.kind ≠ .endOfText)
    (suffix : Suffix) : Local c 0 1 (suffixForm inner start e suffix c) (suffixForm inner' start e suffix) := by
  cases suffix with
  | call =>
    refine (local_skip_any hc).bind (k := 1) (fun _ d _ hd => ?_) (Nat.zero_le _)
    refine (local_arguments hd h).bind (k := 1) (fun args d _ hd => ?_) (Nat.le_refl _)
    refine (local_expect hd).bind (k := 0) (fun _ d _ hd => ?_) (Nat.le_refl _)
    exact local_lastStop_bind (local_pure hd _)
  | member =>
    refine local_aheadSpan_bind hc (fun opSpan => ?_) (Nat.le_refl _)
    refine (local_skip_any hc).bind (k := 1) (fun _ d _ hd => ?_) (Nat.zero_le _)
    refine local_aheadSpan_bind hd (fun keySpan => ?_) (Nat.le_refl _)
    refine (local_expectName hd).bind (k := 0) (fun key d _ hd => ?_) (Nat.le_refl _)
    exact local_lastStop_bind (local_build hd _)
  | step kind =>
    refine local_aheadSpan_bind hc (fun opSpan => ?_) (Nat.le_refl _)
    refine (local_skip hc hr ht).bind (k := 0) (fun _ d _ hd => ?_) (Nat.le_refl _)
    exact local_lastStop_bind (local_build hd _)

theorem local_binaryForm {start : Nat} {e : Expression} (rule : BinaryRule) :
    Local c 0 1 (binaryForm inner start e rule c) (binaryForm inner' start e rule) := by
  refine local_aheadSpan_bind hc (fun opSpan => ?_) (Nat.le_refl _)
  refine (local_skip_any hc).bind (k := 1) (fun _ d _ hd => ?_) (Nat.zero_le _)
  split
  · exact local_failAt
  · refine (h.expression rule.right d hd).bind (k := 0) (fun rhs d _ hd => ?_) (Nat.le_refl _)
    exact local_lastStop_bind (local_build hd _)

theorem local_operatorStep (least start : Nat) (e : Expression) :
    Local c 0 0 (operatorStep inner least start e c) (operatorStep inner' least start e) := by
  obtain ⟨t, rest, hr⟩ := hc.rest_eq_cons
  cases hs : t.kind.suffix? with
  | some suffix =>
    by_cases hpower : suffix.power < least
    · exact local_ahead_pure (a := (e, false)) hc hr (by simp [hs, hpower]) (by simp [hs, hpower]) rfl
    · refine Local.mono (e := 1) (local_ahead_bind hr ?_ (Nat.le_refl _)) (Nat.le_refl _) (Nat.zero_le _)
      have ht : t.kind ≠ .endOfText := fun ht => by rw [ht] at hs; cases hs
      simp only [hs, hpower, if_false]
      exact (local_suffixForm hc h hr ht suffix).bind (k := 0) (fun f d _ hd => local_pure hd _) (Nat.le_refl _)
  | none =>
    cases hb : t.kind.binaryRule? with
    | none => exact local_ahead_pure (a := (e, false)) hc hr (by simp [hs, hb]) (by simp [hs, hb]) rfl
    | some rule =>
      by_cases hpower : rule.left < least
      · exact local_ahead_pure (a := (e, false)) hc hr (by simp [hs, hb, hpower]) (by simp [hs, hb, hpower]) rfl
      · refine Local.mono (e := 1) (local_ahead_bind hr ?_ (Nat.le_refl _)) (Nat.le_refl _) (Nat.zero_le _)
        simp only [hs, hb, hpower, if_false]
        exact (local_binaryForm hc h rule).bind (k := 0) (fun f d _ hd => local_pure hd _) (Nat.le_refl _)

theorem local_expressionForm (least : Nat) :
    Local c 0 1 (expressionForm inner least c) (expressionForm inner' least) := by
  refine local_aheadSpan_bind hc (fun span => ?_) (Nat.le_refl _)
  refine (local_startForm hc h).bind (k := 0) (fun e d _ hd => ?_) (Nat.le_refl _)
  exact local_repeatWhile (keeps_operatorStep h.sound).progresses (keeps_operatorStep h.sound').progresses
    (fun e c hc => local_operatorStep hc h least span.start e) e hd

end Forms

/-! ## Statements -/

section Statements

variable {inner inner' : Level} {c : Cursor} {t : Token} {rest : List Token} (hc : c.Closed)

include hc

theorem local_statementEnd : Local c 0 0 (statementEnd c) statementEnd := by
  refine (local_accept hc).bind (k := 0) (fun more d _ hd => ?_) (Nat.le_refl _)
  cases more with
  | true => exact local_pure hd ()
  | false =>
    obtain ⟨t, rest, hr⟩ := hd.rest_eq_cons
    have hbrace {d : Cursor} {t : Token} {rest : List Token} (hr : d.rest = t :: rest) :
        (do if ← sees .rBrace then return () else failExpected .statementEnd : Parser Unit) d =
          (if t.kind.isSymbol .rBrace then return () else failExpected .statementEnd : Parser Unit) d := by
      rw [sees_bind_eq, token_bind hr]
    by_cases hend : t.kind.isEnd = true
    · exact local_ahead_pure hd hr (by simp [hend]) (by simp [hend]) rfl
    by_cases hsymbol : t.kind.isSymbol .rBrace = true
    · refine local_ahead_answer hd hr ?_ (fun d rest hr => ?_) rfl
      · simp only [hend, Bool.false_eq_true, if_false]
        rw [hbrace hr, if_pos hsymbol]
        rfl
      · simp only [hend, Bool.false_eq_true, if_false]
        rw [hbrace hr, if_pos hsymbol]
        rfl
    · intro a e hx
      rw [if_neg Bool.false_ne_true, ahead_bind_eq, token_bind hr] at hx
      simp only [hend, Bool.false_eq_true, if_false] at hx
      rw [hbrace hr, if_neg hsymbol] at hx
      exact absurd hx failExpected_ne_ok

variable (h : inner.LocalTo inner')

include h

theorem local_letForm : Local c 0 1 (letForm inner c) (letForm inner') := by
  refine local_aheadSpan_bind hc (fun span => ?_) (Nat.le_refl _)
  refine Local.mono (e := 3) ?_ (Nat.le_refl _) (by decide)
  refine (local_skip_any hc).bind (k := 3) (fun _ d _ hd => ?_) (Nat.zero_le _)
  refine local_aheadSpan_bind hd (fun nameSpan => ?_) (by decide)
  refine (local_expectName hd).bind (k := 2) (fun name d _ hd => ?_) (Nat.zero_le _)
  refine local_aheadSpan_bind hd (fun opSpan => ?_) (by decide)
  refine (local_expect hd).bind (k := 1) (fun _ d _ hd => ?_) (Nat.zero_le _)
  refine (h.expression 0 d hd).bind (k := 0) (fun value d _ hd => ?_) (Nat.le_refl _)
  exact local_lastStop_bind (local_build hd _)

theorem local_returnForm (hr : c.rest = t :: rest) (ht : t.kind ≠ .endOfText) :
    Local c 0 1 (returnForm inner c) (returnForm inner') := by
  refine local_aheadSpan_bind hc (fun span => ?_) (Nat.le_refl _)
  refine (local_skip hc hr ht).bind (k := 0) (fun _ d _ hd => ?_) (Nat.zero_le _)
  refine local_seesStatementEnd_bind (k := 1) hd ?_ ?_ (Nat.le_refl _) (Nat.zero_le _)
  · refine (local_pure hd _).bind (k := 0) (fun _ d _ hd => ?_) (Nat.le_refl _)
    exact local_lastStop_bind (local_build hd _)
  · refine Local.bind (e := 1) (k := 0) ?_ (fun _ d _ hd => ?_) (Nat.le_refl _)
    · exact (h.expression 0 d hd).bind (k := 0) (fun e d _ hd => local_pure hd e.toOperand) (Nat.le_refl _)
    · exact local_lastStop_bind (local_build hd _)

theorem local_statementBody : Local c 0 1 (statementBody inner c) (statementBody inner') := by
  obtain ⟨t, rest, hr⟩ := hc.rest_eq_cons
  refine local_ahead_bind hr ?_ (Nat.le_refl _)
  cases hk : t.kind with
  | letWord => exact local_letForm hc h
  | returnWord => exact local_returnForm hc h hr (by simp [hk])
  | _ => exact h.expression 0 c hc

theorem local_blockStatement : Local c 0 1 (blockStatement inner c) (blockStatement inner') := by
  refine (h.block c hc).bind (k := 0) (fun s d _ hd => ?_) (Nat.le_refl _)
  exact (local_accept hd).bind (k := 0) (fun _ d _ hd => local_pure hd _) (Nat.le_refl _)

theorem local_statementForm : Local c 0 1 (statementForm inner c) (statementForm inner') := by
  refine local_aheadSpan_bind hc (fun span => ?_) (Nat.le_refl _)
  obtain ⟨t, rest, hr⟩ := hc.rest_eq_cons
  refine local_ahead_bind hr ?_ (Nat.le_refl _)
  have hbody : Local c 0 1 ((do
        let body ← statementBody inner
        let span : Span := ⟨span.start, ← lastStop⟩
        statementEnd
        return some ⟨body, span⟩ : Parser (Option Statement)) c) (do
        let body ← statementBody inner'
        let span : Span := ⟨span.start, ← lastStop⟩
        statementEnd
        return some ⟨body, span⟩ : Parser (Option Statement)) := by
    refine (local_statementBody hc h).bind (k := 0) (fun body d _ hd => ?_) (Nat.le_refl _)
    refine local_lastStop_bind ?_
    exact (local_statementEnd hd).bind (k := 0) (fun _ d _ hd => local_pure hd _) (Nat.le_refl _)
  cases hk : t.kind with
  | symbol s =>
    cases s with
    | semi =>
      exact (local_skip hc hr (by simp [hk])).bind (k := 0) (fun _ d _ hd => local_pure hd _) (Nat.le_refl _)
    | lBrace =>
      exact (local_blockStatement hc h).bind (k := 0) (fun s d _ hd => local_pure hd _) (Nat.le_refl _)
    | _ => exact hbody
  | _ => exact hbody

theorem local_statementStep (before : List Statement) :
    Local c 0 0 (statementStep inner before c) (statementStep inner' before) := by
  obtain ⟨t, rest, hr⟩ := hc.rest_eq_cons
  cases hk : t.kind.isSymbol .rBrace || t.kind.isEnd with
  | true => exact local_ahead_pure (a := (before, false)) hc hr (by simp [hk]) (by simp [hk]) rfl
  | false =>
    refine Local.mono (e := 1) (local_ahead_bind hr ?_ (Nat.le_refl _)) (Nat.le_refl _) (Nat.zero_le _)
    simp only [hk, Bool.false_eq_true, if_false]
    exact (local_statementForm hc h).bind (k := 0) (fun s d _ hd => local_pure hd _) (Nat.le_refl _)

theorem local_statements : Local c 0 0 (statements inner c) (statements inner') :=
  local_repeatWhile (keeps_statementStep h.sound).progresses (keeps_statementStep h.sound').progresses
    (fun before _ hc => local_statementStep hc h before) [] hc

theorem local_blockForm : Local c 0 1 (blockForm inner c) (blockForm inner') := by
  refine local_aheadSpan_bind hc (fun span => ?_) (Nat.le_refl _)
  refine Local.mono (e := 2) ?_ (Nat.le_refl _) (by decide)
  refine (local_expect hc).bind (k := 1) (fun _ d _ hd => ?_) (Nat.zero_le _)
  refine (local_statements hd h).bind (k := 1) (fun body d _ hd => ?_) (Nat.zero_le _)
  refine (local_expect hd).bind (k := 0) (fun _ d _ hd => ?_) (Nat.le_refl _)
  exact local_lastStop_bind (local_pure hd _)

end Statements

/-- With more room, what is read with less is read, too. -/
theorem localTo_levelAt {room room' : Nat} (hroom : room ≤ room') : (levelAt room).LocalTo (levelAt room') := by
  have hdeep {α : Type} {c : Cursor} {p : Parser α} (hc : c.Closed) : Local c 0 1 ((tooDeep : Parser α) c) p := by
    obtain ⟨t, rest, hr⟩ := hc.rest_eq_cons
    intro a d hx
    rw [tooDeep, aheadSpan_bind_eq, token_bind hr] at hx
    cases hx
  induction room generalizing room' with
  | zero =>
    exact ⟨sound_levelAt 0, sound_levelAt room', fun _ _ hc => hdeep hc, fun _ hc => hdeep hc, fun _ hc => hdeep hc⟩
  | succ room ih =>
    obtain ⟨room', rfl⟩ : ∃ k, room' = k + 1 := ⟨room' - 1, by omega⟩
    have hinner := ih (Nat.le_of_succ_le_succ hroom)
    exact ⟨sound_levelAt _, sound_levelAt _, fun least _ hc => local_expressionForm hc hinner least,
      fun _ hc => local_blockForm hc hinner, fun _ hc => local_objectForm hc hinner⟩

end GameScript
