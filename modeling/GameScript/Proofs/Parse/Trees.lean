import GameScript.Parse.Grammar
import GameScript.Proofs.Parse.Reader
import GameScript.Proofs.Tree.Canonical

/-!
# What readers build

From every list of tokens, readers build canonical trees, never look past the last token and never build an operator
into a form that does not take it. Every reader of an expression, a block or a statement reads a token, and so does
every step of a loop that asks for more.

A level of readers is `Sound` when its readers do so; `levelAt` is sound however much room is left
(`sound_levelAt`), because each level is sound when the next one is. Main statements: the steps of all loops read
tokens (`keeps_operatorStep` and its sisters), and what `programForm` builds is canonical (`sure_programForm`).
-/

namespace GameScript

open GameScript.Parser

/-- A level whose readers read a token, keep to the tokens and build canonical trees. -/
structure Level.Sound (l : Level) : Prop where
  expression : ∀ least c, c.Closed →
    Sure (fun e d => c.Advances 1 d ∧ (Node.expression e).Canonical) (l.expression least c)
  block : ∀ c, c.Closed → Sure (fun s d => c.Advances 1 d ∧ (Node.scope s).Canonical) (l.block c)
  object : ∀ c, c.Closed → Sure (fun e d => c.Advances 1 d ∧ (Node.expression e).Canonical) (l.object c)

variable {inner : Level} {c : Cursor}

/-! ## Lists in brackets -/

section Lists

theorem keeps_argumentStep (h : inner.Sound) :
    Keeps (fun es => ∀ e ∈ es, (Node.expression e).Canonical) (argumentStep inner) := by
  intro before c hc
  refine (h.expression 0 c hc).bind fun e d ⟨hd, he⟩ => ?_
  refine (sure_accept hd.closed).bind fun more d' hd' => ⟨(hd.trans hd').mono (by split <;> omega), ?_⟩
  intro hb f hf
  rcases List.mem_append.1 hf with hf | hf
  · exact hb f hf
  · exact List.mem_singleton.1 hf ▸ he

theorem sure_arguments (h : inner.Sound) (hc : c.Closed) :
    Sure (fun es d => c.Advances 0 d ∧ ∀ e ∈ es, (Node.expression e).Canonical) (arguments inner c) := by
  refine sure_bind (sure_sees hc fun t rest hr => ?_)
  split
  · exact sure_pure ⟨hc.advances, fun _ he => absurd he List.not_mem_nil⟩
  · exact (sure_repeatWhile (keeps_argumentStep h) hc).mono fun es d ⟨hd, hes⟩ =>
      ⟨hd, hes fun _ he => absurd he List.not_mem_nil⟩

theorem sure_propertyKey (hc : c.Closed) : Sure (fun _ d => c.Advances 1 d) (propertyKey c) := by
  refine sure_bind (sure_ahead hc fun t rest hr => ?_)
  cases hk : t.kind with
  | ident key => exact sure_bind (sure_skip hc (hc.advances_next_of_ne hr (by simp [hk])))
  | string key => exact sure_bind (sure_skip hc (hc.advances_next_of_ne hr (by simp [hk])))
  | _ => exact sure_failExpected hc

theorem keeps_propertyStep (h : inner.Sound) :
    Keeps (fun ps => ∀ p ∈ ps, (Node.expression p.value).Canonical) (propertyStep inner) := by
  intro before c hc
  refine sure_bind (sure_sees hc fun t rest hr => ?_)
  split
  · exact sure_pure ⟨hc.advances, id⟩
  · refine (sure_propertyKey hc).bind fun key d₁ h₁ => ?_
    refine (sure_expect h₁.closed).bind fun _ d₂ h₂ => ?_
    refine (h.expression 0 d₂ h₂.closed).bind fun e d₃ ⟨h₃, he⟩ => ?_
    refine (sure_accept h₃.closed).bind fun more d₄ h₄ =>
      ⟨(((h₁.trans h₂).trans h₃).trans h₄).mono (by split <;> omega), ?_⟩
    intro hb p hp
    rcases List.mem_append.1 hp with hp | hp
    · exact hb p hp
    · exact List.mem_singleton.1 hp ▸ he

theorem sure_objectForm (h : inner.Sound) (hc : c.Closed) :
    Sure (fun e d => c.Advances 1 d ∧ (Node.expression e).Canonical) (objectForm inner c) := by
  refine sure_bind (sure_aheadSpan hc fun span => ?_)
  refine sure_bind (sure_skip hc ?_)
  refine (sure_repeatWhile (keeps_propertyStep h) hc.next).bind fun ps d ⟨hd, hps⟩ => ?_
  refine (sure_expect hd.closed).bind fun _ d' hd' => ?_
  refine sure_bind (sure_lastStop fun stop => ⟨((hc.advances_next.trans hd).trans hd').mono (by omega), ?_⟩)
  refine canonical_leaf (Node.canonical_iff.2 ⟨trivial, fun m hm => ?_⟩) id
  obtain ⟨p, hp, rfl⟩ := List.mem_map.1 hm
  exact hps (fun _ hp => absurd hp List.not_mem_nil) p hp

theorem keeps_parameterStep : Keeps List.Nodup parameterStep := by
  intro before c hc
  refine sure_bind (sure_sees hc fun t rest hr => ?_)
  split
  · exact sure_pure ⟨hc.advances, id⟩
  · refine sure_bind (sure_aheadSpan hc fun span => ?_)
    refine (sure_expectName hc).bind fun name d hd => ?_
    split
    · exact sure_failAt fun _ => by simp
    · rename_i hname
      refine (sure_accept hd.closed).bind fun more d' hd' => ⟨(hd.trans hd').mono (by split <;> omega), fun hb => ?_⟩
      have hmem : name ∉ before := by simpa using hname
      exact List.nodup_append.2 ⟨hb, by simp, fun a ha b hb he => hmem (by simp_all)⟩

end Lists

/-! ## Forms that start an expression -/

section Starts

variable (h : inner.Sound) (hc : c.Closed)

/-- The answer of a reader of expressions. -/
abbrev ReadsExpression (c : Cursor) (e : Expression) (d : Cursor) : Prop :=
  c.Advances 1 d ∧ (Node.expression e).Canonical

include h hc

theorem sure_functionForm : Sure (ReadsExpression c) (functionForm inner c) := by
  refine sure_bind (sure_aheadSpan hc fun span => ?_)
  refine sure_bind (sure_skip hc ?_)
  refine (sure_repeatWhile keeps_parameterStep hc.next).bind fun ps d₁ ⟨h₁, hps⟩ => ?_
  refine (sure_expect h₁.closed).bind fun _ d₂ h₂ => ?_
  refine (sure_expect h₂.closed).bind fun _ d₃ h₃ => ?_
  refine (h.block d₃ h₃.closed).bind fun body d₄ ⟨h₄, hbody⟩ => ?_
  refine sure_bind (sure_lastStop fun stop =>
    ⟨((((hc.advances_next.trans h₁).trans h₂).trans h₃).trans h₄).mono (by omega), ?_⟩)
  refine canonical_leaf (Node.canonical_iff.2 ⟨hps List.nodup_nil, fun m hm => ?_⟩) id
  obtain rfl := List.mem_singleton.1 hm
  exact hbody

theorem sure_groupForm : Sure (ReadsExpression c) (groupForm inner c) := by
  refine sure_bind (sure_aheadSpan hc fun span => ?_)
  refine sure_bind (sure_skip hc ?_)
  refine (h.expression 0 c.next hc.next).bind fun e d₁ ⟨h₁, he⟩ => ?_
  refine (sure_expect h₁.closed).bind fun _ d₂ h₂ => ?_
  refine sure_bind (sure_lastStop fun stop => ⟨((hc.advances_next.trans h₁).trans h₂).mono (by omega), ?_⟩)
  -- the place of an expression is nothing that a piece is judged by
  exact Node.canonical_iff.2 ⟨he.proper, fun m hm => he.child hm⟩

omit h in
theorem sure_literalForm {t : Token} {rest : List Token} (hr : c.rest = t :: rest) (ht : t.kind ≠ .endOfText)
    (literal : Literal) : Sure (ReadsExpression c) (literalForm literal c) := by
  refine sure_bind (sure_aheadSpan hc fun span => ?_)
  refine sure_bind (sure_skip hc ⟨hc.advances_next_of_ne hr ht, ?_⟩)
  exact canonical_leaf (Node.canonical_iff.2 ⟨trivial, fun m hm => absurd hm List.not_mem_nil⟩) id

omit h in
theorem sure_negativeForm {t : Token} {rest : List Token} (hr : c.rest = t :: rest) (ht : t.kind ≠ .endOfText) :
    Sure (ReadsExpression c) (negativeForm c) := by
  have hleaf (literal : Literal) (span : Span) : (Node.expression (.leaf (.value literal) span)).Canonical :=
    canonical_leaf (Node.canonical_iff.2 ⟨trivial, fun m hm => absurd hm List.not_mem_nil⟩) id
  have hread := (hc.advances_next_of_ne hr ht).trans hc.next.advances_next
  refine sure_bind (sure_aheadSpan hc fun span => ?_)
  refine sure_bind (sure_skip hc ?_)
  refine sure_bind (sure_ahead hc.next fun t' rest' hr' => ?_)
  cases t'.kind with
  | int n =>
    refine sure_bind (sure_pure (sure_bind (sure_skip hc.next ?_)))
    exact sure_bind (sure_lastStop fun stop => ⟨hread, hleaf _ _⟩)
  | float x =>
    refine sure_bind (sure_pure (sure_bind (sure_skip hc.next ?_)))
    exact sure_bind (sure_lastStop fun stop => ⟨hread, hleaf _ _⟩)
  | _ => exact sure_bind (sure_failAt fun _ => by simp)

theorem sure_leadingForm {kind : OperatorKind} (hop : kind.arity ≠ .binary) (hret : kind ≠ .ret) :
    Sure (ReadsExpression c) (leadingForm inner kind c) := by
  refine sure_bind (sure_aheadSpan hc fun span => ?_)
  refine sure_bind (sure_skip hc ?_)
  refine (h.expression operandPower c.next hc.next).bind fun e d ⟨hd, he⟩ => ?_
  refine sure_bind (sure_lastStop fun stop => sure_build ⟨_, if_neg hop, ?_⟩)
  exact ⟨(hc.advances_next.trans hd).mono (by omega), canonical_prefixed (canonical_toOperand he) hop hret⟩

theorem sure_startForm : Sure (ReadsExpression c) (startForm inner c) := by
  refine sure_bind (sure_aheadSpan hc fun span => ?_)
  refine sure_bind (sure_ahead hc fun t rest hr => ?_)
  cases hk : t.kind with
  | int n => exact sure_literalForm hc hr (by simp [hk]) _
  | float x => exact sure_literalForm hc hr (by simp [hk]) _
  | string s => exact sure_literalForm hc hr (by simp [hk]) _
  | bool b => exact sure_literalForm hc hr (by simp [hk]) _
  | null => exact sure_literalForm hc hr (by simp [hk]) _
  | ident name =>
    refine sure_bind (sure_skip hc ⟨hc.advances_next_of_ne hr (by simp [hk]), ?_⟩)
    exact canonical_leaf (Node.canonical_iff.2 ⟨rfl, fun m hm => absurd hm List.not_mem_nil⟩) id
  | letWord => exact sure_failAt fun _ => by simp
  | returnWord => exact sure_failAt fun _ => by simp
  | endOfText => exact sure_failExpected hc
  | symbol s =>
    cases s with
    | minus => exact sure_negativeForm hc hr (by simp [hk])
    | lBrace => exact h.object c hc
    | lParen =>
      refine sure_bind ?_
      refine sure_pure ?_
      split
      · exact sure_functionForm h hc
      · exact sure_groupForm h hc
    | bang => exact sure_leadingForm h hc (by decide) (by decide)
    | plusPlus => exact sure_leadingForm h hc (by decide) (by decide)
    | minusMinus => exact sure_leadingForm h hc (by decide) (by decide)
    | _ => exact sure_failExpected hc

end Starts

/-! ## Operators -/

section Operators

/-- What may be assigned to makes a place, be it unwrapped or not. -/
theorem isPlace_toOperand {e : Expression} (he : (Node.expression e).Canonical) (h : e.isAssignmentTarget = true) :
    e.toOperand.IsPlace := by
  obtain ⟨left, op, right, span⟩ := e
  cases op with
  | some op =>
    rw [toOperand_of_op (by simp)]
    cases left with
    | none => simp [Expression.isAssignmentTarget] at h
    | some a => simpa [Expression.isAssignmentTarget, Operand.IsPlace, Expression.operator?] using h
  | none =>
    obtain ⟨hl, rfl⟩ : left.isSome = true ∧ right = none := by simpa [Expression.WellShaped] using he.proper.1
    obtain ⟨a, rfl⟩ := Option.isSome_iff_exists.1 hl
    cases a with
    | var v =>
      obtain ⟨name, role, place⟩ := v
      cases role with
      | use => rfl
      | declare => cases h
    | _ => cases h

variable {e : Expression} {start : Nat} (h : inner.Sound) (hc : c.Closed)

/-- The answer of a reader that goes on after an expression. -/
abbrev GoesOn (e : Expression) (c : Cursor) (f : Expression) (d : Cursor) : Prop :=
  c.Advances 1 d ∧ ((Node.expression e).Canonical → (Node.expression f).Canonical)

include h hc

theorem sure_suffixForm {suffix : Suffix} (hk : ∀ kind, suffix = .step kind → kind.arity = .either) {t : Token}
    {rest : List Token} (hr : c.rest = t :: rest) (ht : t.kind ≠ .endOfText) :
    Sure (GoesOn e c) (suffixForm inner start e suffix c) := by
  have hnext := hc.advances_next_of_ne hr ht
  cases suffix with
  | call =>
    refine sure_bind (sure_skip hc ?_)
    refine (sure_arguments h hc.next).bind fun args d₁ ⟨h₁, hargs⟩ => ?_
    refine (sure_expect h₁.closed).bind fun _ d₂ h₂ => ?_
    refine sure_bind (sure_lastStop fun stop => ⟨((hnext.trans h₁).trans h₂).mono (by omega), fun he => ?_⟩)
    refine canonical_leaf (Node.canonical_iff.2 ⟨trivial, fun m hm => ?_⟩) id
    rcases List.mem_cons.1 hm with rfl | hm
    · exact he
    · obtain ⟨f, hf, rfl⟩ := List.mem_map.1 hm
      exact hargs f hf
  | member =>
    refine sure_bind (sure_aheadSpan hc fun opSpan => ?_)
    refine sure_bind (sure_skip hc ?_)
    refine sure_bind (sure_aheadSpan hc.next fun keySpan => ?_)
    refine (sure_expectName hc.next).bind fun key d hd => ?_
    refine sure_bind (sure_lastStop fun stop => sure_build ⟨_, if_pos rfl, ?_⟩)
    refine ⟨(hnext.trans hd).mono (by omega), fun he => ?_⟩
    refine canonical_binary (canonical_toOperand he) ?_ rfl (fun ha => ?_) (fun _ => rfl)
    · exact Node.canonical_iff.2 ⟨rfl, fun m hm => absurd hm List.not_mem_nil⟩
    · exact absurd ha (show OperatorKind.child.isAssignment ≠ true by decide)
  | step kind =>
    refine sure_bind (sure_aheadSpan hc fun opSpan => ?_)
    refine sure_bind (sure_skip hc ?_)
    refine sure_bind (sure_lastStop fun stop => sure_build ⟨_, if_pos (hk kind rfl), ?_⟩)
    exact ⟨hnext, fun he => canonical_postfixed (canonical_toOperand he) (hk kind rfl)⟩

theorem sure_binaryForm {rule : BinaryRule} (hop : rule.kind.arity = .binary) (hchild : rule.kind ≠ .child) {t : Token}
    {rest : List Token} (hr : c.rest = t :: rest) (ht : t.kind ≠ .endOfText) :
    Sure (GoesOn e c) (binaryForm inner start e rule c) := by
  refine sure_bind (sure_aheadSpan hc fun opSpan => ?_)
  refine sure_bind (sure_skip hc ?_)
  split
  · exact sure_failAt fun _ => by simp
  · rename_i hassign
    refine (h.expression rule.right c.next hc.next).bind fun rhs d ⟨hd, hrhs⟩ => ?_
    refine sure_bind (sure_lastStop fun stop => sure_build ⟨_, if_pos hop, ?_⟩)
    refine ⟨((hc.advances_next_of_ne hr ht).trans hd).mono (by omega), fun he => ?_⟩
    refine canonical_binary (canonical_toOperand he) (canonical_toOperand hrhs) hop (fun ha => ?_)
      (fun hk => absurd hk hchild)
    exact isPlace_toOperand he (by simpa [ha] using hassign)

omit hc in
theorem keeps_operatorStep {least : Nat} :
    Keeps (fun e => (Node.expression e).Canonical) (operatorStep inner least start) := by
  intro e c hc
  refine sure_bind (sure_ahead hc fun t rest hr => ?_)
  have hstop : Sure (fun (r : Expression × Bool) d => c.Advances (if r.2 then 1 else 0) d ∧
      ((Node.expression e).Canonical → (Node.expression r.1).Canonical)) ((pure (e, false) : Parser _) c) :=
    sure_pure ⟨hc.advances, id⟩
  cases hk : t.kind with
  | symbol s =>
    have ht : t.kind ≠ .endOfText := by simp [hk]
    simp only [TokenKind.suffix?, TokenKind.binaryRule?]
    cases hs : s.suffix? with
    | some suffix =>
      have hstep : ∀ kind, suffix = .step kind → kind.arity = .either := by
        rintro kind rfl
        cases s <;> simp [Symbol.suffix?] at hs <;> subst hs <;> rfl
      dsimp only
      split
      · exact hstop
      · exact (sure_suffixForm h hc hstep hr ht).bind fun f d hf => sure_pure hf
    | none =>
      dsimp only
      cases hb : s.binaryRule? with
      | none => exact hstop
      | some rule =>
        have hchild : rule.kind ≠ .child := by cases s <;> simp [Symbol.binaryRule?] at hb <;> subst hb <;> decide
        dsimp only
        split
        · exact hstop
        · exact (sure_binaryForm h hc (Symbol.binaryRule?_arity hb) hchild hr ht).bind fun f d hf => sure_pure hf
  | _ => exact hstop

theorem sure_expressionForm {least : Nat} : Sure (ReadsExpression c) (expressionForm inner least c) := by
  refine sure_bind (sure_aheadSpan hc fun span => ?_)
  refine (sure_startForm h hc).bind fun e d ⟨hd, he⟩ => ?_
  exact (sure_repeatWhile (keeps_operatorStep h) hd.closed).mono fun f d' ⟨hd', hf⟩ =>
    ⟨(hd.trans hd').mono (by omega), hf he⟩

end Operators

/-! ## Statements -/

section Statements

variable (h : inner.Sound) (hc : c.Closed)

/-- An expression that stands for a value may stand as a statement. -/
theorem canonical_statement {e : Expression} (he : (Node.expression e).Canonical) : (Node.statement e).Canonical := by
  refine Node.canonical_iff.2 ⟨trivial, fun m hm => ?_⟩
  simp only [Node.children] at hm
  split at hm
  · rename_i s span
    have hs : (Node.operand (.block s)).Canonical := he.child (by simp [Node.children])
    exact absurd hs.proper id
  · exact absurd rfl he.proper.2.1
  · rename_i name nameSpan opSpan a span
    have hv : (Node.operand (.var ⟨name, .declare, nameSpan⟩)).Canonical := he.child (by simp [Node.children])
    exact absurd hv.proper (show VariableRole.declare ≠ .use by decide)
  · exact List.mem_singleton.1 hm ▸ he

theorem sure_statementEnd (hc : c.Closed) : Sure (fun _ d => c.Advances 0 d) (statementEnd c) := by
  refine (sure_accept hc).bind fun more d hd => ?_
  have hd' : c.Advances 0 d := hd.mono (Nat.zero_le _)
  split
  · exact sure_pure hd'
  · refine sure_bind (sure_ahead hd.closed fun t rest hr => ?_)
    split
    · exact sure_pure hd'
    · refine sure_bind (sure_sees hd.closed fun t rest hr => ?_)
      split
      · exact sure_pure hd'
      · exact sure_failExpected hd.closed

theorem sure_seesStatementEnd {Q : Bool → Cursor → Prop} (hc : c.Closed) (hq : ∀ b, Q b c) :
    Sure Q (seesStatementEnd c) :=
  sure_bind (sure_ahead hc fun _ _ _ => hq _)

/-- The answer of a reader of the body of a statement. -/
abbrev ReadsStatement (c : Cursor) (e : Expression) (d : Cursor) : Prop :=
  c.Advances 1 d ∧ (Node.statement e).Canonical

include h hc

theorem sure_letForm : Sure (ReadsStatement c) (letForm inner c) := by
  refine sure_bind (sure_aheadSpan hc fun span => ?_)
  refine sure_bind (sure_skip hc ?_)
  refine sure_bind (sure_aheadSpan hc.next fun nameSpan => ?_)
  refine (sure_expectName hc.next).bind fun name d₁ h₁ => ?_
  refine sure_bind (sure_aheadSpan h₁.closed fun opSpan => ?_)
  refine (sure_expect h₁.closed).bind fun _ d₂ h₂ => ?_
  refine (h.expression 0 d₂ h₂.closed).bind fun value d₃ ⟨h₃, hvalue⟩ => ?_
  refine sure_bind (sure_lastStop fun stop => sure_build ⟨_, if_pos rfl, ?_⟩)
  refine ⟨(((hc.advances_next.trans h₁).trans h₂).trans h₃).mono (by omega), ?_⟩
  refine Node.canonical_iff.2 ⟨trivial, fun m hm => ?_⟩
  obtain rfl := List.mem_singleton.1 hm
  exact canonical_toOperand hvalue

theorem sure_returnForm {t : Token} {rest : List Token} (hr : c.rest = t :: rest) (ht : t.kind ≠ .endOfText) :
    Sure (ReadsStatement c) (returnForm inner c) := by
  have hret {d : Cursor} {a : Operand} {span : Span} (hd : c.Advances 1 d) (ha : (Node.operand a).Canonical) :
      Sure (ReadsStatement c) ((do build (Expression.prefixed? ⟨.ret, span⟩ a ⟨span.start, ← lastStop⟩) :
        Parser Expression) d) := by
    have harity : OperatorKind.ret.arity ≠ .binary := by decide
    refine sure_bind (sure_lastStop fun stop => sure_build ⟨_, if_neg harity, hd, ?_⟩)
    refine Node.canonical_iff.2 ⟨trivial, fun m hm => ?_⟩
    obtain rfl := List.mem_singleton.1 hm
    exact ha
  refine sure_bind (sure_aheadSpan hc fun span => ?_)
  refine sure_bind (sure_skip hc ?_)
  refine sure_bind (sure_seesStatementEnd hc.next fun b => ?_)
  have hnext := hc.advances_next_of_ne hr ht
  cases b with
  | true =>
    refine sure_bind (sure_pure (hret hnext ?_))
    exact Node.canonical_iff.2 ⟨trivial, fun m hm => absurd hm List.not_mem_nil⟩
  | false =>
    refine sure_bind (sure_map ((h.expression 0 c.next hc.next).mono fun e d ⟨hd, he⟩ => ?_))
    exact hret ((hnext.trans hd).mono (by omega)) (canonical_toOperand he)

theorem sure_statementBody : Sure (ReadsStatement c) (statementBody inner c) := by
  refine sure_bind (sure_ahead hc fun t rest hr => ?_)
  have hexpression : Sure (ReadsStatement c) (inner.expression 0 c) :=
    (h.expression 0 c hc).mono fun e d ⟨hd, he⟩ => ⟨hd, canonical_statement he⟩
  cases hk : t.kind with
  | letWord => exact sure_letForm h hc
  | returnWord => exact sure_returnForm h hc hr (by simp [hk])
  | _ => exact hexpression

theorem sure_blockStatement :
    Sure (fun s d => c.Advances 1 d ∧ (Node.statement s.body).Canonical) (blockStatement inner c) := by
  refine (h.block c hc).bind fun s d ⟨hd, hs⟩ => ?_
  refine (sure_accept hd.closed).bind fun more d' hd' => sure_pure ⟨(hd.trans hd').mono (by omega), ?_⟩
  refine Node.canonical_iff.2 ⟨trivial, fun m hm => ?_⟩
  obtain rfl := List.mem_singleton.1 hm
  exact hs

theorem sure_statementForm {t : Token} {rest : List Token} (hr : c.rest = t :: rest) (ht : t.kind ≠ .endOfText) :
    Sure (fun s d => c.Advances 1 d ∧ ∀ t ∈ s, (Node.statement t.body).Canonical) (statementForm inner c) := by
  refine sure_bind (sure_aheadSpan hc fun span => ?_)
  have hblock : Sure (fun s d => c.Advances 1 d ∧ ∀ t ∈ s, (Node.statement t.body).Canonical)
      ((do return some (← blockStatement inner) : Parser (Option Statement)) c) :=
    (sure_blockStatement h hc).bind fun s d ⟨hd, hs⟩ => sure_pure ⟨hd, by simpa using hs⟩
  have hbody : Sure (fun s d => c.Advances 1 d ∧ ∀ t ∈ s, (Node.statement t.body).Canonical)
      ((do
        let body ← statementBody inner
        let span : Span := ⟨span.start, ← lastStop⟩
        statementEnd
        return some ⟨body, span⟩ : Parser (Option Statement)) c) := by
    refine (sure_statementBody h hc).bind fun e d ⟨hd, he⟩ => ?_
    refine sure_bind (sure_lastStop fun stop => ?_)
    refine (sure_statementEnd hd.closed).bind fun _ d' hd' => ?_
    exact sure_pure ⟨(hd.trans hd').mono (by omega), by simpa using he⟩
  refine sure_bind (sure_ahead hc fun t' rest' hr' => ?_)
  obtain ⟨rfl, rfl⟩ : t = t' ∧ rest = rest' := by simpa [hr] using hr'
  cases hk : t.kind with
  | symbol s =>
    cases s with
    | semi => exact sure_bind (sure_skip hc (sure_pure ⟨hc.advances_next_of_ne hr ht, by simp⟩))
    | lBrace => exact hblock
    | _ => exact hbody
  | _ => exact hbody

omit hc in
theorem keeps_statementStep :
    Keeps (fun ss => ∀ s ∈ ss, (Node.statement s.body).Canonical) (statementStep inner) := by
  intro before c hc
  refine sure_bind (sure_ahead hc fun t rest hr => ?_)
  split
  · exact sure_pure ⟨hc.advances, id⟩
  · rename_i hk
    have ht : t.kind ≠ .endOfText := fun he => hk (by simp [he])
    refine (sure_statementForm h hc hr ht).bind fun s d ⟨hd, hs⟩ => sure_pure ⟨hd, fun hb u hu => ?_⟩
    rcases List.mem_append.1 hu with hu | hu
    · exact hb u hu
    · exact hs u (by simpa using hu)

theorem sure_statements :
    Sure (fun ss d => c.Advances 0 d ∧ ∀ s ∈ ss, (Node.statement s.body).Canonical) (statements inner c) :=
  (sure_repeatWhile (keeps_statementStep h) hc).mono fun _ _ ⟨hd, hs⟩ =>
    ⟨hd, hs fun _ hs => absurd hs List.not_mem_nil⟩

theorem sure_blockForm : Sure (fun s d => c.Advances 1 d ∧ (Node.scope s).Canonical) (blockForm inner c) := by
  refine sure_bind (sure_aheadSpan hc fun span => ?_)
  refine (sure_expect hc).bind fun _ d₁ h₁ => ?_
  refine (sure_statements h h₁.closed).bind fun body d₂ ⟨h₂, hbody⟩ => ?_
  refine (sure_expect h₂.closed).bind fun _ d₃ h₃ => ?_
  exact sure_bind (sure_lastStop fun stop => ⟨((h₁.trans h₂).trans h₃).mono (by omega), canonical_scope hbody⟩)

end Statements

/-! ## Levels and scripts -/

/-- Every level is sound, since each is built from the next one by sound forms, and the last one only refuses. -/
theorem sound_levelAt (room : Nat) : (levelAt room).Sound := by
  have hdeep {α : Type} {Q : α → Cursor → Prop} {c : Cursor} (hc : c.Closed) : Sure Q ((tooDeep : Parser α) c) :=
    sure_bind (sure_aheadSpan hc fun _ => sure_failAt fun _ => by simp)
  induction room with
  | zero => exact ⟨fun _ _ hc => hdeep hc, fun _ hc => hdeep hc, fun _ hc => hdeep hc⟩
  | succ room ih =>
    exact ⟨fun _ _ hc => sure_expressionForm ih hc, fun _ hc => sure_blockForm ih hc, fun _ hc => sure_objectForm ih hc⟩

theorem sure_programForm (hc : c.Closed) : Sure (fun p _ => p.Canonical) (programForm c) := by
  refine sure_bind (sure_aheadSpan hc fun span => ?_)
  refine (sure_statements (sound_levelAt maxNesting) hc).bind fun body d ⟨hd, hbody⟩ => ?_
  refine sure_bind (sure_ahead hd.closed fun t rest hr => ?_)
  split
  · exact sure_bind (sure_lastStop fun stop => sure_pure (canonical_scope hbody))
  · exact sure_bind (sure_aheadSpan hd.closed fun _ => sure_failAt fun _ => by simp)

theorem sure_expressionAtFront (hc : c.Closed) :
    Sure (fun e _ => (Node.expression e).Canonical) (expressionAtFront c) :=
  ((sound_levelAt maxNesting).expression 0 c hc).mono fun _ _ ⟨_, he⟩ => he

theorem parseTokens_eq_ok_iff {ts : List Token} {p : Program} :
    parseTokens ts = .ok p ↔ ∃ d, programForm (Cursor.ofTokens ts) = .ok (p, d) := by
  unfold parseTokens StateT.run'
  cases programForm (Cursor.ofTokens ts) with
  | error e => simp [Functor.map, Except.map]
  | ok r => simp [Functor.map, Except.map, Prod.ext_iff]

end GameScript
