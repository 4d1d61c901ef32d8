import GameScript.Proofs.Parse.Powers
import GameScript.Proofs.Parse.Spelling
import GameScript.Proofs.Parse.Trees
import GameScript.Proofs.Text.Negation
import GameScript.Proofs.Tree.Erase

/-!
# Reading written forms

A level of readers `Reads` with some room when each of its readers gives back what was written, or says that the room
does not suffice. Built on such a level, the forms that start an expression give back what they were written for:
lists with commas (`gives_commaLoop`), object and function literals, expressions in parentheses, operators before their
operand (`gives_leadingForm`) and literals, negative ones included (`gives_literal`).
-/

namespace GameScript

open GameScript.Parser

/-- A level of readers that give back what was written when `room` is more than its nesting. -/
structure Level.Reads (l : Level) (room : Nat) : Prop where
  sound : l.Sound
  expression : ∀ {e least c ks}, (Node.expression e).Canonical → least ≤ leftPower e.level → Stops least ks →
    c.Spells (e.tokens ++ ks) → Gives (e.depth < room) (fun f => f.eraseSpans = e.eraseSpans) ks (l.expression least c)
  group : ∀ {e least c ks}, (Node.expression e).Canonical → least ≤ 16 → Stops least ks →
    c.Spells (inParentheses e.tokens ++ ks) →
    Gives (e.depth + 1 < room) (fun f => f.eraseSpans = e.eraseSpans) ks (l.expression least c)
  block : ∀ {s c ks}, (Node.scope s).Canonical → c.Spells (s.tokens ++ ks) →
    Gives (s.depth < room) (fun t => t.eraseSpans = s.eraseSpans) ks (l.block c)
  object : ∀ {ps span c ks}, (Node.operand (.object ps)).Canonical → c.Spells ((Operand.object ps).tokens ++ ks) →
    Gives (Property.depthAll ps < room) (fun f => f.eraseSpans = (Expression.leaf (.object ps) span).eraseSpans) ks
      (l.object c)

/-! ## Lists with commas -/

section Commas

variable {ι β : Type} {c : Cursor} {ks : List TokenKind}

/-- A comma says that more follows, and is read. -/
theorem gives_separator {s : Symbol} {b : β} (hc : c.Spells (.symbol s :: ks)) :
    Gives True (fun (r : β × Bool) => r.2 = decide (s = .comma) ∧ r.1 = b)
      (if s = .comma then ks else .symbol s :: ks) ((do let more ← accept .comma; return (b, more)) c) := by
  by_cases hs : s = .comma
  · subst hs
    exact gives_accept hc fun hd => gives_pure ⟨rfl, rfl⟩ hd
  · rw [if_neg hs]
    exact gives_accept_of_ne hc (by simpa using hs) (gives_pure ⟨by simp [hs], rfl⟩ hc)

variable {all : List ι} {tokens : ι → List TokenKind} (fits : ι → Prop) (P : List ι → β → Prop)
  {step : β → Parser (β × Bool)} {closing : Symbol}

/-- A loop over things with commas between them, where the step reads one thing and the comma after it. -/
theorem gives_commaLoop (hp : Progresses step) (hclosing : closing ≠ .comma)
    (hstep : ∀ done x rest s b c ks, all = done ++ x :: rest → P done b → s = .comma ∨ s = closing →
      c.Spells (tokens x ++ .symbol s :: ks) →
      Gives (fits x) (fun (r : β × Bool) => r.2 = decide (s = .comma) ∧ P (done ++ [x]) r.1)
        (if s = .comma then ks else .symbol s :: ks) (step b c))
    {done rest : List ι} {b : β} (hall : all = done ++ rest) (hne : rest ≠ []) (hb : P done b)
    (hc : c.Spells (commaSeparated (rest.map tokens) ++ .symbol closing :: ks)) :
    Gives (∀ x ∈ rest, fits x) (P all) (.symbol closing :: ks) (repeatWhile step b c) := by
  induction rest generalizing done b c with
  | nil => exact absurd rfl hne
  | cons x rest ih =>
    cases rest with
    | nil =>
      have h := hstep done x [] closing b c ks hall hb (.inr rfl) hc
      rw [if_neg hclosing] at h
      refine (gives_repeatWhile_last hp hc.closed (h.mono fun r ⟨hm, hr⟩ => ?_)).congr (by simp)
      exact ⟨by simpa [hclosing] using hm, hall ▸ hr⟩
    | cons y rest =>
      have h := hstep done x (y :: rest) .comma b c _ hall hb (.inl rfl) (by simpa [commaSeparated] using hc)
      rw [if_pos rfl] at h
      have hmore := gives_repeatWhile_more hp hc.closed
        (h.mono fun r ⟨hm, hr⟩ => ⟨by simpa using hm, hr⟩)
        fun b' d hb' hd => ih (show all = (done ++ [x]) ++ y :: rest by simpa using hall) (by simp) hb' hd
      exact hmore.congr (by simp)

end Commas

section Forms

variable {inner : Level} {room : Nat} (h : inner.Reads room) {c : Cursor} {ks : List TokenKind} {e : Expression}

include h

/-- An expression that nothing stands open before. -/
theorem Level.Reads.whole (he : (Node.expression e).Canonical) (hks : Stops 0 ks) (hc : c.Spells (e.tokens ++ ks)) :
    Gives (e.depth < room) (fun f => f.eraseSpans = e.eraseSpans) ks (inner.expression 0 c) :=
  h.expression he (Nat.zero_le _) hks hc

/-- An expression where a level is asked for. -/
theorem Level.Reads.grouped (he : (Node.expression e).Canonical) {n least : Nat} (hl : least ≤ leftPower n)
    (hks : Stops least ks) (hc : c.Spells (GameScript.grouped n e.level e.tokens ++ ks)) :
    Gives (depthGrouped n e.level e.depth < room) (fun f => f.eraseSpans = e.eraseSpans) ks
      (inner.expression least c) := by
  unfold depthGrouped
  unfold GameScript.grouped at hc
  split at hc
  · rename_i hn
    rw [if_pos hn]
    exact h.group he (hl.trans (leftPower_le n)) hks hc
  · rename_i hn
    rw [if_neg hn]
    exact h.expression he (hl.trans (leftPower_mono (Nat.le_of_not_lt hn))) hks hc

/-! ## Forms that start an expression -/

theorem gives_argumentStep {before : List Expression} {s : Symbol} (he : (Node.expression e).Canonical)
    (hs : s = .comma ∨ s = .rParen) (hc : c.Spells (e.tokens ++ .symbol s :: ks)) :
    Gives (e.depth < room)
      (fun (r : List Expression × Bool) => r.2 = decide (s = .comma) ∧
        Expression.eraseAll r.1 = Expression.eraseAll before ++ [e.eraseSpans])
      (if s = .comma then ks else .symbol s :: ks) (argumentStep inner before c) := by
  have hstop : Stops 0 (.symbol s :: ks) := by rcases hs with rfl | rfl <;> exact stops_symbol rfl rfl (by decide)
  refine (h.whole he hstop hc).bind_sure fun f d hf hd => ?_
  refine (gives_separator hd).mono fun r ⟨hm, hr⟩ => ⟨hm, ?_⟩
  rw [hr, Expression.eraseAll_append, Expression.eraseAll, hf, Expression.eraseAll]

theorem gives_arguments {es : List Expression} (hes : ∀ e ∈ es, (Node.expression e).Canonical)
    (hc : c.Spells (commaSeparated (Expression.tokensEach es) ++ .symbol .rParen :: ks)) :
    Gives (Expression.depthAll es < room + 1) (fun r => Expression.eraseAll r = Expression.eraseAll es)
      (.symbol .rParen :: ks) (arguments inner c) := by
  unfold arguments
  cases es with
  | nil =>
    refine (gives_sees hc ?_).congr (show True ↔ _ by simp [Expression.depthAll])
    exact gives_pure rfl hc
  | cons e rest =>
    obtain ⟨k, us, hk, hstart⟩ := (opens_tokens e (hes e List.mem_cons_self)).exists_cons
    have hno : k.isSymbol .rParen = false := by
      refine Bool.eq_false_iff.2 fun hs => ?_
      rw [TokenKind.isSymbol_iff.1 hs] at hstart
      simp [TokenKind.StartsExpression] at hstart
    obtain ⟨vs, hvs⟩ : ∃ vs, commaSeparated (Expression.tokensEach (e :: rest)) = k :: vs := by
      cases rest <;> exact ⟨_, by rw [Expression.tokensEach, hk]; rfl⟩
    refine gives_sees (hvs ▸ hc) ?_
    rw [hno]
    rw [Expression.tokensEach_eq_map] at hc
    refine (gives_commaLoop _ (fun done r => Expression.eraseAll r = Expression.eraseAll done)
      (keeps_argumentStep h.sound).progresses (by decide) (fun done x rest s b c ks hall hb hs hc => ?_)
      (List.nil_append _).symm (by simp) rfl hc).congr (Expression.depthAll_lt_iff _).symm
    refine (gives_argumentStep h (hes x (hall ▸ by simp)) hs hc).mono fun r hr => ⟨hr.1, ?_⟩
    rw [hr.2, hb, Expression.eraseAll_append]
    rfl

theorem gives_propertyStep {before : List Property} {key : String} {s : Symbol}
    (he : (Node.expression e).Canonical) (hs : s = .comma ∨ s = .rBrace)
    (hc : c.Spells (.string key :: .symbol .colon :: e.tokens ++ .symbol s :: ks)) :
    Gives (e.depth < room)
      (fun (r : List Property × Bool) => r.2 = decide (s = .comma) ∧
        Property.eraseAll r.1 = Property.eraseAll before ++ [⟨key, e.eraseSpans⟩])
      (if s = .comma then ks else .symbol s :: ks) (propertyStep inner before c) := by
  have hstop : Stops 0 (.symbol s :: ks) := by rcases hs with rfl | rfl <;> exact stops_symbol rfl rfl (by decide)
  unfold propertyStep
  refine gives_sees hc ?_
  have hkey : propertyKey c = .ok (key, c.next) := by
    simp [propertyKey, bind, StateT.bind, ahead_eq hc, skip_eq hc, Except.bind, pure, StateT.pure, Except.pure]
  refine gives_bind hkey (gives_expect (hc.next (by simp)) fun hc₂ => ?_)
  refine (h.whole he hstop hc₂).bind_sure fun f d hf hd => ?_
  refine (gives_separator hd).mono fun r ⟨hm, hr⟩ => ⟨hm, ?_⟩
  rw [hr, Property.eraseAll_append, Property.eraseAll, hf, Property.eraseAll]

theorem gives_objectForm {ps : List Property} {span : Span} (hps : (Node.operand (.object ps)).Canonical)
    (hc : c.Spells ((Operand.object ps).tokens ++ ks)) :
    Gives (Property.depthAll ps < room + 1)
      (fun f => f.eraseSpans = (Expression.leaf (.object ps) span).eraseSpans) ks (objectForm inner c) := by
  have hloop {d : Cursor} (hd : d.Spells (commaSeparated (Property.tokensEach ps) ++ .symbol .rBrace :: ks)) :
      Gives (Property.depthAll ps < room + 1) (fun r => Property.eraseAll r = Property.eraseAll ps)
        (.symbol .rBrace :: ks) (repeatWhile (propertyStep inner) [] d) := by
    have hp := (keeps_propertyStep h.sound).progresses
    by_cases hne : ps = []
    · subst hne
      have hstep : Gives True (fun (r : List Property × Bool) => r.2 = false ∧ Property.eraseAll r.1 = [])
          (.symbol .rBrace :: ks) (propertyStep inner [] d) := gives_sees hd (gives_pure ⟨rfl, rfl⟩ hd)
      exact (gives_repeatWhile_last hp hd.closed hstep).congr (by simp [Property.depthAll])
    · rw [Property.tokensEach_eq_map] at hd
      refine (gives_commaLoop _ (fun done r => Property.eraseAll r = Property.eraseAll done) hp (by decide)
        (fun done x rest s b c ks hall hb hs hc => ?_) (List.nil_append _).symm hne rfl hd).congr
        (Property.depthAll_lt_iff _).symm
      have hx : (Node.expression x.value).Canonical := hps.child (List.mem_map_of_mem (hall ▸ by simp))
      refine (gives_propertyStep h hx hs hc).mono fun r hr => ⟨hr.1, ?_⟩
      obtain ⟨key, e⟩ := x
      rw [hr.2, hb, Property.eraseAll_append]
      rfl
  unfold objectForm
  have hc' : c.Spells (.symbol .lBrace :: (commaSeparated (Property.tokensEach ps) ++ .symbol .rBrace :: ks)) := by
    simpa [Operand.tokens] using hc
  refine gives_aheadSpan hc' fun span => gives_skip hc' (by simp) fun hd => ?_
  refine (hloop hd).bind_sure fun qs d₂ hqs hd₂ => ?_
  refine gives_expect hd₂ fun hd₃ => gives_lastStop fun stop => gives_pure ?_ hd₃
  simp [Expression.leaf, Expression.eraseSpans, Operand.eraseSlot, Operand.eraseSpans, hqs]

omit h in
theorem gives_parameterStep {before : List String} {name : String} {s : Symbol} (hname : name ∉ before)
    (hc : c.Spells (.ident name :: .symbol s :: ks)) :
    Gives True (fun (r : List String × Bool) => r.2 = decide (s = .comma) ∧ r.1 = before ++ [name])
      (if s = .comma then ks else .symbol s :: ks) (parameterStep before c) := by
  unfold parameterStep
  refine gives_sees hc (gives_aheadSpan hc fun span => gives_expectName hc fun hd => ?_)
  have hnew : ¬before.contains name = true := by simpa using hname
  rw [if_neg hnew]
  exact gives_separator hd

theorem gives_functionForm {ps : List String} {body : Scope} {span : Span} (hps : ps.Nodup)
    (hbody : (Node.scope body).Canonical) (hc : c.Spells ((Operand.function ps body).tokens ++ ks)) :
    Gives (body.depth < room) (fun f => f.eraseSpans = (Expression.leaf (.function ps body) span).eraseSpans) ks
      (functionForm inner c) := by
  have hloop {d : Cursor} {ks : List TokenKind}
      (hd : d.Spells (commaSeparated (ps.map ([.ident ·])) ++ .symbol .rParen :: ks)) :
      Gives True (fun r => r = ps) (.symbol .rParen :: ks) (repeatWhile parameterStep [] d) := by
    have hp := keeps_parameterStep.progresses
    by_cases hne : ps = []
    · subst hne
      exact gives_repeatWhile_last hp hd.closed (gives_sees hd (gives_pure ⟨rfl, rfl⟩ hd))
    · refine (gives_commaLoop (fun _ => True) (fun done r => r = done) hp (by decide)
        (fun done x rest s b c ks hall hb hs hc => ?_) (List.nil_append _).symm hne rfl hd).congr (by simp)
      subst hb
      refine gives_parameterStep (fun hx => ?_) hc
      rw [hall] at hps
      exact (List.nodup_append.1 hps).2.2 x hx x List.mem_cons_self rfl
  unfold functionForm
  have hc' : c.Spells (.symbol .lParen :: (commaSeparated (ps.map ([.ident ·])) ++
      .symbol .rParen :: .symbol .fatArrow :: (body.tokens ++ ks))) := by
    simpa [Operand.tokens, inParentheses] using hc
  refine gives_aheadSpan hc' fun span => gives_skip hc' (by simp) fun hd => ?_
  refine (hloop hd).sure_bind fun qs d₂ hqs hd₂ => ?_
  subst hqs
  refine gives_expect hd₂ fun hd₃ => gives_expect hd₃ fun hd₄ => ?_
  refine (h.block hbody hd₄).bind_sure fun s d₅ hs hd₅ => ?_
  refine gives_lastStop fun stop => gives_pure ?_ hd₅
  simp [Expression.leaf, Expression.eraseSpans, Operand.eraseSlot, Operand.eraseSpans, hs]

theorem gives_groupForm (he : (Node.expression e).Canonical) (hc : c.Spells (inParentheses e.tokens ++ ks)) :
    Gives (e.depth < room) (fun f => f.eraseSpans = e.eraseSpans) ks (groupForm inner c) := by
  unfold groupForm
  have hc' : c.Spells (.symbol .lParen :: (e.tokens ++ .symbol .rParen :: ks)) := by simpa [inParentheses] using hc
  refine gives_aheadSpan hc' fun span => gives_skip hc' (by simp) fun hd => ?_
  refine (h.whole he (stops_symbol rfl rfl (by decide)) hd).bind_sure fun f d hf hd => ?_
  refine gives_expect hd fun hd => gives_lastStop fun stop => gives_pure ?_ hd
  obtain ⟨_, _, _, _⟩ := f
  exact hf

/-- An operator before its operand, which reads as much as the operator does. -/
theorem gives_leadingForm {op : Operator} {b : Operand} {span : Span} (hb : (Node.operand b).Canonical)
    (hop : op.kind.arity ≠ .binary) (hret : op.kind ≠ .ret) (hks : Ends op.kind.level ks)
    (hc : c.Spells ((Expression.prefixed op b span).tokens ++ ks)) :
    Gives (depthGrouped op.kind.level b.level b.depth < room)
      (fun f => f.eraseSpans = (Expression.prefixed op b span).eraseSpans) ks (leadingForm inner op.kind c) := by
  have hlevel : op.kind.level = 7 := by
    cases hk : op.kind <;> first | rfl | exact absurd hk hret | exact absurd (by rw [hk]; rfl) hop
  have hc' : c.Spells
      (op.kind.token :: (grouped 7 (b.asExpression span).level (b.asExpression span).tokens ++ ks)) := by
    rw [level_asExpression, tokens_asExpression, ← hlevel]
    simpa [Expression.prefixed, Expression.tokens] using hc
  have htoken : op.kind.token ≠ .endOfText := by cases op.kind <;> simp [OperatorKind.token]
  have hstop : Stops operandPower ks := by
    rw [hlevel] at hks
    exact hks.2 (by decide)
  unfold leadingForm
  refine gives_aheadSpan hc' fun opSpan => gives_skip hc' htoken fun hd => ?_
  have hread := h.grouped (canonical_asExpression hb) (show operandPower ≤ leftPower 7 by decide) hstop hd
  rw [level_asExpression, depth_asExpression, ← hlevel] at hread
  refine hread.bind_sure fun f d hf hd => gives_lastStop fun stop => gives_build (if_neg hop) ?_ hd
  have hf' := toOperand_eraseSpans_congr hf
  rw [toOperand_asExpression hb] at hf'
  simp [Expression.prefixed, Expression.eraseSpans, Operand.eraseSlot, Operator.eraseSpan, hf']

end Forms

section Literals

variable {c : Cursor} {ks : List TokenKind} {span : Span} {inner : Level}

/-- A literal is read as it was written, a negative number with its sign. -/
theorem gives_literal (l : Literal) (hc : c.Spells (l.tokens ++ ks)) :
    Gives True (fun f => f.eraseSpans = (Expression.leaf (.value l) span).eraseSpans) ks (startForm inner c) := by
  have hform {k : TokenKind} {m : Literal} (hc : c.Spells (k :: ks)) (hk : k ≠ .endOfText) :
      Gives True (fun f => f.eraseSpans = (Expression.leaf (.value m) span).eraseSpans) ks (literalForm m c) :=
    gives_aheadSpan hc fun span => gives_skip hc hk fun hd => gives_pure rfl hd
  unfold startForm
  cases l with
  | int n =>
    rw [Literal.tokens] at hc
    split at hc
    · refine gives_aheadSpan hc fun _ => gives_ahead hc ?_
      refine gives_aheadSpan hc fun _ => gives_skip hc (by simp) fun hd => gives_ahead hd ?_
      refine gives_bind rfl (gives_skip hd (by simp) fun hd => gives_lastStop fun stop => gives_pure ?_ hd)
      rw [Int64.neg_neg]
      rfl
    · exact gives_aheadSpan hc fun span => gives_ahead hc (hform hc (by simp))
  | float x =>
    rw [Literal.tokens] at hc
    split at hc
    · refine gives_aheadSpan hc fun _ => gives_ahead hc ?_
      refine gives_aheadSpan hc fun _ => gives_skip hc (by simp) fun hd => gives_ahead hd ?_
      refine gives_bind rfl (gives_skip hd (by simp) fun hd => gives_lastStop fun stop => gives_pure ?_ hd)
      rw [float_neg_neg]
      rfl
    · exact gives_aheadSpan hc fun span => gives_ahead hc (hform hc (by simp))
  | undefined => exact gives_aheadSpan hc fun span => gives_ahead hc (hform hc (by simp))
  | bool b => exact gives_aheadSpan hc fun span => gives_ahead hc (hform hc (by simp))
  | string s => exact gives_aheadSpan hc fun span => gives_ahead hc (hform hc (by simp))

end Literals

end GameScript
