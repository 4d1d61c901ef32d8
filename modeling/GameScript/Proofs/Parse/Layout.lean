import GameScript.Proofs.Parse.LocalForms
import GameScript.Proofs.Tree.Layout

/-!
# Where the parts of a program stand

The parts that a reader puts into its answer stand in order between the place where it starts and the one where it ends
(`Cursor.Laid`): each takes some tokens, its span goes from where the first of them starts to where the last one stops,
and what is inside it stands there in the same way. Moreover, each expression is what is read where the text is cut off
behind it, as a whole and with all the room there is, and so is each statement (`Part.Alone`).

The loop over operators keeps what makes the left operand such an expression: where the text is cut off behind it, the
reader of expressions comes to the same place in its loop (`Cursor.Spine`).
-/

namespace GameScript

open Cursor GameScript.Parser

namespace Cursor

/-- The place of the token ahead. -/
def place (c : Cursor) : Span := (c.rest.head?.map Token.span).getD {}

/-- One place stands behind another one, right after the last token that is read. -/
structure Past (c d : Cursor) : Prop where
  closed : d.Closed
  read : ∃ front last, c.rest = front ++ last :: d.rest ∧ d.lastStop = last.span.stop

/-- One place is another one or stands behind it. -/
def Upto (c d : Cursor) : Prop := c.Closed ∧ (c = d ∨ c.Past d)

variable {b c d e : Cursor} {t : Token} {rest : List Token}

theorem Closed.upto (h : c.Closed) : c.Upto c := ⟨h, .inl rfl⟩

theorem Past.closed_left (h : c.Past d) : c.Closed := by
  obtain ⟨t, ht, hend⟩ := h.closed
  obtain ⟨front, last, hfront, -⟩ := h.read
  exact ⟨t, hfront ▸ List.mem_append_right _ (List.mem_cons_of_mem _ ht), hend⟩

theorem Past.upto (h : c.Past d) : c.Upto d := ⟨h.closed_left, .inr h⟩

theorem Past.trans (h : b.Past c) (h' : c.Past d) : b.Past d := by
  obtain ⟨front, last, hfront, -⟩ := h.read
  obtain ⟨front', last', hfront', hstop⟩ := h'.read
  exact ⟨h'.closed, front ++ last :: front', last', by simp [hfront, hfront'], hstop⟩

theorem Upto.past (h : b.Upto c) (h' : c.Past d) : b.Past d := by
  rcases h.2 with rfl | h
  · exact h'
  · exact h.trans h'

theorem Upto.trans (h : b.Upto c) (h' : c.Upto d) : b.Upto d := by
  rcases h'.2 with rfl | h'
  · exact h
  · exact (h.past h').upto

theorem Upto.closed (h : c.Upto d) : d.Closed := by
  rcases h.2 with rfl | h'
  · exact h.1
  · exact h'.closed

theorem Upto.exists_read (h : c.Upto d) : ∃ front, c.rest = front ++ d.rest := by
  rcases h.2 with rfl | h'
  · exact ⟨[], rfl⟩
  · obtain ⟨front, last, hfront, -⟩ := h'.read
    exact ⟨front ++ [last], by simp [hfront]⟩

theorem place_of_rest (hr : c.rest = t :: rest) : c.place = t.span := by simp [place, hr]

/-- The token ahead, which is not the end, is read. -/
structure Steps (c d : Cursor) : Prop where
  past : c.Past d
  lastStop : d.lastStop = c.place.stop

theorem Closed.steps_next (h : c.Closed) (hr : c.rest = t :: rest) (ht : t.kind ≠ .endOfText) : c.Steps c.next := by
  have hnext := next_of_rest hr ht
  refine ⟨⟨h.next, [], t, ?_, ?_⟩, ?_⟩
  · rw [hnext, hr]
    rfl
  · rw [hnext]
  · rw [hnext, place_of_rest hr]

end Cursor

/-- Where the text is cut off behind a part, the part is read alone: an expression as one at the front of a script, and
a statement as the only one of a script. -/
def Part.Alone (c d : Cursor) : Part → Prop
  | .expression e => expressionAtFront (c.cut d.rest.length) = .ok (e, d.cut d.rest.length)
  | .statement t => statements (levelAt maxNesting) (c.cut d.rest.length) = .ok ([t], d.cut d.rest.length)
  | _ => True

namespace Cursor

/-- Parts stand in order from one place to another. Each takes some tokens there and has their place for its span, what
is inside it stands there in the same way, and it is read alone where the text is cut off behind it. -/
inductive Laid : Cursor → Cursor → List Part → Prop
  | nil {c d : Cursor} (h : c.Upto d) : Laid c d []
  | cons {c c' d' d : Cursor} {x : Part} {xs : List Part} (hgap : c.Upto c') (hpast : c'.Past d')
      (hspan : x.span = ⟨c'.place.start, d'.lastStop⟩) (hinner : Laid c' d' x.children) (halone : x.Alone c' d')
      (hrest : Laid d' d xs) : Laid c d (x :: xs)

/-- A part takes the tokens between two places, and what is inside it stands there. -/
structure Covers (c : Cursor) (x : Part) (d : Cursor) : Prop where
  past : c.Past d
  span : x.span = ⟨c.place.start, d.lastStop⟩
  inner : Laid c d x.children

variable {b c d e : Cursor} {x : Part} {xs ys : List Part}

theorem Laid.upto (h : Laid c d xs) : c.Upto d := by
  induction h with
  | nil h => exact h
  | cons hgap hpast _ _ _ _ _ ih => exact (hgap.trans hpast.upto).trans ih

theorem Laid.after (h : Laid c d xs) (hb : b.Upto c) : Laid b d xs := by
  cases h with
  | nil h => exact .nil (hb.trans h)
  | cons hgap hpast hspan hinner halone hrest => exact .cons (hb.trans hgap) hpast hspan hinner halone hrest

theorem Laid.append (h : Laid c d xs) (h' : Laid d e ys) : Laid c e (xs ++ ys) := by
  induction h with
  | nil h => exact h'.after h
  | cons hgap hpast hspan hinner halone _ _ ih => exact .cons hgap hpast hspan hinner halone (ih h')

theorem Laid.before (h : Laid c d xs) (he : d.Upto e) : Laid c e xs := by
  simpa using h.append (.nil he)

theorem Covers.laid (h : c.Covers x d) (halone : x.Alone c d) : Laid c d [x] :=
  .cons h.past.closed_left.upto h.past h.span h.inner halone (.nil h.past.closed.upto)

/-- A part that takes one token. -/
theorem Steps.laid (h : c.Steps d) (hspan : x.span = c.place) (hinner : x.children = []) (halone : x.Alone c d) :
    Laid c d [x] :=
  .cons h.past.closed_left.upto h.past (hspan.trans (by rw [h.lastStop])) (hinner ▸ .nil h.past.upto) halone
    (.nil h.past.closed.upto)

end Cursor

namespace Parser

variable {α : Type} {c : Cursor} {t : Token} {rest : List Token}

theorem sure_place {Q : Span → Cursor → Prop} (hc : c.Closed) (h : Q c.place c) : Sure Q (aheadSpan c) :=
  sure_bind (sure_token hc fun t rest hr => sure_pure (by rwa [place_of_rest hr] at h))

theorem steps_skip {Q : Unit → Cursor → Prop} (hc : c.Closed) (hr : c.rest = t :: rest) (ht : t.kind ≠ .endOfText)
    (h : ∀ d, c.Steps d → Q () d) : Sure Q (skip c) := sure_skip hc (h _ (hc.steps_next hr ht))

theorem steps_expect {s : Symbol} {what : Expectation} (hc : c.Closed) :
    Sure (fun _ d => c.Steps d) (expect s what c) := by
  refine sure_bind (sure_sees hc fun t rest hr => ?_)
  cases hs : t.kind.isSymbol s with
  | false => exact sure_failExpected hc
  | true => exact steps_skip hc hr (by simp [TokenKind.isSymbol_iff.1 hs]) fun d hd => hd

theorem steps_expectName {what : Expectation} (hc : c.Closed) :
    Sure (fun _ d => c.Steps d) (expectName what c) := by
  refine sure_bind (sure_ahead hc fun t rest hr => ?_)
  cases hk : t.kind with
  | ident name => exact sure_bind (steps_skip hc hr (by simp [hk]) fun d hd => sure_pure hd)
  | _ => exact sure_failExpected hc

theorem sure_stop {Q : Nat → Cursor → Prop} (h : Q c.lastStop c) : Sure Q (lastStop c) := h

/-- What a loop keeps holds after it. -/
theorem sure_loop_keeps {step : α → Parser (α × Bool)} (hp : Progresses step) {I : α → Cursor → Prop}
    (hstep : ∀ a c, c.Closed → I a c → Sure (fun r d => I r.1 d) (step a c)) {a : α} (hc : c.Closed) (h : I a c) :
    Sure I (repeatWhile step a c) :=
  sure_loop hp (fun a c hc h => (hstep a c hc h).mono fun r d hr => by split <;> exact hr) hc h

theorem upto_accept {s : Symbol} (hc : c.Closed) : Sure (fun _ d => c.Upto d) (accept s c) := by
  refine sure_bind (sure_sees hc fun t rest hr => ?_)
  cases hs : t.kind.isSymbol s with
  | false => exact sure_pure hc.upto
  | true =>
    exact sure_bind (steps_skip hc hr (by simp [TokenKind.isSymbol_iff.1 hs]) fun d hd => sure_pure hd.past.upto)

end Parser

/-! ## Expressions -/

/-- An expression takes the tokens between two places and is read alone there. -/
def Cursor.Selects (c : Cursor) (e : Expression) (d : Cursor) : Prop :=
  c.Covers (.expression e) d ∧ (Part.expression e).Alone c d

/-- A level whose readers put parts where they belong. -/
structure Level.LaysOut (l : Level) : Prop where
  sound : l.Sound
  expression : ∀ least c, c.Closed → Sure (fun e d => c.Selects e d) (l.expression least c)
  block : ∀ c, c.Closed → Sure (fun s d => c.Covers (.scope s) d) (l.block c)
  object : ∀ c t rest, c.Closed → c.rest = t :: rest → t.kind ≠ .endOfText →
    Sure (fun e d => c.Covers (.expression e) d) (l.object c)

section Forms

variable {inner : Level} {c d : Cursor} {e : Expression} {t : Token} {rest : List Token}

theorem Cursor.Selects.laid (h : c.Selects e d) : c.Laid d [.expression e] := h.1.laid h.2

/-- An expression that is made an operand leaves its parts where they stand. -/
theorem Cursor.Selects.laid_toOperand (h : c.Selects e d) : c.Laid d e.toOperand.parts := by
  rcases e.parts_toOperand with heq | heq
  · rw [heq]
    exact h.laid
  · rw [heq]
    exact h.1.inner

theorem upto_propertyKey (hc : c.Closed) : Sure (fun _ d => c.Upto d) (propertyKey c) := by
  refine sure_bind (sure_ahead hc fun t rest hr => ?_)
  cases hk : t.kind with
  | ident key => exact sure_bind (steps_skip hc hr (by simp [hk]) fun d hd => sure_pure hd.past.upto)
  | string key => exact sure_bind (steps_skip hc hr (by simp [hk]) fun d hd => sure_pure hd.past.upto)
  | _ => exact sure_failExpected hc

theorem upto_parameters (hc : c.Closed) : Sure (fun _ d => c.Upto d) (repeatWhile parameterStep [] c) := by
  refine sure_loop_keeps keeps_parameterStep.progresses (I := fun _ d => c.Upto d) (fun before d hd hb => ?_) hc hc.upto
  refine sure_bind (sure_sees hd fun t rest hr => ?_)
  split
  · exact sure_pure hb
  · refine sure_bind (sure_aheadSpan hd fun span => ?_)
    refine (steps_expectName hd).bind fun name d₁ h₁ => ?_
    split
    · exact sure_failAt fun _ => by simp
    · exact (upto_accept h₁.past.closed).bind fun more d₂ h₂ => sure_pure ((hb.trans h₁.past.upto).trans h₂)

/-! ### Forms that start an expression -/

/-- The answer of a reader of expressions covers what is read. -/
abbrev CoversExpression (c : Cursor) (e : Expression) (d : Cursor) : Prop := c.Covers (.expression e) d

theorem covers_literalForm (hc : c.Closed) (hr : c.rest = t :: rest) (ht : t.kind ≠ .endOfText) (literal : Literal) :
    Sure (CoversExpression c) (literalForm literal c) := by
  refine sure_bind (sure_place hc ?_)
  refine sure_bind (steps_skip hc hr ht fun d hd => sure_pure ⟨hd.past, ?_, ?_⟩)
  · rw [hd.lastStop]
    rfl
  · simpa [Part.children, Operand.parts] using Laid.nil hd.past.upto

theorem covers_negativeForm (hc : c.Closed) (hr : c.rest = t :: rest) (ht : t.kind ≠ .endOfText) :
    Sure (CoversExpression c) (negativeForm c) := by
  refine sure_bind (sure_place hc ?_)
  refine sure_bind (steps_skip hc hr ht fun d hd => ?_)
  refine sure_bind (sure_ahead hd.past.closed fun t' rest' hr' => ?_)
  have hleaf (literal : Literal) (ht' : t'.kind ≠ .endOfText) : Sure (CoversExpression c) ((do
      skip
      return .leaf (.value literal) ⟨c.place.start, ← lastStop⟩ : Parser Expression) d) := by
    refine sure_bind (steps_skip hd.past.closed hr' ht' fun d' hd' => ?_)
    refine sure_bind (sure_stop (sure_pure ⟨hd.past.upto.past hd'.past, rfl, ?_⟩))
    simpa [Part.children, Operand.parts] using Laid.nil (hd.past.upto.trans hd'.past.upto)
  cases hk : t'.kind with
  | int n => exact sure_bind (sure_pure (hleaf (.int (-n)) (by simp [hk])))
  | float x => exact sure_bind (sure_pure (hleaf (.float (-x)) (by simp [hk])))
  | _ => exact sure_bind (sure_failAt fun _ => by simp)

variable (h : inner.LaysOut) (hc : c.Closed) (hr : c.rest = t :: rest) (ht : t.kind ≠ .endOfText)

include h hc

theorem laid_arguments : Sure (fun es d => c.Laid d (es.map .expression)) (arguments inner c) := by
  refine sure_bind (sure_sees hc fun t rest hr => ?_)
  split
  · exact sure_pure (.nil hc.upto)
  · refine sure_loop_keeps (keeps_argumentStep h.sound).progresses
      (I := fun (es : List Expression) d => c.Laid d (es.map Part.expression)) (fun before d hd hb => ?_) hc
      (.nil hc.upto)
    refine (h.expression 0 d hd).bind fun e d₁ he => ?_
    refine (upto_accept he.1.past.closed).bind fun more d₂ h₂ => sure_pure ?_
    simpa using (hb.append he.laid).before h₂

include hr ht

theorem covers_objectForm : Sure (CoversExpression c) (objectForm inner c) := by
  refine sure_bind (sure_place hc ?_)
  refine sure_bind (steps_skip hc hr ht fun d hd => ?_)
  have hproperties : Sure (fun (ps : List Property) d' => d.Laid d' (ps.map fun p => Part.expression p.value))
      (repeatWhile (propertyStep inner) [] d) := by
    refine sure_loop_keeps (keeps_propertyStep h.sound).progresses (fun before d₁ h₁ hb => ?_) hd.past.closed
      (.nil hd.past.closed.upto)
    refine sure_bind (sure_sees h₁ fun t rest hr => ?_)
    split
    · exact sure_pure hb
    · refine (upto_propertyKey h₁).bind fun key d₂ h₂ => ?_
      refine (steps_expect h₂.closed).bind fun _ d₃ h₃ => ?_
      refine (h.expression 0 d₃ h₃.past.closed).bind fun e d₄ he => ?_
      refine (upto_accept he.1.past.closed).bind fun more d₅ h₅ => sure_pure ?_
      simpa using ((hb.before (h₂.trans h₃.past.upto)).append he.laid).before h₅
  refine hproperties.bind fun ps d₁ h₁ => ?_
  refine (steps_expect h₁.upto.closed).bind fun _ d₂ h₂ => ?_
  refine sure_bind (sure_stop (sure_pure ⟨(hd.past.upto.trans h₁.upto).past h₂.past, rfl, ?_⟩))
  simpa [Part.children, Operand.parts] using (h₁.after hd.past.upto).before h₂.past.upto

theorem covers_functionForm : Sure (CoversExpression c) (functionForm inner c) := by
  refine sure_bind (sure_place hc ?_)
  refine sure_bind (steps_skip hc hr ht fun d hd => ?_)
  refine (upto_parameters hd.past.closed).bind fun ps d₁ h₁ => ?_
  refine (steps_expect h₁.closed).bind fun _ d₂ h₂ => ?_
  refine (steps_expect h₂.past.closed).bind fun _ d₃ h₃ => ?_
  refine (h.block d₃ h₃.past.closed).bind fun body d₄ h₄ => ?_
  have hbefore : c.Upto d₃ := ((hd.past.upto.trans h₁).trans h₂.past.upto).trans h₃.past.upto
  refine sure_bind (sure_stop (sure_pure ⟨hbefore.past h₄.past, rfl, ?_⟩))
  simpa [Part.children, Operand.parts] using (h₄.laid trivial).after hbefore

theorem covers_groupForm : Sure (CoversExpression c) (groupForm inner c) := by
  refine sure_bind (sure_place hc ?_)
  refine sure_bind (steps_skip hc hr ht fun d hd => ?_)
  refine (h.expression 0 d hd.past.closed).bind fun e d₁ he => ?_
  refine (steps_expect he.1.past.closed).bind fun _ d₂ h₂ => ?_
  refine sure_bind (sure_stop (sure_pure ⟨(hd.past.upto.trans he.1.past.upto).past h₂.past, rfl, ?_⟩))
  exact (he.1.inner.after hd.past.upto).before h₂.past.upto

theorem covers_leadingForm {kind : OperatorKind} (hop : kind.arity ≠ .binary) :
    Sure (CoversExpression c) (leadingForm inner kind c) := by
  refine sure_bind (sure_place hc ?_)
  refine sure_bind (steps_skip hc hr ht fun d hd => ?_)
  refine (h.expression operandPower d hd.past.closed).bind fun e d₁ he => ?_
  refine sure_bind (sure_stop (sure_build ⟨_, if_neg hop, hd.past.upto.past he.1.past, rfl, ?_⟩))
  have hoperator : c.Laid d [.operator ⟨kind, c.place⟩] := hd.laid rfl rfl trivial
  simpa [Part.children] using hoperator.append he.laid_toOperand

omit hr ht in
theorem covers_startForm : Sure (CoversExpression c) (startForm inner c) := by
  refine sure_bind (sure_place hc ?_)
  refine sure_bind (sure_ahead hc fun t rest hr => ?_)
  cases hk : t.kind with
  | int n => exact covers_literalForm hc hr (by simp [hk]) _
  | float x => exact covers_literalForm hc hr (by simp [hk]) _
  | string s => exact covers_literalForm hc hr (by simp [hk]) _
  | bool b => exact covers_literalForm hc hr (by simp [hk]) _
  | null => exact covers_literalForm hc hr (by simp [hk]) _
  | ident name =>
    refine sure_bind (steps_skip hc hr (by simp [hk]) fun d hd => sure_pure ⟨hd.past, ?_, ?_⟩)
    · rw [hd.lastStop]
      rfl
    · have hname : c.Laid d [.name ⟨name, .use, c.place⟩] := hd.laid rfl rfl trivial
      simpa [Part.children, Operand.parts] using hname
  | letWord => exact sure_failAt fun _ => by simp
  | returnWord => exact sure_failAt fun _ => by simp
  | endOfText => exact sure_failExpected hc
  | symbol s =>
    have ht : t.kind ≠ .endOfText := by simp [hk]
    cases s with
    | minus => exact covers_negativeForm hc hr ht
    | lBrace => exact h.object c t rest hc hr ht
    | lParen =>
      refine sure_bind ?_
      refine sure_pure ?_
      split
      · exact covers_functionForm h hc hr ht
      · exact covers_groupForm h hc hr ht
    | bang => exact covers_leadingForm h hc hr ht (by decide)
    | plusPlus => exact covers_leadingForm h hc hr ht (by decide)
    | minusMinus => exact covers_leadingForm h hc hr ht (by decide)
    | _ => exact sure_failExpected hc

end Forms

/-! ### Operators -/

section Operators

variable {inner : Level} {c d : Cursor} {e : Expression} {t : Token} {rest : List Token} (h : inner.LaysOut)
  (he : c.Selects e d) (hr : d.rest = t :: rest) (ht : t.kind ≠ .endOfText)

include h he hr ht

theorem covers_suffixForm {suffix : Suffix} (hk : ∀ kind, suffix = .step kind → kind.arity = .either) :
    Sure (CoversExpression c) (suffixForm inner c.place.start e suffix d) := by
  have hd := he.1.past.closed
  cases suffix with
  | call =>
    refine sure_bind (steps_skip hd hr ht fun d₁ h₁ => ?_)
    refine (laid_arguments h h₁.past.closed).bind fun args d₂ h₂ => ?_
    refine (steps_expect h₂.upto.closed).bind fun _ d₃ h₃ => ?_
    have hbefore : c.Upto d₂ := (he.1.past.upto.trans h₁.past.upto).trans h₂.upto
    refine sure_bind (sure_stop (sure_pure ⟨hbefore.past h₃.past, rfl, ?_⟩))
    simpa [Part.children, Operand.parts] using (he.laid.append (h₂.after h₁.past.upto)).before h₃.past.upto
  | member =>
    refine sure_bind (sure_place hd ?_)
    refine sure_bind (steps_skip hd hr ht fun d₁ h₁ => ?_)
    refine sure_bind (sure_place h₁.past.closed ?_)
    refine (steps_expectName h₁.past.closed).bind fun key d₂ h₂ => ?_
    refine sure_bind (sure_stop (sure_build ⟨_, if_pos rfl, ?_⟩))
    refine ⟨(he.1.past.upto.trans h₁.past.upto).past h₂.past, rfl, ?_⟩
    have hoperator : d.Laid d₁ [.operator ⟨.child, d.place⟩] := h₁.laid rfl rfl trivial
    have hname : d₁.Laid d₂ [.name ⟨key, .use, d₁.place⟩] := h₂.laid rfl rfl trivial
    simpa [Part.children, Operand.parts] using he.laid_toOperand.append (hoperator.append hname)
  | step kind =>
    refine sure_bind (sure_place hd ?_)
    refine sure_bind (steps_skip hd hr ht fun d₁ h₁ => ?_)
    refine sure_bind (sure_stop (sure_build ⟨_, if_pos (hk kind rfl), he.1.past.upto.past h₁.past, rfl, ?_⟩))
    have hoperator : d.Laid d₁ [.operator ⟨kind, d.place⟩] := h₁.laid rfl rfl trivial
    simpa [Part.children] using he.laid_toOperand.append hoperator

theorem covers_binaryForm {rule : BinaryRule} (hop : rule.kind.arity = .binary) :
    Sure (CoversExpression c) (binaryForm inner c.place.start e rule d) := by
  have hd := he.1.past.closed
  refine sure_bind (sure_place hd ?_)
  refine sure_bind (steps_skip hd hr ht fun d₁ h₁ => ?_)
  split
  · exact sure_failAt fun _ => by simp
  · refine (h.expression rule.right d₁ h₁.past.closed).bind fun rhs d₂ h₂ => ?_
    refine sure_bind (sure_stop (sure_build ⟨_, if_pos hop, ?_⟩))
    refine ⟨(he.1.past.upto.trans h₁.past.upto).past h₂.1.past, rfl, ?_⟩
    have hoperator : d.Laid d₁ [.operator ⟨rule.kind, d.place⟩] := h₁.laid rfl rfl trivial
    simpa [Part.children] using he.laid_toOperand.append (hoperator.append h₂.laid_toOperand)

omit he hr ht in
/-- A step either reads an operator or leaves everything as it is. -/
theorem covers_operatorStep {least : Nat} (he : c.Selects e d) :
    Sure (fun r d' => c.Covers (.expression r.1) d' ∧ (r.2 = false → r.1 = e ∧ d' = d))
      (operatorStep inner least c.place.start e d) := by
  refine sure_bind (sure_ahead he.1.past.closed fun t rest hr => ?_)
  have hstop : Sure (fun (r : Expression × Bool) d' => c.Covers (.expression r.1) d' ∧ (r.2 = false → r.1 = e ∧ d' = d))
      ((pure (e, false) : Parser _) d) := sure_pure ⟨he.1, fun _ => ⟨rfl, rfl⟩⟩
  cases hs : t.kind.suffix? with
  | some suffix =>
    have ht : t.kind ≠ .endOfText := fun ht => by rw [ht] at hs; cases hs
    dsimp only
    split
    · exact hstop
    · exact (covers_suffixForm h he hr ht (TokenKind.suffix?_eq hs).2).bind fun f d' hf => sure_pure ⟨hf, nofun⟩
  | none =>
    cases hb : t.kind.binaryRule? with
    | none => exact hstop
    | some rule =>
      have ht : t.kind ≠ .endOfText := fun ht => by rw [ht] at hb; cases hb
      dsimp only
      split
      · exact hstop
      · exact (covers_binaryForm h he hr ht (TokenKind.binaryRule?_eq hb).1).bind fun f d' hf => sure_pure ⟨hf, nofun⟩

end Operators

section Spines

variable {inner : Level} {c d d' : Cursor} {e f : Expression} {t : Token} {rest : List Token}

/-- The reader of expressions with all the room there is comes to an expression in its loop, wherever behind the
expression the text is cut off. -/
structure Cursor.Spine (c : Cursor) (e : Expression) (d : Cursor) : Prop where
  covers : c.Covers (.expression e) d
  loop : ∀ n, n ≤ d.rest.length → expressionAtFront (c.cut n) =
    repeatWhile (operatorStep (levelAt (maxNesting - 1)) 0 c.place.start) e (d.cut n)

theorem progresses_operatorStep (room least start : Nat) : Progresses (operatorStep (levelAt room) least start) :=
  (keeps_operatorStep (sound_levelAt room)).progresses

/-- At the end, no operator is read. -/
theorem Cursor.Spine.selects (h : c.Spine e d) : c.Selects e d := by
  refine ⟨h.covers, (h.loop _ (Nat.le_refl _)).trans ?_⟩
  apply repeatWhile_of_last (progresses_operatorStep _ _ _) (closed_cut _ d)
  rw [operatorStep, ahead_bind_eq, token_bind (rest_cut_self d)]
  rfl

theorem spine_startForm (hl : inner.LocalTo (levelAt (maxNesting - 1))) (hc : c.Closed)
    (hcovers : c.Covers (.expression e) d) (hx : startForm inner c = .ok (e, d)) : c.Spine e d := by
  refine ⟨hcovers, fun n hn => ?_⟩
  obtain ⟨-, hle, hcut⟩ := local_startForm hc hl e d hx
  obtain ⟨t, rest, hr⟩ := hc.rest_eq_cons
  rw [hr, List.length_cons] at hle
  show expressionForm (levelAt (maxNesting - 1)) 0 (c.cut n) = _
  rw [expressionForm, aheadSpan_bind_eq, token_bind (rest_cut hr (by omega)), place_of_rest hr]
  simp only [bind, StateT.bind, hcut n hn, Except.bind]

/-- What is read with some power is read with none. -/
theorem operatorStep_zero {least start : Nat} (hd : d.Closed)
    (h : operatorStep inner least start e d = .ok ((f, true), d')) :
    operatorStep inner 0 start e d = .ok ((f, true), d') := by
  obtain ⟨t, rest, hr⟩ := hd.rest_eq_cons
  rw [operatorStep, ahead_bind_eq, token_bind hr] at h ⊢
  cases hs : t.kind.suffix? with
  | some suffix =>
    simp only [hs, Nat.not_lt_zero, if_false] at h ⊢
    split at h
    · cases h
    · exact h
  | none =>
    cases hb : t.kind.binaryRule? with
    | none =>
      simp only [hs, hb] at h
      cases h
    | some rule =>
      simp only [hs, hb, Nat.not_lt_zero, if_false] at h ⊢
      split at h
      · cases h
      · exact h

/-- Each step goes one step on in the loop. -/
theorem spine_operatorStep {least : Nat} (h : inner.LaysOut) (hl : inner.LocalTo (levelAt (maxNesting - 1)))
    (he : c.Spine e d) : Sure (fun r d' => c.Spine r.1 d') (operatorStep inner least c.place.start e d) := by
  have hd := he.covers.past.closed
  refine (covers_operatorStep h he.selects).with_eq.mono fun ⟨f, more⟩ d' ⟨hx, hf, hstays⟩ => ?_
  cases more with
  | false =>
    obtain ⟨rfl, rfl⟩ := hstays rfl
    exact he
  | true =>
    obtain ⟨-, hle, hcut⟩ := local_operatorStep hd hl 0 c.place.start e _ _ (operatorStep_zero hd hx)
    refine ⟨hf, fun n hn => ?_⟩
    rw [he.loop n (by omega)]
    exact repeatWhile_of_more (progresses_operatorStep _ _ _) (closed_cut n d) (hcut n hn)

theorem selects_expressionForm {least : Nat} (h : inner.LaysOut) (hl : inner.LocalTo (levelAt (maxNesting - 1)))
    (hc : c.Closed) : Sure (fun e d => c.Selects e d) (expressionForm inner least c) := by
  refine sure_bind (sure_place hc ?_)
  refine (covers_startForm h hc).with_eq.bind fun e d ⟨hx, he⟩ => ?_
  refine (sure_loop_keeps (keeps_operatorStep h.sound).progresses (fun e d _ he => spine_operatorStep h hl he)
    he.past.closed (spine_startForm hl hc he hx)).mono fun e d he => he.selects

end Spines

/-! ## Statements -/

section Statements

variable {inner : Level} {c d : Cursor} {t : Token} {rest : List Token}

/-- The body of a statement covers what is read, as a part of the kind that it is. -/
def Cursor.LaysBody (c : Cursor) (e : Expression) (d : Cursor) : Prop :=
  c.Covers (.form e) d ∧ ∀ span, c.Laid d [Statement.bodyPart ⟨e, span⟩]

theorem Cursor.Selects.laysBody {e : Expression} (he : c.Selects e d) (hform : e.isStatementForm = false) :
    c.LaysBody e d := by
  refine ⟨⟨he.1.past, he.1.span, he.1.inner⟩, fun span => ?_⟩
  simpa [Statement.bodyPart, hform] using he.laid

theorem Cursor.Covers.laysBody {e : Expression} (he : c.Covers (.form e) d) (hform : e.isStatementForm = true) :
    c.LaysBody e d := by
  refine ⟨he, fun span => ?_⟩
  have hlaid : c.Laid d [.form e] := he.laid trivial
  simpa [Statement.bodyPart, hform] using hlaid

variable (h : inner.LaysOut) (hc : c.Closed) (hr : c.rest = t :: rest) (ht : t.kind ≠ .endOfText)

include h hc hr ht

theorem lays_letForm : Sure c.LaysBody (letForm inner c) := by
  refine sure_bind (sure_place hc ?_)
  refine sure_bind (steps_skip hc hr ht fun d hd => ?_)
  refine sure_bind (sure_place hd.past.closed ?_)
  refine (steps_expectName hd.past.closed).bind fun name d₁ h₁ => ?_
  refine sure_bind (sure_place h₁.past.closed ?_)
  refine (steps_expect h₁.past.closed).bind fun _ d₂ h₂ => ?_
  refine (h.expression 0 d₂ h₂.past.closed).bind fun value d₃ h₃ => ?_
  refine sure_bind (sure_stop (sure_build ⟨_, if_pos rfl, Cursor.Covers.laysBody ?_ rfl⟩))
  have hbefore : c.Upto d₂ := (hd.past.upto.trans h₁.past.upto).trans h₂.past.upto
  refine ⟨hbefore.past h₃.1.past, rfl, ?_⟩
  have hname : d.Laid d₁ [.name ⟨name, .declare, d.place⟩] := h₁.laid rfl rfl trivial
  have hoperator : d₁.Laid d₂ [.operator ⟨.assign, d₁.place⟩] := h₂.laid rfl rfl trivial
  simpa [Part.children, Operand.parts] using
    (hname.after hd.past.upto).append (hoperator.append h₃.laid_toOperand)

theorem lays_returnForm : Sure c.LaysBody (returnForm inner c) := by
  refine sure_bind (sure_place hc ?_)
  refine sure_bind (steps_skip hc hr ht fun d hd => ?_)
  refine sure_bind (sure_seesStatementEnd hd.past.closed fun b => ?_)
  have harity : OperatorKind.ret.arity ≠ .binary := by decide
  have hoperator : c.Laid d [.operator ⟨.ret, c.place⟩] := hd.laid rfl rfl trivial
  cases b with
  | true =>
    refine sure_bind (sure_pure (sure_bind (sure_stop (sure_build ⟨_, if_neg harity, Cursor.Covers.laysBody ?_ rfl⟩))))
    exact ⟨hd.past, rfl, by simpa [Part.children, Operand.parts] using hoperator⟩
  | false =>
    refine sure_bind (sure_map ((h.expression 0 d hd.past.closed).mono fun e d₁ he => ?_))
    refine sure_bind (sure_stop (sure_build ⟨_, if_neg harity, Cursor.Covers.laysBody ?_ rfl⟩))
    exact ⟨hd.past.upto.past he.1.past, rfl, by simpa [Part.children] using hoperator.append he.laid_toOperand⟩

theorem lays_statementBody : Sure c.LaysBody (statementBody inner c) := by
  have hexpression : Sure c.LaysBody (inner.expression 0 c) := by
    refine (h.sound.expression 0 c hc).with_eq.mono fun e d ⟨hx, _, hcanonical⟩ => ?_
    exact ((h.expression 0 c hc).of_eq_ok hx).laysBody (isStatementForm_eq_false hcanonical)
  refine sure_bind (sure_ahead hc fun t' rest' hr' => ?_)
  obtain ⟨rfl, rfl⟩ : t = t' ∧ rest = rest' := by simpa [hr] using hr'
  cases hk : t.kind with
  | letWord => exact lays_letForm h hc hr ht
  | returnWord => exact lays_returnForm h hc hr ht
  | _ => exact hexpression

omit h hr ht in
theorem upto_statementEnd : Sure (fun _ d => c.Upto d) (statementEnd c) := by
  refine (upto_accept hc).bind fun more d hd => ?_
  split
  · exact sure_pure hd
  · refine sure_bind (sure_ahead hd.closed fun t rest hr => ?_)
    split
    · exact sure_pure hd
    · refine sure_bind (sure_sees hd.closed fun t rest hr => ?_)
      split
      · exact sure_pure hd
      · exact sure_failExpected hd.closed

omit h hc hr ht in
theorem accept_of_end {y : Symbol} {u : Token} (hu : u.kind = .endOfText) (hr : c.rest = [u]) :
    accept y c = .ok (false, c) := by
  rw [accept, sees_bind_eq, token_bind hr, hu]
  rfl

omit h hc hr ht in
theorem statementEnd_of_end {u : Token} (hu : u.kind = .endOfText) (hr : c.rest = [u]) :
    statementEnd c = .ok ((), c) := by
  rw [statementEnd, bind_of_ok (accept_of_end hu hr), if_neg Bool.false_ne_true, ahead_bind_eq, token_bind hr, hu]
  rfl

omit h hc ht in
theorem statementForm_of_body {e : Expression} (hsemi : t.kind ≠ .symbol .semi) (hbrace : t.kind ≠ .symbol .lBrace)
    (hbody : statementBody inner c = .ok (e, d)) (hend : statementEnd d = .ok ((), d)) :
    statementForm inner c = .ok (some ⟨e, ⟨t.span.start, d.lastStop⟩⟩, d) := by
  have htail : (do
      let body ← statementBody inner
      let span : Span := ⟨t.span.start, ← lastStop⟩
      statementEnd
      return some ⟨body, span⟩ : Parser (Option Statement)) c = .ok (some ⟨e, ⟨t.span.start, d.lastStop⟩⟩, d) := by
    rw [bind_of_ok hbody, bind_of_ok (show Parser.lastStop d = .ok (d.lastStop, d) from rfl), bind_of_ok hend]
    rfl
  rw [statementForm, aheadSpan_bind_eq, token_bind hr, ahead_bind_eq, token_bind hr]
  cases hk : t.kind with
  | symbol s =>
    cases s with
    | semi => exact absurd hk hsemi
    | lBrace => exact absurd hk hbrace
    | _ => exact htail
  | _ => exact htail

omit h hc ht in
theorem statementForm_of_block {s : Scope} (hbrace : t.kind = .symbol .lBrace) (hblock : inner.block c = .ok (s, d))
    (haccept : accept .semi d = .ok (false, d)) :
    statementForm inner c = .ok (some ⟨.leaf (.block s) s.span, s.span⟩, d) := by
  rw [statementForm, aheadSpan_bind_eq, token_bind hr, ahead_bind_eq, token_bind hr, hbrace]
  refine bind_of_ok (b := (⟨.leaf (.block s) s.span, s.span⟩ : Statement)) ?_ _
  rw [blockStatement, bind_of_ok hblock, bind_of_ok haccept]
  rfl

omit h hc ht in
/-- A statement that is read up to the end is the only one. -/
theorem statements_single {s : Statement} {u : Token} (hclosed : c.Closed) (hu : u.kind = .endOfText)
    (hd : d.rest = [u]) (hend : (t.kind.isSymbol .rBrace || t.kind.isEnd) = false) (hs : inner.Sound)
    (hx : statementForm inner c = .ok (some s, d)) : statements inner c = .ok ([s], d) := by
  have hspells : c.Spells (t.kind :: rest.map Token.kind) := by
    obtain ⟨v, hv, hk⟩ := hclosed
    rw [hr] at hv
    exact ⟨by rw [hr, List.map_cons], hk ▸ List.mem_map_of_mem hv⟩
  have hstop : d.Spells [.endOfText] := ⟨by rw [hd, List.map_singleton, hu], List.mem_singleton_self _⟩
  rw [statements, statements_of_form hs hspells [] hend, hx]
  exact statements_of_stops hs hstop [s] rfl

/-- A statement stands alone where the text is cut off behind it, so that only its own end is missing. -/
theorem laid_statement_of_body (hl : inner.LocalTo (levelAt maxNesting))
    (hend : (t.kind.isSymbol .rBrace || t.kind.isEnd) = false) (hsemi : t.kind ≠ .symbol .semi)
    (hbrace : t.kind ≠ .symbol .lBrace) :
    Sure (fun s d => c.Laid d (s.toList.map .statement)) ((do
      let body ← statementBody inner
      let span : Span := ⟨c.place.start, ← lastStop⟩
      statementEnd
      return some ⟨body, span⟩ : Parser (Option Statement)) c) := by
  refine (lays_statementBody h hc hr ht).with_eq.bind fun e d ⟨hx, he, hpart⟩ => ?_
  refine sure_bind (sure_stop ?_)
  refine (upto_statementEnd he.past.closed).bind fun _ d' hd' => sure_pure ?_
  have hcovers : c.Covers (.statement ⟨e, ⟨c.place.start, d.lastStop⟩⟩) d := ⟨he.past, rfl, hpart _⟩
  refine (hcovers.laid ?_).before hd'
  obtain ⟨-, hle, hcut⟩ := local_statementBody hc hl e d hx
  rw [hr, List.length_cons] at hle
  have hrest := rest_cut hr (n := d.rest.length) (by omega)
  apply statements_single hrest (closed_cut _ c) rfl (rest_cut_self d) hend (sound_levelAt maxNesting)
  rw [place_of_rest hr]
  exact statementForm_of_body hrest hsemi hbrace (hcut _ (Nat.le_refl _)) (statementEnd_of_end rfl (rest_cut_self d))

omit ht in
/-- A block stands alone, too, where the text is cut off behind it; a semicolon after it may be missing. -/
theorem laid_statement_of_block (hl : inner.LocalTo (levelAt maxNesting))
    (hend : (t.kind.isSymbol .rBrace || t.kind.isEnd) = false) (hbrace : t.kind = .symbol .lBrace) :
    Sure (fun s d => c.Laid d (s.toList.map .statement))
      ((do return some (← blockStatement inner) : Parser (Option Statement)) c) := by
  refine sure_bind ?_
  refine (h.block c hc).with_eq.bind fun s d ⟨hx, hs⟩ => ?_
  refine (upto_accept hs.past.closed).bind fun _ d' hd' => sure_pure (sure_pure ?_)
  have hpart : c.LaysBody (.leaf (.block s) s.span) d := by
    refine Cursor.Covers.laysBody ⟨hs.past, hs.span, ?_⟩ rfl
    simpa [Part.children, Operand.parts] using hs.laid trivial
  have hcovers : c.Covers (.statement ⟨.leaf (.block s) s.span, s.span⟩) d := ⟨hs.past, hs.span, hpart.2 _⟩
  refine (hcovers.laid ?_).before hd'
  obtain ⟨-, hle, hcut⟩ := hl.block c hc s d hx
  rw [hr, List.length_cons] at hle
  have hrest := rest_cut hr (n := d.rest.length) (by omega)
  apply statements_single hrest (closed_cut _ c) rfl (rest_cut_self d) hend (sound_levelAt maxNesting)
  exact statementForm_of_block hrest hbrace (hcut _ (Nat.le_refl _)) (accept_of_end rfl (rest_cut_self d))

theorem laid_statementForm (hl : inner.LocalTo (levelAt maxNesting))
    (hend : (t.kind.isSymbol .rBrace || t.kind.isEnd) = false) :
    Sure (fun s d => c.Laid d (s.toList.map .statement)) (statementForm inner c) := by
  refine sure_bind (sure_place hc ?_)
  refine sure_bind (sure_ahead hc fun t' rest' hr' => ?_)
  obtain ⟨rfl, rfl⟩ : t = t' ∧ rest = rest' := by simpa [hr] using hr'
  have hbody := laid_statement_of_body h hc hr ht hl hend
  cases hk : t.kind with
  | symbol s =>
    cases s with
    | semi => exact sure_bind (steps_skip hc hr ht fun d hd => sure_pure (.nil hd.past.upto))
    | lBrace => exact laid_statement_of_block h hc hr hl hend hk
    | _ => exact hbody (by simp [hk]) (by simp [hk])
  | _ => exact hbody (by simp [hk]) (by simp [hk])

end Statements

section Blocks

variable {inner : Level} {c d : Cursor} {t : Token} {rest : List Token} (h : inner.LaysOut)
  (hl : inner.LocalTo (levelAt maxNesting)) (hc : c.Closed)

include h hl hc

theorem laid_statements : Sure (fun ss d => c.Laid d (ss.map .statement)) (statements inner c) := by
  refine sure_loop_keeps (keeps_statementStep h.sound).progresses
    (I := fun (ss : List Statement) d => c.Laid d (ss.map Part.statement)) (fun before d hd hb => ?_) hc (.nil hc.upto)
  refine sure_bind (sure_ahead hd fun t rest hr => ?_)
  split
  · exact sure_pure hb
  · rename_i hk
    have ht : t.kind ≠ .endOfText := fun he => hk (by simp [he])
    refine (laid_statementForm h hd hr ht hl (Bool.eq_false_iff.2 hk)).bind fun s d₁ hs => sure_pure ?_
    rw [List.map_append]
    exact hb.append hs

theorem covers_blockForm : Sure (fun s d => c.Covers (.scope s) d) (blockForm inner c) := by
  refine sure_bind (sure_place hc ?_)
  refine (steps_expect hc).bind fun _ d₁ h₁ => ?_
  refine (laid_statements h hl h₁.past.closed).bind fun body d₂ h₂ => ?_
  refine (steps_expect h₂.upto.closed).bind fun _ d₃ h₃ => ?_
  refine sure_bind (sure_stop (sure_pure ⟨(h₁.past.upto.trans h₂.upto).past h₃.past, rfl, ?_⟩))
  exact (h₂.after h₁.past.upto).before h₃.past.upto

end Blocks

/-! ## Levels and scripts -/

theorem laysOut_levelAt {room : Nat} (hroom : room ≤ maxNesting) : (levelAt room).LaysOut := by
  have hdeep {α : Type} {Q : α → Cursor → Prop} {c : Cursor} (hc : c.Closed) : Sure Q ((tooDeep : Parser α) c) :=
    sure_bind (sure_aheadSpan hc fun _ => sure_failAt fun _ => by simp)
  induction room with
  | zero => exact ⟨sound_levelAt 0, fun _ _ hc => hdeep hc, fun _ hc => hdeep hc, fun _ _ _ hc _ _ => hdeep hc⟩
  | succ room ih =>
    have hinner := ih (by omega)
    have hwhole := localTo_levelAt (Nat.le_of_succ_le hroom)
    have hnested := localTo_levelAt (Nat.le_sub_one_of_lt hroom)
    exact ⟨sound_levelAt _, fun _ _ hc => selects_expressionForm hinner hnested hc,
      fun _ hc => covers_blockForm hinner hwhole hc, fun _ _ _ hc hr ht => covers_objectForm hinner hc hr ht⟩

end GameScript
