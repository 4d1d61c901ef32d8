import GameScript.Proofs.Parse.RoundTrip
import GameScript.Proofs.Tree.Erase

/-!
# Where one script ends and another one goes on

Two cursors stand before the same tokens, but where those of the first end, those of the second may go on with a
semicolon (`Cursor.Joins`). Until a reader comes to that place it does the same at both, and it makes no difference to
an expression or a block: what is answered at the first cursor is answered at the second, but for places (`Follows`,
`Level.FollowsItself`). A statement that ends where the tokens of the first end is ended by the semicolon at the second,
and what comes after it is read as if it stood alone (`follows_statements`).
-/

namespace GameScript

/-- What may follow where another script ends: nothing, or a semicolon and more. -/
def Continues (us : List TokenKind) : Prop :=
  us = [.endOfText] ∨ ∃ vs, us = .symbol .semi :: vs ∧ .endOfText ∈ vs

/-- At the end of the first script, either nothing follows or a semicolon. -/
theorem Continues.exists_cons {us : List TokenKind} (h : Continues us) :
    ∃ k vs, us = k :: vs ∧ (k = .endOfText ∨ k = .symbol .semi) := by
  rcases h with rfl | ⟨vs, rfl, _⟩
  · exact ⟨_, _, rfl, .inl rfl⟩
  · exact ⟨_, _, rfl, .inr rfl⟩

namespace Cursor

variable {us ts : List TokenKind} {k : TokenKind} {c c' : Cursor}

/-- Before both cursors the tokens are `ts`; then the first is at the end, and the second goes on with `us`. -/
structure Joins (us ts : List TokenKind) (c c' : Cursor) : Prop where
  continues : Continues us
  endless : .endOfText ∉ ts
  first : c.Spells (ts ++ [.endOfText])
  second : c'.Spells (ts ++ us)

/-- Some tokens are before both cursors, and then `us` before the second. -/
def Aligned (us : List TokenKind) (c c' : Cursor) : Prop := ∃ ts, Joins us ts c c'

theorem Aligned.closed (h : Aligned us c c') : c.Closed := by
  obtain ⟨ts, h⟩ := h
  exact h.first.closed

theorem Aligned.closed' (h : Aligned us c c') : c'.Closed := by
  obtain ⟨ts, h⟩ := h
  exact h.second.closed

theorem Joins.ne_end (h : Joins us (k :: ts) c c') : k ≠ .endOfText :=
  fun hk => h.endless (hk ▸ List.mem_cons_self)

theorem Joins.next (h : Joins us (k :: ts) c c') : Joins us ts c.next c'.next :=
  ⟨h.continues, fun hmem => h.endless (List.mem_cons_of_mem _ hmem), h.first.next h.ne_end, h.second.next h.ne_end⟩

end Cursor

open Cursor

namespace Parser

variable {α β α' β' : Type}

/-- Where the first outcome is an answer, so is the second, and `Q` holds of both. -/
def Follows (Q : α → α' → Cursor → Cursor → Prop) (x : Except ParseError (α × Cursor))
    (x' : Except ParseError (α' × Cursor)) : Prop :=
  ∀ a d, x = .ok (a, d) → ∃ a' d', x' = .ok (a', d') ∧ Q a a' d d'

variable {Q : α → α' → Cursor → Cursor → Prop} {c c' : Cursor}

theorem Follows.mono {P : α → α' → Cursor → Cursor → Prop} {x : Except ParseError (α × Cursor)}
    {x' : Except ParseError (α' × Cursor)} (h : Follows P x x') (hq : ∀ a a' d d', P a a' d d' → Q a a' d d') :
    Follows Q x x' := by
  intro a d hx
  obtain ⟨a', d', hx', hp⟩ := h a d hx
  exact ⟨a', d', hx', hq _ _ _ _ hp⟩

theorem follows_bind {p : Parser β} {p' : Parser β'} {f : β → Parser α} {f' : β' → Parser α'}
    (h : Follows (fun b b' d d' => Follows Q (f b d) (f' b' d')) (p c) (p' c')) :
    Follows Q ((p >>= f) c) ((p' >>= f') c') := by
  intro a e hx
  simp only [bind, StateT.bind] at hx ⊢
  match hp : p c with
  | .error err =>
    rw [hp] at hx
    cases hx
  | .ok (b, d) =>
    obtain ⟨b', d', hp', hf⟩ := h b d hp
    rw [hp] at hx
    rw [hp']
    exact hf a e hx

/-- After readers of which `P` is known, the rest has to be looked at only where `P` holds. -/
theorem Follows.bind {P : β → β' → Cursor → Cursor → Prop} {p : Parser β} {p' : Parser β'} {f : β → Parser α}
    {f' : β' → Parser α'} (h : Follows P (p c) (p' c')) (hf : ∀ b b' d d', P b b' d d' → Follows Q (f b d) (f' b' d')) :
    Follows Q ((p >>= f) c) ((p' >>= f') c') := follows_bind (h.mono hf)

/-- The first reader goes on alone. -/
theorem follows_of_eq {p : Parser β} {f : β → Parser α} {b : β} {d : Cursor} {x' : Except ParseError (α' × Cursor)}
    (hp : p c = .ok (b, d)) (h : Follows Q (f b d) x') : Follows Q ((p >>= f) c) x' := by
  have he : (p >>= f) c = f b d := by simp only [Bind.bind, StateT.bind, hp, Except.bind]
  rwa [he]

/-- Whatever the first reader answers, it goes on alone. -/
theorem follows_of_answers {p : Parser β} {f : β → Parser α} {x' : Except ParseError (α' × Cursor)}
    (h : ∀ b d, p c = .ok (b, d) → Follows Q (f b d) x') : Follows Q ((p >>= f) c) x' := by
  match hp : p c with
  | .ok (b, d) => exact follows_of_eq hp (h b d hp)
  | .error err =>
    intro a e hx
    simp only [bind, StateT.bind, hp] at hx
    cases hx

/-- The second reader goes on alone. -/
theorem follows_of_eq_right {p' : Parser β'} {f' : β' → Parser α'} {b' : β'} {d' : Cursor}
    {x : Except ParseError (α × Cursor)} (hp : p' c' = .ok (b', d')) (h : Follows Q x (f' b' d')) :
    Follows Q x ((p' >>= f') c') := by
  have he : (p' >>= f') c' = f' b' d' := by simp only [Bind.bind, StateT.bind, hp, Except.bind]
  rwa [he]

theorem follows_pure {a : α} {a' : α'} (h : Q a a' c c') :
    Follows Q ((pure a : Parser α) c) ((pure a' : Parser α') c') := by
  rintro _ _ ⟨⟩
  exact ⟨a', c', rfl, h⟩

theorem follows_map {p : Parser β} {p' : Parser β'} {f : β → α} {f' : β' → α'}
    (h : Follows (fun b b' d d' => Q (f b) (f' b') d d') (p c) (p' c')) : Follows Q ((f <$> p) c) ((f' <$> p') c') := by
  simp only [Functor.map, StateT.map]
  have hpure : Follows (fun b b' d d' => Follows Q ((pure (f b) : Parser α) d) ((pure (f' b') : Parser α') d'))
      (p c) (p' c') := h.mono fun _ _ _ _ hq => follows_pure hq
  exact follows_bind hpure

theorem follows_failAt {span : Span} {fault : ParseFault} {x' : Except ParseError (α' × Cursor)} :
    Follows Q ((failAt span fault : Parser α) c) x' := by
  rintro _ _ ⟨⟩

theorem follows_failAt_bind {span : Span} {fault : ParseFault} {f : β → Parser α}
    {x' : Except ParseError (α' × Cursor)} : Follows Q ((failAt span fault >>= f) c) x' := by
  rintro _ _ ⟨⟩

theorem failExpected_ne_ok {what : Expectation} {r : α × Cursor} : (failExpected what : Parser α) c ≠ .ok r := by
  intro hx
  simp only [failExpected, bind, StateT.bind] at hx
  cases ht : token c with
  | error e =>
    rw [ht] at hx
    cases hx
  | ok t =>
    rw [ht] at hx
    cases hx

theorem follows_failExpected {what : Expectation} {x' : Except ParseError (α' × Cursor)} :
    Follows Q ((failExpected what : Parser α) c) x' := fun _ _ hx => absurd hx failExpected_ne_ok

/-! ## Single tokens -/

section Tokens

variable {us ts : List TokenKind} {k : TokenKind}

theorem exists_aheadSpan_eq {ks : List TokenKind} (h : c.Spells ks) : ∃ span, aheadSpan c = .ok (span, c) := by
  cases ks with
  | nil => exact absurd h.2 List.not_mem_nil
  | cons k ks => exact aheadSpan_eq h

theorem follows_aheadSpan {Q : Span → Span → Cursor → Cursor → Prop} (h : c.Aligned us c')
    (hq : ∀ span span', Q span span' c c') : Follows Q (aheadSpan c) (aheadSpan c') := by
  obtain ⟨ts, h⟩ := h
  obtain ⟨span, hspan⟩ := exists_aheadSpan_eq h.first
  obtain ⟨span', hspan'⟩ := exists_aheadSpan_eq h.second
  intro a d hx
  obtain ⟨rfl, rfl⟩ : span = a ∧ c = d := by simpa [hspan] using hx
  exact ⟨span', c', hspan', hq _ _⟩

theorem follows_lastStop {Q : Nat → Nat → Cursor → Cursor → Prop} (hq : ∀ stop stop', Q stop stop' c c') :
    Follows Q (lastStop c) (lastStop c') := by
  rintro _ _ ⟨⟩
  exact ⟨_, _, rfl, hq _ _⟩

/-- The same token is ahead of both cursors, unless the first is at the end. -/
theorem follows_ahead {Q : TokenKind → TokenKind → Cursor → Cursor → Prop} (h : c.Joins us ts c')
    (hcons : ∀ k ts', ts = k :: ts' → Q k k c c')
    (hnil : ts = [] → ∀ k vs, us = k :: vs → k = .endOfText ∨ k = .symbol .semi → Q .endOfText k c c') :
    Follows Q (ahead c) (ahead c') := by
  cases ts with
  | nil =>
    obtain ⟨k, vs, hus, hk⟩ := h.continues.exists_cons
    rintro _ _ hx
    obtain ⟨rfl, rfl⟩ : _ ∧ _ := by simpa [ahead_eq h.first] using hx
    exact ⟨k, c', ahead_eq (hus ▸ h.second), hnil rfl k vs hus hk⟩
  | cons k ts =>
    rintro _ _ hx
    obtain ⟨rfl, rfl⟩ : _ ∧ _ := by simpa [ahead_eq h.first] using hx
    exact ⟨_, c', ahead_eq h.second, hcons _ ts rfl⟩

theorem follows_skip {Q : Unit → Unit → Cursor → Cursor → Prop} (h : c.Joins us (k :: ts) c')
    (hq : c.next.Joins us ts c'.next → Q () () c.next c'.next) : Follows Q (skip c) (skip c') := by
  rintro _ _ hx
  obtain rfl : c.next = _ := by simpa [skip_eq h.first] using hx
  exact ⟨(), _, skip_eq h.second, hq h.next⟩

/-- A symbol other than the semicolon is ahead of both cursors or of none. -/
theorem follows_sees {Q : Bool → Bool → Cursor → Cursor → Prop} {s : Symbol} (hs : s ≠ .semi) (h : c.Joins us ts c')
    (hq : ∀ b, (b = true → ∃ ts', ts = .symbol s :: ts') → Q b b c c') : Follows Q (sees s c) (sees s c') := by
  refine follows_bind (follows_ahead h (fun k ts' hts => follows_pure (hq _ fun hk => ?_))
    fun _ k _ _ hk => follows_pure ?_)
  · exact ⟨ts', by rw [hts, TokenKind.isSymbol_iff.1 hk]⟩
  · have hno : k.isSymbol s = false := by
      rcases hk with rfl | rfl
      · rfl
      · simpa [TokenKind.isSymbol] using hs.symm
    rw [hno]
    exact hq false (by simp)

theorem follows_accept {s : Symbol} (hs : s ≠ .semi) (h : c.Aligned us c') :
    Follows (fun b b' d d' => b = b' ∧ d.Aligned us d') (accept s c) (accept s c') := by
  obtain ⟨ts, h⟩ := h
  refine follows_bind (follows_sees hs h fun b hb => ?_)
  cases b with
  | false => exact follows_pure ⟨rfl, ts, h⟩
  | true =>
    obtain ⟨ts', rfl⟩ := hb rfl
    exact follows_bind (follows_skip h fun hnext => follows_pure ⟨rfl, ts', hnext⟩)

theorem follows_expect {s : Symbol} {what : Expectation} (hs : s ≠ .semi) (h : c.Aligned us c') :
    Follows (fun _ _ d d' => d.Aligned us d') (expect s what c) (expect s what c') := by
  obtain ⟨ts, h⟩ := h
  refine follows_bind (follows_sees hs h fun b hb => ?_)
  cases b with
  | false => exact follows_failExpected
  | true =>
    obtain ⟨ts', rfl⟩ := hb rfl
    exact follows_skip h fun hnext => ⟨ts', hnext⟩

theorem follows_expect_of_ne {s : Symbol} {what : Expectation} {f : Unit → Parser α}
    {x' : Except ParseError (α' × Cursor)} (hc : c.Spells (k :: ts)) (hk : k.isSymbol s = false) :
    Follows Q ((expect s what >>= f) c) x' := by
  refine follows_of_answers fun _ d hx => ?_
  have hx : (sees s >>= fun b => if b then skip else failExpected what) c = .ok ((), d) := hx
  simp only [bind, StateT.bind, sees_eq hc, hk, Except.bind] at hx
  exact absurd hx failExpected_ne_ok

theorem follows_expectName {what : Expectation} (h : c.Aligned us c') :
    Follows (fun name name' d d' => name = name' ∧ d.Aligned us d') (expectName what c) (expectName what c') := by
  obtain ⟨ts, h⟩ := h
  refine follows_bind (follows_ahead h (fun k ts' hts => ?_) fun _ _ _ _ _ => follows_failExpected)
  subst hts
  cases k with
  | ident name => exact follows_bind (follows_skip h fun hnext => follows_pure ⟨rfl, ts', hnext⟩)
  | _ => exact follows_failExpected

theorem follows_build {x : Except BuilderFault α} {x' : Except BuilderFault α'}
    (h : ∀ a, x = .ok a → ∃ a', x' = .ok a' ∧ Q a a' c c') : Follows Q (build x c) (build x' c') := by
  cases x with
  | error fault =>
    rintro _ _ hx
    cases hx
  | ok a =>
    obtain ⟨a', rfl, hq⟩ := h a rfl
    exact follows_pure hq

end Tokens

/-! ## Loops -/

theorem repeatWhile_of_last {step : α → Parser (α × Bool)} (hp : Progresses step) (hc : c.Closed) {a b : α} {d : Cursor}
    (hs : step a c = .ok ((b, false), d)) : repeatWhile step a c = .ok (b, d) := by
  rw [repeatWhile_eq hp a hc]
  simp only [bind, StateT.bind, hs]
  rfl

theorem repeatWhile_of_more {step : α → Parser (α × Bool)} (hp : Progresses step) (hc : c.Closed) {a b : α} {d : Cursor}
    (hs : step a c = .ok ((b, true), d)) : repeatWhile step a c = repeatWhile step b d := by
  rw [repeatWhile_eq hp a hc]
  simp only [bind, StateT.bind, hs]
  rfl

/-- Loops follow one another where their steps do. -/
theorem follows_repeatWhile {us : List TokenKind} {I : α → α' → Prop} {step : α → Parser (α × Bool)}
    {step' : α' → Parser (α' × Bool)} (hp : Progresses step) (hp' : Progresses step')
    (hstep : ∀ a a' c c', I a a' → c.Aligned us c' →
      Follows (fun r r' d d' => (r.2 = r'.2 ∧ I r.1 r'.1) ∧ d.Aligned us d') (step a c) (step' a' c'))
    {a : α} {a' : α'} (ha : I a a') (h : c.Aligned us c') :
    Follows (fun b b' d d' => I b b' ∧ d.Aligned us d') (repeatWhile step a c) (repeatWhile step' a' c') := by
  generalize hn : c.rest.length = n
  induction n using Nat.strongRecOn generalizing a a' c c' with
  | ind n ih =>
    rw [repeatWhile_eq hp a h.closed, repeatWhile_eq hp' a' h.closed']
    intro b e hx
    simp only [bind, StateT.bind] at hx ⊢
    match hs : step a c with
    | .error err =>
      rw [hs] at hx
      cases hx
    | .ok ((x, more), d) =>
      obtain ⟨⟨x', more'⟩, d', hs', ⟨hmore, hi⟩, hd⟩ := hstep a a' c c' ha h _ _ hs
      obtain rfl : more = more' := hmore
      rw [hs] at hx
      rw [hs']
      cases more with
      | false => exact follows_pure (Q := fun b b' d d' => I b b' ∧ d.Aligned us d') ⟨hi, hd⟩ b e hx
      | true => exact ih _ (hn ▸ (hp a c x d h.closed hs).2) hi hd rfl b e hx

end Parser

open GameScript.Parser

/-! ## Expressions -/

/-- Answers that are the same but for places, with the cursors still aligned. -/
def SameBut {α β : Type} (us : List TokenKind) (erase : α → β) (a a' : α) (d d' : Cursor) : Prop :=
  erase a = erase a' ∧ d.Aligned us d'

/-- A level whose readers answer the same wherever they can answer at the first of two aligned cursors. -/
structure Level.FollowsItself (us : List TokenKind) (l : Level) : Prop where
  sound : l.Sound
  expression : ∀ least c c', c.Aligned us c' →
    Follows (SameBut us Expression.eraseSpans) (l.expression least c) (l.expression least c')
  block : ∀ c c', c.Aligned us c' → Follows (SameBut us Scope.eraseSpans) (l.block c) (l.block c')
  object : ∀ k ts c c', c.Joins us (k :: ts) c' →
    Follows (SameBut us Expression.eraseSpans) (l.object c) (l.object c')

section Forms

variable {us ts : List TokenKind} {inner : Level} {c c' : Cursor} {k : TokenKind}

theorem follows_propertyKey (h : c.Aligned us c') :
    Follows (fun key key' d d' => key = key' ∧ d.Aligned us d') (propertyKey c) (propertyKey c') := by
  obtain ⟨ts, h⟩ := h
  refine follows_bind (follows_ahead h (fun k ts' hts => ?_) fun _ _ _ _ _ => follows_failExpected)
  subst hts
  cases k with
  | ident key => exact follows_bind (follows_skip h fun hnext => follows_pure ⟨rfl, ts', hnext⟩)
  | string key => exact follows_bind (follows_skip h fun hnext => follows_pure ⟨rfl, ts', hnext⟩)
  | _ => exact follows_failExpected

theorem follows_parameterStep (before : List String) (h : c.Aligned us c') :
    Follows (fun r r' d d' => (r.2 = r'.2 ∧ r.1 = r'.1) ∧ d.Aligned us d') (parameterStep before c)
      (parameterStep before c') := by
  obtain ⟨ts, hts⟩ := h
  refine follows_bind (follows_sees (by decide) hts fun b _ => ?_)
  cases b with
  | true => exact follows_pure ⟨⟨rfl, rfl⟩, ts, hts⟩
  | false =>
    refine follows_bind (follows_aheadSpan ⟨ts, hts⟩ fun _ _ => ?_)
    refine (follows_expectName ⟨ts, hts⟩).bind fun name name' d d' ⟨hname, hd⟩ => ?_
    subst hname
    split
    · exact follows_failAt
    · refine (follows_accept (by decide) hd).bind fun more more' e e' ⟨hmore, he⟩ => ?_
      exact follows_pure ⟨⟨hmore, rfl⟩, he⟩

/-- Neither the end nor a semicolon goes on with parameters. -/
theorem namesAhead_append {k : TokenKind} (hk : k = .endOfText ∨ k = .symbol .semi) (ts us : List TokenKind) :
    namesAhead (ts ++ k :: us) = namesAhead ts := by
  fun_induction namesAhead ts with
  | case1 name rest ih => simpa [namesAhead] using ih
  | case2 name rest => simp [namesAhead]
  | case3 ts hcomma harrow =>
    unfold namesAhead
    split
    · rename_i name rest heq
      rcases ts with _ | ⟨a, _ | ⟨b, ts⟩⟩ <;> cases heq <;>
        first | exact (hcomma _ _ rfl).elim | simp at hk
    · rename_i name rest heq
      rcases ts with _ | ⟨a, _ | ⟨b, _ | ⟨d, ts⟩⟩⟩ <;> cases heq <;>
        first | exact (harrow _ _ rfl).elim | simp at hk
    · rfl

theorem parametersAhead_append {k : TokenKind} (hk : k = .endOfText ∨ k = .symbol .semi) (ts us : List TokenKind) :
    parametersAhead (ts ++ k :: us) = parametersAhead ts := by
  by_cases h : ∃ rest, ts = .symbol .rParen :: .symbol .fatArrow :: rest
  · obtain ⟨rest, rfl⟩ := h
    rfl
  · have hno : ∀ rest, ts ++ k :: us ≠ .symbol .rParen :: .symbol .fatArrow :: rest := by
      intro rest heq
      rcases ts with _ | ⟨a, _ | ⟨b, ts⟩⟩ <;> cases heq <;> simp at hk h
    rw [parametersAhead.eq_2 _ fun rest heq => hno rest heq, parametersAhead.eq_2 _ fun rest heq => h ⟨rest, heq⟩,
      namesAhead_append hk]

theorem follows_seesFunction {Q : Bool → Bool → Cursor → Cursor → Prop} (h : c.Joins us (k :: ts) c')
    (hq : ∀ b, Q b b c c') : Follows Q (seesFunction c) (seesFunction c') := by
  obtain ⟨t, rest, hr, -, hrest⟩ := h.first.rest_eq
  obtain ⟨t', rest', hr', -, hrest'⟩ := h.second.rest_eq
  obtain ⟨k', vs, hus, hk'⟩ := h.continues.exists_cons
  have hsame : parametersThenArrow rest = parametersThenArrow rest' := by
    rw [parametersThenArrow_eq, parametersThenArrow_eq, hrest, hrest', hus]
    exact (parametersAhead_append (.inl rfl) ts []).trans (parametersAhead_append hk' ts vs).symm
  rintro _ _ ⟨⟩
  refine ⟨parametersThenArrow (c'.rest.drop 1), c', rfl, ?_⟩
  rw [hr, hr', List.drop_one, List.drop_one, List.tail_cons, List.tail_cons, hsame]
  exact hq _

theorem follows_literalForm (literal : Literal) (h : c.Joins us (k :: ts) c') :
    Follows (SameBut us Expression.eraseSpans) (literalForm literal c) (literalForm literal c') := by
  refine follows_bind (follows_aheadSpan ⟨_, h⟩ fun _ _ => ?_)
  exact follows_bind (follows_skip h fun hnext => follows_pure ⟨rfl, ts, hnext⟩)

theorem follows_negativeForm (h : c.Joins us (k :: ts) c') :
    Follows (SameBut us Expression.eraseSpans) (negativeForm c) (negativeForm c') := by
  refine follows_bind (follows_aheadSpan ⟨_, h⟩ fun _ _ => ?_)
  refine follows_bind (follows_skip h fun hnext => ?_)
  refine follows_bind (follows_ahead hnext (fun k' ts' hts => ?_) fun _ _ _ _ _ => follows_failAt_bind)
  subst hts
  have hleaf (literal : Literal) (span span' : Span) :
      Follows (SameBut us Expression.eraseSpans) ((do
        skip
        return .leaf (.value literal) ⟨span.start, ← lastStop⟩ : Parser Expression) c.next) ((do
        skip
        return .leaf (.value literal) ⟨span'.start, ← lastStop⟩ : Parser Expression) c'.next) :=
    follows_bind (follows_skip hnext fun hlast =>
      follows_bind (follows_lastStop fun _ _ => follows_pure ⟨rfl, ts', hlast⟩))
  cases k' with
  | int n => exact hleaf (.int (-n)) _ _
  | float x => exact hleaf (.float (-x)) _ _
  | _ => exact follows_failAt_bind

/-! ### Builders -/

section Builders

variable {kind : OperatorKind} {a a' b b' : Operand} {opSpan opSpan' span span' : Span}

theorem follows_buildBinary (ha : a.eraseSpans = a'.eraseSpans) (hb : b.eraseSpans = b'.eraseSpans)
    (h : c.Aligned us c') : Follows (SameBut us Expression.eraseSpans)
      (build (Expression.binary? a ⟨kind, opSpan⟩ b span) c)
      (build (Expression.binary? a' ⟨kind, opSpan'⟩ b' span') c') := by
  refine follows_build fun e he => ?_
  unfold Expression.binary? at he ⊢
  split at he
  · rename_i hkind
    cases he
    refine ⟨_, if_pos hkind, ?_, h⟩
    simp [Expression.binary, Expression.eraseSpans, Operand.eraseSlot, Operator.eraseSpan, ha, hb]
  · cases he

theorem follows_buildPrefixed (hb : b.eraseSpans = b'.eraseSpans) (h : c.Aligned us c') :
    Follows (SameBut us Expression.eraseSpans) (build (Expression.prefixed? ⟨kind, opSpan⟩ b span) c)
      (build (Expression.prefixed? ⟨kind, opSpan'⟩ b' span') c') := by
  refine follows_build fun e he => ?_
  unfold Expression.prefixed? at he ⊢
  split at he
  · cases he
  · rename_i hkind
    cases he
    refine ⟨_, if_neg hkind, ?_, h⟩
    simp [Expression.prefixed, Expression.eraseSpans, Operand.eraseSlot, Operator.eraseSpan, hb]

theorem follows_buildPostfixed (ha : a.eraseSpans = a'.eraseSpans) (h : c.Aligned us c') :
    Follows (SameBut us Expression.eraseSpans) (build (Expression.postfixed? a ⟨kind, opSpan⟩ span) c)
      (build (Expression.postfixed? a' ⟨kind, opSpan'⟩ span') c') := by
  refine follows_build fun e he => ?_
  unfold Expression.postfixed? at he ⊢
  split at he
  · rename_i hkind
    cases he
    refine ⟨_, if_pos hkind, ?_, h⟩
    simp [Expression.postfixed, Expression.eraseSpans, Operand.eraseSlot, Operator.eraseSpan, ha]
  · cases he

end Builders

/-! ### Forms -/

variable (hi : inner.FollowsItself us)

include hi

theorem follows_argumentStep {before before' : List Expression}
    (hb : Expression.eraseAll before = Expression.eraseAll before') (h : c.Aligned us c') :
    Follows (fun r r' d d' => (r.2 = r'.2 ∧ Expression.eraseAll r.1 = Expression.eraseAll r'.1) ∧ d.Aligned us d')
      (argumentStep inner before c) (argumentStep inner before' c') := by
  refine (hi.expression 0 c c' h).bind fun e e' d d' ⟨he, hd⟩ => ?_
  refine (follows_accept (by decide) hd).bind fun more more' d d' ⟨hmore, hd⟩ => follows_pure ⟨⟨hmore, ?_⟩, hd⟩
  simp [Expression.eraseAll_append, Expression.eraseAll, hb, he]

theorem follows_arguments (h : c.Aligned us c') :
    Follows (SameBut us Expression.eraseAll) (arguments inner c) (arguments inner c') := by
  obtain ⟨ts, hts⟩ := h
  refine follows_bind (follows_sees (by decide) hts fun b _ => ?_)
  cases b with
  | true => exact follows_pure ⟨rfl, ts, hts⟩
  | false =>
    have hp := (keeps_argumentStep hi.sound).progresses
    exact follows_repeatWhile hp hp (fun _ _ _ _ hb h => follows_argumentStep hi hb h) rfl ⟨ts, hts⟩

theorem follows_propertyStep {before before' : List Property}
    (hb : Property.eraseAll before = Property.eraseAll before') (h : c.Aligned us c') :
    Follows (fun r r' d d' => (r.2 = r'.2 ∧ Property.eraseAll r.1 = Property.eraseAll r'.1) ∧ d.Aligned us d')
      (propertyStep inner before c) (propertyStep inner before' c') := by
  obtain ⟨ts, hts⟩ := h
  refine follows_bind (follows_sees (by decide) hts fun b _ => ?_)
  cases b with
  | true => exact follows_pure ⟨⟨rfl, hb⟩, ts, hts⟩
  | false =>
    refine (follows_propertyKey ⟨ts, hts⟩).bind fun key key' d d' ⟨hkey, hd⟩ => ?_
    refine (follows_expect (by decide) hd).bind fun _ _ d d' hd => ?_
    refine (hi.expression 0 d d' hd).bind fun e e' d d' ⟨he, hd⟩ => ?_
    refine (follows_accept (by decide) hd).bind fun more more' d d' ⟨hmore, hd⟩ => follows_pure ⟨⟨hmore, ?_⟩, hd⟩
    simp [Property.eraseAll_append, Property.eraseAll, hb, he, hkey]

theorem follows_objectForm (h : c.Joins us (k :: ts) c') :
    Follows (SameBut us Expression.eraseSpans) (objectForm inner c) (objectForm inner c') := by
  refine follows_bind (follows_aheadSpan ⟨_, h⟩ fun _ _ => ?_)
  refine follows_bind (follows_skip h fun hnext => ?_)
  have hp := (keeps_propertyStep hi.sound).progresses
  refine (follows_repeatWhile hp hp (fun _ _ _ _ hb h => follows_propertyStep hi hb h) rfl ⟨ts, hnext⟩).bind
    fun ps ps' d d' ⟨hps, hd⟩ => ?_
  refine (follows_expect (by decide) hd).bind fun _ _ d d' hd => ?_
  refine follows_bind (follows_lastStop fun _ _ => follows_pure ⟨?_, hd⟩)
  simp [Expression.leaf, Expression.eraseSpans, Operand.eraseSlot, Operand.eraseSpans, hps]

theorem follows_functionForm (h : c.Joins us (k :: ts) c') :
    Follows (SameBut us Expression.eraseSpans) (functionForm inner c) (functionForm inner c') := by
  refine follows_bind (follows_aheadSpan ⟨_, h⟩ fun _ _ => ?_)
  refine follows_bind (follows_skip h fun hnext => ?_)
  have hp := keeps_parameterStep.progresses
  refine (follows_repeatWhile hp hp (fun before _ _ _ hb h => hb ▸ follows_parameterStep before h) rfl
    ⟨ts, hnext⟩).bind fun ps ps' d d' ⟨hps, hd⟩ => ?_
  refine (follows_expect (by decide) hd).bind fun _ _ d d' hd => ?_
  refine (follows_expect (by decide) hd).bind fun _ _ d d' hd => ?_
  refine (hi.block d d' hd).bind fun body body' d d' ⟨hbody, hd⟩ => ?_
  refine follows_bind (follows_lastStop fun _ _ => follows_pure ⟨?_, hd⟩)
  simp [Expression.leaf, Expression.eraseSpans, Operand.eraseSlot, Operand.eraseSpans, hps, hbody]

theorem follows_groupForm (h : c.Joins us (k :: ts) c') :
    Follows (SameBut us Expression.eraseSpans) (groupForm inner c) (groupForm inner c') := by
  refine follows_bind (follows_aheadSpan ⟨_, h⟩ fun _ _ => ?_)
  refine follows_bind (follows_skip h fun hnext => ?_)
  refine (hi.expression 0 _ _ ⟨ts, hnext⟩).bind fun e e' d d' ⟨he, hd⟩ => ?_
  refine (follows_expect (by decide) hd).bind fun _ _ d d' hd => ?_
  refine follows_bind (follows_lastStop fun _ _ => follows_pure ⟨?_, hd⟩)
  obtain ⟨left, op, right, _⟩ := e
  obtain ⟨left', op', right', _⟩ := e'
  exact he

theorem follows_leadingForm {kind : OperatorKind} (h : c.Joins us (k :: ts) c') :
    Follows (SameBut us Expression.eraseSpans) (leadingForm inner kind c) (leadingForm inner kind c') := by
  refine follows_bind (follows_aheadSpan ⟨_, h⟩ fun _ _ => ?_)
  refine follows_bind (follows_skip h fun hnext => ?_)
  refine (hi.expression operandPower _ _ ⟨ts, hnext⟩).bind fun e e' d d' ⟨he, hd⟩ => ?_
  exact follows_bind (follows_lastStop fun _ _ => follows_buildPrefixed (toOperand_eraseSpans_congr he) hd)

theorem follows_startForm (h : c.Aligned us c') :
    Follows (SameBut us Expression.eraseSpans) (startForm inner c) (startForm inner c') := by
  obtain ⟨ts, hts⟩ := h
  refine follows_bind (follows_aheadSpan ⟨ts, hts⟩ fun _ _ => ?_)
  refine follows_bind (follows_ahead hts (fun k ts' heq => ?_) fun _ _ _ _ _ => follows_failExpected)
  subst heq
  cases k with
  | int n => exact follows_literalForm _ hts
  | float x => exact follows_literalForm _ hts
  | string s => exact follows_literalForm _ hts
  | bool b => exact follows_literalForm _ hts
  | null => exact follows_literalForm _ hts
  | ident name => exact follows_bind (follows_skip hts fun hnext => follows_pure ⟨rfl, ts', hnext⟩)
  | letWord => exact follows_failAt
  | returnWord => exact follows_failAt
  | endOfText => exact follows_failExpected
  | symbol s =>
    cases s with
    | minus => exact follows_negativeForm hts
    | lParen =>
      refine follows_bind (follows_seesFunction hts fun b => ?_)
      cases b with
      | true => exact follows_functionForm hi hts
      | false => exact follows_groupForm hi hts
    | lBrace => exact hi.object _ ts' c c' hts
    | bang => exact follows_leadingForm hi hts
    | plusPlus => exact follows_leadingForm hi hts
    | minusMinus => exact follows_leadingForm hi hts
    | _ => exact follows_failExpected

/-! ### Operators -/

variable {e e' : Expression} {start start' : Nat}

theorem follows_suffixForm (suffix : Suffix) (he : e.eraseSpans = e'.eraseSpans) (h : c.Joins us (k :: ts) c') :
    Follows (SameBut us Expression.eraseSpans) (suffixForm inner start e suffix c)
      (suffixForm inner start' e' suffix c') := by
  cases suffix with
  | call =>
    refine follows_bind (follows_skip h fun hnext => ?_)
    refine (follows_arguments hi ⟨ts, hnext⟩).bind fun args args' d d' ⟨hargs, hd⟩ => ?_
    refine (follows_expect (by decide) hd).bind fun _ _ d d' hd => ?_
    refine follows_bind (follows_lastStop fun _ _ => follows_pure ⟨?_, hd⟩)
    simp [Expression.leaf, Expression.eraseSpans, Operand.eraseSlot, Operand.eraseSpans, he, hargs]
  | member =>
    refine follows_bind (follows_aheadSpan ⟨_, h⟩ fun _ _ => ?_)
    refine follows_bind (follows_skip h fun hnext => ?_)
    refine follows_bind (follows_aheadSpan ⟨_, hnext⟩ fun _ _ => ?_)
    refine (follows_expectName ⟨ts, hnext⟩).bind fun key key' d d' ⟨hkey, hd⟩ => ?_
    subst hkey
    exact follows_bind (follows_lastStop fun _ _ => follows_buildBinary (toOperand_eraseSpans_congr he) rfl hd)
  | step kind =>
    refine follows_bind (follows_aheadSpan ⟨_, h⟩ fun _ _ => ?_)
    refine follows_bind (follows_skip h fun hnext => ?_)
    exact follows_bind (follows_lastStop fun _ _ =>
      follows_buildPostfixed (toOperand_eraseSpans_congr he) ⟨ts, hnext⟩)

theorem follows_binaryForm (rule : BinaryRule) (he : e.eraseSpans = e'.eraseSpans) (h : c.Joins us (k :: ts) c') :
    Follows (SameBut us Expression.eraseSpans) (binaryForm inner start e rule c)
      (binaryForm inner start' e' rule c') := by
  have htarget : e.isAssignmentTarget = e'.isAssignmentTarget := by
    rw [← isAssignmentTarget_eraseSpans, he, isAssignmentTarget_eraseSpans]
  refine follows_bind (follows_aheadSpan ⟨_, h⟩ fun _ _ => ?_)
  refine follows_bind (follows_skip h fun hnext => ?_)
  rw [htarget]
  split
  · exact follows_failAt
  · refine (hi.expression rule.right _ _ ⟨ts, hnext⟩).bind fun rhs rhs' d d' ⟨hrhs, hd⟩ => ?_
    exact follows_bind (follows_lastStop fun _ _ =>
      follows_buildBinary (toOperand_eraseSpans_congr he) (toOperand_eraseSpans_congr hrhs) hd)

theorem follows_operatorStep {least : Nat} (he : e.eraseSpans = e'.eraseSpans) (h : c.Aligned us c') :
    Follows (fun r r' d d' => (r.2 = r'.2 ∧ r.1.eraseSpans = r'.1.eraseSpans) ∧ d.Aligned us d')
      (operatorStep inner least start e c) (operatorStep inner least start' e' c') := by
  obtain ⟨ts, hts⟩ := h
  have hstop : Follows (fun r r' d d' => (r.2 = r'.2 ∧ r.1.eraseSpans = r'.1.eraseSpans) ∧ d.Aligned us d')
      ((pure (e, false) : Parser (Expression × Bool)) c) ((pure (e', false) : Parser (Expression × Bool)) c') :=
    follows_pure ⟨⟨rfl, he⟩, ts, hts⟩
  refine follows_bind (follows_ahead hts (fun k ts' heq => ?_) fun _ k _ _ hk => ?_)
  · subst heq
    cases k.suffix? with
    | some suffix =>
      dsimp only
      split
      · exact hstop
      · exact (follows_suffixForm hi suffix he hts).bind fun f f' d d' ⟨hf, hd⟩ => follows_pure ⟨⟨rfl, hf⟩, hd⟩
    | none =>
      cases k.binaryRule? with
      | none => exact hstop
      | some rule =>
        dsimp only
        split
        · exact hstop
        · exact (follows_binaryForm hi rule he hts).bind fun f f' d d' ⟨hf, hd⟩ => follows_pure ⟨⟨rfl, hf⟩, hd⟩
  · rcases hk with rfl | rfl
    · exact hstop
    · exact hstop

theorem follows_expressionForm {least : Nat} (h : c.Aligned us c') :
    Follows (SameBut us Expression.eraseSpans) (expressionForm inner least c) (expressionForm inner least c') := by
  refine follows_bind (follows_aheadSpan h fun _ _ => ?_)
  refine (follows_startForm hi h).bind fun e e' d d' ⟨he, hd⟩ => ?_
  exact follows_repeatWhile (keeps_operatorStep hi.sound).progresses (keeps_operatorStep hi.sound).progresses
    (fun _ _ _ _ he h => follows_operatorStep hi he h) he hd

end Forms

/-! ## Statements -/

/-- The cursors are still aligned, and the second has a semicolon to read only if the first has a token. -/
def Cursor.Settled (us : List TokenKind) (c c' : Cursor) : Prop :=
  ∃ ts, c.Joins us ts c' ∧ (ts = [] → us = [.endOfText])

/-- The first cursor is at the end, and the second past the semicolon that goes on there. -/
def Cursor.Passed (us : List TokenKind) (c c' : Cursor) : Prop :=
  c.Spells [.endOfText] ∧ ∃ vs, us = .symbol .semi :: vs ∧ c'.Spells vs

section Statements

variable {us ts : List TokenKind} {inner : Level} {c c' : Cursor} {k : TokenKind}

theorem Cursor.Settled.aligned (h : c.Settled us c') : c.Aligned us c' := by
  obtain ⟨ts, h, _⟩ := h
  exact ⟨ts, h⟩

/-- A semicolon is read at both cursors or at none, unless it is the one that goes on. -/
theorem follows_acceptSemi (h : c.Aligned us c') : Follows (fun b b' d d' =>
    (b = true ∧ b' = true ∧ d.Aligned us d') ∨ (b = false ∧ b' = false ∧ d.Settled us d') ∨
      (b = false ∧ b' = true ∧ d.Passed us d')) (accept .semi c) (accept .semi c') := by
  obtain ⟨ts, h⟩ := h
  refine follows_bind (follows_bind (follows_ahead h (fun k ts' hts => follows_pure ?_)
    fun hts k vs hus hk => follows_pure ?_))
  · cases hs : k.isSymbol .semi with
    | false => exact follows_pure (.inr (.inl ⟨rfl, rfl, ts, h, by simp [hts]⟩))
    | true =>
      subst hts
      exact follows_bind (follows_skip h fun hnext => follows_pure (.inl ⟨rfl, rfl, ts', hnext⟩))
  · subst hts
    rcases hk with rfl | rfl
    · refine follows_pure (.inr (.inl ⟨rfl, rfl, [], h, fun _ => ?_⟩))
      rcases h.continues with hend | ⟨_, hsemi, _⟩
      · exact hend
      · cases hus.symm.trans hsemi
    · have hsecond : c'.Spells (.symbol .semi :: vs) := hus ▸ h.second
      rintro _ _ ⟨⟩
      refine ⟨true, c'.next, ?_, .inr (.inr ⟨rfl, rfl, h.first, vs, hus, hsecond.next (by simp)⟩)⟩
      simp [bind, StateT.bind, TokenKind.isSymbol, skip_eq hsecond, Except.bind, pure, StateT.pure, Except.pure]

/-- Where a statement has been ended. -/
def Cursor.Ended (us : List TokenKind) (c c' : Cursor) : Prop := c.Aligned us c' ∨ c.Passed us c'

theorem follows_statementEnd (h : c.Aligned us c') :
    Follows (fun _ _ d d' => d.Ended us d') (statementEnd c) (statementEnd c') := by
  refine (follows_acceptSemi h).bind fun b b' d d' hb => ?_
  rcases hb with ⟨rfl, rfl, hd⟩ | ⟨rfl, rfl, ts, hd, hus⟩ | ⟨rfl, rfl, hd⟩
  · exact follows_pure (.inl hd)
  · refine follows_bind (follows_ahead hd (fun k ts' hts => ?_) fun hts k vs huk hk => ?_)
    · subst hts
      have hmore : k.isEnd = false := Bool.eq_false_iff.2 (mt TokenKind.isEnd_iff.1 hd.ne_end)
      rw [hmore]
      refine follows_bind (follows_sees (by decide) hd fun b _ => ?_)
      cases b with
      | true => exact follows_pure (.inl ⟨_, hd⟩)
      | false => exact follows_failExpected
    · have hend : k = .endOfText := by simpa [huk] using congrArg List.head? (hus hts)
      rw [hend]
      exact follows_pure (.inl ⟨ts, hd⟩)
  · exact follows_of_eq (ahead_eq hd.1) (follows_pure (.inr hd))

theorem follows_seesStatementEnd {Q : Bool → Bool → Cursor → Cursor → Prop} (h : c.Aligned us c')
    (hq : ∀ b, Q b b c c') : Follows Q (seesStatementEnd c) (seesStatementEnd c') := by
  obtain ⟨ts, h⟩ := h
  refine follows_bind (follows_ahead h (fun k ts' hts => follows_pure (hq _)) fun _ k _ _ hk => follows_pure ?_)
  rcases hk with rfl | rfl
  · exact hq true
  · exact hq true

variable (hi : inner.FollowsItself us)

include hi

theorem follows_letForm (h : c.Joins us (k :: ts) c') :
    Follows (SameBut us Expression.eraseSpans) (letForm inner c) (letForm inner c') := by
  refine follows_bind (follows_aheadSpan ⟨_, h⟩ fun _ _ => ?_)
  refine follows_bind (follows_skip h fun hnext => ?_)
  refine follows_bind (follows_aheadSpan ⟨_, hnext⟩ fun _ _ => ?_)
  refine (follows_expectName ⟨ts, hnext⟩).bind fun name name' d d' ⟨hname, hd⟩ => ?_
  subst hname
  refine follows_bind (follows_aheadSpan hd fun _ _ => ?_)
  refine (follows_expect (by decide) hd).bind fun _ _ d d' hd => ?_
  refine (hi.expression 0 d d' hd).bind fun e e' d d' ⟨he, hd⟩ => ?_
  exact follows_bind (follows_lastStop fun _ _ => follows_buildBinary rfl (toOperand_eraseSpans_congr he) hd)

theorem follows_returnForm (h : c.Joins us (k :: ts) c') :
    Follows (SameBut us Expression.eraseSpans) (returnForm inner c) (returnForm inner c') := by
  refine follows_bind (follows_aheadSpan ⟨_, h⟩ fun _ _ => ?_)
  refine follows_bind (follows_skip h fun hnext => ?_)
  refine follows_bind (follows_seesStatementEnd ⟨ts, hnext⟩ fun b => ?_)
  cases b with
  | true =>
    refine follows_bind (follows_pure ?_)
    exact follows_bind (follows_lastStop fun _ _ => follows_buildPrefixed rfl ⟨ts, hnext⟩)
  | false =>
    refine follows_bind (follows_map ((hi.expression 0 _ _ ⟨ts, hnext⟩).mono fun e e' d d' ⟨he, hd⟩ => ?_))
    exact follows_bind (follows_lastStop fun _ _ => follows_buildPrefixed (toOperand_eraseSpans_congr he) hd)

theorem follows_statementBody (h : c.Joins us (k :: ts) c') :
    Follows (SameBut us Expression.eraseSpans) (statementBody inner c) (statementBody inner c') := by
  refine follows_bind (follows_ahead h (fun k' ts' hts => ?_) fun hts => by cases hts)
  obtain ⟨rfl, rfl⟩ := List.cons.inj hts
  have hexpression := hi.expression 0 c c' ⟨_, h⟩
  cases k with
  | letWord => exact follows_letForm hi h
  | returnWord => exact follows_returnForm hi h
  | _ => exact hexpression

theorem follows_blockStatement (h : c.Aligned us c') :
    Follows (fun s s' d d' => s.body.eraseSpans = s'.body.eraseSpans ∧ d.Ended us d') (blockStatement inner c)
      (blockStatement inner c') := by
  refine (hi.block c c' h).bind fun scope scope' d d' ⟨hscope, hd⟩ => ?_
  refine (follows_acceptSemi hd).bind fun b b' d d' hb => follows_pure ⟨?_, ?_⟩
  · simp [Expression.leaf, Expression.eraseSpans, Operand.eraseSlot, Operand.eraseSpans, hscope]
  · rcases hb with ⟨-, -, hd⟩ | ⟨-, -, hd⟩ | ⟨-, -, hd⟩
    · exact .inl hd
    · exact .inl hd.aligned
    · exact .inr hd

theorem follows_statementForm (h : c.Joins us (k :: ts) c') :
    Follows (fun s s' d d' => Statement.eraseAll s.toList = Statement.eraseAll s'.toList ∧ d.Ended us d')
      (statementForm inner c) (statementForm inner c') := by
  have hbody (start start' : Nat) :
      Follows (fun s s' d d' => Statement.eraseAll s.toList = Statement.eraseAll s'.toList ∧ d.Ended us d') ((do
        let body ← statementBody inner
        let span : Span := ⟨start, ← lastStop⟩
        statementEnd
        return some ⟨body, span⟩ : Parser (Option Statement)) c) ((do
        let body ← statementBody inner
        let span : Span := ⟨start', ← lastStop⟩
        statementEnd
        return some ⟨body, span⟩ : Parser (Option Statement)) c') := by
    refine (follows_statementBody hi h).bind fun e e' d d' ⟨he, hd⟩ => ?_
    refine follows_bind (follows_lastStop fun _ _ => ?_)
    refine (follows_statementEnd hd).bind fun _ _ d d' hd => follows_pure ⟨?_, hd⟩
    simp [Statement.eraseAll, he]
  refine follows_bind (follows_aheadSpan ⟨_, h⟩ fun _ _ => ?_)
  refine follows_bind (follows_ahead h (fun k' ts' hts => ?_) fun hts => by cases hts)
  obtain ⟨rfl, rfl⟩ := List.cons.inj hts
  cases k with
  | symbol s =>
    cases s with
    | semi => exact follows_bind (follows_skip h fun hnext => follows_pure ⟨rfl, .inl ⟨ts, hnext⟩⟩)
    | lBrace =>
      refine (follows_blockStatement hi ⟨_, h⟩).bind fun s s' d d' ⟨hs, hd⟩ => follows_pure ⟨?_, hd⟩
      obtain ⟨e, _⟩ := s
      obtain ⟨e', _⟩ := s'
      simpa [Statement.eraseAll] using hs
    | _ => exact hbody _ _
  | _ => exact hbody _ _

omit hi in
theorem statementForm_semi {ks : List TokenKind} (h : c.Spells (.symbol .semi :: ks)) :
    statementForm inner c = .ok (none, c.next) := by
  obtain ⟨span, hspan⟩ := aheadSpan_eq h
  simp only [statementForm, bind, StateT.bind, hspan, ahead_eq h, skip_eq h, Except.bind]
  rfl

section Loop

variable {ks : List TokenKind} (hs : inner.Sound) (h : c.Spells (k :: ks)) (before : List Statement)

include hs h

omit hi in
/-- A closing brace and the end of the text end the statements. -/
theorem statements_of_stops (hk : (k.isSymbol .rBrace || k.isEnd) = true) :
    repeatWhile (statementStep inner) before c = .ok (before, c) := by
  refine repeatWhile_of_last (keeps_statementStep hs).progresses h.closed ?_
  simp only [statementStep, bind, StateT.bind, ahead_eq h, Except.bind, hk]
  rfl

omit hi in
/-- Elsewhere a statement is read, and then the others. -/
theorem statements_of_form (hk : (k.isSymbol .rBrace || k.isEnd) = false) :
    repeatWhile (statementStep inner) before c = match statementForm inner c with
      | .ok (s, d) => repeatWhile (statementStep inner) (before ++ s.toList) d
      | .error e => .error e := by
  have hstep : statementStep inner before c = match statementForm inner c with
      | .ok (s, d) => .ok ((before ++ s.toList, true), d)
      | .error e => .error e := by
    simp only [statementStep, bind, StateT.bind, ahead_eq h, Except.bind, hk, Bool.false_eq_true, if_false]
    cases statementForm inner c <;> rfl
  have hp := (keeps_statementStep hs).progresses
  cases hform : statementForm inner c with
  | ok r => exact repeatWhile_of_more hp h.closed (by rw [hstep, hform])
  | error e =>
    rw [repeatWhile_eq hp before h.closed]
    simp only [bind, StateT.bind, hstep, hform]
    rfl

end Loop

/-- Where the loop over statements stops at the first of two cursors, it stops at the second, too, or goes on there with
what comes after the semicolon. What has been read before may differ by the statements of `pre`. -/
theorem follows_statements (pre before before' : List Statement) {ss : List Statement}
    (hb : Statement.eraseAll before' = Statement.eraseAll (pre ++ before)) (h : c.Aligned us c') {d : Cursor}
    (hx : repeatWhile (statementStep inner) before c = .ok (ss, d)) :
    (∃ ss' d', repeatWhile (statementStep inner) before' c' = .ok (ss', d') ∧
      Statement.eraseAll ss' = Statement.eraseAll (pre ++ ss) ∧ d.Settled us d') ∨
    ∃ vs ss' e, us = .symbol .semi :: vs ∧ e.Spells vs ∧
      Statement.eraseAll ss' = Statement.eraseAll (pre ++ ss) ∧ d.Spells [.endOfText] ∧
        repeatWhile (statementStep inner) before' c' = repeatWhile (statementStep inner) ss' e := by
  generalize hn : c.rest.length = n
  induction n using Nat.strongRecOn generalizing before before' c c' with
  | ind n ih =>
    obtain ⟨ts, hts⟩ := h
    cases ts with
    | nil =>
      have hstop := statements_of_stops hi.sound hts.first before rfl
      obtain ⟨rfl, rfl⟩ : before = ss ∧ c = d := by simpa [hstop] using hx
      rcases hts.continues with hus | ⟨vs, hus, _⟩
      · subst hus
        exact .inl ⟨before', c', statements_of_stops hi.sound hts.second before' rfl, hb, [], hts, fun _ => rfl⟩
      · subst hus
        refine .inr ⟨vs, before', c'.next, rfl, hts.second.next (by simp), hb, hts.first, ?_⟩
        have hmore := statements_of_form hi.sound hts.second before' rfl
        rw [statementForm_semi hts.second] at hmore
        simpa using hmore
    | cons k ts =>
      cases hk : k.isSymbol .rBrace || k.isEnd with
      | true =>
        have hstop := statements_of_stops hi.sound hts.first before hk
        obtain ⟨rfl, rfl⟩ : before = ss ∧ c = d := by simpa [hstop] using hx
        exact .inl ⟨before', c', statements_of_stops hi.sound hts.second before' hk, hb, k :: ts, hts, by simp⟩
      | false =>
        rw [statements_of_form hi.sound hts.first before hk] at hx
        rw [statements_of_form hi.sound hts.second before' hk]
        match hform : statementForm inner c with
        | .error e =>
          rw [hform] at hx
          cases hx
        | .ok (s, e) =>
          obtain ⟨s', e', hform', hs, he⟩ := follows_statementForm hi hts s e hform
          rw [hform] at hx
          rw [hform']
          have hb' : Statement.eraseAll (before' ++ s'.toList) = Statement.eraseAll (pre ++ (before ++ s.toList)) := by
            rw [← List.append_assoc, Statement.eraseAll_append, hb, ← hs, Statement.eraseAll_append (pre ++ before)]
          rcases he with he | ⟨hend, vs, hus, hvs⟩
          · obtain ⟨t, rest, hr, hkind, -⟩ := hts.first.rest_eq
            have hread := sure_statementForm hi.sound hts.first.closed hr (hkind ▸ hts.ne_end)
            rw [hform] at hread
            obtain ⟨⟨-, hlt⟩, -⟩ : c.Advances 1 e ∧ _ := hread
            exact ih e.rest.length (hn ▸ hlt) _ _ hb' he hx rfl
          · have hstop := statements_of_stops hi.sound hend (before ++ s.toList) rfl
            obtain ⟨rfl, rfl⟩ : before ++ s.toList = ss ∧ e = d := by simpa [hstop] using hx
            exact .inr ⟨vs, _, e', hus, hvs, hb', hend, rfl⟩

theorem follows_blockForm (h : c.Aligned us c') :
    Follows (SameBut us Scope.eraseSpans) (blockForm inner c) (blockForm inner c') := by
  refine follows_bind (follows_aheadSpan h fun _ _ => ?_)
  refine (follows_expect (by decide) h).bind fun _ _ d d' hd => ?_
  refine follows_of_answers fun body e hx => ?_
  have hsame := follows_statements hi [] [] [] rfl hd hx
  rcases hsame with ⟨body', e', hx', hbody, he⟩ | ⟨-, -, -, -, -, -, hend, -⟩
  · refine follows_of_eq_right hx' ?_
    refine (follows_expect (by decide) he.aligned).bind fun _ _ f f' hf => ?_
    refine follows_bind (follows_lastStop fun _ _ => follows_pure ⟨?_, hf⟩)
    simpa [Scope.eraseSpans] using hbody.symm
  · exact follows_expect_of_ne hend rfl

end Statements

/-! ## Levels and scripts -/

theorem followsItself_levelAt (us : List TokenKind) (room : Nat) : (levelAt room).FollowsItself us := by
  have hdeep {α : Type} {Q : α → α → Cursor → Cursor → Prop} {c : Cursor} {x' : Except ParseError (α × Cursor)} :
      Follows Q ((tooDeep : Parser α) c) x' := follows_of_answers fun _ _ _ => follows_failAt
  induction room with
  | zero => exact ⟨sound_levelAt 0, fun _ _ _ _ => hdeep, fun _ _ _ => hdeep, fun _ _ _ _ _ => hdeep⟩
  | succ room ih =>
    exact ⟨sound_levelAt (room + 1), fun _ _ _ h => follows_expressionForm ih h, fun _ _ h => follows_blockForm ih h,
      fun _ _ _ _ h => follows_objectForm ih h⟩

section Scripts

variable {c c' d : Cursor}

theorem programForm_of_statements {ks : List TokenKind} {ss : List Statement} (hc : c.Spells ks)
    (h : statements (levelAt maxNesting) c = .ok (ss, d)) (hd : d.Spells [.endOfText]) :
    ∃ p, programForm c = .ok (p, d) ∧ p.body.body = ss := by
  obtain ⟨span, hspan⟩ := exists_aheadSpan_eq hc
  refine ⟨⟨⟨ss, ⟨span.start, max d.lastStop span.start⟩⟩⟩, ?_, rfl⟩
  simp only [programForm, bind, StateT.bind, hspan, h, ahead_eq hd, Except.bind]
  rfl

/-- What is at the end of the first script is at the end of the tokens that both have. -/
theorem Cursor.Joins.eq_nil {us ts : List TokenKind} (h : d.Joins us ts c')
    (hd : d.rest.head?.map Token.kind = some .endOfText) : ts = [] := by
  cases ts with
  | nil => rfl
  | cons k ts =>
    obtain ⟨t, rest, hr, rfl, -⟩ := h.first.rest_eq
    exact absurd (by simpa [hr] using hd) h.ne_end

end Scripts

end GameScript
