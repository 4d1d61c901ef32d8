import GameScript.Proofs.Parse.Joined

/-!
# Reading up to where a text is cut off

A reader looks no further than it has to. Where it answers, it gives the same answer when the text is cut off behind
what it has read, though it may ask for some tokens more (`Local`): a name in front of an operator ends there in any
case, but what ends because of a parenthesis has to see it.

The rules of this module say so of the combinators. A sequence is local when its second part reads at least as many
tokens as the first one asks for (`Local.bind`); a test of the token ahead asks for it, unless the end passes the test,
too (`local_test_bind`); and a loop is as local as its steps (`local_repeatWhile`).
-/

namespace GameScript

namespace Cursor

/-- The place when the last `n` tokens are cut off, and the text ends there. -/
def cut (n : Nat) (c : Cursor) : Cursor :=
  ⟨c.lastStop, c.rest.take (c.rest.length - n) ++ [⟨.endOfText, {}⟩]⟩

variable {c : Cursor} {n : Nat} {t : Token} {rest : List Token}

theorem closed_cut (n : Nat) (c : Cursor) : (c.cut n).Closed :=
  ⟨⟨.endOfText, {}⟩, List.mem_append_right _ (List.mem_singleton_self _), rfl⟩

theorem rest_cut (hr : c.rest = t :: rest) (hn : n ≤ rest.length) :
    (c.cut n).rest = t :: (rest.take (rest.length - n) ++ [⟨.endOfText, {}⟩]) := by
  have hlength : (t :: rest).length - n = (rest.length - n) + 1 := by rw [List.length_cons]; omega
  rw [cut, hr, hlength]
  rfl

/-- Where all is cut off, the end is ahead. -/
theorem rest_cut_self (c : Cursor) : (c.cut c.rest.length).rest = [⟨.endOfText, {}⟩] := by simp [cut]

theorem next_of_rest (hr : c.rest = t :: rest) (ht : t.kind ≠ .endOfText) : c.next = ⟨t.span.stop, rest⟩ := by
  have he : ¬t.kind.isEnd = true := fun he => ht (TokenKind.isEnd_iff.1 he)
  simp [next, hr, he]

theorem next_cut (hr : c.rest = t :: rest) (ht : t.kind ≠ .endOfText) (hn : n ≤ rest.length) :
    (c.cut n).next = c.next.cut n := by
  rw [next_of_rest (rest_cut hr hn) ht, next_of_rest hr ht]
  rfl

end Cursor

open Cursor

namespace Parser

variable {α β : Type}

/-- Where an outcome at a place is an answer, a reader gives this answer, too, when the text is cut off `slack` tokens
or more behind what is read; and that is `eats` tokens or more. -/
def Local (c : Cursor) (slack eats : Nat) (x : Except ParseError (α × Cursor)) (p : Parser α) : Prop :=
  ∀ a d, x = .ok (a, d) → d.Closed ∧ d.rest.length + eats ≤ c.rest.length ∧
    ∀ n, n + slack ≤ d.rest.length → p (c.cut n) = .ok (a, d.cut n)

variable {c d : Cursor} {p : Parser α} {x : Except ParseError (α × Cursor)} {t : Token} {rest : List Token}
  {e k r s : Nat}

theorem Local.mono (h : Local c s e x p) (hs : s ≤ r) (he : k ≤ e) : Local c r k x p := by
  intro a d hx
  obtain ⟨hd, hle, hcut⟩ := h a d hx
  exact ⟨hd, by omega, fun n hn => hcut n (by omega)⟩

/-- A sequence of readers, the second of which reads far enough for the first one. -/
theorem Local.bind {q q' : Parser β} {f f' : β → Parser α} (h : Local c r e (q c) q')
    (hf : ∀ b d, q c = .ok (b, d) → d.Closed → Local d s k (f b d) (f' b)) (hs : r ≤ s + k) :
    Local c s (e + k) ((q >>= f) c) (q' >>= f') := by
  intro a d' hx
  simp only [Bind.bind, StateT.bind] at hx ⊢
  match hq : q c with
  | .error err =>
    rw [hq] at hx
    cases hx
  | .ok (b, d) =>
    rw [hq] at hx
    obtain ⟨hd, hle, hcut⟩ := h b d hq
    obtain ⟨hd', hle', hcut'⟩ := hf b d hq hd a d' hx
    refine ⟨hd', by omega, fun n hn => ?_⟩
    rw [hcut n (by omega)]
    exact hcut' n hn

theorem local_pure (hc : c.Closed) (a : α) : Local c 0 0 ((pure a : Parser α) c) (pure a) := by
  rintro _ _ ⟨⟩
  exact ⟨hc, Nat.le_refl _, fun _ _ => rfl⟩

theorem local_failAt {span : Span} {fault : ParseFault} : Local c s e ((failAt span fault : Parser α) c) p := by
  rintro _ _ ⟨⟩

theorem local_failAt_bind {span : Span} {fault : ParseFault} {f : β → Parser α} :
    Local c s e ((failAt span fault >>= f) c) p := by
  rintro _ _ ⟨⟩

theorem local_failExpected {what : Expectation} : Local c s e ((failExpected what : Parser α) c) p :=
  fun _ _ hx => absurd hx failExpected_ne_ok

theorem local_build (hc : c.Closed) (y : Except BuilderFault α) : Local c 0 0 (build y c) (build y) := by
  cases y with
  | ok a => exact local_pure hc a
  | error fault => rintro _ _ ⟨⟩

/-! ## Single tokens -/

theorem token_eq (hr : c.rest = t :: rest) : token c = .ok (t, c) := by
  simp [token, get, getThe, MonadStateOf.get, StateT.get, bind, StateT.bind, Except.bind, pure, Except.pure,
    StateT.pure, hr]

theorem bind_of_ok {q : Parser β} {b : β} (h : q c = .ok (b, d)) (f : β → Parser α) : (q >>= f) c = f b d := by
  simp only [bind, StateT.bind, h, Except.bind]

theorem token_bind (hr : c.rest = t :: rest) (f : Token → Parser α) : (token >>= f) c = f t c :=
  bind_of_ok (token_eq hr) f

theorem ahead_bind_eq (f : TokenKind → Parser α) : (ahead >>= f) = token >>= fun t => f t.kind := by simp [ahead]

theorem aheadSpan_bind_eq (f : Span → Parser α) : (aheadSpan >>= f) = token >>= fun t => f t.span := by
  simp [aheadSpan]

theorem sees_bind_eq (y : Symbol) (f : Bool → Parser α) :
    (sees y >>= f) = token >>= fun t => f (t.kind.isSymbol y) := by
  simp [sees, ahead]

theorem seesFunction_bind (f : Bool → Parser α) : (seesFunction >>= f) c = f (parametersThenArrow (c.rest.drop 1)) c :=
  rfl

theorem skip_eq_bind : skip = token >>= fun _ => modify Cursor.next := rfl

section Tokens

/-- A reader that looks at the token ahead, and then reads it or asks for it. -/
theorem local_token_bind {f f' : Token → Parser α} (hr : c.rest = t :: rest) (h : Local c s e (f t c) (f' t))
    (hs : 1 ≤ s + e) : Local c s e ((token >>= f) c) (token >>= f') := by
  intro a d hx
  rw [token_bind hr] at hx
  obtain ⟨hd, hle, hcut⟩ := h a d hx
  refine ⟨hd, hle, fun n hn => ?_⟩
  rw [hr, List.length_cons] at hle
  rw [token_bind (rest_cut hr (by omega))]
  exact hcut n hn

theorem local_ahead_bind {f f' : TokenKind → Parser α} (hr : c.rest = t :: rest)
    (h : Local c s e (f t.kind c) (f' t.kind)) (hs : 1 ≤ s + e) : Local c s e ((ahead >>= f) c) (ahead >>= f') := by
  rw [ahead_bind_eq, ahead_bind_eq]
  exact local_token_bind hr h hs

theorem local_aheadSpan_bind {f f' : Span → Parser α} (hc : c.Closed) (h : ∀ span, Local c s e (f span c) (f' span))
    (hs : 1 ≤ s + e) : Local c s e ((aheadSpan >>= f) c) (aheadSpan >>= f') := by
  obtain ⟨t, rest, hr⟩ := hc.rest_eq_cons
  rw [aheadSpan_bind_eq, aheadSpan_bind_eq]
  exact local_token_bind hr (h t.span) hs

/-- A reader that answers because of the token ahead, and answers the same at the end, does not ask for that token. -/
theorem local_ahead_answer {f f' : TokenKind → Parser α} {a : α} (hc : c.Closed) (hr : c.rest = t :: rest)
    (hf : f t.kind c = .ok (a, c)) (hf' : ∀ d rest, d.rest = t :: rest → f' t.kind d = .ok (a, d))
    (hend : f' .endOfText = pure a) : Local c 0 0 ((ahead >>= f) c) (ahead >>= f') := by
  intro b d hx
  rw [ahead_bind_eq, token_bind hr, hf] at hx
  cases hx
  refine ⟨hc, Nat.le_refl _, fun n hn => ?_⟩
  rw [Nat.add_zero, hr, List.length_cons] at hn
  rw [ahead_bind_eq]
  rcases Nat.lt_or_ge rest.length n with hlt | hle
  · obtain rfl : n = c.rest.length := by rw [hr, List.length_cons]; omega
    rw [token_bind (rest_cut_self c), hend]
    rfl
  · rw [token_bind (rest_cut hr hle), hf' _ _ (rest_cut hr hle)]

theorem local_ahead_pure {f f' : TokenKind → Parser α} {a : α} (hc : c.Closed) (hr : c.rest = t :: rest)
    (hf : f t.kind = pure a) (hf' : f' t.kind = pure a) (hend : f' .endOfText = pure a) :
    Local c 0 0 ((ahead >>= f) c) (ahead >>= f') :=
  local_ahead_answer hc hr (by rw [hf]; rfl) (fun _ _ _ => by rw [hf']; rfl) hend

/-- A reader that puts the token ahead to a test: what passes it as the end does need not be there, anything else is
asked for or read. -/
theorem local_test_bind (test : TokenKind → Bool) {f f' : Bool → Parser α} (hc : c.Closed)
    (hsame : Local c s e (f (test .endOfText) c) (f' (test .endOfText)))
    (hother : ∀ t rest, c.rest = t :: rest → t.kind ≠ .endOfText →
      Local c s k (f (!test .endOfText) c) (f' (!test .endOfText))) (hs : 1 ≤ s + k) (hk : e ≤ k) :
    Local c s e ((token >>= fun t => f (test t.kind)) c) (token >>= fun t => f' (test t.kind)) := by
  obtain ⟨t, rest, hr⟩ := hc.rest_eq_cons
  intro a d hx
  rw [token_bind hr] at hx
  by_cases htest : test t.kind = test .endOfText
  · rw [htest] at hx
    obtain ⟨hd, hle, hcut⟩ := hsame a d hx
    refine ⟨hd, hle, fun n hn => ?_⟩
    rw [← hcut n hn]
    rw [hr, List.length_cons] at hle
    rcases Nat.lt_or_ge rest.length n with hlt | hn
    · obtain rfl : n = c.rest.length := by rw [hr, List.length_cons]; omega
      rw [token_bind (rest_cut_self c)]
    · rw [token_bind (rest_cut hr hn), htest]
  · have hne : test t.kind = !test .endOfText := Bool.eq_not_of_ne htest
    rw [hne] at hx
    obtain ⟨hd, hle, hcut⟩ := hother t rest hr (fun ht => htest (by rw [ht])) a d hx
    refine ⟨hd, by omega, fun n hn => ?_⟩
    rw [hr, List.length_cons] at hle
    rw [token_bind (rest_cut hr (by omega)), hne]
    exact hcut n hn

theorem local_lastStop_bind {f f' : Nat → Parser α} (h : Local c s e (f c.lastStop c) (f' c.lastStop)) :
    Local c s e ((lastStop >>= f) c) (lastStop >>= f') := h

theorem skip_of_rest (hr : c.rest = t :: rest) : skip c = .ok ((), c.next) := by
  rw [skip_eq_bind, token_bind hr]
  rfl

theorem local_skip (hc : c.Closed) (hr : c.rest = t :: rest) (ht : t.kind ≠ .endOfText) :
    Local c 0 1 (skip c) skip := by
  intro _ d hx
  obtain rfl : c.next = d := by simpa [skip_of_rest hr] using hx
  refine ⟨hc.next, next_rest_lt hr ht, fun n hn => ?_⟩
  have hlt := next_rest_lt hr ht
  rw [hr, List.length_cons] at hlt
  rw [skip_of_rest (rest_cut hr (by omega)), next_cut hr ht (by omega)]

/-- The end is not passed, and neither is the one where the text is cut off. -/
theorem local_skip_any (hc : c.Closed) : Local c 0 0 (skip c) skip := by
  obtain ⟨t, rest, hr⟩ := hc.rest_eq_cons
  by_cases ht : t.kind = .endOfText
  · have hstays {c : Cursor} {t : Token} {rest : List Token} (hr : c.rest = t :: rest) (ht : t.kind = .endOfText) :
        skip c = .ok ((), c) := by
      rw [skip_of_rest hr, Cursor.next, hr]
      simp [ht]
    intro _ d hx
    obtain rfl : c = d := by simpa [hstays hr ht] using hx
    refine ⟨hc, Nat.le_refl _, fun n hn => ?_⟩
    rcases Nat.lt_or_ge rest.length n with hlt | hle
    · obtain rfl : n = c.rest.length := by rw [hr, List.length_cons] at hn ⊢; omega
      exact hstays (rest_cut_self c) rfl
    · exact hstays (rest_cut hr hle) ht
  · exact (local_skip hc hr ht).mono (Nat.le_refl _) (Nat.zero_le _)

/-- A reader that looks for a symbol: where it is there, it is asked for or read. -/
theorem local_sees_bind {y : Symbol} {f f' : Bool → Parser α} (hc : c.Closed)
    (htrue : ∀ t rest, c.rest = t :: rest → t.kind ≠ .endOfText → Local c s k (f true c) (f' true))
    (hfalse : Local c s e (f false c) (f' false)) (hs : 1 ≤ s + k) (hk : e ≤ k) :
    Local c s e ((sees y >>= f) c) (sees y >>= f') := by
  rw [sees_bind_eq, sees_bind_eq]
  exact local_test_bind (TokenKind.isSymbol y) hc hfalse htrue hs hk

/-- What passes as the end of a statement need not be there. -/
theorem local_seesStatementEnd_bind {f f' : Bool → Parser α} (hc : c.Closed)
    (htrue : Local c s e (f true c) (f' true)) (hfalse : Local c s k (f false c) (f' false)) (hs : 1 ≤ s + k)
    (hk : e ≤ k) : Local c s e ((seesStatementEnd >>= f) c) (seesStatementEnd >>= f') := by
  have hbind (f : Bool → Parser α) : (seesStatementEnd >>= f) =
      token >>= fun t => f (t.kind.isSymbol .semi || t.kind.isSymbol .rBrace || t.kind.isEnd) := by
    simp [seesStatementEnd, ahead]
  rw [hbind, hbind]
  exact local_test_bind (fun k => k.isSymbol .semi || k.isSymbol .rBrace || k.isEnd) hc htrue (fun _ _ _ _ => hfalse)
    hs hk

theorem local_accept {y : Symbol} (hc : c.Closed) : Local c 0 0 (accept y c) (accept y) :=
  local_sees_bind hc
    (fun _ _ hr ht => (local_skip hc hr ht).bind (k := 0) (fun _ _ _ hd => local_pure hd true) (Nat.le_refl _))
    (local_pure hc false) (Nat.le_refl _) (Nat.zero_le _)

theorem local_expect {y : Symbol} {what : Expectation} (hc : c.Closed) :
    Local c 0 1 (expect y what c) (expect y what) :=
  local_sees_bind hc (fun _ _ hr ht => local_skip hc hr ht) local_failExpected (Nat.le_refl _) (Nat.le_refl _)

theorem local_expectName {what : Expectation} (hc : c.Closed) :
    Local c 0 1 (expectName what c) (expectName what) := by
  obtain ⟨t, rest, hr⟩ := hc.rest_eq_cons
  refine local_ahead_bind hr ?_ (Nat.le_refl _)
  cases hk : t.kind with
  | ident name =>
    exact (local_skip hc hr (by simp [hk])).bind (k := 0) (fun _ _ _ hd => local_pure hd name) (Nat.le_refl _)
  | _ => exact local_failExpected

end Tokens

/-- A loop is as local as its steps. -/
theorem local_repeatWhile {step step' : α → Parser (α × Bool)} (hp : Progresses step) (hp' : Progresses step')
    (h : ∀ a c, c.Closed → Local c s 0 (step a c) (step' a)) (a : α) (hc : c.Closed) :
    Local c s 0 (repeatWhile step a c) (repeatWhile step' a) := by
  generalize hn : c.rest.length = n
  induction n using Nat.strongRecOn generalizing a c with
  | ind n ih =>
    intro b d' hx
    rw [repeatWhile_eq hp a hc] at hx
    simp only [Bind.bind, StateT.bind] at hx
    match hs : step a c with
    | .error err =>
      rw [hs] at hx
      cases hx
    | .ok ((a', more), d) =>
      rw [hs] at hx
      obtain ⟨hd, hle, hcut⟩ := h a c hc _ _ hs
      cases more with
      | false =>
        cases hx
        exact ⟨hd, hle, fun n hn => repeatWhile_of_last hp' (closed_cut n c) (hcut n hn)⟩
      | true =>
        obtain ⟨hd', hle', hcut'⟩ := ih _ (hn ▸ (hp a c a' d hc hs).2) a' hd rfl b d' hx
        refine ⟨hd', by omega, fun n hn => ?_⟩
        rw [repeatWhile_of_more hp' (closed_cut n c) (hcut n (by omega))]
        exact hcut' n hn

end Parser

end GameScript
