import GameScript.Proofs.Parse.Local

/-!
# Where readers go

A `Walk` takes a run of a reader apart into what it does to the cursor, in order: it looks at the token ahead, asks where
the last one ended, looks whether a function is ahead, fails, or goes past a token. Only the last of these moves the
cursor, so a walk is told with the cursors that it comes to. There is a rule for a sequence and one for a loop; nothing
else is needed for the readers of the grammar.

Whatever is a walk stays where it should and sees no more than it should. Each cursor it comes to stands behind the
tokens that the one before it does, or behind one more, and never behind an end token (`Walk.exists_places`). And what is
answered, or the error, is the same when there is nothing behind the first end token (`Walk.eq_untilEnd`).
-/

namespace GameScript

/-! ## The first end token -/

/-- Tokens up to the first end token, with it. -/
def upToEnd : List Token → List Token
  | [] => []
  | t :: rest => if t.kind.isEnd then [t] else t :: upToEnd rest

/-- How many tokens stand before the first end token. -/
def firstEnd (tokens : List Token) : Nat := tokens.findIdx (·.kind.isEnd)

section FirstEnd

variable {t : Token} {tokens front : List Token}

theorem upToEnd_cons_of_end (h : t.kind = .endOfText) (rest : List Token) : upToEnd (t :: rest) = [t] :=
  if_pos (TokenKind.isEnd_iff.2 h)

theorem upToEnd_cons (h : t.kind ≠ .endOfText) (rest : List Token) : upToEnd (t :: rest) = t :: upToEnd rest :=
  if_neg (mt TokenKind.isEnd_iff.1 h)

theorem head?_upToEnd (tokens : List Token) : (upToEnd tokens).head? = tokens.head? := by
  cases tokens with
  | nil => rfl
  | cons t rest =>
    rw [upToEnd]
    split <;> rfl

/-- What stands behind an end token makes no difference. -/
theorem upToEnd_append (h : ∃ t ∈ front, t.kind = .endOfText) (back : List Token) :
    upToEnd (front ++ back) = upToEnd front := by
  induction front with
  | nil => exact absurd h (by simp)
  | cons t front ih =>
    by_cases ht : t.kind = .endOfText
    · rw [List.cons_append, upToEnd_cons_of_end ht, upToEnd_cons_of_end ht]
    · obtain ⟨u, hu, hend⟩ := h
      have hu : u ∈ front := (List.mem_cons.1 hu).resolve_left fun he => ht (he ▸ hend)
      rw [List.cons_append, upToEnd_cons ht, upToEnd_cons ht, ih ⟨u, hu, hend⟩]

theorem end_mem_upToEnd (h : ∃ t ∈ tokens, t.kind = .endOfText) : ∃ t ∈ upToEnd tokens, t.kind = .endOfText := by
  induction tokens with
  | nil => exact absurd h (by simp)
  | cons t rest ih =>
    by_cases ht : t.kind = .endOfText
    · rw [upToEnd_cons_of_end ht]
      exact ⟨t, List.mem_cons_self, ht⟩
    · obtain ⟨u, hu, hend⟩ := h
      have hu : u ∈ rest := (List.mem_cons.1 hu).resolve_left fun he => ht (he ▸ hend)
      rw [upToEnd_cons ht]
      exact (ih ⟨u, hu, hend⟩).imp fun v hv => hv.imp_left (List.mem_cons_of_mem t)

theorem firstEnd_lt (h : ∃ t ∈ tokens, t.kind = .endOfText) : firstEnd tokens < tokens.length := by
  obtain ⟨t, ht, hend⟩ := h
  exact List.findIdx_lt_length_of_exists ⟨t, ht, TokenKind.isEnd_iff.2 hend⟩

theorem exists_eq_upToEnd_append (tokens : List Token) : ∃ back, tokens = upToEnd tokens ++ back := by
  induction tokens with
  | nil => exact ⟨[], rfl⟩
  | cons t rest ih =>
    rw [upToEnd]
    split
    · exact ⟨rest, rfl⟩
    · exact ih.imp fun back hback => congrArg (t :: ·) hback

/-! The lookahead for parameters goes on only behind a name, a comma or a parenthesis, and none of them is an end. -/

theorem namesThenArrow_append (h : namesThenArrow front = true) (back : List Token) :
    namesThenArrow (front ++ back) = true := by
  fun_induction namesThenArrow front with
  | case1 name s s' rest ih => exact ih h
  | case2 name s s' s'' rest => rfl
  | case3 front hcomma harrow => cases h

theorem namesThenArrow_upToEnd (tokens : List Token) : namesThenArrow (upToEnd tokens) = namesThenArrow tokens := by
  rw [Bool.eq_iff_iff]
  constructor
  · intro h
    obtain ⟨back, hback⟩ := exists_eq_upToEnd_append tokens
    rw [hback]
    exact namesThenArrow_append h back
  · intro h
    fun_induction namesThenArrow tokens with
    | case1 name s s' rest ih => exact ih h
    | case2 name s s' s'' rest => rfl
    | case3 tokens hcomma harrow => cases h

theorem parametersThenArrow_iff : parametersThenArrow tokens = true ↔
    (∃ s s' rest, tokens = ⟨.symbol .rParen, s⟩ :: ⟨.symbol .fatArrow, s'⟩ :: rest) ∨ namesThenArrow tokens = true := by
  unfold parametersThenArrow
  split
  · exact iff_of_true rfl (.inl ⟨_, _, _, rfl⟩)
  · rename_i hnone
    exact (or_iff_right fun ⟨s, s', rest, h⟩ => hnone s s' rest h).symm

theorem parametersThenArrow_upToEnd (tokens : List Token) :
    parametersThenArrow (upToEnd tokens) = parametersThenArrow tokens := by
  rw [Bool.eq_iff_iff, parametersThenArrow_iff, parametersThenArrow_iff, namesThenArrow_upToEnd]
  refine or_congr_left' fun _ => ⟨?_, ?_⟩
  · rintro ⟨s, s', rest, h⟩
    obtain ⟨back, hback⟩ := exists_eq_upToEnd_append tokens
    exact ⟨s, s', rest ++ back, by rw [hback, h]; rfl⟩
  · rintro ⟨s, s', rest, rfl⟩
    exact ⟨s, s', upToEnd rest, rfl⟩

end FirstEnd

namespace Cursor

variable {c : Cursor} {t : Token} {rest tokens : List Token} {n : Nat}

/-- The place in a text in which nothing stands behind the first end token. -/
def untilEnd (c : Cursor) : Cursor := ⟨c.lastStop, upToEnd c.rest⟩

/-- The place behind the first `n` tokens. -/
def behind (tokens : List Token) (n : Nat) : Cursor :=
  ⟨((tokens[n - 1]?).map (·.span.stop)).getD 0, tokens.drop n⟩

theorem ofTokens_eq_behind (tokens : List Token) : ofTokens tokens = behind (closeTokens tokens) 0 := by
  rw [ofTokens, behind, List.head?_eq_getElem?]
  rfl

theorem next_of_end (hr : c.rest = t :: rest) (ht : t.kind = .endOfText) : c.next = c := by
  simp [next, hr, ht]

theorem rest_untilEnd (hr : c.rest = t :: rest) : ∃ rest', c.untilEnd.rest = t :: rest' := by
  rw [untilEnd, hr, upToEnd]
  split
  · exact ⟨[], rfl⟩
  · exact ⟨upToEnd rest, rfl⟩

theorem Closed.untilEnd (h : c.Closed) : c.untilEnd.Closed := end_mem_upToEnd h

theorem next_untilEnd (hr : c.rest = t :: rest) : c.untilEnd.next = c.next.untilEnd := by
  obtain ⟨rest', hr'⟩ := rest_untilEnd hr
  by_cases ht : t.kind = .endOfText
  · rw [next_of_end hr ht, next_of_end hr' ht]
  · rw [next_of_rest hr ht, next_of_rest hr' ht, Cursor.untilEnd]
    rw [Cursor.untilEnd, hr, upToEnd_cons ht] at hr'
    rw [(List.cons.inj hr').2]

theorem closed_behind (hn : n ≤ firstEnd tokens) (hend : firstEnd tokens < tokens.length) :
    (behind tokens n).Closed := by
  refine ⟨tokens[firstEnd tokens], List.mem_drop_iff_getElem.2 ⟨firstEnd tokens - n, by omega, ?_⟩,
    TokenKind.isEnd_iff.1 (List.findIdx_getElem (w := hend))⟩
  simp [Nat.add_sub_cancel' hn]

/-- Before the first end token, the cursor goes on by one token; there, it stays. -/
theorem next_behind (hn : n ≤ firstEnd tokens) (hend : firstEnd tokens < tokens.length) :
    ∃ m, (behind tokens n).next = behind tokens m ∧ n ≤ m ∧ m ≤ n + 1 ∧ m ≤ firstEnd tokens := by
  have hlt : n < tokens.length := by omega
  have hr : (behind tokens n).rest = tokens[n] :: tokens.drop (n + 1) := List.drop_eq_getElem_cons hlt
  rcases Nat.lt_or_eq_of_le hn with hn | rfl
  · have ht : tokens[n].kind ≠ .endOfText :=
      mt TokenKind.isEnd_iff.2 (Bool.eq_false_iff.1 (List.not_of_lt_findIdx hn))
    refine ⟨n + 1, ?_, Nat.le_succ n, Nat.le_refl _, hn⟩
    rw [next_of_rest hr ht, behind, Nat.add_sub_cancel, List.getElem?_eq_getElem hlt]
    rfl
  · have ht : tokens[firstEnd tokens].kind = .endOfText := TokenKind.isEnd_iff.1 (List.findIdx_getElem (w := hend))
    exact ⟨firstEnd tokens, next_of_end hr ht, Nat.le_refl _, Nat.le_succ _, Nat.le_refl _⟩

end Cursor

open Cursor

/-! ## Walks -/

namespace Parser

/-- From a cursor, a reader comes to the cursors of a list, in this order. -/
inductive Walk : {α : Type} → Parser α → Cursor → List Cursor → Prop
  | pure {α : Type} (a : α) (c : Cursor) : Walk (Pure.pure a : Parser α) c []
  | failAt {α : Type} (span : Span) (fault : ParseFault) (c : Cursor) : Walk (failAt span fault : Parser α) c []
  | breach {α : Type} (b : Breach) (c : Cursor) : Walk (breach b : Parser α) c []
  | lastStop (c : Cursor) : Walk lastStop c []
  /-- There must be a token to look at. -/
  | token {c : Cursor} {t : Token} {rest : List Token} (hr : c.rest = t :: rest) : Walk token c []
  /-- The token ahead, which the lookahead starts behind, must not be the end. -/
  | seesFunction {c : Cursor} {t : Token} {rest : List Token} (hr : c.rest = t :: rest) (ht : t.kind ≠ .endOfText) :
      Walk seesFunction c []
  | skip {c : Cursor} {t : Token} {rest : List Token} (hr : c.rest = t :: rest) : Walk skip c [c.next]
  | stop {α β : Type} {p : Parser β} {c : Cursor} {cs : List Cursor} {e : ParseError} (f : β → Parser α)
      (h : Walk p c cs) (he : p c = .error e) : Walk (p >>= f) c cs
  | bind {α β : Type} {p : Parser β} {f : β → Parser α} {c d : Cursor} {cs ds : List Cursor} {b : β}
      (h : Walk p c cs) (hb : p c = .ok (b, d)) (hf : Walk (f b) d ds) : Walk (p >>= f) c (cs ++ ds)
  | loop {α : Type} {step : α → Parser (α × Bool)} {a : α} {c : Cursor} {cs : List Cursor} (hp : Progresses step)
      (h : Walk (step a >>= fun (a, more) => if more then repeatWhile step a else Pure.pure a) c cs) :
      Walk (repeatWhile step a) c cs

variable {α β : Type} {p : Parser α} {c : Cursor} {cs : List Cursor}

theorem bind_of_error {q : Parser β} {e : ParseError} (h : q c = .error e) (f : β → Parser α) :
    (q >>= f) c = .error e := by
  simp only [Bind.bind, StateT.bind, h, Except.bind]

theorem seesFunction_eq (c : Cursor) : seesFunction c = .ok (parametersThenArrow (c.rest.drop 1), c) := rfl

/-- The end of the text stays ahead. -/
theorem Walk.closed (h : Walk p c cs) (hc : c.Closed) {a : α} {d : Cursor} (ha : p c = .ok (a, d)) : d.Closed := by
  induction h generalizing d with
  | pure | lastStop | seesFunction =>
    cases ha
    exact hc
  | failAt | breach => cases ha
  | token hr =>
    rw [token_eq hr] at ha
    cases ha
    exact hc
  | skip hr =>
    rw [skip_of_rest hr] at ha
    cases ha
    exact hc.next
  | stop f h he ih =>
    rw [bind_of_error he] at ha
    cases ha
  | bind h hb hf ih ih' =>
    rw [bind_of_ok hb] at ha
    exact ih' (ih hc hb) ha
  | loop hp h ih =>
    rw [repeatWhile_eq hp _ hc] at ha
    exact ih hc ha

/-- Places that follow one another, none of them behind an end token. -/
abbrev Places (tokens : List Token) (n : Nat) (ns : List Nat) : Prop :=
  (n :: ns).IsChain fun i j => i ≤ j ∧ j ≤ i + 1 ∧ j ≤ firstEnd tokens

theorem places_append {tokens : List Token} {n : Nat} {ns ms : List Nat} (h : Places tokens n ns)
    (h' : Places tokens (ns.getLastD n) ms) : Places tokens n (ns ++ ms) := by
  induction ns generalizing n with
  | nil => exact h'
  | cons m ns ih =>
    obtain ⟨hm, hns⟩ := List.isChain_cons_cons.1 h
    rw [List.getLastD_cons] at h'
    exact List.isChain_cons_cons.2 ⟨hm, ih hns h'⟩

/-- A walk keeps to the tokens up to the first end token, and goes by them one at a time; an answer is given at the place
that it comes to last. -/
theorem Walk.exists_places {tokens : List Token} (hend : firstEnd tokens < tokens.length) (h : Walk p c cs) {n : Nat}
    (hn : n ≤ firstEnd tokens) (hc : c = behind tokens n) :
    ∃ ns : List Nat, cs = ns.map (behind tokens) ∧ Places tokens n ns ∧ ns.getLastD n ≤ firstEnd tokens ∧
      ∀ a d, p c = .ok (a, d) → d = behind tokens (ns.getLastD n) := by
  induction h generalizing n with
  | pure | lastStop | seesFunction =>
    refine ⟨[], rfl, .singleton n, hn, ?_⟩
    rintro a d ⟨⟩
    exact hc
  | failAt | breach => exact ⟨[], rfl, .singleton n, hn, nofun⟩
  | token hr =>
    refine ⟨[], rfl, .singleton n, hn, ?_⟩
    rw [token_eq hr]
    rintro a d ⟨⟩
    exact hc
  | skip hr =>
    obtain ⟨m, hm, hle, hsucc, hend⟩ := next_behind hn hend
    rw [← hc] at hm
    refine ⟨[m], by rw [hm]; rfl, List.isChain_pair.2 ⟨hle, hsucc, hend⟩, hend, ?_⟩
    rw [skip_of_rest hr]
    rintro a d ⟨⟩
    exact hm
  | stop f h he ih =>
    obtain ⟨ns, hns, hplaces, hlast, -⟩ := ih hn hc
    refine ⟨ns, hns, hplaces, hlast, ?_⟩
    rw [bind_of_error he]
    nofun
  | bind h hb hf ih ih' =>
    -- the second reader starts at the place that the first one comes to last
    obtain ⟨ns, rfl, hplaces, hlast, hd⟩ := ih hn hc
    obtain ⟨ms, rfl, hplaces', hlast', hd'⟩ := ih' hlast (hd _ _ hb)
    have hgetLastD : (ns ++ ms).getLastD n = ms.getLastD (ns.getLastD n) := by
      simp only [List.getLastD_eq_getLast?, List.getLast?_append, Option.getD_or]
    refine ⟨ns ++ ms, by rw [List.map_append], places_append hplaces hplaces', hgetLastD ▸ hlast', ?_⟩
    rw [bind_of_ok hb, hgetLastD]
    exact hd'
  | loop hp h ih =>
    rw [repeatWhile_eq hp _ (hc ▸ closed_behind hn hend)]
    exact ih hn hc

/-- What a walk comes to does not depend on what stands behind the first end token. -/
theorem Walk.eq_untilEnd (h : Walk p c cs) (hc : c.Closed) :
    p c.untilEnd = (p c).map fun (a, d) => (a, d.untilEnd) := by
  induction h with
  | pure | failAt | breach | lastStop => rfl
  | token hr =>
    obtain ⟨rest', hr'⟩ := rest_untilEnd hr
    rw [token_eq hr, token_eq hr']
    rfl
  | @seesFunction c t rest hr ht =>
    have hrest : c.untilEnd.rest = t :: upToEnd rest := by rw [Cursor.untilEnd, hr, upToEnd_cons ht]
    rw [seesFunction_eq, seesFunction_eq, hrest, hr, List.drop_one, List.tail_cons, parametersThenArrow_upToEnd]
    rfl
  | skip hr =>
    obtain ⟨rest', hr'⟩ := rest_untilEnd hr
    rw [skip_of_rest hr, skip_of_rest hr', next_untilEnd hr]
    rfl
  | stop f h he ih =>
    -- an error has no cursor, so it is the same error
    have he' := ih hc
    rw [he] at he'
    rw [bind_of_error he, bind_of_error he']
    rfl
  | bind h hb hf ih ih' =>
    have hb' := ih hc
    rw [hb] at hb'
    rw [bind_of_ok hb, bind_of_ok hb']
    exact ih' (h.closed hc hb)
  | loop hp h ih =>
    rw [repeatWhile_eq hp _ hc, repeatWhile_eq hp _ hc.untilEnd]
    exact ih hc

end Parser

end GameScript
