import GameScript.Parse.Grammar
import GameScript.Proofs.Parse.Reader

/-!
# Reading what is known to be ahead

A cursor `Spells` the kinds of the tokens that are ahead of it. `Gives fits good ks` says all about the outcome of a
reader on tokens that are spelled out: when `fits` holds, the answer is `good` and `ks` is left to be read; when it
does not, the reader says that it is nested too deeply. The rules follow a reader from one part to the next
(`Gives.bind`); what is read without nesting keeps `fits` as it is.
-/

namespace GameScript

/-- The kinds of the tokens that are ahead, the end among them. -/
def Cursor.Spells (c : Cursor) (ks : List TokenKind) : Prop := c.rest.map Token.kind = ks ∧ .endOfText ∈ ks

namespace Cursor

variable {c : Cursor} {k : TokenKind} {ks : List TokenKind}

theorem Spells.closed (h : c.Spells ks) : c.Closed := by
  obtain ⟨rfl, he⟩ := h
  obtain ⟨t, ht, hk⟩ := List.mem_map.1 he
  exact ⟨t, ht, hk⟩

theorem Spells.rest_eq (h : c.Spells (k :: ks)) :
    ∃ t rest, c.rest = t :: rest ∧ t.kind = k ∧ rest.map Token.kind = ks := List.map_eq_cons_iff.1 h.1

/-- Past a token that is not the end, the others are ahead. -/
theorem Spells.next (h : c.Spells (k :: ks)) (hk : k ≠ .endOfText) : c.next.Spells ks := by
  obtain ⟨t, rest, hr, rfl, hks⟩ := h.rest_eq
  have ht : ¬t.kind.isEnd = true := fun he => hk (TokenKind.isEnd_iff.1 he)
  have he : .endOfText ∈ t.kind :: ks := h.2
  refine ⟨by simpa [Cursor.next, hr, ht] using hks, ?_⟩
  rcases List.mem_cons.1 he with he | he
  · exact absurd he.symm hk
  · exact he

end Cursor

namespace Parser

variable {α β : Type}

/-- The outcome of a reader on tokens that are known: a good answer with `ks` left to be read, or no room. -/
def Gives (fits : Prop) (good : α → Prop) (ks : List TokenKind) (x : Except ParseError (α × Cursor)) : Prop :=
  (fits ∧ ∃ a d, x = .ok (a, d) ∧ good a ∧ d.Spells ks) ∨ (¬fits ∧ ∃ span, x = .error ⟨.nestedTooDeeply, span⟩)

variable {fits fits' : Prop} {good : α → Prop} {ks ks' : List TokenKind} {c : Cursor} {k : TokenKind}

theorem Gives.congr {x : Except ParseError (α × Cursor)} (h : Gives fits good ks x) (hf : fits ↔ fits') :
    Gives fits' good ks x := by
  unfold Gives at h ⊢
  rwa [← hf]

theorem Gives.mono {good' : α → Prop} {x : Except ParseError (α × Cursor)} (h : Gives fits good ks x)
    (hg : ∀ a, good a → good' a) : Gives fits good' ks x := by
  rcases h with ⟨hf, a, d, hx, ha, hd⟩ | ⟨hf, hx⟩
  · exact .inl ⟨hf, a, d, hx, hg a ha, hd⟩
  · exact .inr ⟨hf, hx⟩

theorem gives_pure {a : α} (ha : good a) (hc : c.Spells ks) : Gives True good ks ((pure a : Parser α) c) :=
  .inl ⟨trivial, a, c, rfl, ha, hc⟩

theorem gives_tooDeep (hc : c.Closed) (hf : ¬fits) : Gives fits good ks ((tooDeep : Parser α) c) := by
  obtain ⟨t, rest, hr⟩ := hc.rest_eq_cons
  refine .inr ⟨hf, t.span, ?_⟩
  simp [tooDeep, aheadSpan, token, failAt, get, getThe, MonadStateOf.get, StateT.get, bind, StateT.bind, Except.bind,
    pure, Except.pure, StateT.pure, throw, throwThe, MonadExceptOf.throw, StateT.lift, hr]

/-- A reader with a known outcome, and then another one. -/
theorem Gives.bind {p : Parser β} {f : β → Parser α} {goodFirst : β → Prop} (h : Gives fits goodFirst ks' (p c))
    (hf : ∀ b d, goodFirst b → d.Spells ks' → Gives fits' good ks (f b d)) :
    Gives (fits ∧ fits') good ks ((p >>= f) c) := by
  rcases h with ⟨hfits, b, d, hx, hb, hd⟩ | ⟨hfits, span, hx⟩
  · have he : (p >>= f) c = f b d := by simp only [Bind.bind, StateT.bind, hx, Except.bind]
    rw [he]
    exact (hf b d hb hd).congr ⟨fun h => ⟨hfits, h⟩, And.right⟩
  · refine .inr ⟨fun h => hfits h.1, span, ?_⟩
    simp only [Bind.bind, StateT.bind, hx, Except.bind]

/-- A reader with a known outcome, and then one that always succeeds. -/
theorem Gives.bind_sure {p : Parser β} {f : β → Parser α} {goodFirst : β → Prop} (h : Gives fits goodFirst ks' (p c))
    (hf : ∀ b d, goodFirst b → d.Spells ks' → Gives True good ks (f b d)) : Gives fits good ks ((p >>= f) c) :=
  (h.bind hf).congr ⟨And.left, fun h => ⟨h, trivial⟩⟩

/-- A reader that always succeeds, and then one with a known outcome. -/
theorem Gives.sure_bind {p : Parser β} {f : β → Parser α} {goodFirst : β → Prop} (h : Gives True goodFirst ks' (p c))
    (hf : ∀ b d, goodFirst b → d.Spells ks' → Gives fits good ks (f b d)) : Gives fits good ks ((p >>= f) c) :=
  (h.bind hf).congr ⟨And.right, fun h => ⟨trivial, h⟩⟩

/-- A reader that succeeds with a known answer here, and then another one. -/
theorem gives_bind {p : Parser β} {f : β → Parser α} {b : β} {d : Cursor} (hp : p c = .ok (b, d))
    (h : Gives fits good ks (f b d)) : Gives fits good ks ((p >>= f) c) := by
  have he : (p >>= f) c = f b d := by simp only [bind, StateT.bind, hp, Except.bind]
  rwa [he]

/-! ## Single tokens -/

section Tokens

variable (hc : c.Spells (k :: ks'))

include hc

theorem ahead_eq : ahead c = .ok (k, c) := by
  obtain ⟨t, rest, hr, rfl, -⟩ := hc.rest_eq
  simp [ahead, token, get, getThe, MonadStateOf.get, StateT.get, bind, StateT.bind, Except.bind, pure, Except.pure,
    StateT.pure, hr]

theorem aheadSpan_eq : ∃ span, aheadSpan c = .ok (span, c) := by
  obtain ⟨t, rest, hr, rfl, -⟩ := hc.rest_eq
  exact ⟨t.span, by
    simp [aheadSpan, token, get, getThe, MonadStateOf.get, StateT.get, bind, StateT.bind, Except.bind, pure,
      Except.pure, StateT.pure, hr]⟩

theorem skip_eq : skip c = .ok ((), c.next) := by
  obtain ⟨t, rest, hr, rfl, -⟩ := hc.rest_eq
  simp [skip, token, get, getThe, MonadStateOf.get, StateT.get, bind, StateT.bind, Except.bind, pure, Except.pure,
    StateT.pure, hr, modify, modifyGet, MonadStateOf.modifyGet, StateT.modifyGet]

theorem gives_ahead {f : TokenKind → Parser α} (h : Gives fits good ks (f k c)) :
    Gives fits good ks ((ahead >>= f) c) := gives_bind (ahead_eq hc) h

theorem gives_aheadSpan {f : Span → Parser α} (h : ∀ span, Gives fits good ks (f span c)) :
    Gives fits good ks ((aheadSpan >>= f) c) := by
  obtain ⟨span, hs⟩ := aheadSpan_eq hc
  exact gives_bind hs (h span)

theorem gives_skip {f : Unit → Parser α} (hk : k ≠ .endOfText)
    (h : c.next.Spells ks' → Gives fits good ks (f () c.next)) : Gives fits good ks ((skip >>= f) c) :=
  gives_bind (skip_eq hc) (h (hc.next hk))

theorem sees_eq {s : Symbol} : sees s c = .ok (k.isSymbol s, c) := by
  simp [sees, bind, StateT.bind, ahead_eq hc, Except.bind, pure, StateT.pure, Except.pure]

theorem gives_sees {s : Symbol} {f : Bool → Parser α} (h : Gives fits good ks (f (k.isSymbol s) c)) :
    Gives fits good ks ((sees s >>= f) c) := gives_bind (sees_eq hc) h

theorem gives_accept_of_ne {s : Symbol} {f : Bool → Parser α} (hk : k ≠ .symbol s)
    (h : Gives fits good ks (f false c)) : Gives fits good ks ((accept s >>= f) c) := by
  have hs : k.isSymbol s = false := Bool.eq_false_iff.2 (mt TokenKind.isSymbol_iff.1 hk)
  refine gives_bind ?_ h
  simp [accept, bind, StateT.bind, sees_eq hc, hs, Except.bind, pure, StateT.pure, Except.pure]

end Tokens

theorem gives_lastStop {f : Nat → Parser α} (h : ∀ stop, Gives fits good ks (f stop c)) :
    Gives fits good ks ((lastStop >>= f) c) := gives_bind rfl (h c.lastStop)

section Symbols

variable {s : Symbol} (hc : c.Spells (.symbol s :: ks'))

include hc

theorem gives_accept {f : Bool → Parser α} (h : c.next.Spells ks' → Gives fits good ks (f true c.next)) :
    Gives fits good ks ((accept s >>= f) c) := by
  refine gives_bind ?_ (h (hc.next (by simp)))
  simp [accept, bind, StateT.bind, sees_eq hc, TokenKind.isSymbol, skip_eq hc, Except.bind, pure, StateT.pure,
    Except.pure]

theorem gives_expect {what : Expectation} {f : Unit → Parser α}
    (h : c.next.Spells ks' → Gives fits good ks (f () c.next)) : Gives fits good ks ((expect s what >>= f) c) := by
  refine gives_bind ?_ (h (hc.next (by simp)))
  simp [expect, bind, StateT.bind, sees_eq hc, TokenKind.isSymbol, skip_eq hc, Except.bind]

end Symbols

theorem gives_expectName {what : Expectation} {name : String} {f : String → Parser α}
    (hc : c.Spells (.ident name :: ks')) (h : c.next.Spells ks' → Gives fits good ks (f name c.next)) :
    Gives fits good ks ((expectName what >>= f) c) := by
  refine gives_bind ?_ (h (hc.next (by simp)))
  simp [expectName, bind, StateT.bind, ahead_eq hc, skip_eq hc, Except.bind, pure, StateT.pure, Except.pure]

theorem gives_build {x : Except BuilderFault α} {a : α} (hx : x = .ok a) (ha : good a) (hc : c.Spells ks) :
    Gives True good ks (build x c) := by
  subst hx
  exact gives_pure ha hc

/-! ## Loops -/

section Loops

variable {step : α → Parser (α × Bool)} {a : α}

/-- A loop whose next step asks for no more. -/
theorem gives_repeatWhile_last (hp : Progresses step) (hc : c.Closed)
    (h : Gives fits (fun (r : α × Bool) => r.2 = false ∧ good r.1) ks (step a c)) :
    Gives fits good ks (repeatWhile step a c) := by
  rw [repeatWhile_eq hp a hc]
  refine h.bind_sure fun (b, more) d ⟨hm, hb⟩ hd => ?_
  obtain rfl : more = false := hm
  exact gives_pure hb hd

/-- A loop whose next step asks for more. -/
theorem gives_repeatWhile_more (hp : Progresses step) (hc : c.Closed) {goodFirst : α → Prop}
    (h : Gives fits (fun (r : α × Bool) => r.2 = true ∧ goodFirst r.1) ks' (step a c))
    (hrest : ∀ b d, goodFirst b → d.Spells ks' → Gives fits' good ks (repeatWhile step b d)) :
    Gives (fits ∧ fits') good ks (repeatWhile step a c) := by
  rw [repeatWhile_eq hp a hc]
  refine h.bind fun (b, more) d ⟨hm, hb⟩ hd => ?_
  obtain rfl : more = true := hm
  exact hrest b d hb hd

end Loops

end Parser

end GameScript
