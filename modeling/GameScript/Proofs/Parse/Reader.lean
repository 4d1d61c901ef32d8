import GameScript.Parse.Cursor
import Mathlib

/-!
# What readers keep

`Sure Q` holds of the outcome of a reader when it is no breach and, where it is an answer, `Q` holds of the answer and
of the cursor after it. The rules of this module say so of the combinators, from a cursor with an end token ahead; how
far a reader gets is said by `Cursor.Advances`.

Main statements: a sequence is sure when its parts are (`sure_bind`), the token ahead is there (`sure_token`), and a
loop keeps what its step keeps (`sure_repeatWhile`).
-/

namespace GameScript

namespace Cursor

/-- From one cursor to another at least `n` tokens are read, and an end token is still ahead. -/
def Advances (n : Nat) (c d : Cursor) : Prop := d.Closed ∧ d.rest.length + n ≤ c.rest.length

variable {m n : Nat} {b c d : Cursor}

theorem Advances.closed (h : Advances n c d) : d.Closed := h.1

theorem Closed.advances (h : c.Closed) : Advances 0 c c := ⟨h, Nat.le_refl _⟩

theorem Advances.trans (h : Advances m b c) (h' : Advances n c d) : Advances (m + n) b d :=
  ⟨h'.1, by have := h.2; have := h'.2; omega⟩

theorem Advances.mono (h : Advances m c d) (hn : n ≤ m) : Advances n c d := ⟨h.1, by have := h.2; omega⟩

theorem Closed.advances_next (h : c.Closed) : Advances 0 c c.next := ⟨h.next, c.next_rest_le⟩

theorem Closed.advances_next_of_ne (h : c.Closed) {t : Token} {rest : List Token} (hr : c.rest = t :: rest)
    (ht : t.kind ≠ .endOfText) : Advances 1 c c.next := ⟨h.next, next_rest_lt hr ht⟩

end Cursor

namespace Parser

variable {α β : Type}

/-- An outcome that is no breach, and of which `Q` holds where it is an answer. -/
def Sure (Q : α → Cursor → Prop) : Except ParseError (α × Cursor) → Prop
  | .ok (a, c) => Q a c
  | .error e => ∀ b, e.fault ≠ .broken b

variable {Q : α → Cursor → Prop} {c : Cursor}

theorem Sure.mono {P : α → Cursor → Prop} {x : Except ParseError (α × Cursor)} (h : Sure P x)
    (hq : ∀ a d, P a d → Q a d) : Sure Q x := by
  match x with
  | .ok (a, d) => exact hq a d h
  | .error _ => exact h

/-- What is known of an outcome is known of the answer it is. -/
theorem Sure.with_eq {x : Except ParseError (α × Cursor)} (h : Sure Q x) :
    Sure (fun a d => x = .ok (a, d) ∧ Q a d) x := by
  match x with
  | .ok (a, d) => exact ⟨rfl, h⟩
  | .error e => exact h

theorem Sure.of_eq_ok {x : Except ParseError (α × Cursor)} (h : Sure Q x) {a : α} {d : Cursor} (hx : x = .ok (a, d)) :
    Q a d := by
  subst hx
  exact h

theorem sure_bind {p : Parser β} {f : β → Parser α} (h : Sure (fun b d => Sure Q (f b d)) (p c)) :
    Sure Q ((p >>= f) c) := by
  simp only [bind, StateT.bind]
  match hp : p c with
  | .ok (b, d) => simpa only [Sure, hp, Except.bind] using h
  | .error e => simpa only [Sure, hp, Except.bind] using h

/-- After a reader of which `P` is known, the rest has to be looked at only where `P` holds. -/
theorem Sure.bind {P : β → Cursor → Prop} {p : Parser β} {f : β → Parser α} (h : Sure P (p c))
    (hf : ∀ b d, P b d → Sure Q (f b d)) : Sure Q ((p >>= f) c) :=
  sure_bind (h.mono hf)

theorem sure_pure {a : α} (h : Q a c) : Sure Q ((pure a : Parser α) c) := h

theorem sure_map {p : Parser β} {f : β → α} (h : Sure (fun b d => Q (f b) d) (p c)) : Sure Q ((f <$> p) c) := by
  simp only [Functor.map, StateT.map]
  exact sure_bind (f := fun b => (pure (f b) : Parser α)) h

theorem sure_failAt {span : Span} {fault : ParseFault} (h : ∀ b, fault ≠ .broken b) :
    Sure Q ((failAt span fault : Parser α) c) := h

theorem sure_token {Q : Token → Cursor → Prop} (hc : c.Closed) (h : ∀ t rest, c.rest = t :: rest → Q t c) :
    Sure Q (token c) := by
  obtain ⟨t, rest, hr⟩ := hc.rest_eq_cons
  have he : token c = .ok (t, c) := by
    simp [token, get, getThe, MonadStateOf.get, StateT.get, bind, StateT.bind, Except.bind, pure, Except.pure,
      StateT.pure, hr]
  rw [he]
  exact h t rest hr

theorem sure_ahead {Q : TokenKind → Cursor → Prop} (hc : c.Closed)
    (h : ∀ t rest, c.rest = t :: rest → Q t.kind c) : Sure Q (ahead c) :=
  sure_bind (sure_token hc fun t rest hr => h t rest hr)

theorem sure_aheadSpan {Q : Span → Cursor → Prop} (hc : c.Closed) (h : ∀ span, Q span c) : Sure Q (aheadSpan c) :=
  sure_bind (sure_token hc fun t _ _ => h t.span)

theorem sure_lastStop {Q : Nat → Cursor → Prop} (h : ∀ stop, Q stop c) : Sure Q (lastStop c) := h _

theorem sure_skip {Q : Unit → Cursor → Prop} (hc : c.Closed) (h : Q () c.next) : Sure Q (skip c) :=
  sure_bind (sure_token hc fun _ _ _ => h)

theorem sure_build {x : Except BuilderFault α} (h : ∃ a, x = .ok a ∧ Q a c) : Sure Q (build x c) := by
  obtain ⟨a, rfl, ha⟩ := h
  exact ha

theorem sure_failExpected {what : Expectation} (hc : c.Closed) : Sure Q ((failExpected what : Parser α) c) :=
  sure_bind (sure_token hc fun _ _ _ => sure_failAt fun _ => by simp)

theorem sure_sees {Q : Bool → Cursor → Prop} {s : Symbol} (hc : c.Closed)
    (h : ∀ t rest, c.rest = t :: rest → Q (t.kind.isSymbol s) c) : Sure Q (sees s c) :=
  sure_bind (sure_ahead hc h)

/-- A symbol that is accepted is read. -/
theorem sure_accept {s : Symbol} (hc : c.Closed) :
    Sure (fun more d => c.Advances (if more then 1 else 0) d) (accept s c) := by
  refine sure_bind (sure_sees hc fun t rest hr => ?_)
  cases hs : t.kind.isSymbol s with
  | false => exact hc.advances
  | true =>
    have ht : t.kind ≠ .endOfText := by simp [TokenKind.isSymbol_iff.1 hs]
    exact sure_bind (sure_skip hc (hc.advances_next_of_ne hr ht))

theorem sure_expect {s : Symbol} {what : Expectation} (hc : c.Closed) :
    Sure (fun _ d => c.Advances 1 d) (expect s what c) := by
  refine sure_bind (sure_sees hc fun t rest hr => ?_)
  cases hs : t.kind.isSymbol s with
  | false => exact sure_failExpected hc
  | true =>
    have ht : t.kind ≠ .endOfText := by simp [TokenKind.isSymbol_iff.1 hs]
    exact sure_skip hc (hc.advances_next_of_ne hr ht)

theorem sure_expectName {what : Expectation} (hc : c.Closed) :
    Sure (fun _ d => c.Advances 1 d) (expectName what c) := by
  refine sure_bind (sure_ahead hc fun t rest hr => ?_)
  cases hk : t.kind with
  | ident name => exact sure_bind (sure_skip hc (hc.advances_next_of_ne hr (by simp [hk])))
  | _ => exact sure_failExpected hc

/-! ## Loops -/

/-- A step of a loop that keeps `I`, and reads a token whenever it asks for more. -/
def Keeps (I : α → Prop) (step : α → Parser (α × Bool)) : Prop :=
  ∀ a c, c.Closed → Sure (fun (r : α × Bool) d => c.Advances (if r.2 then 1 else 0) d ∧ (I a → I r.1)) (step a c)

theorem Keeps.progresses {I : α → Prop} {step : α → Parser (α × Bool)} (h : Keeps I step) : Progresses step :=
  fun a c a' c' hc hs => by
    have hk := h a c hc
    rw [hs] at hk
    obtain ⟨⟨hd, hlt⟩, -⟩ : c.Advances 1 c' ∧ (I a → I a') := hk
    exact ⟨hd, hlt⟩

theorem sure_repeatUpTo {I : α → Prop} {step : α → Parser (α × Bool)} (h : Keeps I step) (bound : Nat) {a : α}
    (hc : c.Closed) : Sure (fun b d => c.Advances 0 d ∧ (I a → I b)) (repeatUpTo step bound a c) := by
  induction bound generalizing a c with
  | zero => exact ⟨hc.advances, id⟩
  | succ bound ih =>
    refine (h a c hc).bind fun ⟨a', more⟩ d ⟨hd, ha'⟩ => ?_
    cases more with
    | false => exact ⟨hd.mono (Nat.zero_le _), ha'⟩
    | true => exact (ih hd.closed).mono fun _ e ⟨he, hi⟩ => ⟨(hd.trans he).mono (Nat.zero_le _), hi ∘ ha'⟩

/-- A loop keeps what its step keeps. -/
theorem sure_repeatWhile {I : α → Prop} {step : α → Parser (α × Bool)} (h : Keeps I step) {a : α} (hc : c.Closed) :
    Sure (fun b d => c.Advances 0 d ∧ (I a → I b)) (repeatWhile step a c) :=
  sure_repeatUpTo h _ hc

end Parser

end GameScript
