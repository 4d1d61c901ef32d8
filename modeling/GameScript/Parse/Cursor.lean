import GameScript.Parse.Fault

/-!
# Walking over tokens

A `Cursor` stands before the tokens that are still to be read, and knows where the last one ended. Tokens to be read are
closed by an end token, which is never passed; a reader that looks where no token is left would breach that
(`Breach.pastTokens`).

A `Parser` reads from a cursor or fails. `repeatWhile` repeats a step for as long as the step asks for more; where
every such step reads a token, it satisfies the equation of a loop (`repeatWhile_eq`).
-/

namespace GameScript

/-- Tokens with an end token last. One that is missing stands where the last token stops. -/
def closeTokens (tokens : List Token) : List Token :=
  match tokens.getLast? with
  | none => [⟨.endOfText, ⟨0, 0⟩⟩]
  | some t => if t.kind.isEnd then tokens else tokens ++ [⟨.endOfText, ⟨t.span.stop, t.span.stop⟩⟩]

/-- A place in a list of tokens. -/
structure Cursor where
  /-- Where the last token read ends; before any is read, where the first one does. -/
  lastStop : Nat
  rest : List Token

namespace Cursor

/-- The place before all tokens. -/
def ofTokens (tokens : List Token) : Cursor :=
  ⟨((closeTokens tokens).head?.map (·.span.stop)).getD 0, closeTokens tokens⟩

/-- Past the token ahead, unless that is the end. -/
def next (c : Cursor) : Cursor :=
  match c.rest with
  | [] => c
  | t :: rest => if t.kind.isEnd then c else ⟨t.span.stop, rest⟩

theorem next_rest_le (c : Cursor) : c.next.rest.length ≤ c.rest.length := by
  unfold next
  split
  · exact Nat.le_refl _
  · rename_i t rest h
    split
    · exact Nat.le_refl _
    · simp [h]

theorem next_rest_lt {c : Cursor} {t : Token} {rest : List Token} (h : c.rest = t :: rest)
    (ht : t.kind ≠ .endOfText) : c.next.rest.length < c.rest.length := by
  have he : t.kind.isEnd ≠ true := fun he => ht (TokenKind.isEnd_iff.1 he)
  simp [next, h, he]

/-- Whether an end token is still ahead. -/
def Closed (c : Cursor) : Prop := ∃ t ∈ c.rest, t.kind = .endOfText

theorem Closed.rest_eq_cons {c : Cursor} (h : c.Closed) : ∃ t rest, c.rest = t :: rest := by
  obtain ⟨t, ht, -⟩ := h
  cases hr : c.rest with
  | nil => rw [hr] at ht; cases ht
  | cons u rest => exact ⟨u, rest, rfl⟩

theorem Closed.next {c : Cursor} (h : c.Closed) : c.next.Closed := by
  obtain ⟨t, rest, hr⟩ := h.rest_eq_cons
  by_cases ht : t.kind.isEnd = true
  · simpa [Cursor.next, hr, ht] using h
  · obtain ⟨u, hu, he⟩ := h
    rw [hr] at hu
    rcases List.mem_cons.1 hu with rfl | hu
    · exact absurd (TokenKind.isEnd_iff.2 he) ht
    · exact ⟨u, by simpa [Cursor.next, hr, ht] using hu, he⟩

theorem closed_ofTokens (tokens : List Token) : (ofTokens tokens).Closed := by
  simp only [Closed, ofTokens, closeTokens]
  split
  · exact ⟨_, List.mem_singleton.2 rfl, rfl⟩
  · rename_i t ht
    split
    · rename_i he
      exact ⟨t, List.mem_of_getLast? ht, TokenKind.isEnd_iff.1 he⟩
    · exact ⟨_, List.mem_append_right _ (List.mem_singleton.2 rfl), rfl⟩

end Cursor

/-- A reader of tokens. -/
abbrev Parser := StateT Cursor (Except ParseError)

namespace Parser

variable {α : Type}

/-- Fails at a place. -/
def failAt (span : Span) (fault : ParseFault) : Parser α := throw ⟨fault, span⟩

/-- Fails because the reader went wrong. -/
def breach (b : Breach) : Parser α := do failAt ⟨(← get).lastStop, (← get).lastStop⟩ (.broken b)

/-- The token ahead. -/
def token : Parser Token := do
  match (← get).rest with
  | [] => breach .pastTokens
  | t :: _ => return t

/-- The kind of the token ahead. -/
def ahead : Parser TokenKind := do return (← token).kind

/-- The place of the token ahead. -/
def aheadSpan : Parser Span := do return (← token).span

/-- Where the last token read ends. -/
def lastStop : Parser Nat := do return (← get).lastStop

/-- Reads the token ahead. -/
def skip : Parser Unit := do
  let _ ← token
  modify Cursor.next

/-- What a builder builds. -/
def build : Except BuilderFault α → Parser α
  | .ok a => return a
  | .error fault => breach (.builder fault)

/-- Fails at the token ahead, where something else was expected. -/
def failExpected (what : Expectation) : Parser α := do
  let t ← token
  failAt t.span (.expected what t.kind)

/-- Whether a symbol is ahead. -/
def sees (s : Symbol) : Parser Bool := do return (← ahead).isSymbol s

/-- Reads a symbol if it is ahead. -/
def accept (s : Symbol) : Parser Bool := do
  if ← sees s then
    skip
    return true
  else
    return false

/-- Reads a symbol that must be ahead. -/
def expect (s : Symbol) (what : Expectation) : Parser Unit := do
  if ← sees s then skip else failExpected what

/-- Reads a name that must be ahead. -/
def expectName (what : Expectation) : Parser String := do
  match ← ahead with
  | .ident name =>
    skip
    return name
  | _ => failExpected what

/-- Repeats a step at most `bound` times. -/
def repeatUpTo (step : α → Parser (α × Bool)) : (bound : Nat) → α → Parser α
  | 0, a => pure a
  | bound + 1, a => do
    let (a, more) ← step a
    if more then repeatUpTo step bound a else pure a

/-- Repeats a step for as long as it asks for more. No more steps than there are tokens can each read one. -/
def repeatWhile (step : α → Parser (α × Bool)) (a : α) : Parser α := do
  let c ← get
  repeatUpTo step (c.rest.length + 1) a

/-- A step that reads a token whenever it asks for more, as long as an end token is ahead. -/
def Progresses (step : α → Parser (α × Bool)) : Prop :=
  ∀ a c a' c', c.Closed → step a c = .ok ((a', true), c') → c'.Closed ∧ c'.rest.length < c.rest.length

theorem repeatUpTo_of_lt {step : α → Parser (α × Bool)} (h : Progresses step) {m n : Nat} {a : α} {c : Cursor}
    (hc : c.Closed) (hm : c.rest.length < m) (hn : c.rest.length < n) :
    repeatUpTo step m a c = repeatUpTo step n a c := by
  induction m generalizing n a c with
  | zero => omega
  | succ m ih =>
    obtain ⟨n, rfl⟩ : ∃ k, n = k + 1 := ⟨n - 1, by omega⟩
    simp only [repeatUpTo, bind, StateT.bind]
    match hs : step a c with
    | .error e => rfl
    | .ok ((a', false), c') => rfl
    | .ok ((a', true), c') =>
      obtain ⟨hc', hlt⟩ := h a c a' c' hc hs
      exact ih hc' (show c'.rest.length < m by omega) (show c'.rest.length < n by omega)

/-- The equation of a loop. -/
theorem repeatWhile_eq {step : α → Parser (α × Bool)} (h : Progresses step) (a : α) {c : Cursor} (hc : c.Closed) :
    repeatWhile step a c = (step a >>= fun (a, more) => if more then repeatWhile step a else pure a) c := by
  simp only [repeatWhile, repeatUpTo, bind, StateT.bind, get, getThe, MonadStateOf.get, StateT.get, pure, Except.pure,
    Except.bind]
  match hs : step a c with
  | .error e => rfl
  | .ok ((a', false), c') => rfl
  | .ok ((a', true), c') =>
    obtain ⟨hc', hlt⟩ := h a c a' c' hc hs
    exact repeatUpTo_of_lt h hc' (show c'.rest.length < c.rest.length by omega) (Nat.lt_succ_self _)

end Parser

end GameScript
