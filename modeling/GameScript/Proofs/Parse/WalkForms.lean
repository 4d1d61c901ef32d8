import GameScript.Proofs.Parse.Trees
import GameScript.Proofs.Parse.Walk

/-!
# Where the readers of the grammar go

Every reader of the grammar takes a walk from every cursor with an end token ahead (`Walks`). There is a rule for each
combinator, then a lemma for each reader; levels are joined by `Level.Walks`, as each is built from the next one. That
loops come to an end is known from `Keeps`, so a walk through a loop is one through its steps (`walks_repeatWhile`).

Main statement: the cursor stops at the first end token (`cursor_stops_at_first_end`).
-/

namespace GameScript

open GameScript.Parser

namespace Parser

variable {α β : Type}

/-- A reader that takes a walk wherever an end token is ahead. -/
def Walks (p : Parser α) : Prop := ∀ c, c.Closed → ∃ cs, Walk p c cs

section Rules

variable {p : Parser β} {f : β → Parser α}

theorem walks_pure (a : α) : Walks (pure a) := fun c _ => ⟨[], .pure a c⟩

theorem Walk.walks_bind {c : Cursor} {cs : List Cursor} (h : Walk p c cs) (hc : c.Closed) (hf : ∀ b, Walks (f b)) :
    ∃ ds, Walk (p >>= f) c ds := by
  match hb : p c with
  | .error e => exact ⟨cs, .stop f h hb⟩
  | .ok (b, d) =>
    obtain ⟨ds, hds⟩ := hf b d (h.closed hc hb)
    exact ⟨cs ++ ds, .bind h hb hds⟩

theorem walks_bind (h : Walks p) (hf : ∀ b, Walks (f b)) : Walks (p >>= f) := fun c hc => by
  obtain ⟨cs, hcs⟩ := h c hc
  exact hcs.walks_bind hc hf

theorem walks_map {g : β → α} (h : Walks p) : Walks (g <$> p) :=
  walks_bind (f := fun b => pure (g b)) h fun b => walks_pure (g b)

theorem walks_failAt (span : Span) (fault : ParseFault) : Walks (failAt span fault : Parser α) :=
  fun c _ => ⟨[], .failAt span fault c⟩

theorem walks_lastStop : Walks lastStop := fun c _ => ⟨[], .lastStop c⟩

theorem walks_token : Walks token := fun c hc => by
  obtain ⟨t, rest, hr⟩ := hc.rest_eq_cons
  exact ⟨[], .token hr⟩

theorem walks_ahead : Walks ahead := walks_bind walks_token fun t => walks_pure t.kind

/-- A reader that looks at the token ahead takes a walk where it takes one after it has seen this token. -/
theorem exists_walk_ahead_bind {f : TokenKind → Parser α} {c : Cursor} {t : Token} {rest : List Token}
    (hr : c.rest = t :: rest) (hf : ∃ cs, Walk (f t.kind) c cs) : ∃ cs, Walk (ahead >>= f) c cs := by
  obtain ⟨cs, hcs⟩ := hf
  have hahead : Walk ahead c [] := .bind (.token hr) (token_eq hr) (.pure t.kind c)
  have heq : ahead c = .ok (t.kind, c) := bind_of_ok (token_eq hr) _
  exact ⟨cs, .bind hahead heq hcs⟩

theorem walks_aheadSpan : Walks aheadSpan := walks_bind walks_token fun t => walks_pure t.span

theorem walks_skip : Walks skip := fun c hc => by
  obtain ⟨t, rest, hr⟩ := hc.rest_eq_cons
  exact ⟨[c.next], .skip hr⟩

theorem walks_build (x : Except BuilderFault α) : Walks (build x) := by
  cases x with
  | ok a => exact walks_pure a
  | error fault => exact fun c _ => ⟨[], .breach _ c⟩

theorem walks_failExpected (what : Expectation) : Walks (failExpected what : Parser α) :=
  walks_bind walks_token fun _ => walks_failAt _ _

theorem walks_sees (s : Symbol) : Walks (sees s) := walks_bind walks_ahead fun _ => walks_pure _

theorem walks_accept (s : Symbol) : Walks (accept s) := by
  refine walks_bind (walks_sees s) fun b => ?_
  split
  · exact walks_bind walks_skip fun _ => walks_pure true
  · exact walks_pure false

theorem walks_expect (s : Symbol) (what : Expectation) : Walks (expect s what) := by
  refine walks_bind (walks_sees s) fun b => ?_
  split
  · exact walks_skip
  · exact walks_failExpected what

theorem walks_expectName (what : Expectation) : Walks (expectName what) := by
  refine walks_bind walks_ahead fun kind => ?_
  split
  · exact walks_bind walks_skip fun _ => walks_pure _
  · exact walks_failExpected what

/-- A loop takes its steps one after another; each that asks for more leaves fewer tokens. -/
theorem walks_repeatWhile {step : α → Parser (α × Bool)} (hp : Progresses step) (h : ∀ a, Walks (step a)) (a : α) :
    Walks (repeatWhile step a) := by
  intro c hc
  induction hn : c.rest.length using Nat.strong_induction_on generalizing a c with
  | _ n ih =>
    obtain ⟨cs, hcs⟩ := h a c hc
    match hs : step a c with
    | .error e => exact ⟨cs, .loop hp (.stop _ hcs hs)⟩
    | .ok ((b, false), d) => exact ⟨cs ++ [], .loop hp (.bind hcs hs (.pure b d))⟩
    | .ok ((b, true), d) =>
      obtain ⟨hd, hlt⟩ := hp a c b d hc hs
      obtain ⟨ds, hds⟩ := ih _ (hn ▸ hlt) b d hd rfl
      exact ⟨cs ++ ds, .loop hp (.bind hcs hs hds)⟩

end Rules

end Parser

/-! ## Lists in brackets -/

/-- A level whose readers take walks. -/
structure Level.Walks (l : Level) : Prop where
  sound : l.Sound
  expression : ∀ least, Parser.Walks (l.expression least)
  block : Parser.Walks l.block
  object : Parser.Walks l.object

variable {inner : Level}

theorem walks_propertyKey : Walks propertyKey := by
  refine walks_bind walks_ahead fun kind => ?_
  split
  · exact walks_bind walks_skip fun _ => walks_pure _
  · exact walks_bind walks_skip fun _ => walks_pure _
  · exact walks_failExpected _

theorem walks_parameterStep (before : List String) : Walks (parameterStep before) := by
  refine walks_bind (walks_sees _) fun b => ?_
  split
  · exact walks_pure _
  · refine walks_bind walks_aheadSpan fun span => walks_bind (walks_expectName _) fun name => ?_
    split
    · exact walks_failAt _ _
    · exact walks_bind (walks_accept _) fun _ => walks_pure _

section Lists

variable (h : inner.Walks)

include h

theorem walks_argumentStep (before : List Expression) : Walks (argumentStep inner before) :=
  walks_bind (h.expression 0) fun _ => walks_bind (walks_accept _) fun _ => walks_pure _

theorem walks_arguments : Walks (arguments inner) := by
  refine walks_bind (walks_sees _) fun b => ?_
  split
  · exact walks_pure _
  · exact walks_repeatWhile (keeps_argumentStep h.sound).progresses (walks_argumentStep h) []

theorem walks_propertyStep (before : List Property) : Walks (propertyStep inner before) := by
  refine walks_bind (walks_sees _) fun b => ?_
  split
  · exact walks_pure _
  · refine walks_bind walks_propertyKey fun key => walks_bind (walks_expect _ _) fun _ => ?_
    exact walks_bind (h.expression 0) fun _ => walks_bind (walks_accept _) fun _ => walks_pure _

theorem walks_objectForm : Walks (objectForm inner) := by
  refine walks_bind walks_aheadSpan fun _ => walks_bind walks_skip fun _ => ?_
  refine walks_bind (walks_repeatWhile (keeps_propertyStep h.sound).progresses (walks_propertyStep h) []) fun ps => ?_
  exact walks_bind (walks_expect _ _) fun _ => walks_bind walks_lastStop fun _ => walks_pure _

end Lists

/-! ## Expressions -/

section Expressions

theorem walks_literalForm (literal : Literal) : Walks (literalForm literal) :=
  walks_bind walks_aheadSpan fun _ => walks_bind walks_skip fun _ => walks_pure _

theorem walks_negativeForm : Walks negativeForm := by
  refine walks_bind walks_aheadSpan fun span => walks_bind walks_skip fun _ => ?_
  have hleaf (literal : Literal) : Walks (do
      skip
      return .leaf (.value literal) ⟨span.start, ← lastStop⟩ : Parser Expression) :=
    walks_bind walks_skip fun _ => walks_bind walks_lastStop fun _ => walks_pure _
  refine walks_bind walks_ahead fun kind => ?_
  split
  · exact hleaf _
  · exact hleaf _
  · exact walks_bind (walks_failAt _ _) fun _ => hleaf _

variable (h : inner.Walks)

include h

theorem walks_functionForm : Walks (functionForm inner) := by
  refine walks_bind walks_aheadSpan fun _ => walks_bind walks_skip fun _ => ?_
  refine walks_bind (walks_repeatWhile keeps_parameterStep.progresses walks_parameterStep []) fun ps => ?_
  refine walks_bind (walks_expect _ _) fun _ => walks_bind (walks_expect _ _) fun _ => ?_
  exact walks_bind h.block fun _ => walks_bind walks_lastStop fun _ => walks_pure _

theorem walks_groupForm : Walks (groupForm inner) := by
  refine walks_bind walks_aheadSpan fun _ => walks_bind walks_skip fun _ => ?_
  refine walks_bind (h.expression 0) fun e => walks_bind (walks_expect _ _) fun _ => ?_
  exact walks_bind walks_lastStop fun _ => walks_pure _

theorem walks_leadingForm (kind : OperatorKind) : Walks (leadingForm inner kind) := by
  refine walks_bind walks_aheadSpan fun _ => walks_bind walks_skip fun _ => ?_
  exact walks_bind (h.expression _) fun _ => walks_bind walks_lastStop fun _ => walks_build _

theorem walks_startForm : Walks (startForm inner) := by
  refine walks_bind walks_aheadSpan fun span c hc => ?_
  obtain ⟨t, rest, hr⟩ := hc.rest_eq_cons
  refine exists_walk_ahead_bind hr ?_
  split
  · exact walks_literalForm _ c hc
  · exact walks_literalForm _ c hc
  · exact walks_literalForm _ c hc
  · exact walks_literalForm _ c hc
  · exact walks_literalForm _ c hc
  · exact walks_bind walks_skip (fun _ => walks_pure _) c hc
  · exact walks_negativeForm c hc
  · rename_i hk
    -- a parenthesis is ahead, so the lookahead starts behind a token that is no end
    refine (Walk.seesFunction hr (by simp [hk])).walks_bind hc fun b => ?_
    split
    · exact walks_functionForm h
    · exact walks_groupForm h
  · exact h.object c hc
  · split
    · exact walks_leadingForm h _ c hc
    · exact walks_failExpected _ c hc
  · exact walks_failAt _ _ c hc
  · exact walks_failAt _ _ c hc
  · exact walks_failExpected _ c hc

theorem walks_suffixForm (start : Nat) (e : Expression) (suffix : Suffix) :
    Walks (suffixForm inner start e suffix) := by
  cases suffix with
  | call =>
    refine walks_bind walks_skip fun _ => walks_bind (walks_arguments h) fun _ => ?_
    exact walks_bind (walks_expect _ _) fun _ => walks_bind walks_lastStop fun _ => walks_pure _
  | member =>
    refine walks_bind walks_aheadSpan fun _ => walks_bind walks_skip fun _ => ?_
    refine walks_bind walks_aheadSpan fun _ => walks_bind (walks_expectName _) fun _ => ?_
    exact walks_bind walks_lastStop fun _ => walks_build _
  | step kind =>
    refine walks_bind walks_aheadSpan fun _ => walks_bind walks_skip fun _ => ?_
    exact walks_bind walks_lastStop fun _ => walks_build _

theorem walks_binaryForm (start : Nat) (e : Expression) (rule : BinaryRule) :
    Walks (binaryForm inner start e rule) := by
  refine walks_bind walks_aheadSpan fun _ => walks_bind walks_skip fun _ => ?_
  split
  · exact walks_failAt _ _
  · exact walks_bind (h.expression _) fun _ => walks_bind walks_lastStop fun _ => walks_build _

theorem walks_operatorStep (least start : Nat) (e : Expression) : Walks (operatorStep inner least start e) := by
  refine walks_bind walks_ahead fun kind => ?_
  split
  · split
    · exact walks_pure _
    · exact walks_bind (walks_suffixForm h start e _) fun _ => walks_pure _
  · split
    · split
      · exact walks_pure _
      · exact walks_bind (walks_binaryForm h start e _) fun _ => walks_pure _
    · exact walks_pure _

theorem walks_expressionForm (least : Nat) : Walks (expressionForm inner least) := by
  refine walks_bind walks_aheadSpan fun span => walks_bind (walks_startForm h) fun e => ?_
  exact walks_repeatWhile (keeps_operatorStep h.sound).progresses (walks_operatorStep h least span.start) e

end Expressions

/-! ## Statements -/

section Statements

theorem walks_statementEnd : Walks statementEnd := by
  refine walks_bind (walks_accept _) fun b => ?_
  split
  · exact walks_pure _
  · refine walks_bind walks_ahead fun kind => ?_
    split
    · exact walks_pure _
    · refine walks_bind (walks_sees _) fun b => ?_
      split
      · exact walks_pure _
      · exact walks_failExpected _

theorem walks_seesStatementEnd : Walks seesStatementEnd := walks_bind walks_ahead fun _ => walks_pure _

variable (h : inner.Walks)

include h

theorem walks_letForm : Walks (letForm inner) := by
  refine walks_bind walks_aheadSpan fun _ => walks_bind walks_skip fun _ => ?_
  refine walks_bind walks_aheadSpan fun _ => walks_bind (walks_expectName _) fun _ => ?_
  refine walks_bind walks_aheadSpan fun _ => walks_bind (walks_expect _ _) fun _ => ?_
  exact walks_bind (h.expression 0) fun _ => walks_bind walks_lastStop fun _ => walks_build _

theorem walks_returnForm : Walks (returnForm inner) := by
  refine walks_bind walks_aheadSpan fun span => walks_bind walks_skip fun _ => ?_
  have hbuild (value : Operand) : Walks (do
      build (Expression.prefixed? ⟨.ret, span⟩ value ⟨span.start, ← lastStop⟩) : Parser Expression) :=
    walks_bind walks_lastStop fun _ => walks_build _
  refine walks_bind walks_seesStatementEnd fun b => ?_
  split
  · exact walks_bind (walks_pure _) hbuild
  · exact walks_bind (walks_map (h.expression 0)) hbuild

theorem walks_statementBody : Walks (statementBody inner) := by
  refine walks_bind walks_ahead fun kind => ?_
  split
  · exact walks_letForm h
  · exact walks_returnForm h
  · exact h.expression 0

theorem walks_blockStatement : Walks (blockStatement inner) :=
  walks_bind h.block fun _ => walks_bind (walks_accept _) fun _ => walks_pure _

theorem walks_statementForm : Walks (statementForm inner) := by
  refine walks_bind walks_aheadSpan fun _ => walks_bind walks_ahead fun kind => ?_
  split
  · exact walks_bind walks_skip fun _ => walks_pure _
  · exact walks_bind (walks_blockStatement h) fun _ => walks_pure _
  · refine walks_bind (walks_statementBody h) fun _ => walks_bind walks_lastStop fun _ => ?_
    exact walks_bind walks_statementEnd fun _ => walks_pure _

theorem walks_statementStep (before : List Statement) : Walks (statementStep inner before) := by
  refine walks_bind walks_ahead fun kind => ?_
  split
  · exact walks_pure _
  · exact walks_bind (walks_statementForm h) fun _ => walks_pure _

theorem walks_statements : Walks (statements inner) :=
  walks_repeatWhile (keeps_statementStep h.sound).progresses (walks_statementStep h) []

theorem walks_blockForm : Walks (blockForm inner) := by
  refine walks_bind walks_aheadSpan fun _ => walks_bind (walks_expect _ _) fun _ => ?_
  refine walks_bind (walks_statements h) fun _ => walks_bind (walks_expect _ _) fun _ => ?_
  exact walks_bind walks_lastStop fun _ => walks_pure _

end Statements

/-! ## Levels and scripts -/

theorem walks_levelAt (room : Nat) : (levelAt room).Walks := by
  have hdeep {α : Type} : Walks (tooDeep : Parser α) := walks_bind walks_aheadSpan fun _ => walks_failAt _ _
  induction room with
  | zero => exact ⟨sound_levelAt 0, fun _ => hdeep, hdeep, hdeep⟩
  | succ room ih =>
    exact ⟨sound_levelAt (room + 1), walks_expressionForm ih, walks_blockForm ih, walks_objectForm ih⟩

theorem walks_programForm : Walks programForm := by
  refine walks_bind walks_aheadSpan fun _ => ?_
  refine walks_bind (walks_statements (walks_levelAt maxNesting)) fun _ => walks_bind walks_ahead fun kind => ?_
  split
  · exact walks_bind walks_lastStop fun _ => walks_pure _
  · exact walks_bind walks_aheadSpan fun _ => walks_failAt _ _

theorem walks_expressionAtFront : Walks expressionAtFront := (walks_levelAt maxNesting).expression 0

/-! ## Lists of tokens -/

/-- An end token where the last of some tokens stops. -/
def endAfter (tokens : List Token) : Token :=
  let stop := (tokens.getLast?.map (·.span.stop)).getD 0
  ⟨.endOfText, ⟨stop, stop⟩⟩

/-- Up to the first end token, closing tokens is to put an end token behind them. -/
theorem upToEnd_closeTokens (tokens : List Token) :
    upToEnd (closeTokens tokens) = upToEnd (tokens ++ [endAfter tokens]) := by
  unfold closeTokens endAfter
  cases hlast : tokens.getLast? with
  | none =>
    rw [List.getLast?_eq_none_iff.1 hlast]
    rfl
  | some t =>
    dsimp only
    split
    · rename_i hend
      rw [upToEnd_append ⟨t, List.mem_of_getLast? hlast, TokenKind.isEnd_iff.1 hend⟩]
    · rfl

theorem upToEnd_closeTokens_append {t : Token} (ht : t.kind = .endOfText) (before after : List Token) :
    upToEnd (closeTokens (before ++ t :: after)) = upToEnd (before ++ [t]) := by
  have hsplit (u : Token) : before ++ t :: after ++ [u] = before ++ [t] ++ (after ++ [u]) := by simp
  rw [upToEnd_closeTokens, hsplit]
  exact upToEnd_append ⟨t, List.mem_append_right _ List.mem_cons_self, ht⟩ _

theorem untilEnd_ofTokens (tokens : List Token) : (Cursor.ofTokens tokens).untilEnd =
    ⟨((upToEnd (closeTokens tokens)).head?.map (·.span.stop)).getD 0, upToEnd (closeTokens tokens)⟩ := by
  rw [head?_upToEnd]
  rfl

section Tokens

variable {α : Type} {p : Parser α}

theorem run'_untilEnd (h : Walks p) {c : Cursor} (hc : c.Closed) :
    (p.run' c.untilEnd : Except ParseError α) = p.run' c := by
  obtain ⟨cs, hcs⟩ := h c hc
  rw [StateT.run', StateT.run', hcs.eq_untilEnd hc]
  cases p c <;> rfl

/-- Tokens that are the same up to the first end token are read alike. -/
theorem run'_ofTokens_congr (h : Walks p) {ts us : List Token}
    (heq : upToEnd (closeTokens ts) = upToEnd (closeTokens us)) :
    (p.run' (Cursor.ofTokens ts) : Except ParseError α) = p.run' (Cursor.ofTokens us) := by
  rw [← run'_untilEnd h (Cursor.closed_ofTokens ts), ← run'_untilEnd h (Cursor.closed_ofTokens us), untilEnd_ofTokens,
    untilEnd_ofTokens, heq]

/-- A reader takes a walk over tokens, and on it stands at places of the list, one after another, none of them behind
the first end token. -/
structure StaysBeforeEnd (p : Parser α) (tokens : List Token) : Prop where
  inside : firstEnd (closeTokens tokens) < (closeTokens tokens).length
  places : ∃ ns, Walk p (Cursor.ofTokens tokens) (ns.map (Cursor.behind (closeTokens tokens))) ∧
    Places (closeTokens tokens) 0 ns ∧
    ∀ a d, p (Cursor.ofTokens tokens) = .ok (a, d) → d = Cursor.behind (closeTokens tokens) (ns.getLastD 0)

theorem staysBeforeEnd (h : Walks p) (tokens : List Token) : StaysBeforeEnd p tokens := by
  have hclosed := Cursor.closed_ofTokens tokens
  obtain ⟨cs, hcs⟩ := h _ hclosed
  have hend : firstEnd (closeTokens tokens) < (closeTokens tokens).length := firstEnd_lt hclosed
  obtain ⟨ns, rfl, hplaces, -, hlast⟩ := hcs.exists_places hend (Nat.zero_le _) (Cursor.ofTokens_eq_behind tokens)
  exact ⟨hend, ns, hcs, hplaces, hlast⟩

end Tokens

/-- Each time round, the loops of a level that ask for more have read a token. -/
structure Level.Loops (l : Level) : Prop where
  statements : Progresses (statementStep l)
  arguments : Progresses (argumentStep l)
  properties : Progresses (propertyStep l)
  parameters : Progresses parameterStep
  operators : ∀ least start, Progresses (operatorStep l least start)

theorem loops_levelAt (room : Nat) : (levelAt room).Loops where
  statements := (keeps_statementStep (sound_levelAt room)).progresses
  arguments := (keeps_argumentStep (sound_levelAt room)).progresses
  properties := (keeps_propertyStep (sound_levelAt room)).progresses
  parameters := keeps_parameterStep.progresses
  operators := fun _ _ => (keeps_operatorStep (sound_levelAt room)).progresses

/-- **The cursor stops at the first end token.** Whatever the tokens, readers of scripts and of expressions stay between
the first token and the first end token, and go by one token at a time; every loop reads a token each time round; and
neither the tokens behind the first end token nor an end token that is missing and put where the last token stops make
a difference to the answer or to the error. -/
theorem cursor_stops_at_first_end :
    (∀ tokens, StaysBeforeEnd programForm tokens ∧ StaysBeforeEnd expressionAtFront tokens) ∧
      (∀ room, (levelAt room).Loops) ∧
      (∀ before span after after',
        parseTokens (before ++ ⟨.endOfText, span⟩ :: after) = parseTokens (before ++ ⟨.endOfText, span⟩ :: after') ∧
        parseExpression (before ++ ⟨.endOfText, span⟩ :: after) =
          parseExpression (before ++ ⟨.endOfText, span⟩ :: after')) ∧
      ∀ tokens, parseTokens (tokens ++ [endAfter tokens]) = parseTokens tokens ∧
        parseExpression (tokens ++ [endAfter tokens]) = parseExpression tokens := by
  refine ⟨fun tokens => ⟨staysBeforeEnd walks_programForm tokens, staysBeforeEnd walks_expressionAtFront tokens⟩,
    loops_levelAt, fun before span after after' => ?_, fun tokens => ?_⟩
  · have heq : upToEnd (closeTokens (before ++ ⟨.endOfText, span⟩ :: after)) =
        upToEnd (closeTokens (before ++ ⟨.endOfText, span⟩ :: after')) := by
      rw [upToEnd_closeTokens_append rfl, upToEnd_closeTokens_append rfl]
    exact ⟨run'_ofTokens_congr walks_programForm heq, run'_ofTokens_congr walks_expressionAtFront heq⟩
  · have heq : upToEnd (closeTokens (tokens ++ [endAfter tokens])) = upToEnd (closeTokens tokens) := by
      rw [upToEnd_closeTokens_append rfl, upToEnd_closeTokens]
    exact ⟨run'_ofTokens_congr walks_programForm heq, run'_ofTokens_congr walks_expressionAtFront heq⟩

end GameScript
