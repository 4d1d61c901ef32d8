import GameScript.Proofs.Parse.Texts
import GameScript.Proofs.Tree.Paths

/-!
# How deep readers nest

A level of readers with `room` levels left builds operands from which no path deepens more than `room` times
(`Level.NestsWithin`). Reading an operand again costs a level, be it on the right of an operator, among arguments, in
parentheses or in braces. The loop over operators costs none: what it has read so far is taken in by the next operator
or call, so it may go on from an expression for as long as the text does.

`Obeys Q p` says that the answers of a reader satisfy `Q`, and that its errors are faults of the grammar. There is a
rule for each combinator of readers, then a lemma for each reader.

Main statements: the nesting of a program (`nesting_bounded`), and that what operators and calls take in has to be
left out of account (`chains_unbounded`).
-/

namespace GameScript

open GameScript.Parser

namespace Parser

variable {α β : Type}

/-- A reader whose answers satisfy `Q`, and whose errors are faults of the grammar and not of single tokens. -/
def Obeys (Q : α → Prop) (p : Parser α) : Prop :=
  ∀ c, match p c with
    | .ok (a, _) => Q a
    | .error e => ∀ fault, e.fault ≠ .lexical fault

section Rules

variable {P : β → Prop} {Q : α → Prop} {p : Parser β} {f : β → Parser α}

/-- What is said of the answers of a reader holds where the place behind them is left out. -/
theorem Obeys.run' {p : Parser α} (h : Obeys Q p) (c : Cursor) :
    match (p.run' c : Except ParseError α) with
    | .ok a => Q a
    | .error e => ∀ fault, e.fault ≠ .lexical fault := by
  have hc := h c
  unfold StateT.run'
  match hp : p c with
  | .ok (a, d) =>
    rw [hp] at hc
    exact hc
  | .error e =>
    rw [hp] at hc
    exact hc

theorem obeys_pure {a : α} (h : Q a) : Obeys Q (pure a) := fun _ => h

theorem Obeys.mono {P : α → Prop} {p : Parser α} (h : Obeys P p) (hpq : ∀ a, P a → Q a) : Obeys Q p := by
  intro c
  have hc := h c
  match hp : p c with
  | .ok (a, d) =>
    rw [hp] at hc
    exact hpq a hc
  | .error e =>
    rw [hp] at hc
    exact hc

theorem obeys_bind (h : Obeys P p) (hf : ∀ b, P b → Obeys Q (f b)) : Obeys Q (p >>= f) := by
  intro c
  have hc := h c
  simp only [bind, StateT.bind]
  match hp : p c with
  | .ok (b, d) =>
    rw [hp] at hc
    exact hf b hc d
  | .error e =>
    rw [hp] at hc
    exact hc

theorem obeys_map {g : β → α} (h : Obeys (fun b => Q (g b)) p) : Obeys Q (g <$> p) :=
  obeys_bind (f := fun b => pure (g b)) h fun _ hb => obeys_pure hb

theorem obeys_failAt {span : Span} {fault : ParseFault} (h : ∀ f, fault ≠ .lexical f) :
    Obeys Q (failAt span fault) := fun _ => h

theorem obeys_breach (b : Breach) : Obeys Q (breach b) := fun _ _ => nofun

theorem obeys_token : Obeys (fun _ => True) token := by
  refine obeys_bind (fun _ => trivial) fun c _ => ?_
  split
  · exact obeys_breach _
  · exact obeys_pure trivial

theorem obeys_ahead : Obeys (fun _ => True) ahead := obeys_bind obeys_token fun _ _ => obeys_pure trivial

theorem obeys_aheadSpan : Obeys (fun _ => True) aheadSpan := obeys_bind obeys_token fun _ _ => obeys_pure trivial

theorem obeys_lastStop : Obeys (fun _ => True) lastStop := fun _ => trivial

theorem obeys_skip : Obeys (fun _ => True) skip := obeys_bind obeys_token fun _ _ _ => trivial

theorem obeys_build {x : Except BuilderFault α} (h : ∀ a, x = .ok a → Q a) : Obeys Q (build x) := by
  cases x with
  | ok a => exact obeys_pure (h a rfl)
  | error fault => exact obeys_breach _

theorem obeys_failExpected (what : Expectation) : Obeys Q (failExpected what) :=
  obeys_bind obeys_token fun _ _ => obeys_failAt nofun

theorem obeys_sees (s : Symbol) : Obeys (fun _ => True) (sees s) :=
  obeys_bind obeys_ahead fun _ _ => obeys_pure trivial

theorem obeys_accept (s : Symbol) : Obeys (fun _ => True) (accept s) := by
  refine obeys_bind (obeys_sees s) fun b _ => ?_
  split
  · exact obeys_bind obeys_skip fun _ _ => obeys_pure trivial
  · exact obeys_pure trivial

theorem obeys_expect (s : Symbol) (what : Expectation) : Obeys (fun _ => True) (expect s what) := by
  refine obeys_bind (obeys_sees s) fun b _ => ?_
  split
  · exact obeys_skip
  · exact obeys_failExpected what

theorem obeys_expectName (what : Expectation) : Obeys (fun _ => True) (expectName what) := by
  refine obeys_bind obeys_ahead fun kind _ => ?_
  split
  · exact obeys_bind obeys_skip fun _ _ => obeys_pure trivial
  · exact obeys_failExpected what

theorem obeys_repeatUpTo {I : α → Prop} {step : α → Parser (α × Bool)}
    (hstep : ∀ a, I a → Obeys (fun r => I r.1) (step a)) (bound : Nat) {a : α} (h : I a) :
    Obeys I (repeatUpTo step bound a) := by
  -- the bound is what the loop may still read, and what is kept has to hold of whatever is read so far
  induction bound generalizing a with
  | zero => exact obeys_pure h
  | succ bound ih =>
    refine obeys_bind (hstep a h) fun ⟨b, more⟩ hb => ?_
    cases more with
    | false => exact obeys_pure hb
    | true => exact ih hb

/-- A loop keeps what its step keeps. -/
theorem obeys_repeatWhile {I : α → Prop} {step : α → Parser (α × Bool)}
    (hstep : ∀ a, I a → Obeys (fun r => I r.1) (step a)) {a : α} (h : I a) : Obeys I (repeatWhile step a) :=
  obeys_bind (fun _ => trivial : Obeys (fun _ => True) get) fun _ _ => obeys_repeatUpTo hstep _ h

end Rules

end Parser

/-! ## Builders -/

section Builders

variable {a b : Operand} {op : Operator} {span : Span} {e : Expression}

theorem eq_of_binary? (h : Expression.binary? a op b span = .ok e) : e = .binary a op b span := by
  unfold Expression.binary? at h
  split at h <;> cases h
  rfl

theorem eq_of_prefixed? (h : Expression.prefixed? op b span = .ok e) : e = .prefixed op b span := by
  unfold Expression.prefixed? at h
  split at h <;> cases h
  rfl

theorem eq_of_postfixed? (h : Expression.postfixed? a op span = .ok e) : e = .postfixed a op span := by
  unfold Expression.postfixed? at h
  split at h <;> cases h
  rfl

end Builders

/-! ## Lists in brackets -/

/-- A level of readers from whose operands no path deepens more than `room` times. -/
structure Level.NestsWithin (room : Nat) (l : Level) : Prop where
  expression : ∀ least, Obeys (fun e => Within room [⟨e.toOperand, false⟩]) (l.expression least)
  block : Obeys (fun s => Within room [⟨.block s, false⟩]) l.block
  object : Obeys (fun e => Within room [⟨e.toOperand, false⟩]) l.object

variable {room : Nat} {inner : Level}

/-- An item put after others is as deep as they may be. -/
theorem forall_mem_snoc {α : Type} {P : α → Prop} {before : List α} {a : α} (h : ∀ b ∈ before, P b) (ha : P a) :
    ∀ b ∈ before ++ [a], P b := by
  simpa [or_imp, forall_and] using And.intro h ha

theorem obeys_propertyKey : Obeys (fun _ => True) propertyKey := by
  refine obeys_bind obeys_ahead fun kind _ => ?_
  split
  · exact obeys_bind obeys_skip fun _ _ => obeys_pure trivial
  · exact obeys_bind obeys_skip fun _ _ => obeys_pure trivial
  · exact obeys_failExpected _

theorem obeys_parameterStep (before : List String) : Obeys (fun _ => True) (parameterStep before) := by
  refine obeys_bind (obeys_sees _) fun b _ => ?_
  split
  · exact obeys_pure trivial
  · refine obeys_bind obeys_aheadSpan fun span _ => obeys_bind (obeys_expectName _) fun name _ => ?_
    split
    · exact obeys_failAt nofun
    · exact obeys_bind (obeys_accept _) fun _ _ => obeys_pure trivial

section Lists

variable (h : inner.NestsWithin room)

include h

theorem nests_arguments :
    Obeys (fun es => ∀ e ∈ es, Within room [⟨e.toOperand, false⟩]) (arguments inner) := by
  refine obeys_bind (obeys_sees _) fun b _ => ?_
  split
  · exact obeys_pure nofun
  · refine obeys_repeatWhile (fun before hbefore => obeys_bind (h.expression 0) fun e he => ?_) nofun
    exact obeys_bind (obeys_accept _) fun _ _ => obeys_pure (forall_mem_snoc hbefore he)

theorem nests_propertyStep (before : List Property)
    (hbefore : ∀ p ∈ before, Within room [⟨p.value.toOperand, false⟩]) :
    Obeys (fun r => ∀ p ∈ r.1, Within room [⟨p.value.toOperand, false⟩]) (propertyStep inner before) := by
  refine obeys_bind (obeys_sees _) fun b _ => ?_
  split
  · exact obeys_pure hbefore
  · refine obeys_bind obeys_propertyKey fun key _ => obeys_bind (obeys_expect _ _) fun _ _ => ?_
    refine obeys_bind (h.expression 0) fun e he => obeys_bind (obeys_accept _) fun _ _ => obeys_pure ?_
    exact forall_mem_snoc hbefore he

theorem nests_objectForm : Obeys (fun e => Within (room + 1) [⟨e.toOperand, false⟩]) (objectForm inner) := by
  refine obeys_bind obeys_aheadSpan fun _ _ => obeys_bind obeys_skip fun _ _ => ?_
  refine obeys_bind (obeys_repeatWhile (nests_propertyStep h) nofun) fun ps hps => ?_
  refine obeys_bind (obeys_expect _ _) fun _ _ => obeys_bind obeys_lastStop fun _ _ => obeys_pure ?_
  exact within_object hps

end Lists

/-! ## Expressions -/

section Expressions

variable (h : inner.NestsWithin room)

/-- The answer of a reader of what operators and calls may go on from. -/
abbrev GoesOnWithin (room : Nat) (e : Expression) : Prop := Within room [⟨e.toOperand, true⟩]

theorem nests_literalForm (literal : Literal) : Obeys (GoesOnWithin room) (literalForm literal) := by
  refine obeys_bind obeys_aheadSpan fun _ _ => obeys_bind obeys_skip fun _ _ => obeys_pure ?_
  exact within_of_not_nests rfl

theorem nests_negativeForm : Obeys (GoesOnWithin room) negativeForm := by
  refine obeys_bind obeys_aheadSpan fun _ _ => obeys_bind obeys_skip fun _ _ => ?_
  have hleaf (start : Nat) (literal : Literal) : Obeys (GoesOnWithin room) (do
      skip
      return .leaf (.value literal) ⟨start, ← lastStop⟩ : Parser Expression) :=
    obeys_bind obeys_skip fun _ _ => obeys_bind obeys_lastStop fun _ _ => obeys_pure (within_of_not_nests rfl)
  refine obeys_bind obeys_ahead fun kind _ => ?_
  split
  · exact hleaf _ _
  · exact hleaf _ _
  · exact obeys_bind (P := fun _ => True) (obeys_failAt nofun) fun _ _ => hleaf _ _

include h

theorem nests_functionForm : Obeys (GoesOnWithin room) (functionForm inner) := by
  refine obeys_bind obeys_aheadSpan fun _ _ => obeys_bind obeys_skip fun _ _ => ?_
  have hparameters : Obeys (fun _ => True) (repeatWhile parameterStep []) :=
    obeys_repeatWhile (I := fun _ => True) (fun before _ => obeys_parameterStep before) trivial
  refine obeys_bind hparameters fun ps _ => ?_
  refine obeys_bind (obeys_expect _ _) fun _ _ => obeys_bind (obeys_expect _ _) fun _ _ => ?_
  refine obeys_bind h.block fun s hs => obeys_bind obeys_lastStop fun _ _ => obeys_pure ?_
  exact within_function_iff.2 hs

/-- Parentheses make no operand of their own, and what stands in them is read with less room. -/
theorem nests_groupForm : Obeys (GoesOnWithin room) (groupForm inner) := by
  refine obeys_bind obeys_aheadSpan fun _ _ => obeys_bind obeys_skip fun _ _ => ?_
  refine obeys_bind (h.expression 0) fun e he => obeys_bind (obeys_expect _ _) fun _ _ => ?_
  exact obeys_bind obeys_lastStop fun _ _ => obeys_pure (within_withSpan.2 he.continue)

theorem nests_leadingForm (kind : OperatorKind) : Obeys (GoesOnWithin room) (leadingForm inner kind) := by
  refine obeys_bind obeys_aheadSpan fun _ _ => obeys_bind obeys_skip fun _ _ => ?_
  refine obeys_bind (h.expression _) fun e he => obeys_bind obeys_lastStop fun _ _ => obeys_build fun f hf => ?_
  rw [eq_of_prefixed? hf]
  exact within_operator nofun fun b hb => Option.mem_some.1 hb ▸ he

theorem nests_startForm : Obeys (GoesOnWithin room) (startForm inner) := by
  refine obeys_bind obeys_aheadSpan fun span _ => obeys_bind obeys_ahead fun kind _ => ?_
  split
  · exact nests_literalForm _
  · exact nests_literalForm _
  · exact nests_literalForm _
  · exact nests_literalForm _
  · exact nests_literalForm _
  · exact obeys_bind obeys_skip fun _ _ => obeys_pure (within_of_not_nests rfl)
  · exact nests_negativeForm
  · have hsees : Obeys (fun _ => True) seesFunction := fun _ => trivial
    refine obeys_bind hsees fun b _ => ?_
    split
    · exact nests_functionForm h
    · exact nests_groupForm h
  · exact h.object.mono fun e he => he.continue
  · split
    · exact nests_leadingForm h _
    · exact obeys_failExpected _
  · exact obeys_failAt nofun
  · exact obeys_failAt nofun
  · exact obeys_failExpected _

theorem nests_suffixForm {e : Expression} (he : GoesOnWithin room e) (start : Nat) (suffix : Suffix) :
    Obeys (GoesOnWithin room) (suffixForm inner start e suffix) := by
  have hleft (a : Operand) (ha : a ∈ some e.toOperand) : Within room [⟨a, true⟩] := Option.mem_some.1 ha ▸ he
  cases suffix with
  | call =>
    refine obeys_bind obeys_skip fun _ _ => obeys_bind (nests_arguments h) fun es hes => ?_
    refine obeys_bind (obeys_expect _ _) fun _ _ => obeys_bind obeys_lastStop fun _ _ => obeys_pure ?_
    exact within_call he hes
  | member =>
    refine obeys_bind obeys_aheadSpan fun _ _ => obeys_bind obeys_skip fun _ _ => ?_
    refine obeys_bind obeys_aheadSpan fun _ _ => obeys_bind (obeys_expectName _) fun _ _ => ?_
    refine obeys_bind obeys_lastStop fun _ _ => obeys_build fun f hf => ?_
    rw [eq_of_binary? hf]
    exact within_operator hleft fun b hb => Option.mem_some.1 hb ▸ within_of_not_nests rfl
  | step kind =>
    refine obeys_bind obeys_aheadSpan fun _ _ => obeys_bind obeys_skip fun _ _ => ?_
    refine obeys_bind obeys_lastStop fun _ _ => obeys_build fun f hf => ?_
    rw [eq_of_postfixed? hf]
    exact within_operator hleft nofun

theorem nests_binaryForm {e : Expression} (he : GoesOnWithin room e) (start : Nat) (rule : BinaryRule) :
    Obeys (GoesOnWithin room) (binaryForm inner start e rule) := by
  refine obeys_bind obeys_aheadSpan fun _ _ => obeys_bind obeys_skip fun _ _ => ?_
  split
  · exact obeys_failAt nofun
  · refine obeys_bind (h.expression _) fun rhs hrhs => obeys_bind obeys_lastStop fun _ _ => obeys_build fun f hf => ?_
    rw [eq_of_binary? hf]
    exact within_operator (fun a ha => Option.mem_some.1 ha ▸ he) fun b hb => Option.mem_some.1 hb ▸ hrhs

/-- However often the loop goes on, the room that it needs stays the same. -/
theorem nests_operatorStep {e : Expression} (he : GoesOnWithin room e) (least start : Nat) :
    Obeys (fun r => GoesOnWithin room r.1) (operatorStep inner least start e) := by
  refine obeys_bind obeys_ahead fun kind _ => ?_
  split
  · split
    · exact obeys_pure he
    · exact obeys_bind (nests_suffixForm h he start _) fun _ hf => obeys_pure hf
  · split
    · split
      · exact obeys_pure he
      · exact obeys_bind (nests_binaryForm h he start _) fun _ hf => obeys_pure hf
    · exact obeys_pure he

theorem nests_expressionForm (least : Nat) :
    Obeys (fun e => Within (room + 1) [⟨e.toOperand, false⟩]) (expressionForm inner least) := by
  refine obeys_bind obeys_aheadSpan fun span _ => obeys_bind (nests_startForm h) fun e he => ?_
  -- the answer of the loop is taken in by nothing, so it is here that a level costs one
  have hloop : Obeys (GoesOnWithin room) (repeatWhile (operatorStep inner least span.start) e) :=
    obeys_repeatWhile (fun f hf => nests_operatorStep h hf least span.start) he
  exact hloop.mono fun f hf => Within.by_itself hf

end Expressions

/-! ## Statements -/

section Statements

variable (h : inner.NestsWithin room)

theorem obeys_statementEnd : Obeys (fun _ => True) statementEnd := by
  refine obeys_bind (obeys_accept _) fun b _ => ?_
  split
  · exact obeys_pure trivial
  · refine obeys_bind obeys_ahead fun kind _ => ?_
    split
    · exact obeys_pure trivial
    · refine obeys_bind (obeys_sees _) fun b _ => ?_
      split
      · exact obeys_pure trivial
      · exact obeys_failExpected _

include h

theorem nests_letForm : Obeys (fun e => Within room (e.branches false)) (letForm inner) := by
  refine obeys_bind obeys_aheadSpan fun _ _ => obeys_bind obeys_skip fun _ _ => ?_
  refine obeys_bind obeys_aheadSpan fun _ _ => obeys_bind (obeys_expectName _) fun _ _ => ?_
  refine obeys_bind obeys_aheadSpan fun _ _ => obeys_bind (obeys_expect _ _) fun _ _ => ?_
  refine obeys_bind (h.expression 0) fun e he => obeys_bind obeys_lastStop fun _ _ => obeys_build fun f hf => ?_
  rw [eq_of_binary? hf]
  exact within_operands (fun a ha => Option.mem_some.1 ha ▸ within_of_not_nests rfl)
    fun b hb => Option.mem_some.1 hb ▸ he

theorem nests_returnForm : Obeys (fun e => Within room (e.branches false)) (returnForm inner) := by
  refine obeys_bind obeys_aheadSpan fun span _ => obeys_bind obeys_skip fun _ _ => ?_
  refine obeys_bind (obeys_bind obeys_ahead fun _ _ => obeys_pure trivial : Obeys (fun _ => True) seesStatementEnd)
    fun b _ => ?_
  have hbuild (a : Operand) (ha : Within room [⟨a, false⟩]) : Obeys (fun e => Within room (e.branches false)) (do
      build (Expression.prefixed? ⟨.ret, span⟩ a ⟨span.start, ← lastStop⟩) : Parser Expression) := by
    refine obeys_bind obeys_lastStop fun _ _ => obeys_build fun f hf => ?_
    rw [eq_of_prefixed? hf]
    exact within_operands nofun fun b hb => Option.mem_some.1 hb ▸ ha
  split
  · exact hbuild _ (within_of_not_nests rfl)
  · exact obeys_bind (obeys_map (h.expression 0)) fun a ha => hbuild a ha

theorem nests_statementBody : Obeys (fun e => Within room (e.branches false)) (statementBody inner) := by
  refine obeys_bind obeys_ahead fun kind _ => ?_
  split
  · exact nests_letForm h
  · exact nests_returnForm h
  · exact (h.expression 0).mono fun e he => within_branches he

theorem nests_statementForm :
    Obeys (fun s => ∀ t ∈ s, Within room (t.body.branches false)) (statementForm inner) := by
  refine obeys_bind obeys_aheadSpan fun _ _ => obeys_bind obeys_ahead fun kind _ => ?_
  split
  · exact obeys_bind obeys_skip fun _ _ => obeys_pure nofun
  · have hblock : Obeys (fun t => Within room (t.body.branches false)) (blockStatement inner) :=
      obeys_bind h.block fun s hs => obeys_bind (obeys_accept _) fun _ _ => obeys_pure hs
    exact obeys_bind hblock fun t ht => obeys_pure fun u hu => Option.mem_some.1 hu ▸ ht
  · refine obeys_bind (nests_statementBody h) fun e he => obeys_bind obeys_lastStop fun _ _ => ?_
    exact obeys_bind obeys_statementEnd fun _ _ => obeys_pure fun u hu => Option.mem_some.1 hu ▸ he

theorem nests_statements : Obeys (fun ss => ∀ t ∈ ss, Within room (t.body.branches false)) (statements inner) := by
  refine obeys_repeatWhile (fun before hbefore => obeys_bind obeys_ahead fun kind _ => ?_) nofun
  split
  · exact obeys_pure hbefore
  · refine obeys_bind (nests_statementForm h) fun s hs => obeys_pure fun t ht => ?_
    rcases List.mem_append.1 ht with ht | ht
    · exact hbefore t ht
    · exact hs t (Option.mem_toList.1 ht)

theorem nests_blockForm : Obeys (fun s => Within (room + 1) [⟨.block s, false⟩]) (blockForm inner) := by
  refine obeys_bind obeys_aheadSpan fun _ _ => obeys_bind (obeys_expect _ _) fun _ _ => ?_
  refine obeys_bind (nests_statements h) fun body hbody => obeys_bind (obeys_expect _ _) fun _ _ => ?_
  exact obeys_bind obeys_lastStop fun _ _ => obeys_pure (within_block hbody)

end Statements

/-! ## Levels and programs -/

/-- Every level nests as deep as its room, since it deepens what the next one nests at most once. -/
theorem nestsWithin_levelAt (room : Nat) : (levelAt room).NestsWithin room := by
  have hdeep {α : Type} {Q : α → Prop} : Obeys Q tooDeep := obeys_bind obeys_aheadSpan fun _ _ => obeys_failAt nofun
  induction room with
  | zero => exact ⟨fun _ => hdeep, hdeep, hdeep⟩
  | succ room ih => exact ⟨nests_expressionForm ih, nests_blockForm ih, nests_objectForm ih⟩

theorem nests_programForm : Obeys (fun p => Within maxNesting p.body.branches) programForm := by
  refine obeys_bind obeys_aheadSpan fun _ _ => ?_
  refine obeys_bind (nests_statements (nestsWithin_levelAt maxNesting)) fun body hbody => ?_
  refine obeys_bind obeys_ahead fun kind _ => ?_
  split
  · exact obeys_bind obeys_lastStop fun _ _ => obeys_pure (within_flatMap.2 hbody)
  · exact obeys_bind obeys_aheadSpan fun _ _ => obeys_failAt nofun

/-- What tokens make nests as deep as readers allow. -/
theorem within_of_parseTokens {tokens : List Token} {p : Program} (h : parseTokens tokens = .ok p) :
    Within maxNesting p.body.branches := by
  have hobeys := nests_programForm.run' (Cursor.ofTokens tokens)
  rw [← parseTokens, h] at hobeys
  exact hobeys

/-- The error of tokens that make no program is no error of the lexer. -/
theorem grammatical_of_parseTokens {tokens : List Token} {e : ParseError} (h : parseTokens tokens = .error e)
    (fault : LexFault) : e.fault ≠ .lexical fault := by
  have hobeys := nests_programForm.run' (Cursor.ofTokens tokens)
  rw [← parseTokens, h] at hobeys
  exact hobeys fault

/-! ## Texts -/

/-- On every path through a program from its statements to a leaf, at most as many operands as readers allow are
expressions, blocks, object literals, functions or calls, except for the expressions and the calls that an operator or
a call behind them takes in. -/
theorem nesting_bounded {source : List Char} {p : Program} {path : List Branch} (h : parse source = .ok p)
    (hpath : Branch.Path p.body.branches path) : path.countP Branch.deepens ≤ maxNesting :=
  within_of_parseTokens (parse_eq_ok_iff.1 h).2 path hpath

/-- How many operands that count are on the path of a script that goes by the last operand each time. -/
def countOnLastPath (counts : Branch → Bool) (bound : Nat) (source : List Char) : Option Nat :=
  match parse source with
  | .ok p =>
    let path := Branch.lastPath bound p.body.branches
    if path.length < bound then some (path.countP counts) else none
  | .error _ => none

theorem exists_path_of_countOnLastPath {counts : Branch → Bool} {bound n : Nat} {source : List Char}
    (h : countOnLastPath counts bound source = some n) :
    ∃ p path, parse source = .ok p ∧ Branch.Path p.body.branches path ∧ path.countP counts = n := by
  unfold countOnLastPath at h
  split at h
  · rename_i p hp
    dsimp only at h
    split at h
    · rename_i hlength
      exact ⟨p, _, hp, Branch.path_lastPath hlength, Option.some.inj h⟩
    · cases h
  · cases h

/-- Calls that are arguments of calls, `n` of them, as in `f(f())`. -/
def callsInCalls (n : Nat) : List Char := (List.replicate n ['f', '(']).flatten ++ List.replicate n ')'

/-- A script may nest as deep as that. -/
theorem nesting_bounded_callsInCalls :
    ∃ p path, parse (callsInCalls 128) = .ok p ∧ Branch.Path p.body.branches path ∧
      path.countP Branch.deepens = 128 ∧ path.countP Branch.deepens ≤ maxNesting := by
  have hcount : countOnLastPath Branch.deepens 200 (callsInCalls 128) = some 128 := by decide +kernel
  obtain ⟨p, path, hp, hpath, hcount⟩ := exists_path_of_countOnLastPath hcount
  exact ⟨p, path, hp, hpath, hcount, nesting_bounded hp hpath⟩

/-- A name that is called `n` times over, as in `f()()`. -/
def calledOver (n : Nat) : List Char := 'f' :: (List.replicate n ['(', ')']).flatten

/-- Calls that take one another in cost no room, so there may be more of them on one path. -/
theorem chains_unbounded :
    ¬∀ (source : List Char) (p : Program) (path : List Branch), parse source = .ok p →
      Branch.Path p.body.branches path → path.countP (fun b => b.operand.nests) ≤ maxNesting := by
  intro hall
  have hcount : countOnLastPath (fun b => b.operand.nests) 200 (calledOver 129) = some 129 := by decide +kernel
  obtain ⟨p, path, hp, hpath, hcount⟩ := exists_path_of_countOnLastPath hcount
  have hbound := hall _ p path hp hpath
  rw [hcount] at hbound
  exact absurd hbound (by decide)

end GameScript
