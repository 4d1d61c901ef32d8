import GameScript.Proofs.Parse.Spine

/-!
# Reading what was written

Reading the tokens of a canonical program gives the program back, except for places, when the program nests no deeper
than readers allow; when it does nest deeper, readers say so (`parseTokens_tokens`). Statements are read one by one
(`gives_statements`), and a level gives back what was written when the next one does (`reads_levelAt`).
-/

namespace GameScript

open GameScript.Parser

/-! ## Statements -/

section Statements

variable {inner : Level} {room : Nat} (h : inner.Reads room) {e : Expression} {c : Cursor} {ks : List TokenKind}

theorem isStatementForm_eq_false (he : (Node.expression e).Canonical) : e.isStatementForm = false := by
  unfold Expression.isStatementForm
  split
  · rename_i s _
    have hs : (Node.operand (.block s)).Canonical := he.child (by simp [Node.children])
    exact absurd hs.proper id
  · exact absurd rfl he.proper.2.1
  · rename_i name nameSpan _ _ _
    have hv : (Node.operand (.var ⟨name, .declare, nameSpan⟩)).Canonical := he.child (by simp [Node.children])
    exact absurd hv.proper (show VariableRole.declare ≠ .use by decide)
  · rfl

theorem stops_semi : Stops 0 (.symbol .semi :: ks) := stops_symbol rfl rfl (by decide)

theorem gives_statementEnd (hc : c.Spells (.symbol .semi :: ks)) :
    Gives True (fun _ => True) ks (statementEnd c) :=
  gives_accept hc fun hd => gives_pure trivial hd

/-- A statement is what its body is, when a semicolon comes after that. -/
theorem gives_statementTail {fits : Prop} {p : Parser Expression} {start : Nat}
    (hp : Gives fits (fun f => f.eraseSpans = e.eraseSpans) (.symbol .semi :: ks) (p c)) :
    Gives fits (fun (r : Option Statement) => Statement.eraseAll r.toList = [⟨e.eraseSpans, {}⟩]) ks
      ((do
        let body ← p
        let span : Span := ⟨start, ← lastStop⟩
        statementEnd
        return some ⟨body, span⟩ : Parser (Option Statement)) c) := by
  refine hp.bind_sure fun f d hf hd => gives_lastStop fun stop => ?_
  refine (gives_statementEnd hd).bind_sure fun _ d _ hd => gives_pure ?_ hd
  simp [Statement.eraseAll, hf]

/-- How many levels are below a statement. -/
def Expression.statementDepth (e : Expression) : Nat :=
  if e.isStatementForm then e.depth else (if e.needsParentheses e.tokens then e.depth + 1 else e.depth) + 1

/-- A statement comes next, which is read up to its semicolon. -/
def Level.ReadsStatement (inner : Level) (room : Nat) (e : Expression) (ks : List TokenKind) (c : Cursor) : Prop :=
  (∃ k us, c.Spells (k :: us) ∧ k.isSymbol .rBrace = false ∧ k.isEnd = false) ∧
    Gives (e.statementDepth < room + 1) (fun r => Statement.eraseAll r.toList = [⟨e.eraseSpans, {}⟩]) ks
      (statementForm inner c)

include h

theorem gives_letForm {name : String} {nameSpan opSpan span : Span} {a : Operand} (ha : (Node.operand a).Canonical)
    (hks : Stops 0 ks) (hc : c.Spells (.letWord :: .ident name :: .symbol .eq :: (a.tokens ++ ks))) :
    Gives (a.depth < room)
      (fun f => f.eraseSpans =
        (Expression.binary (.var ⟨name, .declare, nameSpan⟩) ⟨.assign, opSpan⟩ a span).eraseSpans)
      ks (letForm inner c) := by
  unfold letForm
  refine gives_aheadSpan hc fun _ => gives_skip hc (by simp) fun hd => gives_aheadSpan hd fun _ => ?_
  refine gives_expectName hd fun hd => gives_aheadSpan hd fun _ => gives_expect hd fun hd => ?_
  have htokens : (a.asExpression span).tokens = a.tokens := tokens_asExpression
  rw [← htokens] at hd
  have hread := h.whole (canonical_asExpression ha) hks hd
  rw [depth_asExpression] at hread
  refine hread.bind_sure fun f d hf hd => gives_lastStop fun stop => gives_build (if_pos rfl) ?_ hd
  simp [Expression.binary, Expression.eraseSpans, Operand.eraseSlot, Operator.eraseSpan, Operand.eraseSpans,
    Variable.eraseSpan, toOperand_of_asExpression ha hf]

theorem gives_returnForm {opSpan span : Span} {a : Operand} (ha : (Node.operand a).Canonical)
    (hks : Stops 0 ks) (hc : c.Spells (.returnWord :: (a.tokens ++ ks))) :
    Gives (a.depth < room)
      (fun f => f.eraseSpans = (Expression.prefixed ⟨.ret, opSpan⟩ a span).eraseSpans) ks (returnForm inner c) := by
  unfold returnForm
  refine gives_aheadSpan hc fun _ => gives_skip hc (by simp) fun hd => ?_
  have hno : seesStatementEnd c.next = .ok (false, c.next) := by
    obtain ⟨k, rest, hk, hstart⟩ := (opens_operand a ha).exists_cons
    rw [hk] at hd
    simp [seesStatementEnd, bind, StateT.bind, ahead_eq hd, Except.bind, pure, StateT.pure, Except.pure,
      hstart.isSymbol_eq_false, hstart.isEnd_eq_false]
  refine gives_bind hno ?_
  have htokens : (a.asExpression span).tokens = a.tokens := tokens_asExpression
  rw [← htokens] at hd
  have hread := h.whole (canonical_asExpression ha) hks hd
  rw [depth_asExpression] at hread
  have hvalue : Gives (a.depth < room) (fun b => b.eraseSpans = a.eraseSpans) ks
      ((Expression.toOperand <$> inner.expression 0) c.next) := by
    rw [map_eq_pure_bind]
    exact hread.bind_sure fun f d hf hd => gives_pure (toOperand_of_asExpression ha hf) hd
  refine hvalue.bind_sure fun b d hb hd => gives_lastStop fun stop => gives_build
    (if_neg (show OperatorKind.ret.arity ≠ .binary by decide)) ?_ hd
  simp [Expression.prefixed, Expression.eraseSpans, Operand.eraseSlot, Operator.eraseSpan, hb]

theorem readsStatement_block {s : Scope} {span : Span} (hs : (Node.scope s).Canonical)
    (hc : c.Spells ((Expression.leaf (.block s) span).statementTokens ++ .symbol .semi :: ks)) :
    inner.ReadsStatement room (.leaf (.block s) span) ks c := by
  have hc' : c.Spells (s.tokens ++ .symbol .semi :: ks) := by
    simpa [Expression.statementTokens, Expression.needsParentheses, Expression.isStatementForm, Expression.leaf,
      Expression.tokens, Operand.tokens] using hc
  have hbrace : c.Spells
      (.symbol .lBrace :: (Statement.tokensAll s.body ++ .symbol .rBrace :: .symbol .semi :: ks)) := by
    obtain ⟨body, _⟩ := s
    simpa [Scope.tokens] using hc'
  refine ⟨⟨_, _, hbrace, rfl, rfl⟩, ?_⟩
  refine gives_aheadSpan hbrace fun _ => gives_ahead hbrace ?_
  have hblock : Gives (s.depth < room)
      (fun (r : Statement) => r.body.eraseSpans = (Expression.leaf (.block s) span).eraseSpans) ks
      (blockStatement inner c) := by
    refine (h.block hs hc').bind_sure fun t d ht hd => gives_accept hd fun hd => gives_pure ?_ hd
    simp [Expression.leaf, Expression.eraseSpans, Operand.eraseSlot, Operand.eraseSpans, ht]
  refine Gives.congr (hblock.bind_sure fun t d ht hd => gives_pure ?_ hd) ?_
  · obtain ⟨body, _⟩ := t
    simpa [Statement.eraseAll] using ht
  · simp [Expression.statementDepth, Expression.isStatementForm, Expression.leaf, Expression.depth, Operand.depth]

theorem readsStatement_ret {opSpan span : Span} {a : Operand} (ha : (Node.operand a).Canonical)
    (hc : c.Spells ((Expression.prefixed ⟨.ret, opSpan⟩ a span).statementTokens ++ .symbol .semi :: ks)) :
    inner.ReadsStatement room (.prefixed ⟨.ret, opSpan⟩ a span) ks c := by
  have hc' : c.Spells (.returnWord :: (a.tokens ++ .symbol .semi :: ks)) := by
    simpa [Expression.statementTokens, Expression.needsParentheses, Expression.isStatementForm, Expression.prefixed,
      Expression.tokens, grouped, OperatorKind.level, OperatorKind.token] using hc
  refine ⟨⟨_, _, hc', rfl, rfl⟩, ?_⟩
  refine gives_aheadSpan hc' fun _ => gives_ahead hc' ?_
  refine (gives_statementTail (gives_ahead hc' (gives_returnForm h ha stops_semi hc'))).congr ?_
  simp [Expression.statementDepth, Expression.isStatementForm, Expression.prefixed, Expression.depth, depthGrouped,
    OperatorKind.level]

theorem readsStatement_declaration {name : String} {nameSpan opSpan span : Span} {a : Operand}
    (ha : (Node.operand a).Canonical)
    (hc : c.Spells ((Expression.binary (.var ⟨name, .declare, nameSpan⟩) ⟨.assign, opSpan⟩ a span).statementTokens
      ++ .symbol .semi :: ks)) :
    inner.ReadsStatement room (.binary (.var ⟨name, .declare, nameSpan⟩) ⟨.assign, opSpan⟩ a span) ks c := by
  have hc' : c.Spells (.letWord :: .ident name :: .symbol .eq :: (a.tokens ++ .symbol .semi :: ks)) := by
    simpa [Expression.statementTokens, Expression.needsParentheses, Expression.isStatementForm, Expression.binary,
      Expression.tokens, Operand.tokens, grouped, OperatorKind.level, OperatorKind.leftLevel,
      OperatorKind.rightLevel, OperatorKind.isAssignment, Operand.level, OperatorKind.token] using hc
  refine ⟨⟨_, _, hc', rfl, rfl⟩, ?_⟩
  refine gives_aheadSpan hc' fun _ => gives_ahead hc' ?_
  refine (gives_statementTail (gives_ahead hc' (gives_letForm h ha stops_semi hc'))).congr ?_
  simp [Expression.statementDepth, Expression.isStatementForm, Expression.binary, Expression.depth, depthGrouped,
    OperatorKind.leftLevel, OperatorKind.rightLevel, OperatorKind.isAssignment, Operand.level, Operand.depth]

omit h in
/-- An expression that is a statement does not start with a brace: it stands in parentheses where it would. -/
theorem statementTokens_eq_cons (he : (Node.expression e).Canonical) :
    ∃ k us, e.statementTokens = k :: us ∧ k.StartsExpression ∧ k ≠ .symbol .lBrace := by
  obtain ⟨k, us, hk, hstart⟩ := (opens_tokens e he).exists_cons
  unfold Expression.statementTokens
  split
  · exact ⟨_, _, rfl, by simp [TokenKind.StartsExpression], by simp⟩
  · rename_i hp
    refine ⟨k, us, hk, hstart, ?_⟩
    intro hbrace
    apply hp
    simp [Expression.needsParentheses, isStatementForm_eq_false he, hk, hbrace, TokenKind.isSymbol]

theorem gives_statementExpression (he : (Node.expression e).Canonical)
    (hc : c.Spells (e.statementTokens ++ .symbol .semi :: ks)) :
    Gives (e.statementDepth < room + 1) (fun f => f.eraseSpans = e.eraseSpans) (.symbol .semi :: ks)
      (inner.expression 0 c) := by
  unfold Expression.statementTokens at hc
  rw [Expression.statementDepth, isStatementForm_eq_false he]
  split at hc
  · rename_i hp
    simpa [hp] using h.group he (Nat.zero_le _) stops_semi hc
  · rename_i hp
    simpa [hp] using h.whole he stops_semi hc

theorem readsStatement_expression (he : (Node.expression e).Canonical)
    (hc : c.Spells (e.statementTokens ++ .symbol .semi :: ks)) : inner.ReadsStatement room e ks c := by
  have hread := gives_statementExpression h he hc
  obtain ⟨k, us, hk, hstart, hbrace⟩ := statementTokens_eq_cons he
  rw [hk] at hc
  refine ⟨⟨k, _, hc, hstart.isSymbol_eq_false (by decide), hstart.isEnd_eq_false⟩, ?_⟩
  refine gives_aheadSpan hc fun _ => gives_ahead hc ?_
  have hbody : Gives (e.statementDepth < room + 1) (fun f => f.eraseSpans = e.eraseSpans) (.symbol .semi :: ks)
      (statementBody inner c) := by
    refine gives_ahead hc ?_
    cases k <;> first | exact hread | exact absurd hstart id
  cases k with
  | symbol s =>
    cases s <;> first
      | exact gives_statementTail hbody
      | exact absurd rfl hbrace
      | exact absurd hstart (by simp [TokenKind.StartsExpression])
  | _ => exact gives_statementTail hbody

/-- A statement and its semicolon. -/
theorem readsStatement (he : (Node.statement e).Canonical)
    (hc : c.Spells (e.statementTokens ++ .symbol .semi :: ks)) : inner.ReadsStatement room e ks c := by
  cases formedStatement_of_canonical he with
  | block s span hs => exact readsStatement_block h hs hc
  | ret opSpan a span ha => exact readsStatement_ret h ha hc
  | declaration name nameSpan opSpan a span ha => exact readsStatement_declaration h ha hc
  | expression _ he => exact readsStatement_expression h he hc

theorem gives_statementStep (he : (Node.statement e).Canonical) {before : List Statement}
    (hc : c.Spells (e.statementTokens ++ .symbol .semi :: ks)) :
    Gives (e.statementDepth < room + 1) (fun (r : List Statement × Bool) => r.2 = true ∧
      Statement.eraseAll r.1 = Statement.eraseAll before ++ [⟨e.eraseSpans, {}⟩]) ks
      (statementStep inner before c) := by
  obtain ⟨⟨k, us, hk, hbrace, hend⟩, hform⟩ := readsStatement h he hc
  refine gives_ahead hk ?_
  rw [if_neg (by simp [hbrace, hend])]
  refine hform.bind_sure fun s d hs hd => gives_pure ⟨rfl, ?_⟩ hd
  rw [Statement.eraseAll_append, hs]

omit h in
theorem gives_statementStep_stops {k : TokenKind} (hk : (k.isSymbol .rBrace || k.isEnd) = true)
    {before : List Statement} (hc : c.Spells (k :: ks)) :
    Gives True (fun (r : List Statement × Bool) => r.2 = false ∧ r.1 = before) (k :: ks)
      (statementStep inner before c) := by
  refine gives_ahead hc ?_
  rw [if_pos hk]
  exact gives_pure ⟨rfl, rfl⟩ hc

/-- Statements, each with a semicolon after it, up to a token that ends them. -/
theorem gives_statements {body : List Statement} (hbody : ∀ t ∈ body, (Node.statement t.body).Canonical)
    {k : TokenKind} (hk : (k.isSymbol .rBrace || k.isEnd) = true)
    (hc : c.Spells (Statement.tokensAll body ++ k :: ks)) :
    Gives (Statement.depthAll body < room + 1) (fun r => Statement.eraseAll r = Statement.eraseAll body) (k :: ks)
      (statements inner c) := by
  suffices hloop : ∀ before, Gives (Statement.depthAll body < room + 1)
      (fun r => Statement.eraseAll r = Statement.eraseAll before ++ Statement.eraseAll body) (k :: ks)
      (repeatWhile (statementStep inner) before c) from hloop []
  have hp := (keeps_statementStep h.sound).progresses
  induction body generalizing c with
  | nil =>
    intro before
    have hstep : Gives True (fun (r : List Statement × Bool) => r.2 = false ∧
        Statement.eraseAll r.1 = Statement.eraseAll before ++ Statement.eraseAll []) (k :: ks)
        (statementStep inner before c) :=
      (gives_statementStep_stops hk hc).mono fun r ⟨hno, hr⟩ => ⟨hno, by simp [hr, Statement.eraseAll]⟩
    exact (gives_repeatWhile_last hp hc.closed hstep).congr (by simp [Statement.depthAll])
  | cons t rest ih =>
    intro before
    obtain ⟨e, span⟩ := t
    have he : (Node.statement e).Canonical := hbody _ List.mem_cons_self
    have hc' : c.Spells (e.statementTokens ++ .symbol .semi :: (Statement.tokensAll rest ++ k :: ks)) := by
      simpa [Statement.tokensAll, Expression.statementTokens] using hc
    have hrest (before' : List Statement) (d : Cursor)
        (hb : Statement.eraseAll before' = Statement.eraseAll before ++ [⟨e.eraseSpans, {}⟩])
        (hd : d.Spells (Statement.tokensAll rest ++ k :: ks)) :
        Gives (Statement.depthAll rest < room + 1)
          (fun r => Statement.eraseAll r = Statement.eraseAll before ++ Statement.eraseAll (⟨e, span⟩ :: rest))
          (k :: ks) (repeatWhile (statementStep inner) before' d) := by
      apply (ih (fun t ht => hbody t (List.mem_cons_of_mem _ ht)) hd before').mono
      intro r hr
      simp [hr, hb, Statement.eraseAll]
    refine (gives_repeatWhile_more hp hc.closed (gives_statementStep h he hc') hrest).congr ?_
    simp [Statement.depthAll, Expression.statementDepth]

theorem gives_blockForm {s : Scope} (hs : (Node.scope s).Canonical) (hc : c.Spells (s.tokens ++ ks)) :
    Gives (s.depth < room + 1) (fun t => t.eraseSpans = s.eraseSpans) ks (blockForm inner c) := by
  obtain ⟨body, span⟩ := s
  have hc' : c.Spells (.symbol .lBrace :: (Statement.tokensAll body ++ .symbol .rBrace :: ks)) := by
    simpa [Scope.tokens] using hc
  have hbody : ∀ t ∈ body, (Node.statement t.body).Canonical := fun t ht => hs.child (List.mem_map_of_mem ht)
  refine gives_aheadSpan hc' fun _ => gives_expect hc' fun hd => ?_
  refine Gives.congr ((gives_statements h hbody rfl hd).bind_sure fun r d hr hd => ?_) (by rw [Scope.depth])
  refine gives_expect hd fun hd => gives_lastStop fun stop => gives_pure ?_ hd
  simp [Scope.eraseSpans, hr]

end Statements

/-! ## Levels and programs -/

section Levels

variable {inner : Level} {room : Nat} (h : inner.Reads room) {e : Expression} {c : Cursor} {ks : List TokenKind}

include h

/-- A loop of operators that ends at once. -/
theorem gives_operators_stop {least start : Nat} {f : Expression} (hf : f.eraseSpans = e.eraseSpans)
    (hks : Stops least ks) (hc : c.Spells ks) :
    Gives True (fun g => g.eraseSpans = e.eraseSpans) ks (repeatWhile (operatorStep inner least start) f c) := by
  cases ks with
  | nil => exact absurd hc.2 List.not_mem_nil
  | cons k ks =>
    refine gives_repeatWhile_last (keeps_operatorStep h.sound).progresses hc.closed ?_
    exact (gives_operatorStep_stops hks hc).mono fun r ⟨hm, hr⟩ => ⟨hm, by rw [hr, hf]⟩

theorem gives_expressionForm (he : (Node.expression e).Canonical) {least : Nat} (hl : least ≤ leftPower e.level)
    (hks : Stops least ks) (hc : c.Spells (e.tokens ++ ks)) :
    Gives (e.depth < room + 1) (fun f => f.eraseSpans = e.eraseSpans) ks (expressionForm inner least c) := by
  obtain ⟨k, us, hk, -⟩ := (opens_tokens e he).exists_cons
  have hc' : c.Spells (k :: (us ++ ks)) := by simpa [hk] using hc
  refine gives_aheadSpan hc' fun span => ?_
  refine (readsSpine h e he (hks.ends hl) hl hc fun f d hf hd => gives_operators_stop h hf hks hd).congr ?_
  simp

theorem gives_expressionForm_group (he : (Node.expression e).Canonical) {least : Nat} (hks : Stops least ks)
    (hc : c.Spells (inParentheses e.tokens ++ ks)) :
    Gives (e.depth < room) (fun f => f.eraseSpans = e.eraseSpans) ks (expressionForm inner least c) := by
  have hc' : c.Spells (.symbol .lParen :: (e.tokens ++ .symbol .rParen :: ks)) := by simpa [inParentheses] using hc
  refine gives_aheadSpan hc' fun span => ?_
  have harrow : ks.head? ≠ some (.symbol .fatArrow) := fun hk => (hks _ hk).2.2 rfl
  exact (gives_startForm_group h he harrow hc).bind_sure fun f d hf hd => gives_operators_stop h hf hks hd

end Levels

/-- Every level gives back what was written as far as its room goes, since each is built from the next one. -/
theorem reads_levelAt (room : Nat) : (levelAt room).Reads room := by
  induction room with
  | zero =>
    refine ⟨sound_levelAt 0, fun _ _ _ hc => ?_, fun _ _ _ hc => ?_, fun _ hc => ?_, fun _ hc => ?_⟩
    all_goals exact gives_tooDeep hc.closed (Nat.not_lt_zero _)
  | succ room ih =>
    refine ⟨sound_levelAt _, fun he hl hks hc => gives_expressionForm ih he hl hks hc, fun he hl hks hc => ?_,
      fun hs hc => gives_blockForm ih hs hc, fun hps hc => gives_objectForm ih hps hc⟩
    exact (gives_expressionForm_group ih he hks hc).congr (by omega)

/-- Tokens that are written with an end token are closed already. -/
theorem spells_ofTokens {ts : List Token} {ks : List TokenKind} (h : ts.map Token.kind = ks ++ [.endOfText]) :
    (Cursor.ofTokens ts).Spells (ks ++ [.endOfText]) := by
  have hclosed : closeTokens ts = ts := by
    unfold closeTokens
    cases hlast : ts.getLast? with
    | none => simp [List.getLast?_eq_none_iff.1 hlast] at h
    | some t =>
      have hkind : t.kind = .endOfText := by
        have := congrArg List.getLast? h
        simpa [List.getLast?_map, hlast] using this
      simp [hkind, TokenKind.isEnd]
  exact ⟨by rw [Cursor.ofTokens, hclosed, h], by simp⟩

/-- Reading the tokens of a canonical program gives the program back, except for places, when it nests no deeper than
readers allow; and they say so when it does. -/
theorem parseTokens_tokens (p : Program) (hp : p.Canonical) (ts : List Token) (hts : ts.map Token.kind = p.tokens) :
    (p.nesting ≤ maxNesting → ∃ q, parseTokens ts = .ok q ∧ q.eraseSpans = p.eraseSpans) ∧
      (maxNesting < p.nesting → ∃ span, parseTokens ts = .error ⟨.nestedTooDeeply, span⟩) := by
  obtain ⟨⟨body, span⟩⟩ := p
  have hbody : ∀ t ∈ body, (Node.statement t.body).Canonical := fun t ht => hp.child (List.mem_map_of_mem ht)
  have hc : (Cursor.ofTokens ts).Spells (Statement.tokensAll body ++ [.endOfText]) := spells_ofTokens hts
  have hread : Gives (Statement.depthAll body < maxNesting + 1)
      (fun q => q.eraseSpans = (⟨⟨body, span⟩⟩ : Program).eraseSpans) [.endOfText]
      (programForm (Cursor.ofTokens ts)) := by
    obtain ⟨k, us, hk⟩ : ∃ k us, Statement.tokensAll body ++ [.endOfText] = k :: us :=
      List.exists_cons_of_ne_nil (by simp)
    refine gives_aheadSpan (hk ▸ hc) fun _ => ?_
    refine (gives_statements (reads_levelAt maxNesting) hbody rfl hc).bind_sure fun r d hr hd => gives_ahead hd ?_
    refine gives_lastStop fun stop => gives_pure ?_ hd
    simp [Program.eraseSpans, Scope.eraseSpans, hr]
  have hnesting : (⟨⟨body, span⟩⟩ : Program).nesting = Statement.depthAll body := by
    rw [Program.nesting, Scope.depth]
  rw [hnesting]
  constructor
  · intro hfits
    rcases hread with ⟨-, q, d, hx, hq, -⟩ | ⟨hno, -⟩
    · exact ⟨q, by simp [parseTokens, StateT.run', hx, Functor.map, Except.map], hq⟩
    · exact absurd (Nat.lt_succ_of_le hfits) hno
  · intro hdeep
    rcases hread with ⟨hyes, -⟩ | ⟨-, at_, hx⟩
    · exact absurd hdeep (by omega)
    · exact ⟨at_, by simp [parseTokens, StateT.run', hx, Functor.map, Except.map]⟩

/-- The program `a - (b - c);`, without places. -/
def nestedSubtraction : Program :=
  let name (s : String) : Operand := .var ⟨s, .use, {}⟩
  let minus : Operator := ⟨.sub, {}⟩
  ⟨⟨[⟨.binary (name "a") minus (.expression (.binary (name "b") minus (name "c") {})) {}, {}⟩], {}⟩⟩

/-- Parentheses around a right operand of the same level are kept. -/
theorem parseTokens_nestedSubtraction :
    ∃ q, parseTokens (([.ident "a", .symbol .minus, .symbol .lParen, .ident "b", .symbol .minus, .ident "c",
      .symbol .rParen, .symbol .semi, .endOfText] : List TokenKind).map (⟨·, {}⟩)) = .ok q ∧
        q.eraseSpans = nestedSubtraction.eraseSpans := by
  have hname (s : String) : (Node.operand (.var ⟨s, .use, {}⟩)).Canonical :=
    Node.canonical_iff.2 ⟨rfl, fun m hm => absurd hm List.not_mem_nil⟩
  have hsub {a b : Operand} (ha : (Node.operand a).Canonical) (hb : (Node.operand b).Canonical) :
      (Node.expression (.binary a ⟨.sub, {}⟩ b {})).Canonical :=
    canonical_binary ha hb rfl (fun h => absurd h (show OperatorKind.sub.isAssignment ≠ true by decide))
      (fun h => by cases h)
  refine (parseTokens_tokens nestedSubtraction (canonical_scope fun t ht => ?_) _ (by rfl)).1 (by decide)
  obtain rfl := List.mem_singleton.1 ht
  exact canonical_statement (hsub (hname "a") (canonical_toOperand (hsub (hname "b") (hname "c"))))

end GameScript
