import GameScript.Proofs.Parse.WrittenForms

/-!
# The left spine of an expression

A written expression is followed along its left spine: the first form is read, and then one operator or suffix after the
other, up to the whole expression, without leaving the loop of `expressionForm`. `Level.ReadsSpine` says that this goes
well for an expression; it goes on through parentheses (`Level.ReadsSpine.grouped`), suffixes
(`Level.ReadsSpine.suffix`) and binary operators (`readsSpine_binary`), hence for every canonical expression
(`readsSpine`).
-/

namespace GameScript

open GameScript.Parser

/-! ## Operators and suffixes -/

section Steps

variable {inner : Level} {least start : Nat} {f : Expression} {c : Cursor} {k : TokenKind} {ks ks' : List TokenKind}
  {fits : Prop} {good : Expression → Prop}

/-- What may not go on with an expression is left where it is. -/
theorem gives_operatorStep_stops (hk : Stops least (k :: ks)) (hc : c.Spells (k :: ks)) :
    Gives True (fun (r : Expression × Bool) => r.2 = false ∧ r.1 = f) (k :: ks)
      (operatorStep inner least start f c) := by
  obtain ⟨hs, hb, -⟩ := hk k rfl
  have hstop : Gives True (fun (r : Expression × Bool) => r.2 = false ∧ r.1 = f) (k :: ks)
      ((pure (f, false) : Parser _) c) := gives_pure ⟨rfl, rfl⟩ hc
  unfold operatorStep
  refine gives_ahead hc ?_
  simp only [hs]
  cases hr : k.binaryRule? with
  | none => exact hstop
  | some rule =>
    dsimp only
    rw [if_pos (hb rule hr)]
    exact hstop

theorem gives_operatorStep_suffix {suffix : Suffix} (hk : k.suffix? = some suffix) (hl : least ≤ 16)
    (hc : c.Spells (k :: ks)) (h : Gives fits good ks' (suffixForm inner start f suffix c)) :
    Gives fits (fun (r : Expression × Bool) => r.2 = true ∧ good r.1) ks' (operatorStep inner least start f c) := by
  have hpower : ¬suffix.power < least := by cases suffix <;> simp [Suffix.power] <;> omega
  unfold operatorStep
  refine gives_ahead hc ?_
  simp only [hk]
  rw [if_neg hpower]
  exact h.bind_sure fun g d hg hd => gives_pure ⟨rfl, hg⟩ hd

theorem gives_operatorStep_binary {rule : BinaryRule} (hk : k.suffix? = none) (hr : k.binaryRule? = some rule)
    (hl : least ≤ rule.left) (hc : c.Spells (k :: ks))
    (h : Gives fits good ks' (binaryForm inner start f rule c)) :
    Gives fits (fun (r : Expression × Bool) => r.2 = true ∧ good r.1) ks' (operatorStep inner least start f c) := by
  unfold operatorStep
  refine gives_ahead hc ?_
  simp only [hk, hr]
  rw [if_neg (by omega)]
  exact h.bind_sure fun g d hg hd => gives_pure ⟨rfl, hg⟩ hd

variable {room : Nat} (h : inner.Reads room) {a b : Operand} {op : Operator} {span : Span}
  (ha : (Node.operand a).Canonical) (hf : f.eraseSpans = (a.asExpression span).eraseSpans)

include hf ha in
theorem toOperand_of_asExpression : f.toOperand.eraseSpans = a.eraseSpans := by
  rw [toOperand_eraseSpans_congr hf, toOperand_asExpression ha]

include h hf ha

theorem gives_binaryForm (hb : (Node.operand b).Canonical) (hop : op.kind.arity = .binary) (hchild : op.kind ≠ .child)
    (hplace : op.kind.isAssignment = true → a.IsPlace) (hks : Stops (rightPower op.kind.level) ks)
    (hc : c.Spells (op.kind.token :: (grouped op.kind.rightLevel b.level b.tokens ++ ks))) :
    Gives (depthGrouped op.kind.rightLevel b.level b.depth < room)
      (fun g => g.eraseSpans = (Expression.binary a op b span).eraseSpans) ks
      (binaryForm inner start f ⟨op.kind, leftPower op.kind.level, rightPower op.kind.level⟩ c) := by
  have htoken : op.kind.token ≠ .endOfText := by
    obtain ⟨s, hs, -⟩ := exists_symbol_of_binary hop hchild
    simp [hs]
  have htarget : ¬(op.kind.isAssignment && !f.isAssignmentTarget) = true := by
    cases hassign : op.kind.isAssignment with
    | false => simp
    | true =>
      rw [← isAssignmentTarget_eraseSpans f, hf, isAssignmentTarget_eraseSpans,
        isAssignmentTarget_asExpression ha (hplace hassign)]
      simp
  have hc' : c.Spells (op.kind.token ::
      (grouped op.kind.rightLevel (b.asExpression span).level (b.asExpression span).tokens ++ ks)) := by
    rwa [level_asExpression, tokens_asExpression]
  unfold binaryForm
  refine gives_aheadSpan hc' fun opSpan => gives_skip hc' htoken fun hd => ?_
  rw [if_neg htarget]
  have hread := h.grouped (canonical_asExpression hb) (rightPower_le_leftPower op.kind) hks hd
  rw [level_asExpression, depth_asExpression] at hread
  refine hread.bind_sure fun g d hg hd => gives_lastStop fun stop => gives_build (if_pos hop) ?_ hd
  simp [Expression.binary, Expression.eraseSpans, Operand.eraseSlot, Operator.eraseSpan,
    toOperand_of_asExpression ha hf, toOperand_of_asExpression hb hg]

omit h in
theorem gives_stepForm (hop : op.kind.arity = .either) (hc : c.Spells (op.kind.token :: ks)) :
    Gives True (fun g => g.eraseSpans = (Expression.postfixed a op span).eraseSpans) ks
      (suffixForm inner start f (.step op.kind) c) := by
  have htoken : op.kind.token ≠ .endOfText := by cases op.kind <;> simp [OperatorKind.token]
  refine gives_aheadSpan hc fun opSpan => gives_skip hc htoken fun hd => ?_
  refine gives_lastStop fun stop => gives_build (if_pos hop) ?_ hd
  simp [Expression.postfixed, Expression.eraseSpans, Operand.eraseSlot, Operator.eraseSpan,
    toOperand_of_asExpression ha hf]

omit h in
theorem gives_memberForm {key : String} {keySpan : Span} (hop : op.kind = .child)
    (hc : c.Spells (.symbol .dot :: .ident key :: ks)) :
    Gives True
      (fun g => g.eraseSpans = (Expression.binary a op (.var ⟨key, .use, keySpan⟩) span).eraseSpans) ks
      (suffixForm inner start f .member c) := by
  refine gives_aheadSpan hc fun opSpan => gives_skip hc (by simp) fun hd => gives_aheadSpan hd fun _ => ?_
  refine gives_expectName hd fun hd => gives_lastStop fun stop => gives_build (if_pos rfl) ?_ hd
  simp [Expression.binary, Expression.eraseSpans, Operand.eraseSlot, Operator.eraseSpan, Operand.eraseSpans,
    Variable.eraseSpan, toOperand_of_asExpression ha hf, hop]

omit ha hf in
theorem gives_callForm {callee : Expression} {es : List Expression} (hf : f.eraseSpans = callee.eraseSpans)
    (hes : ∀ e ∈ es, (Node.expression e).Canonical)
    (hc : c.Spells (inParentheses (commaSeparated (Expression.tokensEach es)) ++ ks)) :
    Gives (Expression.depthAll es < room + 1)
      (fun g => g.eraseSpans = (Expression.leaf (.call callee es) span).eraseSpans) ks
      (suffixForm inner start f .call c) := by
  have hc' : c.Spells (.symbol .lParen :: (commaSeparated (Expression.tokensEach es) ++ .symbol .rParen :: ks)) := by
    simpa [inParentheses] using hc
  refine gives_skip hc' (by simp) fun hd => (gives_arguments h hes hd).bind_sure fun args d hargs hd => ?_
  refine gives_expect hd fun hd => gives_lastStop fun stop => gives_pure ?_ hd
  simp [Expression.leaf, Expression.eraseSpans, Operand.eraseSlot, Operand.eraseSpans, hf, hargs]

end Steps

/-! ## The left spine -/

/-- Where an expression is written, the forms and operators along its left spine are read one after the other, and the
loop goes on from there. -/
def Level.ReadsSpine (inner : Level) (room : Nat) (e : Expression) : Prop :=
  ∀ ⦃ks ks' : List TokenKind⦄ ⦃least start : Nat⦄ ⦃c : Cursor⦄ ⦃fits : Prop⦄ ⦃good : Expression → Prop⦄,
    Ends e.level ks → least ≤ leftPower e.level → c.Spells (e.tokens ++ ks) →
    (∀ f d, f.eraseSpans = e.eraseSpans → d.Spells ks →
      Gives fits good ks' (repeatWhile (operatorStep inner least start) f d)) →
    Gives (e.depth < room + 1 ∧ fits) good ks' ((startForm inner >>= repeatWhile (operatorStep inner least start)) c)

section Spine

variable {inner : Level} {room : Nat} {e : Expression} {a : Operand} {span : Span}

/-- What is read by one form makes a spine. -/
theorem readsSpine_of_startForm (h : ∀ ⦃c ks⦄, Ends e.level ks → c.Spells (e.tokens ++ ks) →
    Gives (e.depth < room + 1) (fun f => f.eraseSpans = e.eraseSpans) ks (startForm inner c)) :
    inner.ReadsSpine room e :=
  fun _ _ _ _ _ _ _ hks _ hc hrest => (h hks hc).bind hrest

theorem gives_startForm_group (h : inner.Reads room) (he : (Node.expression e).Canonical) {c : Cursor}
    {ks : List TokenKind} (hks : ks.head? ≠ some (.symbol .fatArrow)) (hc : c.Spells (inParentheses e.tokens ++ ks)) :
    Gives (e.depth < room) (fun f => f.eraseSpans = e.eraseSpans) ks (startForm inner c) := by
  have hc' : c.Spells (.symbol .lParen :: (e.tokens ++ .symbol .rParen :: ks)) := by simpa [inParentheses] using hc
  obtain ⟨t, rest, hr, -, hrest⟩ := hc'.rest_eq
  have hsees : seesFunction c = .ok (false, c) := by
    have hno := parametersThenArrow_eq_false (opens_tokens e he) hks hrest
    simp [seesFunction, get, getThe, MonadStateOf.get, StateT.get, bind, StateT.bind, Except.bind, pure, Except.pure,
      StateT.pure, hr, hno]
  unfold startForm
  exact gives_aheadSpan hc' fun _ => gives_ahead hc' (gives_bind hsees (gives_groupForm h he hc))

theorem gives_startForm_function (h : inner.Reads room) {ps : List String} {body : Scope} (hps : ps.Nodup)
    (hbody : (Node.scope body).Canonical) {c : Cursor} {ks : List TokenKind}
    (hc : c.Spells ((Operand.function ps body).tokens ++ ks)) :
    Gives (body.depth < room) (fun f => f.eraseSpans = (Expression.leaf (.function ps body) span).eraseSpans) ks
      (startForm inner c) := by
  have hc' : c.Spells (.symbol .lParen :: (commaSeparated (ps.map ([.ident ·])) ++
      .symbol .rParen :: .symbol .fatArrow :: (body.tokens ++ ks))) := by
    simpa [Operand.tokens, inParentheses] using hc
  obtain ⟨t, rest, hr, -, hrest⟩ := hc'.rest_eq
  have hsees : seesFunction c = .ok (true, c) := by
    have hyes := parametersThenArrow_eq_true hrest
    simp [seesFunction, get, getThe, MonadStateOf.get, StateT.get, bind, StateT.bind, Except.bind, pure, Except.pure,
      StateT.pure, hr, hyes]
  unfold startForm
  exact gives_aheadSpan hc' fun _ => gives_ahead hc' (gives_bind hsees (gives_functionForm h hps hbody hc))

/-- A spine goes on through parentheses, which are read by one form. -/
theorem Level.ReadsSpine.grouped (h : inner.Reads room) (he : (Node.expression e).Canonical)
    (hspine : inner.ReadsSpine room e) {n : Nat} {ks ks' : List TokenKind} {least start : Nat} {c : Cursor}
    {fits : Prop} {good : Expression → Prop} (harrow : ks.head? ≠ some (.symbol .fatArrow))
    (hks : n ≤ e.level → Ends e.level ks ∧ least ≤ leftPower e.level)
    (hc : c.Spells (GameScript.grouped n e.level e.tokens ++ ks))
    (hrest : ∀ f d, f.eraseSpans = e.eraseSpans → d.Spells ks →
      Gives fits good ks' (repeatWhile (operatorStep inner least start) f d)) :
    Gives (depthGrouped n e.level e.depth < room + 1 ∧ fits) good ks'
      ((startForm inner >>= repeatWhile (operatorStep inner least start)) c) := by
  unfold depthGrouped
  unfold GameScript.grouped at hc
  split at hc
  · rename_i hn
    rw [if_pos hn]
    refine ((gives_startForm_group h he harrow hc).bind hrest).congr ?_
    rw [Nat.add_lt_add_iff_right]
  · rename_i hn
    rw [if_neg hn]
    obtain ⟨hends, hleast⟩ := hks (by omega)
    exact hspine hends hleast hc hrest

/-- A spine that ends in a suffix. -/
theorem Level.ReadsSpine.suffix (h : inner.Reads room) {f : Expression} (hf : (Node.expression f).Canonical)
    (hspine : inner.ReadsSpine room f) {k : TokenKind} {suffix : Suffix} (hk : k.suffix? = some suffix)
    {us ks ks' : List TokenKind} {least start : Nat} {c : Cursor} {fits fits' : Prop} {good : Expression → Prop}
    (hl : least ≤ leftPower suffixLevel) (hc : c.Spells (GameScript.grouped suffixLevel f.level f.tokens ++ k :: us))
    (hform : ∀ g d, g.eraseSpans = f.eraseSpans → d.Spells (k :: us) →
      Gives fits (fun g => g.eraseSpans = e.eraseSpans) ks (suffixForm inner start g suffix d))
    (hrest : ∀ g d, g.eraseSpans = e.eraseSpans → d.Spells ks →
      Gives fits' good ks' (repeatWhile (operatorStep inner least start) g d)) :
    Gives (depthGrouped suffixLevel f.level f.depth < room + 1 ∧ fits ∧ fits') good ks'
      ((startForm inner >>= repeatWhile (operatorStep inner least start)) c) := by
  have harrow : (k :: us).head? ≠ some (.symbol .fatArrow) := by
    rintro hk'
    obtain rfl : k = .symbol .fatArrow := by simpa using hk'
    cases hk
  refine hspine.grouped h hf harrow (fun hn => ?_) hc fun g d hg hd => ?_
  · exact ⟨ends_of_suffixLevel_le hn harrow, hl.trans (leftPower_mono hn)⟩
  · exact gives_repeatWhile_more (keeps_operatorStep h.sound).progresses hd.closed
      (gives_operatorStep_suffix hk hl hd (hform g d hg hd)) hrest

/-- A spine that ends in a binary operator. -/
theorem readsSpine_binary (h : inner.Reads room) {op : Operator} {b : Operand} (ha : (Node.operand a).Canonical)
    (hspine : inner.ReadsSpine room (a.asExpression span)) (hb : (Node.operand b).Canonical)
    (hop : op.kind.arity = .binary) (hchild : op.kind ≠ .child) (hplace : op.kind.isAssignment = true → a.IsPlace) :
    inner.ReadsSpine room (.binary a op b span) := by
  intro ks ks' least start c fits good hks hl hc hrest
  obtain ⟨s, htoken, hsuffix, hrule⟩ := exists_symbol_of_binary hop hchild
  have hc' : c.Spells (grouped op.kind.leftLevel (a.asExpression span).level (a.asExpression span).tokens ++
      op.kind.token :: (grouped op.kind.rightLevel b.level b.tokens ++ ks)) := by
    rw [level_asExpression, tokens_asExpression]
    simpa [Expression.binary, Expression.tokens] using hc
  have hsix := level_le_six hop hchild
  have hstop : Stops (rightPower op.kind.level) ks := hks.2 (Nat.lt_of_le_of_lt hsix (by decide))
  have hleft : op.kind.level ≤ op.kind.leftLevel := by
    unfold OperatorKind.leftLevel
    split <;> omega
  have harrow : (op.kind.token :: (grouped op.kind.rightLevel b.level b.tokens ++ ks)).head? ≠
      some (.symbol .fatArrow) := by
    rw [htoken]
    rintro hs
    obtain rfl : s = .fatArrow := by simpa using hs
    cases hrule
  have hgo (f : Expression) (d : Cursor) (hf : f.eraseSpans = (a.asExpression span).eraseSpans)
      (hd : d.Spells (op.kind.token :: (grouped op.kind.rightLevel b.level b.tokens ++ ks))) :
      Gives (depthGrouped op.kind.rightLevel b.level b.depth < room ∧ fits) good ks'
        (repeatWhile (operatorStep inner least start) f d) := by
    have hstep : Gives _ _ ks (binaryForm inner start f _ d) := gives_binaryForm h ha hf hb hop hchild hplace hstop hd
    exact gives_repeatWhile_more (keeps_operatorStep h.sound).progresses hd.closed
      (gives_operatorStep_binary (htoken ▸ hsuffix) (htoken ▸ hrule) hl hd hstep) hrest
  refine (hspine.grouped h (canonical_asExpression ha) harrow (fun hn => ?_) hc' hgo).congr ?_
  · exact ⟨ends_operator hop hchild hn, hl.trans (leftPower_mono (hleft.trans hn))⟩
  · simp [Expression.binary, Expression.depth, level_asExpression, depth_asExpression, hchild, and_assoc]

theorem gives_startForm_leading (h : inner.Reads room) {op : Operator} {b : Operand} (hb : (Node.operand b).Canonical)
    (hop : op.kind.arity ≠ .binary) (hret : op.kind ≠ .ret) {c : Cursor} {ks : List TokenKind}
    (hks : Ends op.kind.level ks) (hc : c.Spells ((Expression.prefixed op b span).tokens ++ ks)) :
    Gives (depthGrouped op.kind.level b.level b.depth < room)
      (fun f => f.eraseSpans = (Expression.prefixed op b span).eraseSpans) ks (startForm inner c) := by
  have hform := gives_leadingForm h hb hop hret hks hc
  have hc' : c.Spells (op.kind.token :: (grouped op.kind.level b.level b.tokens ++ ks)) := by
    simpa [Expression.prefixed, Expression.tokens] using hc
  unfold startForm
  refine gives_aheadSpan hc' fun _ => gives_ahead hc' ?_
  cases hk : op.kind <;> rw [hk] at hform <;> first
    | exact hform | exact absurd hk hret | exact absurd (by rw [hk]; rfl) hop

/-! ### One lemma for each form -/

theorem readsSpine_leading (h : inner.Reads room) {op : Operator} {b : Operand} (hb : (Node.operand b).Canonical)
    (hop : op.kind.arity ≠ .binary) (hret : op.kind ≠ .ret) : inner.ReadsSpine room (.prefixed op b span) := by
  refine readsSpine_of_startForm fun c ks hks hc => ?_
  refine (gives_startForm_leading h hb hop hret hks hc).congr ?_
  simp [Expression.prefixed, Expression.depth]

theorem readsSpine_literal {l : Literal} : inner.ReadsSpine room (.leaf (.value l) span) := by
  refine readsSpine_of_startForm fun c ks _ hc => ?_
  rw [tokens_leaf] at hc
  refine (gives_literal l hc).congr ?_
  simp [depth_leaf, Operand.depth]

theorem readsSpine_name {name : String} {nameSpan : Span} :
    inner.ReadsSpine room (.leaf (.var ⟨name, .use, nameSpan⟩) span) := by
  refine readsSpine_of_startForm fun c ks _ hc => ?_
  have hc' : c.Spells (.ident name :: ks) := by simpa [tokens_leaf, Operand.tokens] using hc
  have hstart : Gives True (fun f => f.eraseSpans = (Expression.leaf (.var ⟨name, .use, nameSpan⟩) span).eraseSpans)
      ks (startForm inner c) :=
    gives_aheadSpan hc' fun _ => gives_ahead hc' (gives_skip hc' (by simp) fun hd => gives_pure rfl hd)
  exact hstart.congr (by simp [depth_leaf, Operand.depth])

theorem readsSpine_object (h : inner.Reads room) {ps : List Property} (ha : (Node.operand (.object ps)).Canonical) :
    inner.ReadsSpine room (.leaf (.object ps) span) := by
  refine readsSpine_of_startForm fun c ks _ hc => ?_
  rw [tokens_leaf] at hc
  have hc' : c.Spells (.symbol .lBrace :: (commaSeparated (Property.tokensEach ps) ++ .symbol .rBrace :: ks)) := by
    simpa [Operand.tokens] using hc
  refine (gives_aheadSpan hc' fun _ => gives_ahead hc' (h.object ha hc)).congr ?_
  simp [depth_leaf, Operand.depth]

theorem readsSpine_function (h : inner.Reads room) {ps : List String} {body : Scope}
    (ha : (Node.operand (.function ps body)).Canonical) : inner.ReadsSpine room (.leaf (.function ps body) span) := by
  refine readsSpine_of_startForm fun c ks _ hc => ?_
  rw [tokens_leaf] at hc
  refine (gives_startForm_function h ha.proper (ha.child (List.mem_singleton.2 rfl)) hc).congr ?_
  simp [depth_leaf, Operand.depth]

theorem readsSpine_call (h : inner.Reads room) {callee : Expression} {es : List Expression}
    (hcallee : (Node.expression callee).Canonical) (hes : ∀ e ∈ es, (Node.expression e).Canonical)
    (hspine : inner.ReadsSpine room callee) : inner.ReadsSpine room (.leaf (.call callee es) span) := by
  intro ks ks' least start c fits good hks hl hc hrest
  have hc' : c.Spells (grouped suffixLevel callee.level callee.tokens ++
      .symbol .lParen :: (commaSeparated (Expression.tokensEach es) ++ .symbol .rParen :: ks)) := by
    simpa [tokens_leaf, Operand.tokens, inParentheses] using hc
  have hleast : least ≤ leftPower suffixLevel := hl.trans (show leftPower 9 ≤ _ by decide)
  have hrun := hspine.suffix h hcallee rfl hleast hc'
    (fun f d hf hd => gives_callForm h hf hes (by simpa [inParentheses] using hd)) hrest
  refine hrun.congr ?_
  simp [depth_leaf, Operand.depth, and_assoc]

theorem readsSpine_member (h : inner.Reads room) {op : Operator} {key : String} {keySpan : Span}
    (ha : (Node.operand a).Canonical) (hspine : inner.ReadsSpine room (a.asExpression span))
    (hchild : op.kind = .child) :
    inner.ReadsSpine room (.binary a op (.var ⟨key, .use, keySpan⟩) span) := by
  intro ks ks' least start c fits good hks hl hc hrest
  have hleft : OperatorKind.child.leftLevel = suffixLevel := rfl
  have hkey : grouped OperatorKind.child.rightLevel (Operand.var ⟨key, .use, keySpan⟩).level
      (Operand.var ⟨key, .use, keySpan⟩).tokens = [.ident key] := by
    rw [Operand.tokens]
    rfl
  have hdot : OperatorKind.child.token = .symbol .dot := rfl
  have hc' : c.Spells (grouped suffixLevel (a.asExpression span).level (a.asExpression span).tokens ++
      .symbol .dot :: .ident key :: ks) := by
    rw [level_asExpression, tokens_asExpression]
    simpa [Expression.binary, Expression.tokens, hchild, hleft, hkey, hdot] using hc
  have hlevel : (Expression.binary a op (.var ⟨key, .use, keySpan⟩) span).level = suffixLevel :=
    show op.kind.level = _ by rw [hchild]; rfl
  have hrun := hspine.suffix h (canonical_asExpression ha) rfl (hlevel ▸ hl) hc'
    (fun f d hf hd => gives_memberForm ha hf hchild hd) hrest
  refine hrun.congr ?_
  simp [Expression.binary, Expression.depth, level_asExpression, depth_asExpression, hchild, hleft]

theorem readsSpine_stepped (h : inner.Reads room) {op : Operator} (ha : (Node.operand a).Canonical)
    (hspine : inner.ReadsSpine room (a.asExpression span)) (hop : op.kind.arity = .either) :
    inner.ReadsSpine room (.postfixed a op span) := by
  intro ks ks' least start c fits good hks hl hc hrest
  have hc' : c.Spells (grouped suffixLevel (a.asExpression span).level (a.asExpression span).tokens ++
      op.kind.token :: ks) := by
    rw [level_asExpression, tokens_asExpression]
    simpa [Expression.postfixed, Expression.tokens] using hc
  have hsuffix : op.kind.token.suffix? = some (.step op.kind) := by
    cases hk : op.kind <;> first | rfl | exact absurd (hk ▸ hop) (by decide)
  have hrun := hspine.suffix h (canonical_asExpression ha) hsuffix hl hc'
    (fun f d hf hd => gives_stepForm ha hf hop hd) hrest
  refine hrun.congr ?_
  simp [Expression.postfixed, Expression.depth, level_asExpression, depth_asExpression]

theorem sizeOf_pos (op : Operator) : 0 < sizeOf op := by
  cases op
  rw [Operator.mk.sizeOf_spec]
  omega

theorem sizeOf_asExpression_lt_binary {op : Operator} {b : Operand} :
    sizeOf (a.asExpression span) < sizeOf (Expression.binary a op b span) := by
  have hle : sizeOf (a.asExpression span) ≤ _ := sizeOf_asExpression_le
  have hop : 0 < sizeOf op := sizeOf_pos op
  simp only [Expression.binary, Expression.mk.sizeOf_spec, Option.some.sizeOf_spec]
  omega

theorem sizeOf_asExpression_lt_postfixed {op : Operator} :
    sizeOf (a.asExpression span) < sizeOf (Expression.postfixed a op span) := by
  have hle : sizeOf (a.asExpression span) ≤ _ := sizeOf_asExpression_le
  have hop : 0 < sizeOf op := sizeOf_pos op
  simp only [Expression.postfixed, Expression.mk.sizeOf_spec, Option.some.sizeOf_spec, Option.none.sizeOf_spec]
  omega

theorem sizeOf_callee_lt {callee : Expression} {es : List Expression} :
    sizeOf callee < sizeOf (Expression.leaf (.call callee es) span) := by
  simp only [Expression.leaf, Expression.mk.sizeOf_spec, Option.some.sizeOf_spec, Operand.call.sizeOf_spec]
  omega

/-- The parts along the left spine of a canonical expression are read one after the other, by induction on its size: the
form at the front of the spine is smaller. -/
theorem readsSpine (h : inner.Reads room) (e : Expression) (he : (Node.expression e).Canonical) :
    inner.ReadsSpine room e := by
  induction hn : sizeOf e using Nat.strong_induction_on generalizing e with
  | _ n ih =>
  subst hn
  cases formed_of_canonical he with
  | leaf a span ha hne =>
    cases a with
    | value l => exact readsSpine_literal
    | var v =>
      obtain ⟨name, role, nameSpan⟩ := v
      obtain rfl : role = .use := ha.proper
      exact readsSpine_name
    | block s => exact absurd ha.proper id
    | expression e => exact absurd trivial hne
    | object ps => exact readsSpine_object h ha
    | function ps body => exact readsSpine_function h ha
    | call callee es =>
      have hcallee : (Node.expression callee).Canonical := ha.child List.mem_cons_self
      have hes : ∀ e ∈ es, (Node.expression e).Canonical := fun e he =>
        ha.child (List.mem_cons_of_mem _ (List.mem_map_of_mem he))
      exact readsSpine_call h hcallee hes (ih _ sizeOf_callee_lt callee hcallee rfl)
  | binary a op b span ha hb hop hplace huse =>
    have hspine : inner.ReadsSpine room (a.asExpression span) :=
      ih _ sizeOf_asExpression_lt_binary _ (canonical_asExpression ha) rfl
    by_cases hchild : op.kind = .child
    · have hname := huse hchild
      cases b with
      | var v =>
        obtain ⟨key, role, keySpan⟩ := v
        obtain rfl : role = .use := hname
        exact readsSpine_member h ha hspine hchild
      | _ => exact hname.elim
    · exact readsSpine_binary h ha hspine hb hop hchild hplace
  | prefixed op b span hb hop hret => exact readsSpine_leading h hb hop hret
  | postfixed a op span ha hop =>
    exact readsSpine_stepped h ha (ih _ sizeOf_asExpression_lt_postfixed _ (canonical_asExpression ha) rfl) hop

end Spine

end GameScript
