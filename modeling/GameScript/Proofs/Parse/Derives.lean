import GameScript.Proofs.Tree.Erase

/-!
# The grammar

`Derives ph ts ws` are the derivations of the grammar. The phrase `ph` holds the tree that is derived, and its tokens
are `ts`. Operators are stratified by the levels with which trees are written down, and an operand is of a level that
its place asks for (`OperatorKind.leftLevel`, `OperatorKind.rightLevel`), unless it stands in parentheses.

The tokens `ws` are those of `ts` that make the tree: a derivation leaves out parentheses that group, the semicolons
after statements and those that stand alone, and the comma after the last property of an object. A number with a minus
sign makes one token of them, a property's name is one whether it is written as a name or as a string, and a `return`
of nothing returns null. So they are the yield of the tree (`Derives.eq_yield`). In `ts`, all brackets match
(`Derives.bracketsMatch`).
-/

namespace GameScript

/-! ## The yield of a tree -/

/-- A literal as one token. -/
def Literal.token : Literal → TokenKind
  | undefined => .null
  | bool b => .bool b
  | int n => .int n
  | float x => .float x
  | string s => .string s

mutual

/-- The tokens that an operand is made of, in order. -/
def Operand.yield : Operand → List TokenKind
  | .value literal => [literal.token]
  | .var ⟨name, .use, _⟩ => [.ident name]
  | .var ⟨name, .declare, _⟩ => [.letWord, .ident name]
  | .object ps => .symbol .lBrace :: (commaSeparated (Property.yieldEach ps) ++ [.symbol .rBrace])
  | .block s => s.yield
  | .expression e => e.yield
  | .function ps s => inParentheses (commaSeparated (ps.map ([.ident ·]))) ++ .symbol .fatArrow :: s.yield
  | .call e es => e.yield ++ inParentheses (commaSeparated (Expression.yieldEach es))

/-- The tokens that properties are made of. -/
def Property.yieldEach : List Property → List (List TokenKind)
  | [] => []
  | ⟨key, e⟩ :: ps => (.string key :: .symbol .colon :: e.yield) :: Property.yieldEach ps

/-- The tokens that a scope in braces is made of. -/
def Scope.yield : Scope → List TokenKind
  | ⟨body, _⟩ => .symbol .lBrace :: (Statement.yieldAll body ++ [.symbol .rBrace])

/-- The tokens that statements are made of, one after the other. -/
def Statement.yieldAll : List Statement → List TokenKind
  | [] => []
  | ⟨e, _⟩ :: rest => e.yield ++ Statement.yieldAll rest

/-- The tokens that an expression is made of: its operator stands between its operands. -/
def Expression.yield : Expression → List TokenKind
  | ⟨a, op, b, _⟩ => Operand.yieldSlot a ++ (op.map (·.kind.token)).toList ++ Operand.yieldSlot b

/-- The tokens that a slot is made of. -/
def Operand.yieldSlot : Option Operand → List TokenKind
  | none => []
  | some a => a.yield

/-- The tokens that expressions are made of. -/
def Expression.yieldEach : List Expression → List (List TokenKind)
  | [] => []
  | e :: es => e.yield :: Expression.yieldEach es

end

/-- The tokens that a program is made of. -/
def Program.yield (p : Program) : List TokenKind := Statement.yieldAll p.body.body

section Yield

variable {e : Expression} {a b : Operand} {op : Operator} {span : Span}

@[simp] theorem Expression.yield_leaf : (Expression.leaf a span).yield = a.yield := by
  simp [Expression.leaf, Expression.yield, Operand.yieldSlot]

@[simp] theorem Expression.yield_binary :
    (Expression.binary a op b span).yield = a.yield ++ op.kind.token :: b.yield := by
  simp [Expression.binary, Expression.yield, Operand.yieldSlot]

@[simp] theorem Expression.yield_prefixed : (Expression.prefixed op b span).yield = op.kind.token :: b.yield := by
  simp [Expression.prefixed, Expression.yield, Operand.yieldSlot]

@[simp] theorem Expression.yield_postfixed : (Expression.postfixed a op span).yield = a.yield ++ [op.kind.token] := by
  simp [Expression.postfixed, Expression.yield, Operand.yieldSlot]

@[simp] theorem Expression.yield_toOperand : e.toOperand.yield = e.yield := by
  unfold Expression.toOperand
  split
  · simp [Expression.yield, Operand.yieldSlot]
  · rw [Operand.yield]

@[simp] theorem Expression.yield_withSpan : ({ e with span } : Expression).yield = e.yield := by
  obtain ⟨_, _, _, _⟩ := e
  simp only [Expression.yield]

theorem Expression.yieldEach_append (es fs : List Expression) :
    Expression.yieldEach (es ++ fs) = Expression.yieldEach es ++ Expression.yieldEach fs := by
  induction es with
  | nil => rfl
  | cons e es ih => simp [Expression.yieldEach, ih]

theorem Property.yieldEach_append (ps qs : List Property) :
    Property.yieldEach (ps ++ qs) = Property.yieldEach ps ++ Property.yieldEach qs := by
  induction ps with
  | nil => rfl
  | cons p ps ih =>
    obtain ⟨key, e⟩ := p
    simp [Property.yieldEach, ih]

theorem Statement.yieldAll_append (ss rs : List Statement) :
    Statement.yieldAll (ss ++ rs) = Statement.yieldAll ss ++ Statement.yieldAll rs := by
  induction ss with
  | nil => rfl
  | cons s ss ih =>
    obtain ⟨e, span⟩ := s
    simp [Statement.yieldAll, ih]

end Yield

/-! ## Lists with commas -/

/-- The tokens of some items and of what must stand before another one: a comma, when there are any items. -/
def beforeNext {α : Type} (items : List α) (ts : List TokenKind) : List TokenKind :=
  if items.isEmpty then ts else ts ++ [.symbol .comma]

theorem commaSeparated_snoc (tss : List (List TokenKind)) (ts : List TokenKind) :
    commaSeparated (tss ++ [ts]) = beforeNext tss (commaSeparated tss) ++ ts := by
  induction tss with
  | nil => rfl
  | cons us tss ih =>
    cases tss with
    | nil => simp [commaSeparated, beforeNext]
    | cons us' rest =>
      simp only [List.cons_append, commaSeparated] at ih ⊢
      simp [ih, beforeNext]

theorem beforeNext_yieldEach_expression (es : List Expression) (ts : List TokenKind) :
    beforeNext (Expression.yieldEach es) ts = beforeNext es ts := by cases es <;> rfl

theorem beforeNext_yieldEach_property (ps : List Property) (ts : List TokenKind) :
    beforeNext (Property.yieldEach ps) ts = beforeNext ps ts := by
  cases ps with
  | nil => rfl
  | cons p ps =>
    obtain ⟨key, e⟩ := p
    rfl

/-! ## Derivations -/

/-- The level of what needs no parentheses in any place. -/
def primaryLevel : Nat := 9

/-- What the grammar derives: an expression of a level, the arguments of a call, the properties of an object, a block,
a statement without its end, statements that are all ended, and statements of which the last one need not be. -/
inductive Phrase
  | expression (level : Nat) (e : Expression)
  | arguments (es : List Expression)
  | properties (ps : List Property)
  | scope (s : Scope)
  | statement (e : Expression)
  | statements (ss : List Statement)
  | body (ss : List Statement)

/-- The ways to write the name of a property. -/
def TokenKind.IsKey (key : String) (k : TokenKind) : Prop := k = .ident key ∨ k = .string key

/-- The derivations of the grammar: the tokens of a phrase, and what of them makes its tree. -/
inductive Derives : Phrase → List TokenKind → List TokenKind → Prop
  -- forms that need no parentheses
  | literal (l : Literal) (span : Span) :
      Derives (.expression primaryLevel (.leaf (.value l) span)) [l.token] [l.token]
  | negativeInt (n : Int64) (span : Span) :
      Derives (.expression primaryLevel (.leaf (.value (.int (-n))) span)) [.symbol .minus, .int n] [.int (-n)]
  | negativeFloat (x : Float) (span : Span) :
      Derives (.expression primaryLevel (.leaf (.value (.float (-x))) span)) [.symbol .minus, .float x] [.float (-x)]
  | name (name : String) (span span' : Span) :
      Derives (.expression primaryLevel (.leaf (.var ⟨name, .use, span⟩) span')) [.ident name] [.ident name]
  | group {level : Nat} {e : Expression} {ts ws : List TokenKind} (span : Span)
      (h : Derives (.expression level e) ts ws) :
      Derives (.expression primaryLevel { e with span }) (inParentheses ts) ws
  | object {ps : List Property} {ts ws : List TokenKind} (span : Span) (h : Derives (.properties ps) ts ws) :
      Derives (.expression primaryLevel (.leaf (.object ps) span)) (.symbol .lBrace :: (ts ++ [.symbol .rBrace]))
        (.symbol .lBrace :: (ws ++ [.symbol .rBrace]))
  | objectThenComma {ps : List Property} {ts ws : List TokenKind} (span : Span) (h : Derives (.properties ps) ts ws)
      (hps : ps ≠ []) :
      Derives (.expression primaryLevel (.leaf (.object ps) span))
        (.symbol .lBrace :: (ts ++ [.symbol .comma, .symbol .rBrace])) (.symbol .lBrace :: (ws ++ [.symbol .rBrace]))
  | function {ps : List String} {s : Scope} {ts ws : List TokenKind} (span : Span) (hps : ps.Nodup)
      (h : Derives (.scope s) ts ws) :
      Derives (.expression primaryLevel (.leaf (.function ps s) span))
        (inParentheses (commaSeparated (ps.map ([.ident ·]))) ++ .symbol .fatArrow :: ts)
        (inParentheses (commaSeparated (ps.map ([.ident ·]))) ++ .symbol .fatArrow :: ws)
  -- calls, accesses and operators
  | call {level : Nat} {e : Expression} {es : List Expression} {ts us ws xs : List TokenKind} (span : Span)
      (h : Derives (.expression level e) ts ws) (hlevel : suffixLevel ≤ level) (hes : Derives (.arguments es) us xs) :
      Derives (.expression suffixLevel (.leaf (.call e es) span)) (ts ++ inParentheses us) (ws ++ inParentheses xs)
  | member {level : Nat} {e : Expression} {ts ws : List TokenKind} (key : String) (opSpan keySpan span : Span)
      (h : Derives (.expression level e) ts ws) (hlevel : suffixLevel ≤ level) :
      Derives (.expression suffixLevel (.binary e.toOperand ⟨.child, opSpan⟩ (.var ⟨key, .use, keySpan⟩) span))
        (ts ++ [.symbol .dot, .ident key]) (ws ++ [.symbol .dot, .ident key])
  | postfixed {level : Nat} {e : Expression} {ts ws : List TokenKind} (op : Operator) (span : Span)
      (h : Derives (.expression level e) ts ws) (hlevel : suffixLevel ≤ level) (hop : op.kind.arity = .either) :
      Derives (.expression suffixLevel (.postfixed e.toOperand op span)) (ts ++ [op.kind.token])
        (ws ++ [op.kind.token])
  | prefixed {level : Nat} {e : Expression} {ts ws : List TokenKind} (op : Operator) (span : Span)
      (hop : op.kind.arity ≠ .binary) (hret : op.kind ≠ .ret) (h : Derives (.expression level e) ts ws)
      (hlevel : op.kind.level ≤ level) :
      Derives (.expression op.kind.level (.prefixed op e.toOperand span)) (op.kind.token :: ts) (op.kind.token :: ws)
  | binary {level level' : Nat} {e f : Expression} {ts us ws xs : List TokenKind} (op : Operator) (span : Span)
      (hop : op.kind.arity = .binary) (hchild : op.kind ≠ .child) (he : Derives (.expression level e) ts ws)
      (hlevel : op.kind.leftLevel ≤ level) (htarget : op.kind.isAssignment = true → e.isAssignmentTarget = true)
      (hf : Derives (.expression level' f) us xs) (hlevel' : op.kind.rightLevel ≤ level') :
      Derives (.expression op.kind.level (.binary e.toOperand op f.toOperand span)) (ts ++ op.kind.token :: us)
        (ws ++ op.kind.token :: xs)
  -- lists with commas
  | noArguments : Derives (.arguments []) [] []
  | argument {level : Nat} {es : List Expression} {e : Expression} {ts us ws xs : List TokenKind}
      (hes : Derives (.arguments es) ts ws) (h : Derives (.expression level e) us xs) :
      Derives (.arguments (es ++ [e])) (beforeNext es ts ++ us) (beforeNext es ws ++ xs)
  | noProperties : Derives (.properties []) [] []
  | property {level : Nat} {ps : List Property} {key : String} {k : TokenKind} {e : Expression}
      {ts us ws xs : List TokenKind} (hps : Derives (.properties ps) ts ws) (hk : k.IsKey key)
      (h : Derives (.expression level e) us xs) :
      Derives (.properties (ps ++ [⟨key, e⟩])) (beforeNext ps ts ++ k :: .symbol .colon :: us)
        (beforeNext ps ws ++ .string key :: .symbol .colon :: xs)
  -- statements
  | declaration {level : Nat} {e : Expression} {ts ws : List TokenKind} (name : String) (nameSpan opSpan span : Span)
      (h : Derives (.expression level e) ts ws) :
      Derives (.statement (.binary (.var ⟨name, .declare, nameSpan⟩) ⟨.assign, opSpan⟩ e.toOperand span))
        (.letWord :: .ident name :: .symbol .eq :: ts) (.letWord :: .ident name :: .symbol .eq :: ws)
  | returnNothing (opSpan span : Span) :
      Derives (.statement (.prefixed ⟨.ret, opSpan⟩ (.value .undefined) span)) [.returnWord] [.returnWord, .null]
  | returnValue {level : Nat} {e : Expression} {ts ws : List TokenKind} (opSpan span : Span)
      (h : Derives (.expression level e) ts ws) :
      Derives (.statement (.prefixed ⟨.ret, opSpan⟩ e.toOperand span)) (.returnWord :: ts) (.returnWord :: ws)
  | expression {level : Nat} {e : Expression} {ts ws : List TokenKind} (h : Derives (.expression level e) ts ws)
      (hbrace : ts.head? ≠ some (.symbol .lBrace)) : Derives (.statement e) ts ws
  | noStatements : Derives (.statements []) [] []
  | semicolon {ss : List Statement} {ts ws : List TokenKind} (h : Derives (.statements ss) ts ws) :
      Derives (.statements ss) (ts ++ [.symbol .semi]) ws
  | block {ss : List Statement} {s : Scope} {ts us ws xs : List TokenKind} (span span' : Span)
      (hss : Derives (.statements ss) ts ws) (h : Derives (.scope s) us xs) :
      Derives (.statements (ss ++ [⟨.leaf (.block s) span, span'⟩])) (ts ++ us) (ws ++ xs)
  | ended {ss : List Statement} {e : Expression} {ts us ws xs : List TokenKind} (span : Span)
      (hss : Derives (.statements ss) ts ws) (h : Derives (.statement e) us xs) :
      Derives (.statements (ss ++ [⟨e, span⟩])) (ts ++ us ++ [.symbol .semi]) (ws ++ xs)
  | body {ss : List Statement} {ts ws : List TokenKind} (h : Derives (.statements ss) ts ws) :
      Derives (.body ss) ts ws
  | unended {ss : List Statement} {e : Expression} {ts us ws xs : List TokenKind} (span : Span)
      (hss : Derives (.statements ss) ts ws) (h : Derives (.statement e) us xs) :
      Derives (.body (ss ++ [⟨e, span⟩])) (ts ++ us) (ws ++ xs)
  | scope {ss : List Statement} {ts ws : List TokenKind} (span : Span) (h : Derives (.body ss) ts ws) :
      Derives (.scope ⟨ss, span⟩) (.symbol .lBrace :: (ts ++ [.symbol .rBrace]))
        (.symbol .lBrace :: (ws ++ [.symbol .rBrace]))

/-- The yield of a phrase. -/
def Phrase.yield : Phrase → List TokenKind
  | .expression _ e => e.yield
  | .arguments es => commaSeparated (Expression.yieldEach es)
  | .properties ps => commaSeparated (Property.yieldEach ps)
  | .scope s => s.yield
  | .statement e => e.yield
  | .statements ss => Statement.yieldAll ss
  | .body ss => Statement.yieldAll ss

section Derivations

variable {ph : Phrase} {ts ws : List TokenKind}

/-- What of its tokens makes a tree is the yield of the tree. -/
theorem Derives.eq_yield (h : Derives ph ts ws) : ws = ph.yield := by
  induction h with
  | literal => simp [Phrase.yield, Operand.yield]
  | negativeInt => simp [Phrase.yield, Operand.yield, Literal.token]
  | negativeFloat => simp [Phrase.yield, Operand.yield, Literal.token]
  | name => simp [Phrase.yield, Operand.yield]
  | group span _ ih => simpa [Phrase.yield] using ih
  | object _ _ ih => simpa [Phrase.yield, Operand.yield] using ih
  | objectThenComma _ _ _ ih => simpa [Phrase.yield, Operand.yield] using ih
  | function _ _ _ ih => simpa [Phrase.yield, Operand.yield] using ih
  | call _ _ _ _ ih ihes =>
    rw [ih, ihes]
    simp [Phrase.yield, Operand.yield]
  | member _ _ _ _ _ _ ih => simp [Phrase.yield, Operand.yield, ih, OperatorKind.token]
  | postfixed _ _ _ _ _ ih => simp [Phrase.yield, ih]
  | prefixed _ _ _ _ _ _ ih => simp [Phrase.yield, ih]
  | binary _ _ _ _ _ _ _ _ _ ih ih' => simp [Phrase.yield, ih, ih']
  | noArguments => rfl
  | argument _ _ ihes ih =>
    rw [ihes, ih]
    simp [Phrase.yield, Expression.yieldEach_append, Expression.yieldEach, commaSeparated_snoc,
      beforeNext_yieldEach_expression]
  | noProperties => rfl
  | property _ _ _ ihps ih =>
    rw [ihps, ih]
    simp [Phrase.yield, Property.yieldEach_append, Property.yieldEach, commaSeparated_snoc,
      beforeNext_yieldEach_property]
  | declaration _ _ _ _ _ ih => simp [Phrase.yield, Operand.yield, ih, OperatorKind.token]
  | returnNothing => simp [Phrase.yield, Operand.yield, OperatorKind.token, Literal.token]
  | returnValue _ _ _ ih => simp [Phrase.yield, ih, OperatorKind.token]
  | expression _ _ ih => exact ih
  | noStatements => rfl
  | semicolon _ ih => exact ih
  | block _ _ _ _ ihss ih =>
    rw [ihss, ih]
    simp [Phrase.yield, Statement.yieldAll_append, Statement.yieldAll, Operand.yield]
  | ended _ _ _ ihss ih =>
    rw [ihss, ih]
    simp [Phrase.yield, Statement.yieldAll_append, Statement.yieldAll]
  | body _ ih => exact ih
  | unended _ _ _ ihss ih =>
    rw [ihss, ih]
    simp [Phrase.yield, Statement.yieldAll_append, Statement.yieldAll]
  | scope _ _ ih =>
    rw [ih]
    simp [Phrase.yield, Scope.yield]

end Derivations

/-! ## Brackets -/

/-- Whether all brackets among tokens match, when `awaited` are the closing ones of those that are open. -/
def bracketsMatch : (awaited : List Symbol) → List TokenKind → Bool
  | awaited, [] => awaited.isEmpty
  | awaited, .symbol .lParen :: ts => bracketsMatch (.rParen :: awaited) ts
  | awaited, .symbol .lBrace :: ts => bracketsMatch (.rBrace :: awaited) ts
  | awaited, .symbol .rParen :: ts => awaited.head? == some .rParen && bracketsMatch awaited.tail ts
  | awaited, .symbol .rBrace :: ts => awaited.head? == some .rBrace && bracketsMatch awaited.tail ts
  | awaited, _ :: ts => bracketsMatch awaited ts

/-- Tokens whose brackets match among themselves, wherever they stand. -/
def WellBracketed (ts : List TokenKind) : Prop :=
  ∀ awaited rest, bracketsMatch awaited (ts ++ rest) = bracketsMatch awaited rest

section WellBracketed

variable {ts us : List TokenKind} {k : TokenKind}

theorem wellBracketed_nil : WellBracketed [] := fun _ _ => rfl

theorem WellBracketed.append (h : WellBracketed ts) (h' : WellBracketed us) : WellBracketed (ts ++ us) := by
  intro awaited rest
  rw [List.append_assoc, h, h']

theorem WellBracketed.inParentheses (h : WellBracketed ts) : WellBracketed (inParentheses ts) := by
  intro awaited rest
  have hinner := h (.rParen :: awaited) (.symbol .rParen :: rest)
  simpa [GameScript.inParentheses, bracketsMatch] using hinner

theorem WellBracketed.inBraces (h : WellBracketed ts) :
    WellBracketed (.symbol .lBrace :: (ts ++ [.symbol .rBrace])) := by
  intro awaited rest
  have hinner := h (.rBrace :: awaited) (.symbol .rBrace :: rest)
  simpa [bracketsMatch] using hinner

/-- Whether a token is a bracket. -/
def TokenKind.isBracket : TokenKind → Bool
  | .symbol s => s ∈ [.lParen, .rParen, .lBrace, .rBrace]
  | _ => false

theorem WellBracketed.cons (h : WellBracketed ts) (hk : k.isBracket = false) : WellBracketed (k :: ts) := by
  intro awaited rest
  rw [← h awaited rest, List.cons_append, bracketsMatch.eq_6]
  all_goals
    rintro rfl
    cases hk

theorem WellBracketed.snoc (h : WellBracketed ts) (hk : k.isBracket = false) : WellBracketed (ts ++ [k]) :=
  h.append (wellBracketed_nil.cons hk)

theorem WellBracketed.beforeNext {α : Type} (items : List α) (h : WellBracketed ts) :
    WellBracketed (beforeNext items ts) := by
  unfold GameScript.beforeNext
  split
  · exact h
  · exact h.snoc rfl

theorem wellBracketed_parameters (ps : List String) : WellBracketed (commaSeparated (ps.map ([.ident ·]))) := by
  induction ps with
  | nil => exact wellBracketed_nil
  | cons p ps ih =>
    cases ps with
    | nil => exact wellBracketed_nil.cons rfl
    | cons q ps => exact (ih.cons rfl).cons rfl

theorem isBracket_token (l : Literal) : l.token.isBracket = false := by cases l <;> rfl

theorem OperatorKind.isBracket_token (k : OperatorKind) : k.token.isBracket = false := by cases k <;> rfl

theorem TokenKind.IsKey.isBracket {key : String} (hk : k.IsKey key) : k.isBracket = false := by
  rcases hk with rfl | rfl <;> rfl

/-- What is derived has matching brackets. -/
theorem Derives.wellBracketed {ph : Phrase} {ts ws : List TokenKind} (h : Derives ph ts ws) : WellBracketed ts := by
  induction h with
  | literal l => exact wellBracketed_nil.cons (isBracket_token l)
  | negativeInt => exact (wellBracketed_nil.cons rfl).cons rfl
  | negativeFloat => exact (wellBracketed_nil.cons rfl).cons rfl
  | name => exact wellBracketed_nil.cons rfl
  | group _ _ ih => exact ih.inParentheses
  | object _ _ ih => exact ih.inBraces
  | objectThenComma _ _ _ ih =>
    have hinner := (ih.snoc (k := .symbol .comma) rfl).inBraces
    simpa using hinner
  | @function ps _ _ _ _ _ _ ih => exact (wellBracketed_parameters ps).inParentheses.append (ih.cons rfl)
  | call _ _ _ _ ih ihes => exact ih.append ihes.inParentheses
  | member _ _ _ _ _ _ ih => exact ih.append ((wellBracketed_nil.cons rfl).cons rfl)
  | postfixed op _ _ _ _ ih => exact ih.snoc op.kind.isBracket_token
  | prefixed op _ _ _ _ _ ih => exact ih.cons op.kind.isBracket_token
  | binary op _ _ _ _ _ _ _ _ ih ih' => exact ih.append (ih'.cons op.kind.isBracket_token)
  | noArguments => exact wellBracketed_nil
  | argument _ _ ihes ih => exact (ihes.beforeNext _).append ih
  | noProperties => exact wellBracketed_nil
  | property _ hk _ ihps ih => exact (ihps.beforeNext _).append ((ih.cons rfl).cons hk.isBracket)
  | declaration _ _ _ _ _ ih => exact ((ih.cons rfl).cons rfl).cons rfl
  | returnNothing => exact wellBracketed_nil.cons rfl
  | returnValue _ _ _ ih => exact ih.cons rfl
  | expression _ _ ih => exact ih
  | noStatements => exact wellBracketed_nil
  | semicolon _ ih => exact ih.snoc rfl
  | block _ _ _ _ ihss ih => exact ihss.append ih
  | ended _ _ _ ihss ih => exact (ihss.append ih).snoc rfl
  | body _ ih => exact ih
  | unended _ _ _ ihss ih => exact ihss.append ih
  | scope _ _ ih => exact ih.inBraces

theorem Derives.bracketsMatch {ph : Phrase} {ts ws : List TokenKind} (h : Derives ph ts ws) :
    bracketsMatch [] ts = true := by
  have hall := h.wellBracketed [] []
  rwa [List.append_nil] at hall

end WellBracketed

end GameScript
