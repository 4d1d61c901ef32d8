import GameScript.Proofs.Parse.Walk

/-!
# What the lookahead for functions promises

A parenthesis starts a function or an expression in parentheses. Which of them, the lookahead says, and the reader of
functions reads the same names once more. The lookahead takes no comma behind the last name; the reader takes one.

Both are compared with the tokens of a head (`headTokens`). The reader of parameters is followed by equations, one for
each token that may be ahead (`parameters_of_close` and its sisters), in both directions:

* **Heads are read** (`parameters_read`, `headOutcome_of_prefix`), or the first name that comes again is refused.
* **What is read is a head** (`tokens_of_parameters`, `prefix_of_functionHead`).

Together: `lookahead_agrees_with_reader`.
-/

namespace GameScript

open GameScript.Parser GameScript.Cursor

/-! ## The part of a function before its body -/

/-- What a function literal has before its body: names in parentheses, and an arrow. -/
def functionHead : Parser (List String) := do
  skip
  let parameters ← repeatWhile parameterStep []
  expect .rParen .parenEnd
  expect .fatArrow .arrow
  return parameters

/-- The body of a function literal that starts at `start`. -/
def functionBody (inner : Level) (start : Nat) (parameters : List String) : Parser Expression := do
  let body ← inner.block
  return .leaf (.function parameters body) ⟨start, ← lastStop⟩

/-- A function literal is its head and its body. -/
theorem functionForm_eq (inner : Level) :
    functionForm inner = aheadSpan >>= fun span => functionHead >>= functionBody inner span.start := by
  simp [functionForm, functionHead, functionBody]

/-- The tokens of names with commas between them; there may be one more comma behind the last. -/
def parameterTokens (names : List String) (comma : Bool) : List TokenKind :=
  commaSeparated (names.map ([.ident ·])) ++ if comma then [.symbol .comma] else []

/-- The tokens of a function literal before its body. -/
def headTokens (names : List String) (comma : Bool) : List TokenKind :=
  .symbol .lParen :: parameterTokens names comma ++ [.symbol .rParen, .symbol .fatArrow]

/-- Some names are ahead in parentheses, with an arrow behind them. -/
def SpellsHead (ks : List TokenKind) : Prop := ∃ names, headTokens names false <+: ks

/-- The same, but with a comma behind the last name. -/
def SpellsHeadWithComma (ks : List TokenKind) : Prop := ∃ names, names ≠ [] ∧ headTokens names true <+: ks

/-! ## Single tokens -/

section Tokens

variable {c : Cursor} {t u : Token} {rest : List Token} {y : Symbol} {what : Expectation}

theorem expect_of_symbol (hr : c.rest = t :: rest) (hk : t.kind = .symbol y) :
    expect y what c = .ok ((), ⟨t.span.stop, rest⟩) := by
  have hne : t.kind ≠ .endOfText := by simp [hk]
  rw [expect, sees_bind_eq, token_bind hr, if_pos (TokenKind.isSymbol_iff.2 hk), skip_of_rest hr, next_of_rest hr hne]

theorem expect_of_ne (hr : c.rest = t :: rest) (hk : t.kind ≠ .symbol y) :
    expect y what c = .error ⟨.expected what t.kind, t.span⟩ := by
  rw [expect, sees_bind_eq, token_bind hr, if_neg (mt TokenKind.isSymbol_iff.1 hk), failExpected, token_bind hr]
  rfl

theorem accept_of_symbol (hr : c.rest = t :: rest) (hk : t.kind = .symbol y) :
    accept y c = .ok (true, ⟨t.span.stop, rest⟩) := by
  have hne : t.kind ≠ .endOfText := by simp [hk]
  rw [accept, sees_bind_eq, token_bind hr, if_pos (TokenKind.isSymbol_iff.2 hk), bind_of_ok (skip_of_rest hr),
    next_of_rest hr hne]
  rfl

theorem accept_of_ne (hr : c.rest = t :: rest) (hk : t.kind ≠ .symbol y) : accept y c = .ok (false, c) := by
  rw [accept, sees_bind_eq, token_bind hr, if_neg (mt TokenKind.isSymbol_iff.1 hk)]
  rfl

theorem expectName_of_ident {name : String} (hr : c.rest = t :: rest) (hk : t.kind = .ident name) :
    expectName what c = .ok (name, ⟨t.span.stop, rest⟩) := by
  have hne : t.kind ≠ .endOfText := by simp [hk]
  rw [expectName, ahead_bind_eq, token_bind hr, hk]
  show (skip >>= fun _ => pure name) c = _
  rw [bind_of_ok (skip_of_rest hr), next_of_rest hr hne]
  rfl

theorem expectName_of_ne (hr : c.rest = t :: rest) (hk : ∀ name, t.kind ≠ .ident name) :
    expectName what c = .error ⟨.expected what t.kind, t.span⟩ := by
  rw [expectName, ahead_bind_eq, token_bind hr]
  have hfail : (failExpected what : Parser String) c = .error ⟨.expected what t.kind, t.span⟩ := by
    rw [failExpected, token_bind hr]
    rfl
  cases hkind : t.kind with
  | ident name => exact absurd hkind (hk name)
  | _ => rwa [hkind] at hfail

end Tokens

/-! ## One parameter after another -/

section Parameters

variable {c : Cursor} {t u : Token} {rest : List Token} {before : List String} {name : String}

theorem parameters_eq (hc : c.Closed) : repeatWhile parameterStep before c = (parameterStep before >>=
    fun (names, more) => if more then repeatWhile parameterStep names else pure names) c :=
  repeatWhile_eq keeps_parameterStep.progresses before hc

/-- A parenthesis ends the parameters. -/
theorem parameters_of_close (hc : c.Closed) (hr : c.rest = t :: rest) (hk : t.kind = .symbol .rParen) :
    repeatWhile parameterStep before c = .ok (before, c) := by
  have hstep : parameterStep before c = .ok ((before, false), c) := by
    rw [parameterStep, sees_bind_eq, token_bind hr, if_pos (TokenKind.isSymbol_iff.2 hk)]
    rfl
  rw [parameters_eq hc, bind_of_ok hstep]
  rfl

/-- Something that is neither a name nor a parenthesis is refused. -/
theorem parameters_of_other (hc : c.Closed) (hr : c.rest = t :: rest) (hk : t.kind ≠ .symbol .rParen)
    (hname : ∀ name, t.kind ≠ .ident name) :
    repeatWhile parameterStep before c = .error ⟨.expected .name t.kind, t.span⟩ := by
  have hstep : parameterStep before c = .error ⟨.expected .name t.kind, t.span⟩ := by
    rw [parameterStep, sees_bind_eq, token_bind hr, if_neg (mt TokenKind.isSymbol_iff.1 hk), aheadSpan_bind_eq,
      token_bind hr, bind_of_error (expectName_of_ne hr hname)]
  rw [parameters_eq hc, bind_of_error hstep]

/-- Where a name is ahead, it is read and looked up among those before it. -/
theorem parameterStep_of_name (hr : c.rest = t :: rest) (hk : t.kind = .ident name) :
    parameterStep before c =
      (if before.contains name then failAt t.span (.duplicateParameter name)
        else accept .comma >>= fun more => pure (before ++ [name], more) : Parser (List String × Bool))
        ⟨t.span.stop, rest⟩ := by
  rw [parameterStep, sees_bind_eq, token_bind hr, if_neg (by simp [hk, TokenKind.isSymbol]), aheadSpan_bind_eq,
    token_bind hr, bind_of_ok (expectName_of_ident hr hk)]

/-- A name that stands before is refused. -/
theorem parameters_of_repeat (hc : c.Closed) (hr : c.rest = t :: rest) (hk : t.kind = .ident name)
    (hmem : name ∈ before) :
    repeatWhile parameterStep before c = .error ⟨.duplicateParameter name, t.span⟩ := by
  have hstep : parameterStep before c = .error ⟨.duplicateParameter name, t.span⟩ := by
    rw [parameterStep_of_name hr hk, if_pos (List.contains_iff_mem.2 hmem)]
    rfl
  rw [parameters_eq hc, bind_of_error hstep]

/-- After a comma, parameters go on. -/
theorem parameters_of_comma (hc : c.Closed) (hr : c.rest = t :: u :: rest) (hk : t.kind = .ident name)
    (hmem : name ∉ before) (hu : u.kind = .symbol .comma) :
    repeatWhile parameterStep before c = repeatWhile parameterStep (before ++ [name]) ⟨u.span.stop, rest⟩ := by
  have hstep : parameterStep before c = .ok ((before ++ [name], true), ⟨u.span.stop, rest⟩) := by
    rw [parameterStep_of_name hr hk, if_neg (mt List.contains_iff_mem.1 hmem), bind_of_ok (accept_of_symbol rfl hu)]
    rfl
  rw [parameters_eq hc, bind_of_ok hstep]
  rfl

/-- Without a comma, they end behind the name. -/
theorem parameters_of_name (hc : c.Closed) (hr : c.rest = t :: u :: rest) (hk : t.kind = .ident name)
    (hmem : name ∉ before) (hu : u.kind ≠ .symbol .comma) :
    repeatWhile parameterStep before c = .ok (before ++ [name], ⟨t.span.stop, u :: rest⟩) := by
  have hstep : parameterStep before c = .ok ((before ++ [name], false), ⟨t.span.stop, u :: rest⟩) := by
    rw [parameterStep_of_name hr hk, if_neg (mt List.contains_iff_mem.1 hmem), bind_of_ok (accept_of_ne rfl hu)]
    rfl
  rw [parameters_eq hc, bind_of_ok hstep]
  rfl

end Parameters

/-! ## All parameters -/

section Names

variable {c d : Cursor} {t : Token} {rest : List Token} {before names : List String} {comma : Bool}
  {ks : List TokenKind}

theorem closed_of_cons (hc : c.Closed) (hr : c.rest = t :: rest) (ht : t.kind ≠ .endOfText) (n : Nat) :
    Closed ⟨n, rest⟩ := by
  have hnext := hc.next
  rwa [next_of_rest hr ht] at hnext

/-- What comes of reading names behind others: they are all distinct and read, or the first one that comes again is
refused where it stands among the tokens `ts`. -/
def NamesOutcome (ts : List Token) (before names : List String) (ks : List TokenKind)
    (x : Except ParseError (List String × Cursor)) : Prop :=
  ((before ++ names).Nodup ∧ ∃ d, x = .ok (before ++ names, d) ∧ d.rest.map Token.kind = ks) ∨
    ∃ front name back t, names = front ++ name :: back ∧ (before ++ front).Nodup ∧ name ∈ before ++ front ∧
      ts[2 * front.length]? = some t ∧ x = .error ⟨.duplicateParameter name, t.span⟩

/-- Names in parentheses are read one after another, with or without a comma behind the last one. -/
theorem parameters_read (hlast : names = [] → comma = false) (hc : c.Closed)
    (hkinds : c.rest.map Token.kind = parameterTokens names comma ++ .symbol .rParen :: ks) (hnodup : before.Nodup) :
    NamesOutcome c.rest before names (.symbol .rParen :: ks) (repeatWhile parameterStep before c) := by
  induction names generalizing before c comma with
  | nil =>
    obtain rfl := hlast rfl
    obtain ⟨t, rest, hr, hk, hks⟩ := List.map_eq_cons_iff.1 hkinds
    exact .inl ⟨by simpa using hnodup, c, by simpa using parameters_of_close hc hr hk, hkinds⟩
  | cons name names ih =>
    -- behind the name stands a comma, and then come the other names, or there is no comma and the name is the last
    have hcons : ∃ ks', parameterTokens (name :: names) comma ++ .symbol .rParen :: ks = .ident name :: ks' ∧
        ((∃ more, (names = [] → more = false) ∧
            ks' = .symbol .comma :: (parameterTokens names more ++ .symbol .rParen :: ks)) ∨
          (names = [] ∧ ks' = .symbol .rParen :: ks)) := by
      match names, comma with
      | [], false => exact ⟨_, rfl, .inr ⟨rfl, rfl⟩⟩
      | [], true => exact ⟨_, rfl, .inl ⟨false, fun _ => rfl, rfl⟩⟩
      | name' :: names, comma => exact ⟨_, rfl, .inl ⟨comma, by simp, rfl⟩⟩
    obtain ⟨ks', hks', hbehind⟩ := hcons
    rw [hks'] at hkinds
    obtain ⟨t, rest, hr, hk, hrest⟩ := List.map_eq_cons_iff.1 hkinds
    by_cases hmem : name ∈ before
    · refine .inr ⟨[], name, names, t, rfl, by simpa using hnodup, by simpa using hmem, by simp [hr], ?_⟩
      exact parameters_of_repeat hc hr hk hmem
    have hsnoc : (before ++ [name]).Nodup := by simpa using hnodup.concat hmem
    have hassoc : before ++ [name] ++ names = before ++ name :: names := by simp
    rcases hbehind with ⟨more, hmore, hcomma⟩ | ⟨rfl, hclose⟩
    · rw [hcomma] at hrest
      obtain ⟨u, rest, rfl, hu, hrest⟩ := List.map_eq_cons_iff.1 hrest
      have hclosed : Closed ⟨u.span.stop, rest⟩ :=
        closed_of_cons (closed_of_cons hc hr (by simp [hk]) 0) rfl (by simp [hu]) _
      rw [parameters_of_comma hc hr hk hmem hu]
      rcases ih hmore hclosed hrest hsnoc with ⟨hall, d, hd, hks⟩ | ⟨front, other, back, v, rfl, hfront, hother, hv, hx⟩
      · exact .inl ⟨hassoc ▸ hall, d, hassoc ▸ hd, hks⟩
      · refine .inr ⟨name :: front, other, back, v, rfl, by simpa using hfront, by simpa using hother, ?_, hx⟩
        rw [hr, List.length_cons, Nat.mul_add, List.getElem?_cons_succ, List.getElem?_cons_succ]
        exact hv
    · rw [hclose] at hrest
      obtain ⟨u, rest, rfl, hu, hrest⟩ := List.map_eq_cons_iff.1 hrest
      refine .inl ⟨hsnoc, _, parameters_of_name hc hr hk hmem (by simp [hu]), ?_⟩
      rw [List.map_cons, hu, hrest]

/-- What is read as parameters are names, with or without a comma behind the last one. -/
theorem tokens_of_parameters {ps : List String} (hc : c.Closed)
    (h : repeatWhile parameterStep before c = .ok (ps, d)) :
    d.Closed ∧ ∃ names comma, ps = before ++ names ∧ (names = [] → comma = false) ∧
      c.rest.map Token.kind = parameterTokens names comma ++ d.rest.map Token.kind := by
  induction hn : c.rest.length using Nat.strong_induction_on generalizing before c with
  | _ n ih =>
    obtain ⟨t, rest, hr⟩ := hc.rest_eq_cons
    by_cases hclose : t.kind = .symbol .rParen
    · rw [parameters_of_close hc hr hclose] at h
      cases h
      exact ⟨hc, [], false, by simp, fun _ => rfl, rfl⟩
    by_cases hname : ∃ name, t.kind = .ident name
    · obtain ⟨name, hk⟩ := hname
      by_cases hmem : name ∈ before
      · rw [parameters_of_repeat hc hr hk hmem] at h
        cases h
      have hclosed : ∀ n, Closed ⟨n, rest⟩ := closed_of_cons hc hr (by simp [hk])
      obtain ⟨u, rest, rfl⟩ := (hclosed 0).rest_eq_cons
      by_cases hu : u.kind = .symbol .comma
      · rw [parameters_of_comma hc hr hk hmem hu] at h
        have hclosed' : Closed ⟨u.span.stop, rest⟩ := closed_of_cons (hclosed 0) rfl (by simp [hu]) _
        have hlt : rest.length < n := by
          rw [← hn, hr]
          simp only [List.length_cons]
          omega
        obtain ⟨hd, names, comma, rfl, hlast, hkinds⟩ := ih _ hlt hclosed' h rfl
        refine ⟨hd, name :: names, comma || names.isEmpty, by simp, by simp, ?_⟩
        rw [hr, List.map_cons, List.map_cons, hk, hu]
        cases names with
        | nil =>
          obtain rfl := hlast rfl
          rw [show rest.map Token.kind = _ from hkinds]
          rfl
        | cons name' names =>
          rw [show rest.map Token.kind = _ from hkinds, List.isEmpty_cons, Bool.or_false]
          rfl
      · rw [parameters_of_name hc hr hk hmem hu] at h
        cases h
        refine ⟨hclosed _, [name], false, rfl, by simp, ?_⟩
        rw [hr, List.map_cons, hk]
        rfl
    · rw [parameters_of_other hc hr hclose fun name hk => hname ⟨name, hk⟩] at h
      cases h

end Names

/-! ## Heads -/

/-- What comes of reading the head of a function with the given names: they are distinct and read, or the first one that
comes again is refused at its place. -/
def HeadOutcome (c : Cursor) (names : List String) : Prop :=
  (names.Nodup ∧ ∃ d, functionHead c = .ok (names, d)) ∨
    ∃ before name after t, names = before ++ name :: after ∧ before.Nodup ∧ name ∈ before ∧
      c.rest[2 * before.length + 1]? = some t ∧ functionHead c = .error ⟨.duplicateParameter name, t.span⟩

section Heads

variable {c d : Cursor} {t : Token} {rest : List Token} {names : List String} {comma : Bool} {ks : List TokenKind}

theorem functionHead_eq (hr : c.rest = t :: rest) (ht : t.kind = .symbol .lParen) :
    functionHead c = (repeatWhile parameterStep [] >>= fun names => do
      expect .rParen .parenEnd
      expect .fatArrow .arrow
      return names : Parser (List String)) ⟨t.span.stop, rest⟩ := by
  rw [functionHead, bind_of_ok (skip_of_rest hr), next_of_rest hr (by simp [ht])]

/-- A head that is ahead is read, unless a name comes twice. -/
theorem headOutcome_of_prefix (hlast : names = [] → comma = false) (hc : c.Closed)
    (h : headTokens names comma <+: c.rest.map Token.kind) : HeadOutcome c names := by
  obtain ⟨ks, hks⟩ := h
  have hkinds : c.rest.map Token.kind =
      .symbol .lParen :: (parameterTokens names comma ++ .symbol .rParen :: .symbol .fatArrow :: ks) := by
    rw [← hks]
    simp [headTokens]
  obtain ⟨t, rest, hr, ht, hrest⟩ := List.map_eq_cons_iff.1 hkinds
  have hclosed : Closed ⟨t.span.stop, rest⟩ := closed_of_cons hc hr (by simp [ht]) _
  rcases parameters_read hlast hclosed hrest List.nodup_nil with
    ⟨hall, d, hd, hbehind⟩ | ⟨front, name, back, u, rfl, hfront, hmem, hu, hx⟩
  · -- a parenthesis and an arrow are ahead of the names
    obtain ⟨v, rest', hv, hparen, hbehind⟩ := List.map_eq_cons_iff.1 hbehind
    obtain ⟨w, rest'', rfl, harrow, -⟩ := List.map_eq_cons_iff.1 hbehind
    refine .inl ⟨hall, ⟨w.span.stop, rest''⟩, ?_⟩
    rw [functionHead_eq hr ht, bind_of_ok hd, bind_of_ok (expect_of_symbol hv hparen),
      bind_of_ok (expect_of_symbol rfl harrow)]
    rfl
  · refine .inr ⟨front, name, back, u, rfl, hfront, hmem, by rwa [hr], ?_⟩
    rw [functionHead_eq hr ht, bind_of_error hx]

theorem exists_of_bind_ok {α β : Type} {q : Parser β} {f : β → Parser α} {a : α} (h : (q >>= f) c = .ok (a, d)) :
    ∃ b e, q c = .ok (b, e) ∧ f b e = .ok (a, d) := by
  match hq : q c with
  | .ok (b, e) => exact ⟨b, e, rfl, (bind_of_ok hq f).symm.trans h⟩
  | .error x => cases (bind_of_error hq f).symm.trans h

/-- A symbol that is expected and read is ahead. -/
theorem symbol_of_expect {y : Symbol} {what : Expectation} (hc : c.Closed) (h : expect y what c = .ok ((), d)) :
    ∃ t rest, c.rest = t :: rest ∧ t.kind = .symbol y ∧ d = ⟨t.span.stop, rest⟩ := by
  obtain ⟨t, rest, hr⟩ := hc.rest_eq_cons
  by_cases hk : t.kind = .symbol y
  · rw [expect_of_symbol hr hk] at h
    cases h
    exact ⟨t, rest, hr, hk, rfl⟩
  · rw [expect_of_ne hr hk] at h
    cases h

/-- What is read as a head is one, with or without a comma behind the last name. -/
theorem prefix_of_functionHead (hc : c.Closed) (hr : c.rest = t :: rest) (ht : t.kind = .symbol .lParen)
    (h : functionHead c = .ok (names, d)) :
    ∃ comma, (names = [] → comma = false) ∧ headTokens names comma <+: c.rest.map Token.kind := by
  have hclosed : Closed ⟨t.span.stop, rest⟩ := closed_of_cons hc hr (by simp [ht]) _
  rw [functionHead_eq hr ht] at h
  obtain ⟨ps, c₁, hps, h⟩ := exists_of_bind_ok h
  obtain ⟨hc₁, names', comma, rfl, hlast, hkinds⟩ := tokens_of_parameters hclosed hps
  obtain ⟨⟨⟩, c₂, hparen, h⟩ := exists_of_bind_ok h
  obtain ⟨⟨⟩, c₃, harrow, h⟩ := exists_of_bind_ok h
  cases h
  obtain ⟨u, rest', hu, hku, rfl⟩ := symbol_of_expect hc₁ hparen
  have hc₂ : Closed ⟨u.span.stop, rest'⟩ := closed_of_cons hc₁ hu (by simp [hku]) _
  obtain ⟨v, rest'', hv, hkv, rfl⟩ := symbol_of_expect hc₂ harrow
  obtain rfl : rest' = v :: rest'' := hv
  refine ⟨comma, hlast, rest''.map Token.kind, ?_⟩
  rw [hr, List.map_cons, ht, show rest.map Token.kind = _ from hkinds, hu, List.map_cons, List.map_cons, hku, hkv]
  simp [headTokens]

/-- A function is seen ahead where its names are, with no comma behind the last one. -/
theorem parametersThenArrow_iff_prefix (hr : c.rest = t :: rest) (ht : t.kind = .symbol .lParen) :
    parametersThenArrow rest = true ↔ SpellsHead (c.rest.map Token.kind) := by
  rw [hr, List.map_cons, ht]
  constructor
  · intro h
    obtain ⟨names, ks, hks⟩ := exists_of_parametersAhead (parametersThenArrow_eq rest ▸ h)
    exact ⟨names, ks, by simp [hks, headTokens, parameterTokens]⟩
  · rintro ⟨names, ks, hks⟩
    have hrest : rest.map Token.kind =
        commaSeparated (names.map ([.ident ·])) ++ .symbol .rParen :: .symbol .fatArrow :: ks := by
      simpa [headTokens, parameterTokens] using hks.symm
    exact parametersThenArrow_eq_true hrest

/-- A parenthesis starts a function where one is seen, and an expression in parentheses elsewhere. -/
theorem startForm_of_paren (inner : Level) (hr : c.rest = t :: rest) (ht : t.kind = .symbol .lParen) :
    startForm inner c = (if parametersThenArrow rest then functionForm inner else groupForm inner) c := by
  rw [startForm, aheadSpan_bind_eq, token_bind hr, ahead_bind_eq, token_bind hr, ht]
  show (seesFunction >>= fun b => if b then functionForm inner else groupForm inner) c = _
  rw [seesFunction_bind, hr]
  rfl

end Heads

/-- **The lookahead for functions agrees with their reader.** In front of a parenthesis, a function is seen exactly when
names with commas between them, a closing parenthesis and an arrow follow. Where one is seen, the reader of functions
gets to the body with these names, unless one of them comes twice. Where none is seen, it fails before the body, unless
there is a comma behind the last name; so what it would read as a function is read as one, unless there is such a
comma. -/
theorem lookahead_agrees_with_reader {c : Cursor} {ks : List TokenKind} (h : c.Spells (.symbol .lParen :: ks)) :
    (∀ inner, functionForm inner = aheadSpan >>= fun span => functionHead >>= functionBody inner span.start) ∧
      ∃ seen, seesFunction c = .ok (seen, c) ∧
        (seen = true ↔ SpellsHead (.symbol .lParen :: ks)) ∧
        (∀ names comma, (names = [] → comma = false) → headTokens names comma <+: .symbol .lParen :: ks →
          HeadOutcome c names) ∧
        (seen = false → ¬SpellsHeadWithComma (.symbol .lParen :: ks) →
          ∃ e, functionHead c = .error e ∧ ∀ inner, functionForm inner c = .error e) ∧
        ∀ inner f d, functionForm inner c = .ok (f, d) →
          startForm inner c = .ok (f, d) ∨ SpellsHeadWithComma (.symbol .lParen :: ks) := by
  have hc := h.closed
  obtain ⟨t, rest, hr, ht, -⟩ := h.rest_eq
  have hkinds : c.rest.map Token.kind = .symbol .lParen :: ks := h.1
  have hseen : parametersThenArrow rest = true ↔ SpellsHead (.symbol .lParen :: ks) :=
    hkinds ▸ parametersThenArrow_iff_prefix hr ht
  -- where the head is read, names are ahead; so without a comma behind them, a function is seen
  have hread : ∀ names d, functionHead c = .ok (names, d) → ¬SpellsHeadWithComma (.symbol .lParen :: ks) →
      parametersThenArrow rest = true := by
    intro names d hd hno
    obtain ⟨comma, hlast, hprefix⟩ := prefix_of_functionHead hc hr ht hd
    rw [hkinds] at hprefix
    cases comma with
    | false => exact hseen.2 ⟨names, hprefix⟩
    | true => exact absurd ⟨names, fun hnil => by simpa using hlast hnil, hprefix⟩ hno
  have hform : ∀ inner, functionForm inner c = (functionHead >>= functionBody inner t.span.start) c := by
    intro inner
    rw [functionForm_eq, aheadSpan_bind_eq, token_bind hr]
  refine ⟨functionForm_eq, parametersThenArrow rest, by rw [seesFunction_eq, hr]; rfl, hseen, ?_, ?_, ?_⟩
  · intro names comma hlast hprefix
    exact headOutcome_of_prefix hlast hc (hkinds ▸ hprefix)
  · intro hunseen hno
    match hhead : functionHead c with
    | .ok (names, d) => simp [hread names d hhead hno] at hunseen
    | .error e => exact ⟨e, rfl, fun inner => by rw [hform, bind_of_error hhead]⟩
  · intro inner f d hf
    by_cases hcomma : SpellsHeadWithComma (.symbol .lParen :: ks)
    · exact .inr hcomma
    rw [hform] at hf
    obtain ⟨names, e, hhead, -⟩ := exists_of_bind_ok hf
    rw [startForm_of_paren inner hr ht, if_pos (hread names e hhead hcomma), hform]
    exact .inl hf

/-- Two names with a comma behind each of them, in parentheses, and an arrow. -/
def namesWithComma : Cursor :=
  ⟨0, (headTokens ["a", "b"] true ++ [TokenKind.endOfText]).map fun kind => ⟨kind, {}⟩⟩

/-- The comma hides the function, and its reader would have come to the body. -/
theorem lookahead_agrees_with_reader_comma :
    namesWithComma.Spells (headTokens ["a", "b"] true ++ [.endOfText]) ∧
      seesFunction namesWithComma = .ok (false, namesWithComma) ∧
      ∃ d, functionHead namesWithComma = .ok (["a", "b"], d) := by
  have hspells : namesWithComma.Spells (headTokens ["a", "b"] true ++ [.endOfText]) := ⟨rfl, by simp⟩
  obtain ⟨-, -, -, -, hread, -⟩ := lookahead_agrees_with_reader hspells
  have houtcome : HeadOutcome namesWithComma ["a", "b"] := hread _ true (by simp) (List.prefix_append _ _)
  refine ⟨hspells, rfl, ?_⟩
  rcases houtcome with ⟨-, hd⟩ | ⟨before, name, after, -, hnames, -, hmem, -⟩
  · exact hd
  · have hnodup : (before ++ name :: after).Nodup := hnames ▸ by decide
    exact absurd List.mem_cons_self (List.disjoint_of_nodup_append hnodup hmem)

end GameScript
