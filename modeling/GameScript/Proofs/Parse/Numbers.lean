import GameScript.Proofs.Parse.Derivations
import GameScript.Proofs.Parse.Texts
import GameScript.Proofs.Token.Accounted
import GameScript.Proofs.Tree.Differences

/-!
# The numbers of a program

A floating-point literal of a tree is a number that is written in its text, or the negation of one
(`Derives.written`). So none of a program that has been read is `NaN`, and it does not differ from itself. Main
statement: `comparison_is_exact`.
-/

namespace GameScript

/-! ## Literals of parts -/

section Parts

variable {e : Expression} {a b : Operand} {op : Operator} {span : Span}

@[simp] theorem Expression.floats_leaf : (Expression.leaf a span).floats = a.floats := by
  simp [Expression.leaf, Expression.floats, Operand.floatsSlot]

@[simp] theorem Expression.floats_binary : (Expression.binary a op b span).floats = a.floats ++ b.floats := rfl

@[simp] theorem Expression.floats_prefixed : (Expression.prefixed op b span).floats = b.floats := rfl

@[simp] theorem Expression.floats_postfixed : (Expression.postfixed a op span).floats = a.floats := by
  simp [Expression.postfixed, Expression.floats, Operand.floatsSlot]

@[simp] theorem Expression.floats_toOperand : e.toOperand.floats = e.floats := by
  unfold Expression.toOperand
  split
  · simp [Expression.floats, Operand.floatsSlot]
  · rfl

@[simp] theorem Expression.floats_withSpan : ({ e with span } : Expression).floats = e.floats := by
  obtain ⟨_, _, _, _⟩ := e
  simp only [Expression.floats]

theorem Expression.floatsAll_append (es fs : List Expression) :
    Expression.floatsAll (es ++ fs) = Expression.floatsAll es ++ Expression.floatsAll fs := by
  induction es with
  | nil => rfl
  | cons e es ih => simp [Expression.floatsAll, ih]

theorem Property.floatsAll_append (ps qs : List Property) :
    Property.floatsAll (ps ++ qs) = Property.floatsAll ps ++ Property.floatsAll qs := by
  induction ps with
  | nil => rfl
  | cons p ps ih =>
    obtain ⟨key, e⟩ := p
    simp [Property.floatsAll, ih]

theorem Statement.floatsAll_append (ss rs : List Statement) :
    Statement.floatsAll (ss ++ rs) = Statement.floatsAll ss ++ Statement.floatsAll rs := by
  induction ss with
  | nil => rfl
  | cons s ss ih =>
    obtain ⟨e, span⟩ := s
    simp [Statement.floatsAll, ih]

end Parts

/-- The floating-point literals of a phrase. -/
def Phrase.floats : Phrase → List Float
  | .expression _ e => e.floats
  | .arguments es => Expression.floatsAll es
  | .properties ps => Property.floatsAll ps
  | .scope s => s.floats
  | .statement e => e.floats
  | .statements ss => Statement.floatsAll ss
  | .body ss => Statement.floatsAll ss

/-! ## Literals and tokens -/

/-- A number stands among tokens, or the number of which it is the negation. -/
def Written (ts : List TokenKind) (x : Float) : Prop := ∃ y, .float y ∈ ts ∧ (x = y ∨ x = -y)

section Writing

variable {ts us : List TokenKind} {x : Float}

theorem Written.mono (h : Written ts x) (hsub : ts ⊆ us) : Written us x := by
  obtain ⟨y, hy, hx⟩ := h
  exact ⟨y, hsub hy, hx⟩

/-- The numbers of two parts are written where those of each are. -/
theorem written_append {xs ys : List Float} (hxs : ∀ x ∈ xs, Written ts x) (hys : ∀ x ∈ ys, Written us x)
    {vs : List TokenKind} (hts : ts ⊆ vs) (hus : us ⊆ vs) : ∀ x ∈ xs ++ ys, Written vs x :=
  List.forall_mem_append.2 ⟨fun x hx => (hxs x hx).mono hts, fun x hx => (hys x hx).mono hus⟩

theorem subset_beforeNext {α : Type} (items : List α) (ts : List TokenKind) : ts ⊆ beforeNext items ts := by
  unfold beforeNext
  split
  · exact List.Subset.refl _
  · exact List.subset_append_left _ _

/-- The numbers of a phrase are written among its tokens. -/
theorem Derives.written {ph : Phrase} {ws : List TokenKind} (h : Derives ph ts ws) :
    ∀ x ∈ ph.floats, Written ts x := by
  induction h with
  | literal l =>
    intro x hx
    cases l with
    | float y => exact ⟨y, List.mem_singleton_self _, .inl (List.mem_singleton.1 hx)⟩
    | _ => cases hx
  | negativeInt => exact nofun
  | negativeFloat y =>
    intro x hx
    exact ⟨y, by simp, .inr (List.mem_singleton.1 hx)⟩
  | name | noArguments | noProperties | noStatements | returnNothing => exact nofun
  | body _ ih | expression _ _ ih => exact ih
  | group _ _ ih | object _ _ ih | objectThenComma _ _ _ ih | function _ _ _ ih | member _ _ _ _ _ _ ih
  | postfixed _ _ _ _ _ ih | prefixed _ _ _ _ _ _ ih | returnValue _ _ _ ih | declaration _ _ _ _ _ ih
  | semicolon _ ih | scope _ _ ih =>
    intro x hx
    refine (ih x ?_).mono fun k hk => by simp [inParentheses, hk]
    first
      | exact hx
      | simpa [Phrase.floats, Operand.floats, Scope.floats, Literal.floats] using hx
  | call _ _ _ _ ihe ihes =>
    simp only [Phrase.floats, Expression.floats_leaf, Operand.floats]
    exact written_append ihe ihes (fun k hk => by simp [hk]) fun k hk => by simp [inParentheses, hk]
  | binary _ _ _ _ _ _ _ _ _ ihe ihf =>
    simp only [Phrase.floats, Expression.floats_binary, Expression.floats_toOperand]
    exact written_append ihe ihf (fun k hk => by simp [hk]) fun k hk => by simp [hk]
  | argument _ _ ihes ih =>
    simp only [Phrase.floats, Expression.floatsAll_append, Expression.floatsAll, List.append_nil]
    exact written_append ihes ih (fun k hk => List.mem_append_left _ (subset_beforeNext _ _ hk))
      fun k hk => by simp [hk]
  | property _ _ _ ihps ih =>
    simp only [Phrase.floats, Property.floatsAll_append, Property.floatsAll, List.append_nil]
    exact written_append ihps ih (fun k hk => List.mem_append_left _ (subset_beforeNext _ _ hk))
      fun k hk => by simp [hk]
  | block _ _ _ _ ihss ih | ended _ _ _ ihss ih | unended _ _ _ ihss ih =>
    simp only [Phrase.floats, Statement.floatsAll_append, Statement.floatsAll, Expression.floats_leaf, Operand.floats,
      List.append_nil]
    exact written_append ihss ih (fun k hk => by simp [hk]) fun k hk => by simp [hk]

end Writing

/-! ## Programs that have been read -/

/-- No token is `NaN`. -/
theorem Spells.isNaN_eq_false {x : Float} {w : List Char} (h : Spells (.float x) w) : x.isNaN = false := by
  cases h with
  | keyword h => simp [keywords] at h
  | float => exact isNaN_readDecimal ..

theorem tokenize_spelled (source : List Char) :
    ∀ k ∈ (tokenize source).tokens.map Token.kind, k = .endOfText ∨ ∃ w, Spells k w := by
  obtain ⟨tokens, errors, hreads, heq⟩ := exists_reads_tokenize source
  rw [heq]
  simp only [List.map_append, List.mem_append, List.mem_map, List.map_cons, List.map_nil, List.mem_singleton]
  rintro k (⟨t, ht, rfl⟩ | rfl)
  · obtain ⟨_, w, _, -, hw, -⟩ := hreads.token_place t ht
    exact .inr ⟨w, hw⟩
  · exact .inl rfl

/-- No literal of a program that has been read is `NaN`. -/
theorem isNaN_of_parse {source : List Char} {p : Program} (h : parse source = .ok p) :
    ∀ x ∈ p.floats, x.isNaN = false := by
  obtain ⟨ks, hks⟩ := exists_lexes_of_parse h
  have hc := spells_ofTokens hks.tokenize.2
  obtain ⟨d, hd⟩ := parseTokens_eq_ok_iff.1 (parse_eq_ok_iff.1 h).2
  obtain ⟨⟨ts, ws, hts, hbody⟩, -⟩ := (reads_programForm hc.closed).of_eq_ok hd
  have hkinds : (tokenize source).tokens.map Token.kind = ts ++ d.rest.map Token.kind := by
    rw [hks.tokenize.2, ← hc.1, hts.2]
  obtain ⟨⟨body, span⟩⟩ := p
  intro x hx
  obtain ⟨y, hy, hxy⟩ := hbody.written x hx
  have hnumber : y.isNaN = false := by
    obtain hend | ⟨w, hw⟩ := tokenize_spelled source (.float y) (hkinds ▸ List.mem_append_left _ hy)
    · cases hend
    · exact hw.isNaN_eq_false
  rcases hxy with rfl | rfl
  · exact hnumber
  · exact isNaN_neg hnumber

/-- **The comparison is exact and even-handed.** It reports nothing exactly when two programs are equal without places;
literals are equal as their kinds have it, so that the two zeros are and `NaN` is not equal to itself. From the other
side it reports nothing exactly when it does from the first, and else the same place, with what is expected and what is
found exchanged. A program that has been read does not differ from itself. -/
theorem comparison_is_exact :
    (∀ p q : Program, p.diff q = none ↔ (p.eraseSpans == q.eraseSpans) = true) ∧
    ((Literal.float 0.0 == Literal.float (-0.0)) = true ∧
      ∀ x : Float, (Literal.float x == Literal.float x) = !x.isNaN) ∧
    (∀ p q : Program, (q.diff p = none ↔ p.diff q = none) ∧ q.diff p = (p.diff q).map Mismatch.swap) ∧
    ∀ (source : List Char) (p : Program), parse source = .ok p → p.diff p = none := by
  refine ⟨fun p q => Scope.diff_eq_none_iff p.body q.body, ⟨by decide, float_beq_self⟩, fun p q => ?_, ?_⟩
  · have hswap : q.diff p = (p.diff q).map Mismatch.swap := Scope.diff_comm p.body q.body
    exact ⟨by rw [hswap, Option.map_eq_none_iff], hswap⟩
  · exact fun source p h => (Scope.diff_self p.body).2 (isNaN_of_parse h)

/-- The program of `f(-1, (x) => {2})`. -/
def calledWithFunction : Program :=
  let body : Scope := ⟨[⟨.leaf (.value (.int 2)) ⟨14, 15⟩, ⟨14, 15⟩⟩], ⟨13, 16⟩⟩
  let function : Expression := .leaf (.function ["x"] body) ⟨6, 16⟩
  let call : Operand := .call (.leaf (.var ⟨"f", .use, ⟨0, 1⟩⟩) ⟨0, 1⟩) [.leaf (.value (.int (-1))) ⟨2, 4⟩, function]
  ⟨⟨[⟨.leaf call ⟨0, 17⟩, ⟨0, 17⟩⟩], ⟨0, 17⟩⟩⟩

/-- A call with a negative number and a function is read, and does not differ from itself. -/
theorem comparison_of_calledWithFunction :
    parse "f(-1, (x) => {2})".toList = .ok calledWithFunction ∧ calledWithFunction.diff calledWithFunction = none := by
  have hp : parse "f(-1, (x) => {2})".toList = .ok calledWithFunction := by cbv
  exact ⟨hp, comparison_is_exact.2.2.2 _ _ hp⟩

end GameScript
