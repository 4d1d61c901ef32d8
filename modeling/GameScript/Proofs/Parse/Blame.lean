import GameScript.Proofs.Parse.Spans
import GameScript.Proofs.Token.Faults

/-!
# Where parse errors are

A reader blames a token that is ahead of it, or an expression that it has read: the place of its error is that of a
token, or it goes from the start of one token to the stop of another one behind it (`PlaceAmong`). The rules of this
module say so of the combinators of readers (`blames_bind` and its sisters), then there is a lemma for each reader. Only
the reader of assignments looks back: that what it blames is such a place follows from what the loop over operators
keeps (`Cursor.Spine`).

Main statement: the span of a parse error selects its text, unless the error is one of the lexer that cuts an escape
(`selects_iff_of_parse_error`).
-/

namespace GameScript

open Cursor GameScript.Parser

/-- The place of one of some tokens, or of those that are read between two places among them. -/
inductive PlaceAmong (all : List Token) : Span → Prop
  | token {t : Token} (h : t ∈ all) : PlaceAmong all t.span
  | read {c d : Cursor} (hc : c.rest <:+ all) (h : c.Past d) : PlaceAmong all ⟨c.place.start, d.lastStop⟩

/-- A place from which some of the tokens are still ahead. -/
def Cursor.Ahead (all : List Token) (c : Cursor) : Prop := c.Closed ∧ c.rest <:+ all

theorem Cursor.Ahead.next {all : List Token} {c : Cursor} (h : c.Ahead all) : c.next.Ahead all := by
  refine ⟨h.1.next, ?_⟩
  unfold Cursor.next
  split
  · exact h.2
  · rename_i t rest hr
    split
    · exact h.2
    · exact (List.suffix_cons t rest).trans (hr ▸ h.2)

namespace Parser

variable {all : List Token} {α β : Type}

/-- An outcome that is an answer somewhere among the tokens, where `Q` holds of it; or that blames a place among them,
unless it is a breach. -/
def Blames (all : List Token) (Q : α → Cursor → Prop) : Except ParseError (α × Cursor) → Prop
  | .ok (a, d) => d.Ahead all ∧ Q a d
  | .error e => (∀ b, e.fault ≠ .broken b) → PlaceAmong all e.span

/-- A reader whose outcomes, wherever among the tokens it starts, are such. -/
def Blaming (all : List Token) (p : Parser α) : Prop := ∀ c, c.Ahead all → Blames all (fun _ _ => True) (p c)

/-! ## Rules -/

section Rules

variable {Q : α → Cursor → Prop} {c : Cursor} {p : Parser β} {f : β → Parser α} {span : Span}

theorem Blames.mono {P : α → Cursor → Prop} {x : Except ParseError (α × Cursor)} (h : Blames all P x)
    (hq : ∀ a d, P a d → Q a d) : Blames all Q x := by
  match x with
  | .ok (a, d) => exact ⟨h.1, hq a d h.2⟩
  | .error _ => exact h

/-- What is sure of an outcome is known of the answer. -/
theorem Blames.and_sure {P : α → Cursor → Prop} {x : Except ParseError (α × Cursor)} (h : Blames all P x)
    (hq : Sure Q x) : Blames all Q x := by
  match x with
  | .ok (a, d) => exact ⟨h.1, hq⟩
  | .error _ => exact h

theorem Blames.bind {P : β → Cursor → Prop} (h : Blames all P (p c))
    (hf : ∀ b d, d.Ahead all → P b d → Blames all Q (f b d)) : Blames all Q ((p >>= f) c) := by
  simp only [Bind.bind, StateT.bind]
  match hp : p c with
  | .ok (b, d) =>
    rw [hp] at h
    simpa only [Except.bind] using hf b d h.1 h.2
  | .error e =>
    rw [hp] at h
    exact h

theorem blaming_pure (a : α) : Blaming all (pure a : Parser α) := fun _ hc => ⟨hc, trivial⟩

theorem blaming_bind (h : Blaming all p) (hf : ∀ b, Blaming all (f b)) : Blaming all (p >>= f) :=
  fun c hc => (h c hc).bind fun b d hd _ => hf b d hd

theorem blaming_map (h : Blaming all p) (f : β → α) : Blaming all (f <$> p) :=
  blaming_bind (f := fun b => pure (f b)) h fun _ => blaming_pure _

theorem blaming_failAt (h : PlaceAmong all span) (fault : ParseFault) :
    Blaming all (failAt span fault : Parser α) := fun _ _ _ => h

theorem blaming_breach (b : Breach) : Blaming all (breach b : Parser α) := fun _ _ h => absurd rfl (h b)

/-- The token ahead is one of the tokens. -/
theorem blaming_token_bind {f : Token → Parser α} (hf : ∀ t ∈ all, Blaming all (f t)) :
    Blaming all (token >>= f) := by
  intro c hc
  obtain ⟨t, rest, hr⟩ := hc.1.rest_eq_cons
  rw [token_bind hr]
  exact hf t (hc.2.subset (hr ▸ List.mem_cons_self)) c hc

theorem blaming_token : Blaming all token := by
  have h : Blaming all (token >>= pure) := blaming_token_bind fun t _ => blaming_pure t
  simpa using h

theorem blaming_ahead : Blaming all ahead := blaming_bind blaming_token fun _ => blaming_pure _

theorem blaming_aheadSpan_bind {f : Span → Parser α} (hf : ∀ span, PlaceAmong all span → Blaming all (f span)) :
    Blaming all (aheadSpan >>= f) := by
  rw [aheadSpan_bind_eq]
  exact blaming_token_bind fun t ht => hf t.span (.token ht)

theorem blaming_aheadSpan : Blaming all aheadSpan := blaming_bind blaming_token fun _ => blaming_pure _

theorem blaming_lastStop : Blaming all lastStop := fun _ hc => ⟨hc, trivial⟩

theorem blaming_skip : Blaming all skip := blaming_bind blaming_token fun _ _ hc => ⟨hc.next, trivial⟩

theorem blaming_build (x : Except BuilderFault α) : Blaming all (build x) := by
  cases x with
  | ok a => exact blaming_pure a
  | error fault => exact blaming_breach _

theorem blaming_failExpected (what : Expectation) : Blaming all (failExpected what : Parser α) :=
  blaming_token_bind fun _ ht => blaming_failAt (.token ht) _

theorem blaming_sees (s : Symbol) : Blaming all (sees s) := blaming_bind blaming_ahead fun _ => blaming_pure _

theorem blaming_accept (s : Symbol) : Blaming all (accept s) := by
  refine blaming_bind (blaming_sees s) fun b => ?_
  split
  · exact blaming_bind blaming_skip fun _ => blaming_pure _
  · exact blaming_pure _

theorem blaming_expect (s : Symbol) (what : Expectation) : Blaming all (expect s what) := by
  refine blaming_bind (blaming_sees s) fun b => ?_
  split
  · exact blaming_skip
  · exact blaming_failExpected what

theorem blaming_expectName (what : Expectation) : Blaming all (expectName what) := by
  refine blaming_bind blaming_ahead fun kind => ?_
  split
  · exact blaming_bind blaming_skip fun _ => blaming_pure _
  · exact blaming_failExpected what

/-- A loop blames what its step blames, where that keeps `I`. -/
theorem blames_repeatUpTo {I : α → Cursor → Prop} {step : α → Parser (α × Bool)}
    (hstep : ∀ a c, c.Ahead all → I a c → Blames all (fun r d => I r.1 d) (step a c)) (bound : Nat) {a : α}
    {c : Cursor} (hc : c.Ahead all) (h : I a c) : Blames all I (repeatUpTo step bound a c) := by
  induction bound generalizing a c with
  | zero => exact ⟨hc, h⟩
  | succ bound ih =>
    refine (hstep a c hc h).bind fun ⟨b, more⟩ d hd hb => ?_
    cases more with
    | false => exact ⟨hd, hb⟩
    | true => exact ih hd hb

theorem blames_repeatWhile {I : α → Cursor → Prop} {step : α → Parser (α × Bool)}
    (hstep : ∀ a c, c.Ahead all → I a c → Blames all (fun r d => I r.1 d) (step a c)) {a : α} {c : Cursor}
    (hc : c.Ahead all) (h : I a c) : Blames all I (repeatWhile step a c) := blames_repeatUpTo hstep _ hc h

theorem blaming_repeatWhile {step : α → Parser (α × Bool)} (hstep : ∀ a, Blaming all (step a)) (a : α) :
    Blaming all (repeatWhile step a) := fun _ hc => blames_repeatWhile (fun b d hd _ => hstep b d hd) hc trivial

end Rules

end Parser

/-! ## Readers -/

/-- A level whose readers blame places among the tokens. -/
structure Level.Blaming (all : List Token) (l : Level) : Prop where
  expression : ∀ least, Parser.Blaming all (l.expression least)
  block : Parser.Blaming all l.block
  object : Parser.Blaming all l.object

section Readers

variable {all : List Token} {inner : Level} {e : Expression}

theorem blaming_propertyKey : Blaming all propertyKey := by
  refine blaming_bind blaming_ahead fun kind => ?_
  split
  · exact blaming_bind blaming_skip fun _ => blaming_pure _
  · exact blaming_bind blaming_skip fun _ => blaming_pure _
  · exact blaming_failExpected _

theorem blaming_parameterStep (before : List String) : Blaming all (parameterStep before) := by
  refine blaming_bind (blaming_sees _) fun b => ?_
  split
  · exact blaming_pure _
  · refine blaming_aheadSpan_bind fun span hspan => blaming_bind (blaming_expectName _) fun name => ?_
    split
    · exact blaming_failAt hspan _
    · exact blaming_bind (blaming_accept _) fun _ => blaming_pure _

theorem blaming_literalForm (literal : Literal) : Blaming all (literalForm literal) :=
  blaming_bind blaming_aheadSpan fun _ => blaming_bind blaming_skip fun _ => blaming_pure _

theorem blaming_negativeForm : Blaming all negativeForm := by
  have hleaf (start : Nat) (literal : Literal) : Blaming all (do
      skip
      return .leaf (.value literal) ⟨start, ← lastStop⟩ : Parser Expression) :=
    blaming_bind blaming_skip fun _ => blaming_bind blaming_lastStop fun _ => blaming_pure _
  refine blaming_aheadSpan_bind fun span hspan => blaming_bind blaming_skip fun _ => ?_
  refine blaming_bind blaming_ahead fun kind => ?_
  split
  · exact blaming_bind (blaming_pure _) fun _ => hleaf _ _
  · exact blaming_bind (blaming_pure _) fun _ => hleaf _ _
  · exact blaming_bind (blaming_failAt hspan _) fun _ => hleaf _ _

theorem blaming_statementEnd : Blaming all statementEnd := by
  refine blaming_bind (blaming_accept _) fun b => ?_
  split
  · exact blaming_pure _
  · refine blaming_bind blaming_ahead fun kind => ?_
    split
    · exact blaming_pure _
    · refine blaming_bind (blaming_sees _) fun b => ?_
      split
      · exact blaming_pure _
      · exact blaming_failExpected _

theorem blaming_tooDeep {α : Type} : Blaming all (tooDeep : Parser α) :=
  blaming_aheadSpan_bind fun _ hspan => blaming_failAt hspan _

variable (h : inner.Blaming all)

include h

theorem blaming_arguments : Blaming all (arguments inner) := by
  refine blaming_bind (blaming_sees _) fun b => ?_
  split
  · exact blaming_pure _
  · exact blaming_repeatWhile (fun before => blaming_bind (h.expression 0) fun e =>
      blaming_bind (blaming_accept _) fun _ => blaming_pure _) _

theorem blaming_propertyStep (before : List Property) : Blaming all (propertyStep inner before) := by
  refine blaming_bind (blaming_sees _) fun b => ?_
  split
  · exact blaming_pure _
  · refine blaming_bind blaming_propertyKey fun key => blaming_bind (blaming_expect _ _) fun _ => ?_
    exact blaming_bind (h.expression 0) fun _ => blaming_bind (blaming_accept _) fun _ => blaming_pure _

theorem blaming_objectForm : Blaming all (objectForm inner) := by
  refine blaming_bind blaming_aheadSpan fun _ => blaming_bind blaming_skip fun _ => ?_
  refine blaming_bind (blaming_repeatWhile (blaming_propertyStep h) _) fun _ => ?_
  exact blaming_bind (blaming_expect _ _) fun _ => blaming_bind blaming_lastStop fun _ => blaming_pure _

theorem blaming_functionForm : Blaming all (functionForm inner) := by
  refine blaming_bind blaming_aheadSpan fun _ => blaming_bind blaming_skip fun _ => ?_
  refine blaming_bind (blaming_repeatWhile blaming_parameterStep _) fun _ => ?_
  refine blaming_bind (blaming_expect _ _) fun _ => blaming_bind (blaming_expect _ _) fun _ => ?_
  exact blaming_bind h.block fun _ => blaming_bind blaming_lastStop fun _ => blaming_pure _

theorem blaming_groupForm : Blaming all (groupForm inner) := by
  refine blaming_bind blaming_aheadSpan fun _ => blaming_bind blaming_skip fun _ => ?_
  refine blaming_bind (h.expression 0) fun _ => blaming_bind (blaming_expect _ _) fun _ => ?_
  exact blaming_bind blaming_lastStop fun _ => blaming_pure _

theorem blaming_leadingForm (kind : OperatorKind) : Blaming all (leadingForm inner kind) := by
  refine blaming_bind blaming_aheadSpan fun _ => blaming_bind blaming_skip fun _ => ?_
  exact blaming_bind (h.expression _) fun _ => blaming_bind blaming_lastStop fun _ => blaming_build _

theorem blaming_startForm : Blaming all (startForm inner) := by
  refine blaming_aheadSpan_bind fun span hspan => blaming_bind blaming_ahead fun kind => ?_
  split
  · exact blaming_literalForm _
  · exact blaming_literalForm _
  · exact blaming_literalForm _
  · exact blaming_literalForm _
  · exact blaming_literalForm _
  · exact blaming_bind blaming_skip fun _ => blaming_pure _
  · exact blaming_negativeForm
  · refine blaming_bind (fun _ hc => ⟨hc, trivial⟩) fun b => ?_
    split
    · exact blaming_functionForm h
    · exact blaming_groupForm h
  · exact h.object
  · split
    · exact blaming_leadingForm h _
    · exact blaming_failExpected _
  · exact blaming_failAt hspan _
  · exact blaming_failAt hspan _
  · exact blaming_failExpected _

theorem blaming_suffixForm (start : Nat) (e : Expression) (suffix : Suffix) :
    Blaming all (suffixForm inner start e suffix) := by
  cases suffix with
  | call =>
    refine blaming_bind blaming_skip fun _ => blaming_bind (blaming_arguments h) fun _ => ?_
    exact blaming_bind (blaming_expect _ _) fun _ => blaming_bind blaming_lastStop fun _ => blaming_pure _
  | member =>
    refine blaming_bind blaming_aheadSpan fun _ => blaming_bind blaming_skip fun _ => ?_
    refine blaming_bind blaming_aheadSpan fun _ => blaming_bind (blaming_expectName _) fun _ => ?_
    exact blaming_bind blaming_lastStop fun _ => blaming_build _
  | step kind =>
    refine blaming_bind blaming_aheadSpan fun _ => blaming_bind blaming_skip fun _ => ?_
    exact blaming_bind blaming_lastStop fun _ => blaming_build _

/-- An operator that takes no such left operand blames that. -/
theorem blaming_operatorStep (he : PlaceAmong all e.span) (least start : Nat) :
    Blaming all (operatorStep inner least start e) := by
  have hbinary (rule : BinaryRule) : Blaming all (binaryForm inner start e rule) := by
    refine blaming_bind blaming_aheadSpan fun _ => blaming_bind blaming_skip fun _ => ?_
    split
    · exact blaming_failAt he _
    · exact blaming_bind (h.expression _) fun _ => blaming_bind blaming_lastStop fun _ => blaming_build _
  refine blaming_bind blaming_ahead fun kind => ?_
  split
  · split
    · exact blaming_pure _
    · exact blaming_bind (blaming_suffixForm h start e _) fun _ => blaming_pure _
  · split
    · split
      · exact blaming_pure _
      · exact blaming_bind (hbinary _) fun _ => blaming_pure _
    · exact blaming_pure _

/-- The left operand is always an expression that has been read. -/
theorem blaming_expressionForm (hlays : inner.LaysOut) (hlocal : inner.LocalTo (levelAt (maxNesting - 1)))
    (least : Nat) : Blaming all (expressionForm inner least) := by
  intro c hc
  have hstart : (expressionForm inner least) c = (do
      let e ← startForm inner
      repeatWhile (operatorStep inner least c.place.start) e : Parser Expression) c := by
    obtain ⟨t, rest, hr⟩ := hc.1.rest_eq_cons
    rw [expressionForm, aheadSpan_bind_eq, token_bind hr, place_of_rest hr]
  rw [hstart]
  have hfirst := ((covers_startForm hlays hc.1).with_eq).mono fun e d hread =>
    spine_startForm hlocal hc.1 hread.2 hread.1
  refine ((blaming_startForm h c hc).and_sure hfirst).bind fun e d hd he => ?_
  refine (blames_repeatWhile (I := fun e d => c.Spine e d) (fun e d hd he => ?_) hd he).mono fun _ _ _ => trivial
  have hspan : PlaceAmong all e.span := by
    have hread : PlaceAmong all ⟨c.place.start, d.lastStop⟩ := .read hc.2 he.covers.past
    have hcovered : e.span = ⟨c.place.start, d.lastStop⟩ := he.covers.span
    rwa [← hcovered] at hread
  exact (blaming_operatorStep h hspan least _ d hd).and_sure (spine_operatorStep hlays hlocal he)

theorem blaming_statementBody : Blaming all (statementBody inner) := by
  refine blaming_bind blaming_ahead fun kind => ?_
  split
  · refine blaming_bind blaming_aheadSpan fun _ => blaming_bind blaming_skip fun _ => ?_
    refine blaming_bind blaming_aheadSpan fun _ => blaming_bind (blaming_expectName _) fun _ => ?_
    refine blaming_bind blaming_aheadSpan fun _ => blaming_bind (blaming_expect _ _) fun _ => ?_
    exact blaming_bind (h.expression 0) fun _ => blaming_bind blaming_lastStop fun _ => blaming_build _
  · refine blaming_bind blaming_aheadSpan fun _ => blaming_bind blaming_skip fun _ => ?_
    refine blaming_bind (blaming_bind blaming_ahead fun _ => blaming_pure _) fun b => ?_
    have hbuild (span : Span) (a : Operand) : Blaming all (do
        build (Expression.prefixed? ⟨.ret, span⟩ a ⟨span.start, ← lastStop⟩) : Parser Expression) :=
      blaming_bind blaming_lastStop fun _ => blaming_build _
    split
    · exact blaming_bind (blaming_pure _) fun _ => hbuild _ _
    · exact blaming_bind (blaming_map (h.expression 0) _) fun _ => hbuild _ _
  · exact h.expression 0

theorem blaming_statementForm : Blaming all (statementForm inner) := by
  refine blaming_bind blaming_aheadSpan fun _ => blaming_bind blaming_ahead fun kind => ?_
  split
  · exact blaming_bind blaming_skip fun _ => blaming_pure _
  · have hblock : Blaming all (blockStatement inner) :=
      blaming_bind h.block fun _ => blaming_bind (blaming_accept _) fun _ => blaming_pure _
    exact blaming_bind hblock fun _ => blaming_pure _
  · refine blaming_bind (blaming_statementBody h) fun _ => blaming_bind blaming_lastStop fun _ => ?_
    exact blaming_bind blaming_statementEnd fun _ => blaming_pure _

theorem blaming_statements : Blaming all (statements inner) := by
  refine blaming_repeatWhile (fun before => blaming_bind blaming_ahead fun kind => ?_) _
  split
  · exact blaming_pure _
  · exact blaming_bind (blaming_statementForm h) fun _ => blaming_pure _

theorem blaming_blockForm : Blaming all (blockForm inner) := by
  refine blaming_bind blaming_aheadSpan fun _ => blaming_bind (blaming_expect _ _) fun _ => ?_
  refine blaming_bind (blaming_statements h) fun _ => blaming_bind (blaming_expect _ _) fun _ => ?_
  exact blaming_bind blaming_lastStop fun _ => blaming_pure _

end Readers

/-! ## Scripts -/

section Scripts

variable {all : List Token}

theorem blaming_levelAt {room : Nat} (hroom : room ≤ maxNesting) : (levelAt room).Blaming all := by
  induction room with
  | zero => exact ⟨fun _ => blaming_tooDeep, blaming_tooDeep, blaming_tooDeep⟩
  | succ room ih =>
    have hinner := ih (by omega)
    have hlays : (levelAt room).LaysOut := laysOut_levelAt (by omega)
    have hlocal := localTo_levelAt (Nat.le_sub_one_of_lt hroom)
    exact ⟨blaming_expressionForm hinner hlays hlocal, blaming_blockForm hinner, blaming_objectForm hinner⟩

theorem blaming_programForm : Blaming all programForm := by
  refine blaming_bind blaming_aheadSpan fun _ => ?_
  refine blaming_bind (blaming_statements (blaming_levelAt (Nat.le_refl _))) fun _ => ?_
  refine blaming_bind blaming_ahead fun kind => ?_
  split
  · exact blaming_bind blaming_lastStop fun _ => blaming_pure _
  · exact blaming_aheadSpan_bind fun _ hspan => blaming_failAt hspan _

/-- A list of tokens that is no program is blamed on one of them, or on some that follow one another. -/
theorem placeAmong_of_parseTokens {tokens : List Token} {e : ParseError} (h : parseTokens tokens = .error e) :
    PlaceAmong (closeTokens tokens) e.span := by
  have hclosed : (ofTokens tokens).Ahead (closeTokens tokens) := ⟨closed_ofTokens tokens, List.suffix_rfl⟩
  have hblames := blaming_programForm _ hclosed
  have hsure := sure_programForm (closed_ofTokens tokens)
  unfold parseTokens StateT.run' at h
  cases hx : programForm (ofTokens tokens) with
  | ok r =>
    rw [hx] at h
    cases h
  | error e' =>
    rw [hx] at h hblames hsure
    cases h
    exact hblames hsure

/-- A place among the tokens of a text without lexer errors selects a part of the text. -/
theorem PlaceAmong.selects {source : List Char} {tokens : List Token} {last : Token} {span : Span}
    (hreads : GameScript.Reads 0 maxLexErrors source tokens [])
    (hlast : last = ⟨.endOfText, ⟨byteLength source, byteLength source⟩⟩) (h : PlaceAmong (tokens ++ [last]) span) :
    span.Selects source := by
  cases h with
  | @token t ht =>
    rcases List.mem_append.1 ht with ht | ht
    · exact (hreads.token_place t ht).selects
    · rw [List.mem_singleton.1 ht, hlast]
      exact selects_end source
  | @read c d hc hpast =>
    obtain ⟨before, hbefore⟩ := hc
    obtain ⟨row, before, w, after, rfl, hstart, hstop, -⟩ := hpast.exists_excerpt hreads ⟨before, last, hbefore.symm⟩
    rw [hstart, hstop]
    exact selects_append before w after

/-- The span of a parse error selects its text, unless the error is one of the lexer that cuts an escape. -/
theorem selects_iff_of_parse_error {source : List Char} {e : LocatedError} (h : parse source = .error e) :
    e.span.Selects source ↔ ∀ first ∈ (tokenize source).errors.head?, ¬first.CutsEscape 0 source := by
  unfold parse at h
  dsimp only at h
  split at h
  · rename_i first rest herrors
    cases h
    have hmem : first ∈ (tokenize source).errors := by rw [herrors]; exact List.mem_cons_self
    rw [herrors, List.head?_cons]
    simpa [LexError.toParseError, ParseError.locate] using selects_iff_of_mem_errors hmem
  · rename_i herrors
    obtain ⟨tokens, errors, hreads, heq⟩ := exists_reads_tokenize source
    rw [heq] at herrors h
    obtain rfl : errors = [] := herrors
    cases hx : parseTokens (tokens ++ [⟨.endOfText, ⟨byteLength source, byteLength source⟩⟩]) with
    | ok p =>
      rw [hx] at h
      cases h
    | error e' =>
      rw [hx] at h
      cases h
      have hplace := placeAmong_of_parseTokens hx
      have hclose (last : Token) (hlast : last.kind = .endOfText) :
          closeTokens (tokens ++ [last]) = tokens ++ [last] := by simp [closeTokens, hlast, TokenKind.isEnd]
      rw [hclose _ rfl] at hplace
      rw [heq]
      refine iff_of_true (hplace.selects hreads rfl) ?_
      rintro first ⟨⟩

end Scripts

end GameScript
