import GameScript.Proofs.Parse.Derives
import GameScript.Proofs.Parse.RoundTrip

/-!
# What is read is derived

Readers keep to the grammar: the tokens that a reader takes are those of a derivation of its answer (`Cursor.Reads`).

The loop over operators keeps an invariant that relates the power asked for to the tree built so far: what has been read
is of a level, and what is ahead does not go on with its last operand (`Cursor.EndsAt`). So an operator that is taken
finds a left operand of the level it asks for (`leftLevel_le`), and one that was read with the operator's own power is
of the level that its right side asks for (`rightLevel_le`).
-/

namespace GameScript

namespace Cursor

/-- From one cursor to another, tokens of the kinds `ts` are read, and an end token is still ahead. -/
def Takes (ts : List TokenKind) (c d : Cursor) : Prop :=
  d.Closed ∧ c.rest.map Token.kind = ts ++ d.rest.map Token.kind

variable {ts us : List TokenKind} {c d e : Cursor}

theorem Takes.closed (h : c.Takes ts d) : d.Closed := h.1

theorem Closed.takes (h : c.Closed) : c.Takes [] c := ⟨h, rfl⟩

theorem Takes.trans (h : c.Takes ts d) (h' : d.Takes us e) : c.Takes (ts ++ us) e :=
  ⟨h'.1, by rw [h.2, h'.2, List.append_assoc]⟩

theorem Closed.takes_next (h : c.Closed) {t : Token} {rest : List Token} (hr : c.rest = t :: rest)
    (ht : t.kind ≠ .endOfText) : c.Takes [t.kind] c.next := by
  have he : ¬t.kind.isEnd = true := fun he => ht (TokenKind.isEnd_iff.1 he)
  refine ⟨h.next, ?_⟩
  simp [Cursor.next, hr, he]

end Cursor

open Cursor

namespace Parser

variable {α : Type} {c : Cursor}

/-! ## Single tokens and loops -/

theorem takes_skip {Q : Unit → Cursor → Prop} (hc : c.Closed) {t : Token} {rest : List Token}
    (hr : c.rest = t :: rest) (ht : t.kind ≠ .endOfText) (h : ∀ d, c.Takes [t.kind] d → Q () d) : Sure Q (skip c) :=
  sure_skip hc (h _ (hc.takes_next hr ht))

theorem takes_accept {Q : Bool → Cursor → Prop} {s : Symbol} (hc : c.Closed)
    (htrue : ∀ d, c.Takes [.symbol s] d → Q true d)
    (hfalse : (∀ t rest, c.rest = t :: rest → t.kind ≠ .symbol s) → Q false c) : Sure Q (accept s c) := by
  refine sure_bind (sure_sees hc fun t rest hr => ?_)
  cases hs : t.kind.isSymbol s with
  | false =>
    refine sure_pure (hfalse fun t' rest' hr' hk => ?_)
    obtain ⟨rfl, -⟩ : t = t' ∧ _ := by simpa [hr] using hr'
    simp [TokenKind.isSymbol_iff.2 hk] at hs
  | true =>
    have hk := TokenKind.isSymbol_iff.1 hs
    exact sure_bind (takes_skip hc hr (by simp [hk]) fun d hd => sure_pure (htrue d (hk ▸ hd)))

theorem takes_expect {s : Symbol} {what : Expectation} (hc : c.Closed) :
    Sure (fun _ d => c.Takes [.symbol s] d) (expect s what c) := by
  refine sure_bind (sure_sees hc fun t rest hr => ?_)
  cases hs : t.kind.isSymbol s with
  | false => exact sure_failExpected hc
  | true =>
    have hk := TokenKind.isSymbol_iff.1 hs
    exact takes_skip hc hr (by simp [hk]) fun d hd => hk ▸ hd

theorem takes_expectName {what : Expectation} (hc : c.Closed) :
    Sure (fun name d => c.Takes [.ident name] d) (expectName what c) := by
  refine sure_bind (sure_ahead hc fun t rest hr => ?_)
  cases hk : t.kind with
  | ident name => exact sure_bind (takes_skip hc hr (by simp [hk]) fun d hd => sure_pure (hk ▸ hd))
  | _ => exact sure_failExpected hc

/-- A loop whose step keeps `I` while it asks for more ends with what the last step leaves. -/
theorem sure_loop {step : α → Parser (α × Bool)} (hp : Progresses step) {I Q : α → Cursor → Prop}
    (hstep : ∀ a c, c.Closed → I a c → Sure (fun r d => if r.2 = true then I r.1 d else Q r.1 d) (step a c)) {a : α}
    (hc : c.Closed) (h : I a c) : Sure Q (repeatWhile step a c) := by
  generalize hn : c.rest.length = n
  induction n using Nat.strongRecOn generalizing a c with
  | ind n ih =>
    rw [repeatWhile_eq hp a hc]
    refine (hstep a c hc h).with_eq.bind fun ⟨b, more⟩ d ⟨hs, hb⟩ => ?_
    cases more with
    | false => exact sure_pure (by simpa using hb)
    | true =>
      obtain ⟨hd, hlt⟩ := hp a c b d hc hs
      exact ih _ (hn ▸ hlt) hd (by simpa using hb) rfl

end Parser

open GameScript.Parser

/-! ## Levels and powers -/

namespace Cursor

/-- The tokens from one cursor to another are those of a phrase. -/
def Reads (ph : Phrase) (c d : Cursor) : Prop := ∃ ts ws, c.Takes ts d ∧ Derives ph ts ws

/-- Nothing ahead goes on with an expression that is read with a power. -/
def Halts (least : Nat) (d : Cursor) : Prop :=
  ∀ t rest, d.rest = t :: rest → t.kind.suffix? = none ∧ ∀ r, t.kind.binaryRule? = some r → r.left < least

/-- Nothing ahead goes on with the last operand of an expression of a level. -/
def EndsAt (level : Nat) (d : Cursor) : Prop := suffixLevel ≤ level ∨ d.Halts (rightPower level)

/-- An expression that can be read with a power, so far: what is ahead may still go on with it. -/
def ReadsOperand (least : Nat) (c : Cursor) (e : Expression) (d : Cursor) : Prop :=
  ∃ level, c.Reads (.expression level e) d ∧ least ≤ leftPower level ∧ d.EndsAt level

/-- An expression that is read with a power. -/
def ReadsWith (least : Nat) (c : Cursor) (e : Expression) (d : Cursor) : Prop :=
  ∃ level, c.Reads (.expression level e) d ∧ least ≤ leftPower level ∧ d.Halts least

end Cursor

/-- The table of binary operators. -/
theorem TokenKind.binaryRule?_eq {k : TokenKind} {r : BinaryRule} (h : k.binaryRule? = some r) :
    r.kind.arity = .binary ∧ r.kind ≠ .child ∧ k = r.kind.token ∧ r.left = leftPower r.kind.level ∧
      r.right = rightPower r.kind.level := by
  cases k with
  | symbol s =>
    cases s <;> first
      | (cases h; done)
      | (obtain rfl := Option.some.inj h; exact ⟨rfl, by decide, rfl, rfl, rfl⟩)
  | _ => cases h

/-- The token of a suffix. -/
def Suffix.token : Suffix → TokenKind
  | .call => .symbol .lParen
  | .member => .symbol .dot
  | .step kind => kind.token

/-- The table of suffixes. -/
theorem TokenKind.suffix?_eq {k : TokenKind} {suffix : Suffix} (h : k.suffix? = some suffix) :
    k = suffix.token ∧ ∀ kind, suffix = .step kind → kind.arity = .either := by
  cases k with
  | symbol s =>
    cases s <;> first
      | (cases h; done)
      | (obtain rfl := Option.some.inj h; exact ⟨rfl, by rintro _ ⟨⟩ <;> rfl⟩)
  | _ => cases h

/-- Suffixes bind more tightly than any power that is asked for. -/
theorem operandPower_lt_power (suffix : Suffix) : operandPower < suffix.power := by
  cases suffix <;> simp [operandPower, Suffix.power]

/-- What is assigned to is a name or an access. -/
theorem suffixLevel_le_of_target {level : Nat} {e : Expression} {ts ws : List TokenKind}
    (h : Derives (.expression level e) ts ws) (he : e.isAssignmentTarget = true) : suffixLevel ≤ level := by
  cases h with
  | prefixed => cases he
  | binary _ _ _ hchild => exact absurd (by simpa [Expression.binary, Expression.isAssignmentTarget] using he) hchild
  | _ => decide

/-- An operator that is not taken into what was read before finds a left operand of the level that it asks for. -/
theorem leftLevel_le {k : OperatorKind} {level : Nat}
    (hend : suffixLevel ≤ level ∨ leftPower k.level < rightPower level)
    (htarget : k.isAssignment = true → suffixLevel ≤ level) (hk : k.level ≤ 6) : k.leftLevel ≤ level := by
  unfold OperatorKind.leftLevel
  split
  · rename_i ha
    exact htarget ha
  · rcases hend with hend | hend
    · exact hk.trans ((by decide : 6 ≤ suffixLevel).trans hend)
    · unfold leftPower rightPower operandPower at hend
      split at hend <;> split at hend <;> omega

/-- What is read with the power of an operator is of the level that its right side asks for. -/
theorem rightLevel_le {k : OperatorKind} {level : Nat} (hk : k.arity = .binary) (hchild : k ≠ .child)
    (h : rightPower k.level ≤ leftPower level) : k.rightLevel ≤ level := by
  have hsix := level_le_six hk hchild
  unfold OperatorKind.rightLevel
  split
  · exact Nat.zero_le _
  · rename_i ha
    have hpos : k.level ≠ 0 := by cases k <;> first | decide | exact absurd rfl ha | exact absurd hk (by decide)
    unfold leftPower rightPower operandPower at h
    split at h <;> split at h <;> omega

/-- What is read as the operand of an operator before it binds as tightly. -/
theorem seven_le_of_operandPower {level : Nat} (h : operandPower ≤ leftPower level) : 7 ≤ level := by
  unfold operandPower leftPower at h
  split at h <;> omega

/-! ## Parts of expressions -/

/-- A level whose readers keep to the grammar. -/
structure Level.Grammatical (l : Level) : Prop where
  sound : l.Sound
  expression : ∀ least c, least ≤ operandPower → c.Closed → Sure (c.ReadsWith least) (l.expression least c)
  block : ∀ c, c.Closed → Sure (fun s d => c.Reads (.scope s) d) (l.block c)
  object : ∀ c t rest, c.Closed → c.rest = t :: rest → t.kind = .symbol .lBrace →
    Sure (c.ReadsOperand operandPower) (l.object c)

section Forms

variable {inner : Level} {c : Cursor}

theorem beforeNext_snoc {α : Type} (items : List α) (a : α) (ts : List TokenKind) :
    beforeNext (items ++ [a]) ts = ts ++ [.symbol .comma] := by simp [beforeNext]

/-- The items before the next one, and what must stand between. -/
def Cursor.ReadsBefore {α : Type} (ph : List α → Phrase) (c : Cursor) (items : List α) (d : Cursor) : Prop :=
  ∃ ts ws, c.Takes (beforeNext items ts) d ∧ Derives (ph items) ts ws

/-- What needs no parentheses may stand anywhere. -/
theorem Cursor.Reads.primary {e : Expression} {d : Cursor} (h : c.Reads (.expression primaryLevel e) d) :
    c.ReadsOperand operandPower e d := ⟨_, h, by decide, .inl (by decide)⟩

theorem reads_literalForm (literal : Literal) (hc : c.Closed) {t : Token} {rest : List Token}
    (hr : c.rest = t :: rest) (hk : t.kind = literal.token) :
    Sure (c.ReadsOperand operandPower) (literalForm literal c) := by
  have ht : t.kind ≠ .endOfText := by cases literal <;> simp [hk, Literal.token]
  refine sure_bind (sure_aheadSpan hc fun span => ?_)
  refine sure_bind (takes_skip hc hr ht fun d hd => sure_pure (Cursor.Reads.primary ?_))
  exact ⟨_, _, hk ▸ hd, .literal literal span⟩

theorem reads_negativeForm (hc : c.Closed) {t : Token} {rest : List Token} (hr : c.rest = t :: rest)
    (hk : t.kind = .symbol .minus) : Sure (c.ReadsOperand operandPower) (negativeForm c) := by
  refine sure_bind (sure_aheadSpan hc fun span => ?_)
  refine sure_bind (takes_skip hc hr (by simp [hk]) fun d hd => ?_)
  rw [hk] at hd
  refine sure_bind (sure_ahead hd.closed fun t' rest' hr' => ?_)
  cases hk' : t'.kind with
  | int n =>
    refine sure_bind (sure_pure (sure_bind (takes_skip hd.closed hr' (by simp [hk']) fun e he => ?_)))
    exact sure_bind (sure_lastStop fun stop => sure_pure (Cursor.Reads.primary
      ⟨_, _, hd.trans (hk' ▸ he), .negativeInt n _⟩))
  | float x =>
    refine sure_bind (sure_pure (sure_bind (takes_skip hd.closed hr' (by simp [hk']) fun e he => ?_)))
    exact sure_bind (sure_lastStop fun stop => sure_pure (Cursor.Reads.primary
      ⟨_, _, hd.trans (hk' ▸ he), .negativeFloat x _⟩))
  | _ => exact sure_bind (sure_failAt fun _ => by simp)

theorem takes_propertyKey (hc : c.Closed) :
    Sure (fun key d => ∃ k : TokenKind, k.IsKey key ∧ c.Takes [k] d) (propertyKey c) := by
  refine sure_bind (sure_ahead hc fun t rest hr => ?_)
  cases hk : t.kind with
  | ident key => exact sure_bind (takes_skip hc hr (by simp [hk]) fun d hd => sure_pure ⟨_, .inl hk, hd⟩)
  | string key => exact sure_bind (takes_skip hc hr (by simp [hk]) fun d hd => sure_pure ⟨_, .inr hk, hd⟩)
  | _ => exact sure_failExpected hc

theorem commaSeparated_cons (ts : List TokenKind) (tss : List (List TokenKind)) :
    commaSeparated (ts :: tss) = ts ++ (if tss.isEmpty then [] else .symbol .comma :: commaSeparated tss) := by
  cases tss <;> simp [commaSeparated]

section Parameters

variable {names : List String} {ks : List TokenKind}

/-- Some names have been read and the others are ahead, up to a parenthesis; after a comma there is another one. -/
def Cursor.AmongParameters (names : List String) (ks : List TokenKind) (before : List String) (d : Cursor) : Prop :=
  ∃ others, names = before ++ others ∧ before.Nodup ∧ (before ≠ [] → others ≠ []) ∧
    d.rest.map Token.kind = commaSeparated (others.map ([.ident ·])) ++ .symbol .rParen :: ks

/-- All names have been read. -/
def Cursor.PastParameters (names : List String) (ks : List TokenKind) (ps : List String) (d : Cursor) : Prop :=
  ps = names ∧ ps.Nodup ∧ d.Closed ∧ d.rest.map Token.kind = .symbol .rParen :: ks

theorem takes_parameterStep {before : List String} {d : Cursor} (hd : d.Closed)
    (h : d.AmongParameters names ks before) :
    Sure (fun r e => if r.2 = true then e.AmongParameters names ks r.1 else e.PastParameters names ks r.1)
      (parameterStep before d) := by
  obtain ⟨others, hnames, hnodup, hne, hkinds⟩ := h
  cases others with
  | nil =>
    refine sure_bind (sure_sees hd fun t rest hr => ?_)
    have hk : t.kind = .symbol .rParen := by simpa [hr, commaSeparated] using congrArg List.head? hkinds
    simp only [hk, TokenKind.isSymbol, decide_true, if_true]
    exact sure_pure ⟨by simpa using hnames.symm, hnodup, hd, hkinds⟩
  | cons name others =>
    rw [List.map_cons, commaSeparated_cons] at hkinds
    refine sure_bind (sure_sees hd fun t rest hr => ?_)
    have hk : t.kind = .ident name := by simpa [hr] using congrArg List.head? hkinds
    simp only [hk, TokenKind.isSymbol, Bool.false_eq_true, if_false]
    refine sure_bind (sure_aheadSpan hd fun span => ?_)
    refine (takes_expectName hd).bind fun name' d₁ h₁ => ?_
    obtain ⟨rfl, hrest⟩ : name = name' ∧ _ := by simpa [h₁.2] using hkinds.symm
    split
    · exact sure_failAt fun _ => by simp
    rename_i hname
    have hmem : name ∉ before := by simpa using hname
    have hsnoc : (before ++ [name]).Nodup :=
      List.nodup_append.2 ⟨hnodup, by simp, fun a ha b hb he => hmem (by simp_all)⟩
    refine sure_bind (takes_accept h₁.closed (fun d₂ h₂ => sure_pure ?_) fun hno => sure_pure ?_)
    · -- after a comma, another name is ahead
      have hothers : others ≠ [] := by
        rintro rfl
        simp [h₂.2] at hrest
      exact ⟨others, by simpa using hnames, hsnoc, fun _ => hothers, by simpa [h₂.2, hothers] using hrest.symm⟩
    · obtain ⟨t', rest', hr'⟩ := h₁.closed.rest_eq_cons
      have hothers : others = [] := by
        by_contra hne
        exact hno t' rest' hr' (by simpa [hr', hne] using congrArg List.head? hrest.symm)
      subst hothers
      exact ⟨hnames.symm, hsnoc, h₁.closed, by simpa using hrest.symm⟩

/-- Parameters that have been seen are read, and they are distinct. -/
theorem takes_parameters (hc : c.Closed)
    (hks : c.rest.map Token.kind = commaSeparated (names.map ([.ident ·])) ++ .symbol .rParen :: ks) :
    Sure (fun ps d => ps.Nodup ∧ c.Takes (commaSeparated (ps.map ([.ident ·]))) d)
      (repeatWhile parameterStep [] c) := by
  have hstart : c.AmongParameters names ks [] := ⟨names, rfl, List.nodup_nil, fun h => absurd rfl h, hks⟩
  refine (sure_loop keeps_parameterStep.progresses (fun _ _ hd h => takes_parameterStep hd h) hc hstart).mono ?_
  rintro ps d ⟨rfl, hnodup, hd, hkinds⟩
  exact ⟨hnodup, hd, by rw [hks, hkinds]⟩

end Parameters

variable (hi : inner.Grammatical)

include hi

theorem reads_arguments (hc : c.Closed) : Sure (fun es d => c.Reads (.arguments es) d) (arguments inner c) := by
  refine sure_bind (sure_sees hc fun t rest hr => ?_)
  split
  · exact sure_pure ⟨[], [], hc.takes, .noArguments⟩
  · refine sure_loop (keeps_argumentStep hi.sound).progresses (I := c.ReadsBefore .arguments) (fun before d hd hb => ?_)
      hc ⟨[], [], hc.takes, .noArguments⟩
    obtain ⟨ts, ws, hts, hbefore⟩ := hb
    refine (hi.expression 0 d (Nat.zero_le _) hd).bind fun e d' ⟨level, ⟨us, xs, hus, he⟩, _⟩ => ?_
    have hall := hbefore.argument he
    have htake := hts.trans hus
    refine sure_bind (takes_accept hus.closed (fun d'' hcomma => sure_pure ?_) fun _ => sure_pure ?_)
    · exact ⟨_, _, beforeNext_snoc before e _ ▸ htake.trans hcomma, hall⟩
    · exact ⟨_, _, htake, hall⟩

theorem reads_objectForm (hc : c.Closed) {t : Token} {rest : List Token} (hr : c.rest = t :: rest)
    (hk : t.kind = .symbol .lBrace) : Sure (c.ReadsOperand operandPower) (objectForm inner c) := by
  refine sure_bind (sure_aheadSpan hc fun span => ?_)
  refine sure_bind (takes_skip hc hr (by simp [hk]) fun d₁ h₁ => ?_)
  rw [hk] at h₁
  have hloop : Sure (fun ps d => ∃ ts ws, Derives (.properties ps) ts ws ∧
      (d₁.Takes ts d ∨ (ps ≠ [] ∧ d₁.Takes (ts ++ [.symbol .comma]) d))) (repeatWhile (propertyStep inner) [] d₁) := by
    refine sure_loop (keeps_propertyStep hi.sound).progresses (I := d₁.ReadsBefore .properties)
      (fun before d hd hb => ?_) h₁.closed ⟨[], [], h₁.closed.takes, .noProperties⟩
    obtain ⟨ts, ws, hts, hbefore⟩ := hb
    refine sure_bind (sure_sees hd fun t' rest' hr' => ?_)
    split
    · refine sure_pure ⟨ts, ws, hbefore, ?_⟩
      cases before with
      | nil => exact .inl hts
      | cons p ps => exact .inr ⟨by simp, hts⟩
    · refine (takes_propertyKey hd).bind fun key d₂ ⟨k, hkey, h₂⟩ => ?_
      refine (takes_expect h₂.closed).bind fun _ d₃ h₃ => ?_
      refine (hi.expression 0 d₃ (Nat.zero_le _) h₃.closed).bind fun e d₄ ⟨level, ⟨us, xs, hus, he⟩, _⟩ => ?_
      have hall := hbefore.property hkey he
      have htake := hts.trans (h₂.trans (h₃.trans hus))
      refine sure_bind (takes_accept hus.closed (fun d₅ hcomma => sure_pure ?_) fun _ => sure_pure ?_)
      · exact ⟨_, _, beforeNext_snoc before ⟨key, e⟩ _ ▸ htake.trans hcomma, hall⟩
      · exact ⟨_, _, hall, .inl htake⟩
  refine hloop.bind fun ps d₂ ⟨ts, ws, hps, hts⟩ => ?_
  have hd₂ : d₂.Closed := by
    rcases hts with h | ⟨-, h⟩
    · exact h.closed
    · exact h.closed
  refine (takes_expect hd₂).bind fun _ d₃ h₃ => ?_
  refine sure_bind (sure_lastStop fun stop => sure_pure (Cursor.Reads.primary ?_))
  rcases hts with h₂ | ⟨hne, h₂⟩
  · exact ⟨_, _, h₁.trans (h₂.trans h₃), .object _ hps⟩
  · refine ⟨_, _, ?_, .objectThenComma _ hps hne⟩
    simpa using h₁.trans (h₂.trans h₃)

theorem reads_functionForm (hc : c.Closed) {t : Token} {rest : List Token} (hr : c.rest = t :: rest)
    (hk : t.kind = .symbol .lParen) (hsees : parametersThenArrow rest = true) :
    Sure (c.ReadsOperand operandPower) (functionForm inner c) := by
  refine sure_bind (sure_aheadSpan hc fun span => ?_)
  refine sure_bind (takes_skip hc hr (by simp [hk]) fun d₁ h₁ => ?_)
  rw [hk] at h₁
  obtain ⟨names, ks, hnames⟩ := exists_of_parametersAhead (parametersThenArrow_eq rest ▸ hsees)
  have hks : d₁.rest.map Token.kind = commaSeparated (names.map ([.ident ·])) ++ .symbol .rParen ::
      .symbol .fatArrow :: ks := by
    have hkinds := h₁.2
    rw [hr, List.map_cons, hnames] at hkinds
    exact (List.cons.inj hkinds).2.symm
  refine (takes_parameters h₁.closed hks).bind fun ps d₂ ⟨hps, h₂⟩ => ?_
  refine (takes_expect h₂.closed).bind fun _ d₃ h₃ => ?_
  refine (takes_expect h₃.closed).bind fun _ d₄ h₄ => ?_
  refine (hi.block d₄ h₄.closed).bind fun s d₅ ⟨ts, ws, h₅, hs⟩ => ?_
  refine sure_bind (sure_lastStop fun stop => sure_pure (Cursor.Reads.primary ⟨_, _, ?_, .function _ hps hs⟩))
  simpa [inParentheses] using h₁.trans (h₂.trans (h₃.trans (h₄.trans h₅)))

theorem reads_groupForm (hc : c.Closed) {t : Token} {rest : List Token} (hr : c.rest = t :: rest)
    (hk : t.kind = .symbol .lParen) : Sure (c.ReadsOperand operandPower) (groupForm inner c) := by
  refine sure_bind (sure_aheadSpan hc fun span => ?_)
  refine sure_bind (takes_skip hc hr (by simp [hk]) fun d₁ h₁ => ?_)
  rw [hk] at h₁
  refine (hi.expression 0 d₁ (Nat.zero_le _) h₁.closed).bind fun e d₂ ⟨level, ⟨ts, ws, h₂, he⟩, _⟩ => ?_
  refine (takes_expect h₂.closed).bind fun _ d₃ h₃ => ?_
  exact sure_bind (sure_lastStop fun stop => sure_pure (Cursor.Reads.primary
    ⟨_, _, h₁.trans (h₂.trans h₃), .group _ he⟩))

theorem reads_leadingForm {kind : OperatorKind} (hop : kind.arity ≠ .binary) (hret : kind ≠ .ret) (hc : c.Closed)
    {t : Token} {rest : List Token} (hr : c.rest = t :: rest) (hk : t.kind = kind.token) :
    Sure (c.ReadsOperand operandPower) (leadingForm inner kind c) := by
  have hseven : kind.level = 7 := by cases kind <;> first | rfl | exact absurd rfl hret | exact absurd rfl hop
  have ht : t.kind ≠ .endOfText := by cases kind <;> simp [hk, OperatorKind.token]
  refine sure_bind (sure_aheadSpan hc fun span => ?_)
  refine sure_bind (takes_skip hc hr ht fun d₁ h₁ => ?_)
  rw [hk] at h₁
  refine (hi.expression operandPower d₁ le_rfl h₁.closed).bind fun e d₂ hread => ?_
  obtain ⟨level, ⟨ts, ws, h₂, he⟩, hlevel, hhalts⟩ := hread
  refine sure_bind (sure_lastStop fun stop => sure_build ⟨_, if_neg hop, ?_⟩)
  have hderived := Derives.prefixed ⟨kind, span⟩ ⟨span.start, stop⟩ hop hret he
    (show kind.level ≤ level from hseven ▸ seven_le_of_operandPower hlevel)
  exact ⟨kind.level, ⟨_, _, h₁.trans h₂, hderived⟩, by rw [hseven]; decide, .inr (by rw [hseven]; exact hhalts)⟩

theorem reads_startForm (hc : c.Closed) : Sure (c.ReadsOperand operandPower) (startForm inner c) := by
  refine sure_bind (sure_aheadSpan hc fun span => ?_)
  refine sure_bind (sure_ahead hc fun t rest hr => ?_)
  cases hk : t.kind with
  | int n => exact reads_literalForm (.int n) hc hr hk
  | float x => exact reads_literalForm (.float x) hc hr hk
  | string s => exact reads_literalForm (.string s) hc hr hk
  | bool b => exact reads_literalForm (.bool b) hc hr hk
  | null => exact reads_literalForm .undefined hc hr hk
  | ident name =>
    refine sure_bind (takes_skip hc hr (by simp [hk]) fun d hd => sure_pure (Cursor.Reads.primary ?_))
    exact ⟨_, _, hk ▸ hd, .name name span span⟩
  | letWord => exact sure_failAt fun _ => by simp
  | returnWord => exact sure_failAt fun _ => by simp
  | endOfText => exact sure_failExpected hc
  | symbol s =>
    cases s with
    | minus => exact reads_negativeForm hc hr hk
    | lBrace => exact hi.object c t rest hc hr hk
    | lParen =>
      refine sure_bind (sure_pure ?_)
      rw [hr, List.drop_one, List.tail_cons]
      cases hsees : parametersThenArrow rest with
      | true => exact reads_functionForm hi hc hr hk hsees
      | false => exact reads_groupForm hi hc hr hk
    | bang => exact reads_leadingForm hi (by decide) (by decide) hc hr hk
    | plusPlus => exact reads_leadingForm hi (by decide) (by decide) hc hr hk
    | minusMinus => exact reads_leadingForm hi (by decide) (by decide) hc hr hk
    | _ => exact sure_failExpected hc

/-! ### Operators -/

variable {start level : Nat} {e : Expression} {ts ws : List TokenKind} {d : Cursor} {t : Token} {rest : List Token}

theorem reads_suffixForm {suffix : Suffix} (hts : c.Takes ts d) (he : Derives (.expression level e) ts ws)
    (hlevel : suffixLevel ≤ level) (hr : d.rest = t :: rest) (hk : t.kind.suffix? = some suffix) :
    Sure (fun f d' => c.Reads (.expression suffixLevel f) d') (suffixForm inner start e suffix d) := by
  have hd := hts.closed
  obtain ⟨htoken, hstep⟩ := TokenKind.suffix?_eq hk
  have ht : t.kind ≠ .endOfText := fun h => by simp [h, TokenKind.suffix?] at hk
  cases suffix with
  | call =>
    refine sure_bind (takes_skip hd hr ht fun d₁ h₁ => ?_)
    rw [htoken] at h₁
    refine (reads_arguments hi h₁.closed).bind fun args d₂ hread => ?_
    obtain ⟨us, xs, h₂, hargs⟩ := hread
    refine (takes_expect h₂.closed).bind fun _ d₃ h₃ => ?_
    refine sure_bind (sure_lastStop fun stop => sure_pure ?_)
    exact ⟨_, _, hts.trans (h₁.trans (h₂.trans h₃)), .call _ he hlevel hargs⟩
  | member =>
    refine sure_bind (sure_aheadSpan hd fun opSpan => ?_)
    refine sure_bind (takes_skip hd hr ht fun d₁ h₁ => ?_)
    rw [htoken] at h₁
    refine sure_bind (sure_aheadSpan h₁.closed fun keySpan => ?_)
    refine (takes_expectName h₁.closed).bind fun key d₂ h₂ => ?_
    refine sure_bind (sure_lastStop fun stop => sure_build ⟨_, if_pos rfl, ?_⟩)
    exact ⟨_, _, hts.trans (h₁.trans h₂), .member key opSpan keySpan _ he hlevel⟩
  | step kind =>
    have hop := hstep kind rfl
    refine sure_bind (sure_aheadSpan hd fun opSpan => ?_)
    refine sure_bind (takes_skip hd hr ht fun d₁ h₁ => ?_)
    rw [htoken] at h₁
    refine sure_bind (sure_lastStop fun stop => sure_build ⟨_, if_pos hop, ?_⟩)
    exact ⟨_, _, hts.trans h₁, .postfixed ⟨kind, opSpan⟩ _ he hlevel hop⟩

theorem reads_binaryForm {rule : BinaryRule} (hts : c.Takes ts d) (he : Derives (.expression level e) ts ws)
    (hend : d.EndsAt level) (hr : d.rest = t :: rest) (hrule : t.kind.binaryRule? = some rule) :
    Sure (fun f d' => c.Reads (.expression rule.kind.level f) d' ∧ d'.EndsAt rule.kind.level)
      (binaryForm inner start e rule d) := by
  obtain ⟨hop, hchild, htoken, hleft, hright⟩ := TokenKind.binaryRule?_eq hrule
  have ht : t.kind ≠ .endOfText := fun h => by simp [h, TokenKind.binaryRule?] at hrule
  have hsix := level_le_six hop hchild
  refine sure_bind (sure_aheadSpan hts.closed fun opSpan => ?_)
  refine sure_bind (takes_skip hts.closed hr ht fun d₁ h₁ => ?_)
  rw [htoken] at h₁
  split
  · exact sure_failAt fun _ => by simp
  rename_i hassign
  have htarget : rule.kind.isAssignment = true → e.isAssignmentTarget = true := fun ha => by simpa [ha] using hassign
  have hpower : rule.right ≤ operandPower := by
    rw [hright]
    unfold rightPower operandPower
    split <;> omega
  refine (hi.expression rule.right d₁ hpower h₁.closed).bind fun f d₂ hread => ?_
  obtain ⟨level', ⟨us, xs, h₂, hf⟩, hlevel', hhalts⟩ := hread
  refine sure_bind (sure_lastStop fun stop => sure_build ⟨_, if_pos hop, ?_⟩)
  have hl : rule.kind.leftLevel ≤ level := by
    refine leftLevel_le (hend.imp_right fun hhalts => ?_) (fun ha => suffixLevel_le_of_target he (htarget ha)) hsix
    rw [← hleft]
    exact (hhalts t rest hr).2 rule hrule
  have hr' : rule.kind.rightLevel ≤ level' := rightLevel_le hop hchild (hright ▸ hlevel')
  exact ⟨⟨_, _, hts.trans (h₁.trans h₂), .binary ⟨rule.kind, opSpan⟩ _ hop hchild he hl htarget hf hr'⟩,
    .inr (hright ▸ hhalts)⟩

theorem reads_operatorStep {least : Nat} (hleast : least ≤ operandPower) (hd : d.Closed)
    (h : c.ReadsOperand least e d) :
    Sure (fun r d' => if r.2 = true then c.ReadsOperand least r.1 d' else c.ReadsWith least r.1 d')
      (operatorStep inner least start e d) := by
  obtain ⟨level, ⟨ts, ws, hts, he⟩, hlevel, hend⟩ := h
  refine sure_bind (sure_ahead hd fun t rest hr => ?_)
  have hstop (hs : t.kind.suffix? = none) (hb : ∀ r, t.kind.binaryRule? = some r → r.left < least) :
      c.ReadsWith least e d := by
    refine ⟨level, ⟨ts, ws, hts, he⟩, hlevel, fun t' rest' hr' => ?_⟩
    obtain ⟨rfl, -⟩ := List.cons.inj (hr.symm.trans hr')
    exact ⟨hs, hb⟩
  cases hs : t.kind.suffix? with
  | some suffix =>
    have hpower : ¬suffix.power < least := Nat.not_lt.2 (hleast.trans (operandPower_lt_power suffix).le)
    have hsuffix : suffixLevel ≤ level := by
      refine hend.resolve_right fun hhalts => ?_
      simp [(hhalts t rest hr).1] at hs
    simp only [hpower, if_false]
    refine (reads_suffixForm hi hts he hsuffix hr hs).bind fun f d' hf => sure_pure ?_
    exact ⟨suffixLevel, hf, hleast.trans (by decide), .inl le_rfl⟩
  | none =>
    cases hb : t.kind.binaryRule? with
    | none => exact sure_pure (hstop hs (by simp [hb]))
    | some rule =>
      dsimp only
      split
      · rename_i hlt
        exact sure_pure (hstop hs (by simpa [hb] using hlt))
      · rename_i hlt
        refine (reads_binaryForm hi hts he hend hr hb).bind fun f d' ⟨hf, hend'⟩ => sure_pure ?_
        refine ⟨_, hf, ?_, hend'⟩
        rw [← (TokenKind.binaryRule?_eq hb).2.2.2.1]
        exact Nat.not_lt.1 hlt

theorem reads_expressionForm {least : Nat} (hleast : least ≤ operandPower) (hc : c.Closed) :
    Sure (c.ReadsWith least) (expressionForm inner least c) := by
  refine sure_bind (sure_aheadSpan hc fun span => ?_)
  refine (reads_startForm hi hc).bind fun e d ⟨level, hread, hlevel, hend⟩ => ?_
  have hd : d.Closed := by
    obtain ⟨_, _, hts, -⟩ := hread
    exact hts.closed
  exact sure_loop (keeps_operatorStep hi.sound).progresses (fun _ _ hd h => reads_operatorStep hi hleast hd h) hd
    ⟨level, hread, hleast.trans hlevel, hend⟩

end Forms

/-! ## Statements -/

/-- A closing brace or the end of the text is ahead. -/
def Cursor.AtEnd (d : Cursor) : Prop :=
  ∀ t rest, d.rest = t :: rest → (t.kind.isSymbol .rBrace || t.kind.isEnd) = true

/-- Statements that are ended, or of which the last one is ended by what is ahead. -/
def Cursor.ReadsStatements (c : Cursor) (ss : List Statement) (d : Cursor) : Prop :=
  c.Reads (.statements ss) d ∨ (c.Reads (.body ss) d ∧ d.AtEnd)

section Statements

variable {inner : Level} {c d : Cursor} {t : Token} {rest : List Token} {before : List Statement}

theorem Cursor.Reads.closed {ph : Phrase} (h : c.Reads ph d) : d.Closed := by
  obtain ⟨_, _, hts, -⟩ := h
  exact hts.closed

theorem Cursor.ReadsStatements.body {ss : List Statement} (h : c.ReadsStatements ss d) : c.Reads (.body ss) d := by
  rcases h with ⟨ts, ws, hts, hss⟩ | ⟨h, -⟩
  · exact ⟨ts, ws, hts, hss.body⟩
  · exact h

/-- The tokens taken start with the one that was ahead. -/
theorem Cursor.Takes.head?_ne {ts : List TokenKind} {k : TokenKind} (h : c.Takes ts d) (hr : c.rest = t :: rest)
    (hk : t.kind ≠ k) : ts.head? ≠ some k := by
  cases ts with
  | nil => simp
  | cons k' ts =>
    obtain ⟨rfl, -⟩ : t.kind = k' ∧ _ := by simpa [hr] using h.2
    simpa using hk

theorem Cursor.atEnd_of (hr : c.rest = t :: rest) (hk : (t.kind.isSymbol .rBrace || t.kind.isEnd) = true) :
    c.AtEnd := by
  intro t' rest' hr'
  obtain ⟨rfl, -⟩ := List.cons.inj (hr.symm.trans hr')
  exact hk

theorem takes_statementEnd (hc : c.Closed) :
    Sure (fun _ d => c.Takes [.symbol .semi] d ∨ (d = c ∧ c.AtEnd)) (statementEnd c) := by
  refine sure_bind (takes_accept hc (fun d hd => sure_pure (.inl hd)) fun _ => ?_)
  refine sure_bind (sure_ahead hc fun t rest hr => ?_)
  split
  · rename_i hend
    exact sure_pure (.inr ⟨rfl, Cursor.atEnd_of hr (by simp [hend])⟩)
  · refine sure_bind (sure_sees hc fun t rest hr => ?_)
    split
    · rename_i hbrace
      exact sure_pure (.inr ⟨rfl, Cursor.atEnd_of hr (by simp [hbrace])⟩)
    · exact sure_failExpected hc

variable (hi : inner.Grammatical)

include hi

theorem reads_letForm (hc : c.Closed) (hr : c.rest = t :: rest) (hk : t.kind = .letWord) :
    Sure (fun e d => c.Reads (.statement e) d) (letForm inner c) := by
  refine sure_bind (sure_aheadSpan hc fun span => ?_)
  refine sure_bind (takes_skip hc hr (by simp [hk]) fun d₁ h₁ => ?_)
  rw [hk] at h₁
  refine sure_bind (sure_aheadSpan h₁.closed fun nameSpan => ?_)
  refine (takes_expectName h₁.closed).bind fun name d₂ h₂ => ?_
  refine sure_bind (sure_aheadSpan h₂.closed fun opSpan => ?_)
  refine (takes_expect h₂.closed).bind fun _ d₃ h₃ => ?_
  refine (hi.expression 0 d₃ (Nat.zero_le _) h₃.closed).bind fun e d₄ ⟨level, ⟨ts, ws, h₄, he⟩, _⟩ => ?_
  refine sure_bind (sure_lastStop fun stop => sure_build ⟨_, if_pos rfl, ?_⟩)
  exact ⟨_, _, h₁.trans (h₂.trans (h₃.trans h₄)), .declaration name nameSpan opSpan _ he⟩

theorem reads_returnForm (hc : c.Closed) (hr : c.rest = t :: rest) (hk : t.kind = .returnWord) :
    Sure (fun e d => c.Reads (.statement e) d) (returnForm inner c) := by
  have harity : OperatorKind.ret.arity ≠ .binary := by decide
  refine sure_bind (sure_aheadSpan hc fun span => ?_)
  refine sure_bind (takes_skip hc hr (by simp [hk]) fun d₁ h₁ => ?_)
  rw [hk] at h₁
  refine sure_bind (sure_seesStatementEnd h₁.closed fun b => ?_)
  cases b with
  | true =>
    refine sure_bind (sure_pure (sure_bind (sure_lastStop fun stop => sure_build ⟨_, if_neg harity, ?_⟩)))
    exact ⟨_, _, h₁, .returnNothing _ _⟩
  | false =>
    refine sure_bind (sure_map ((hi.expression 0 d₁ (Nat.zero_le _) h₁.closed).mono fun e d₂ h => ?_))
    obtain ⟨level, ⟨ts, ws, h₂, he⟩, -⟩ := h
    refine sure_bind (sure_lastStop fun stop => sure_build ⟨_, if_neg harity, ?_⟩)
    exact ⟨_, _, h₁.trans h₂, .returnValue _ _ he⟩

theorem reads_statementBody (hc : c.Closed) (hr : c.rest = t :: rest) (hk : t.kind ≠ .symbol .lBrace) :
    Sure (fun e d => c.Reads (.statement e) d) (statementBody inner c) := by
  have hexpression : Sure (fun e d => c.Reads (.statement e) d) (inner.expression 0 c) :=
    (hi.expression 0 c (Nat.zero_le _) hc).mono fun e d ⟨level, ⟨ts, ws, hts, he⟩, _⟩ =>
      ⟨ts, ws, hts, .expression he (hts.head?_ne hr hk)⟩
  refine sure_bind (sure_ahead hc fun t' rest' hr' => ?_)
  obtain ⟨rfl, rfl⟩ := List.cons.inj (hr.symm.trans hr')
  cases hkind : t.kind with
  | letWord => exact reads_letForm hi hc hr hkind
  | returnWord => exact reads_returnForm hi hc hr hkind
  | _ => exact hexpression

theorem reads_blockStatement (h : c.Reads (.statements before) d) :
    Sure (fun s d' => c.Reads (.statements (before ++ [s])) d') (blockStatement inner d) := by
  obtain ⟨ts, ws, hts, hbefore⟩ := h
  refine (hi.block d hts.closed).bind fun s d₁ ⟨us, xs, h₁, hs⟩ => ?_
  have hall := hbefore.block s.span s.span hs
  refine sure_bind (takes_accept h₁.closed (fun d₂ h₂ => sure_pure ?_) fun _ => sure_pure ?_)
  · exact ⟨_, _, (hts.trans h₁).trans h₂, hall.semicolon⟩
  · exact ⟨_, _, hts.trans h₁, hall⟩

theorem reads_statementForm (h : c.Reads (.statements before) d) (hr : d.rest = t :: rest) :
    Sure (fun s d' => c.ReadsStatements (before ++ s.toList) d') (statementForm inner d) := by
  have hd := h.closed
  refine sure_bind (sure_aheadSpan hd fun span => ?_)
  refine sure_bind (sure_ahead hd fun t' rest' hr' => ?_)
  obtain ⟨rfl, rfl⟩ := List.cons.inj (hr.symm.trans hr')
  have hblock : Sure (fun s d' => c.ReadsStatements (before ++ s.toList) d')
      ((do return some (← blockStatement inner) : Parser (Option Statement)) d) :=
    (reads_blockStatement hi h).bind fun s d' hs => sure_pure (.inl hs)
  have hbody (hk : t.kind ≠ .symbol .lBrace) : Sure (fun s d' => c.ReadsStatements (before ++ s.toList) d')
      ((do
        let body ← statementBody inner
        let span : Span := ⟨span.start, ← lastStop⟩
        statementEnd
        return some ⟨body, span⟩ : Parser (Option Statement)) d) := by
    obtain ⟨ts, ws, hts, hbefore⟩ := h
    refine (reads_statementBody hi hd hr hk).bind fun e d₁ ⟨us, xs, h₁, he⟩ => ?_
    refine sure_bind (sure_lastStop fun stop => ?_)
    refine (takes_statementEnd h₁.closed).bind fun _ d₂ h₂ => sure_pure ?_
    rcases h₂ with h₂ | ⟨rfl, hend⟩
    · exact .inl ⟨_, _, (hts.trans h₁).trans h₂, hbefore.ended _ he⟩
    · exact .inr ⟨⟨_, _, hts.trans h₁, hbefore.unended _ he⟩, hend⟩
  cases hk : t.kind with
  | symbol s =>
    cases s with
    | semi =>
      obtain ⟨ts, ws, hts, hbefore⟩ := h
      refine sure_bind (takes_skip hd hr (by simp [hk]) fun d₁ h₁ => sure_pure (.inl ?_))
      rw [hk] at h₁
      exact ⟨_, _, hts.trans h₁, (List.append_nil before).symm ▸ hbefore.semicolon⟩
    | lBrace => exact hblock
    | _ => exact hbody (by simp [hk])
  | _ => exact hbody (by simp [hk])

theorem reads_statements (hc : c.Closed) : Sure (fun ss d => c.Reads (.body ss) d) (statements inner c) := by
  refine sure_loop (keeps_statementStep hi.sound).progresses (I := c.ReadsStatements) (fun before d hd hb => ?_) hc
    (.inl ⟨[], [], hc.takes, .noStatements⟩)
  refine sure_bind (sure_ahead hd fun t rest hr => ?_)
  split
  · exact sure_pure hb.body
  · rename_i hmore
    rcases hb with hb | ⟨-, hend⟩
    · exact (reads_statementForm hi hb hr).bind fun s d' hs => sure_pure hs
    · exact absurd (hend t rest hr) hmore

theorem reads_blockForm (hc : c.Closed) : Sure (fun s d => c.Reads (.scope s) d) (blockForm inner c) := by
  refine sure_bind (sure_aheadSpan hc fun span => ?_)
  refine (takes_expect hc).bind fun _ d₁ h₁ => ?_
  refine (reads_statements hi h₁.closed).bind fun body d₂ ⟨ts, ws, h₂, hbody⟩ => ?_
  refine (takes_expect h₂.closed).bind fun _ d₃ h₃ => ?_
  exact sure_bind (sure_lastStop fun stop => sure_pure ⟨_, _, h₁.trans (h₂.trans h₃), .scope _ hbody⟩)

end Statements

/-! ## Levels and programs -/

/-- Every level keeps to the grammar, since each is built from the next one, and the last one only refuses. -/
theorem grammatical_levelAt (room : Nat) : (levelAt room).Grammatical := by
  have hdeep {α : Type} {Q : α → Cursor → Prop} {c : Cursor} (hc : c.Closed) : Sure Q ((tooDeep : Parser α) c) :=
    sure_bind (sure_aheadSpan hc fun _ => sure_failAt fun _ => by simp)
  induction room with
  | zero => exact ⟨sound_levelAt 0, fun _ _ _ hc => hdeep hc, fun _ hc => hdeep hc, fun _ _ _ hc _ _ => hdeep hc⟩
  | succ room ih =>
    exact ⟨sound_levelAt _, fun _ _ hleast hc => reads_expressionForm ih hleast hc, fun _ hc => reads_blockForm ih hc,
      fun _ _ _ hc hr hk => reads_objectForm ih hc hr hk⟩

theorem reads_programForm {c : Cursor} (hc : c.Closed) :
    Sure (fun p d => c.Reads (.body p.body.body) d ∧ d.rest.head?.map Token.kind = some .endOfText)
      (programForm c) := by
  refine sure_bind (sure_aheadSpan hc fun span => ?_)
  refine (reads_statements (grammatical_levelAt maxNesting) hc).bind fun body d hbody => ?_
  refine sure_bind (sure_ahead hbody.closed fun t rest hr => ?_)
  split
  · rename_i hend
    refine sure_bind (sure_lastStop fun stop => sure_pure ⟨hbody, ?_⟩)
    simp [hr, TokenKind.isEnd_iff.1 hend]
  · exact sure_bind (sure_aheadSpan hbody.closed fun _ => sure_failAt fun _ => by simp)

/-- Tokens before the first end of the text. -/
theorem eq_of_append_end {ks ts us : List TokenKind} (hks : .endOfText ∉ ks)
    (h : ks ++ [.endOfText] = ts ++ .endOfText :: us) : ts = ks := by
  rcases List.append_eq_append_iff.1 h with ⟨as, rfl, has⟩ | ⟨bs, rfl, hbs⟩
  · cases as with
    | nil => simp
    | cons a as => simp at has
  · cases bs with
    | nil => simp
    | cons b bs =>
      obtain ⟨rfl, -⟩ := List.cons.inj hbs
      simp at hks

/-- Where tokens with one end make a program, they are derived by the grammar: every token has its place in the
derivation, and those that make the program's tree are its yield. Their brackets match. -/
theorem derives_of_parseTokens {tokens : List Token} {ks : List TokenKind} {p : Program}
    (htokens : tokens.map Token.kind = ks ++ [.endOfText]) (hks : .endOfText ∉ ks) (h : parseTokens tokens = .ok p) :
    Derives (.body p.body.body) ks p.yield ∧ bracketsMatch [] ks = true := by
  obtain ⟨d, hd⟩ := parseTokens_eq_ok_iff.1 h
  have hc := spells_ofTokens htokens
  obtain ⟨⟨ts, ws, hts, hbody⟩, hend⟩ := (reads_programForm hc.closed).of_eq_ok hd
  obtain ⟨t, rest, hr⟩ := hts.closed.rest_eq_cons
  have ht : t.kind = .endOfText := by simpa [hr] using hend
  have hkinds : ks ++ [.endOfText] = ts ++ .endOfText :: rest.map Token.kind := by
    rw [← hc.1, hts.2, hr, List.map_cons, ht]
  obtain rfl := eq_of_append_end hks hkinds
  obtain rfl := hbody.eq_yield
  exact ⟨hbody, hbody.bracketsMatch⟩

/-- Tokens of some kinds and the end of the text, without places. -/
def placeless (ks : List TokenKind) : List Token := (ks ++ [TokenKind.endOfText]).map (⟨·, {}⟩)

/-- The program `a - (b - -1)`, without places. -/
def nestedNegative : Program :=
  let name (s : String) : Operand := .var ⟨s, .use, {}⟩
  let inner : Expression := .binary (name "b") ⟨.sub, {}⟩ (.value (.int (-1))) {}
  ⟨⟨[⟨.binary (name "a") ⟨.sub, {}⟩ (.expression inner) {}, {}⟩], {}⟩⟩

/-- Parentheses are left out of the yield, and a number has its sign there. -/
theorem derives_nestedNegative :
    let ks : List TokenKind := [.ident "a", .symbol .minus, .symbol .lParen, .ident "b", .symbol .minus,
      .symbol .minus, .int 1, .symbol .rParen]
    Derives (.body nestedNegative.body.body) ks
      [.ident "a", .symbol .minus, .ident "b", .symbol .minus, .int (-1)] ∧ bracketsMatch [] ks = true := by
  intro ks
  have hp : parseTokens (placeless ks) = .ok nestedNegative := by cbv
  have htokens : (placeless ks).map Token.kind = ks ++ [.endOfText] := rfl
  exact derives_of_parseTokens htokens (by simp [ks]) hp

/-- The program of a `return` of null, without places. -/
def returnedNull : Program := ⟨⟨[⟨.prefixed ⟨.ret, {}⟩ (.value .undefined) {}, {}⟩], {}⟩⟩

/-- The tokens of an object with a property that is null and has its name written by a token. -/
def nullProperty (k : TokenKind) : List TokenKind :=
  [.ident "x", .symbol .eq, .symbol .lBrace, k, .symbol .colon, .null, .symbol .rBrace, .symbol .semi]

/-- The program `x = { a: null };`, without places. -/
def assignedObject : Program :=
  let object : Operand := .object [⟨"a", .leaf (.value .undefined) {}⟩]
  ⟨⟨[⟨.binary (.var ⟨"x", .use, {}⟩) ⟨.assign, {}⟩ object {}, {}⟩], {}⟩⟩

set_option maxRecDepth 2048 in
/-- A tree does not tell whether a null that is returned has been written, nor in which way the name of a property has:
no function of trees gives the tokens that were read, even without the semicolons. -/
theorem no_yield_of_all_tokens :
    (¬∃ yield : Program → List TokenKind,
      ∀ ks ∈ [[.returnWord, .symbol .semi], [.returnWord, .null, .symbol .semi]], ∀ p,
        parseTokens (placeless ks) = .ok p → yield p = ks.filter (!·.isSymbol .semi)) ∧
    ¬∃ yield : Program → List TokenKind,
      ∀ ks ∈ [nullProperty (.ident "a"), nullProperty (.string "a")], ∀ p,
        parseTokens (placeless ks) = .ok p → yield p = ks.filter (!·.isSymbol .semi) := by
  constructor
  · rintro ⟨yield, h⟩
    have hbare := h [.returnWord, .symbol .semi] (by simp) returnedNull (by cbv)
    have hnull := h [.returnWord, .null, .symbol .semi] (by simp) returnedNull (by cbv)
    cases hbare.symm.trans hnull
  · rintro ⟨yield, h⟩
    have hname := h (nullProperty (.ident "a")) (by simp) assignedObject (by cbv)
    have hstring := h (nullProperty (.string "a")) (by simp) assignedObject (by cbv)
    cases hname.symm.trans hstring

end GameScript
