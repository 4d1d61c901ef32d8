import GameScript.Proofs.Parse.Blame
import GameScript.Proofs.Run.Confined
import GameScript.Proofs.Run.Defensive
import GameScript.Proofs.Run.Habits
import GameScript.Run.Script

/-!
# Where the faults of runs are

Where a fault is raised, its span is that of a part of the tree which is evaluated there. So if all trees that run are
placed as `G` says (`Node.Placed`), faults are as well. What runs is the program and whatever closures come into play;
a run from which no others are reached brings none in (`placedCode`, a discipline), as long as the functions of its host
bring none (`Host.BringsNoCode`). What each task needs besides, of the spans that it is given, is a contract of its own
(`faultsAt`), and raising faults there only is a habit (`precision`).

Main statement: spans of errors of a text select what they blame, in the lexer, the parser and at run time, but for the
escapes that the lexer cuts (`error_spans_select_text`).
-/

namespace GameScript

open Eval

/-! ## Code in memory -/

variable {σ α β : Type}

/-- A region of memory all of whose closures have bodies with a property. -/
structure CodeRegion (P : Scope → Prop) (own : σ → List Value) (K : Set Cell) (m : Memory) (s : σ) : Prop
    extends Region own K m s where
  code : ∀ c, .closure c ∈ K → P (m.closure c).body

/-- A function of the host brings no code of its own into play in all that it still does: where the closures of a region
have a property, so have those that are there when it passes on. -/
def HostStep.BringsNoCode (P : Scope → Prop) (own : σ → List Value) : HostStep σ → Set Cell → Prop
  | .finish result m s, K => ∃ K', K ⊆ K' ∧ CodeRegion P own K' m s ∧ ∀ v, result = .ok v → v.Inside K'
  | .enter c args _ m s resume, K =>
    ∃ K', K ⊆ K' ∧ CodeRegion P own K' m s ∧ .closure c ∈ K' ∧ (∀ v ∈ args, v.Inside K') ∧
      ∀ answer m' s' K'', K' ⊆ K'' → CodeRegion P own K'' m' s' → (∀ v, answer = .ok v → v.Inside K'') →
        (resume answer m' s').BringsNoCode P own K''

/-- A host whose functions bring no code into play but what they are given. -/
def Host.BringsNoCode (own : σ → List Value) (host : Host σ) : Prop :=
  ∀ P n span args K m s, CodeRegion P own K m s → (∀ v ∈ args, v.Inside K) →
    (host.call n span args m s).BringsNoCode P own K

theorem Value.inside_of_isScalar {K : Set Cell} {v : Value} (h : v.IsScalar) : v.Inside K := by
  intro c hc
  cases v <;> first | exact h.elim | cases hc

section Code

variable (G : Span → Prop) {own : σ → List Value}

/-- The bodies of closures whose trees are placed. -/
def PlacedBody (s : Scope) : Prop := (Node.scope s).Placed G

/-- All trees that run are placed; every fault may be raised. -/
def placedCode (own : σ → List Value) : Discipline σ (Set Cell) where
  state K m s := CodeRegion (PlacedBody G) own K m s
  value K v := v.Inside K
  stored K v := v.Inside K
  scope K s := .scope s ∈ K
  code n := n.Placed G
  fault _ := True
  error _ := True
  value_mono := @Value.Inside.mono
  stored_mono := @Value.Inside.mono
  scope_mono := @scope_mem_mono
  value_of_stored h := h
  stored_of_isScalar := @Value.inside_of_isScalar
  value_reference := @Value.inside_reference
  stored_of_value h _ := h
  state_held h := ⟨⟨h.closed, h.own⟩, h.code⟩
  stored_property h ho hv := h.closed.inside_property (ho _ rfl) hv
  stored_binding h hs hv := h.closed.inside_binding hs hv
  scope_parent h hs hp := h.closed.parent hs hp
  scope_closure h hc := h.closed.scope (hc _ rfl)
  code_closure h hc := h.code _ (hc _ rfl)
  state_setProperty h _ hv := ⟨⟨h.closed.setProperty hv, h.own⟩, h.code⟩
  state_bind h _ hv := ⟨⟨h.closed.bind hv, h.own⟩, h.code⟩
  state_newObject h := by
    refine ⟨_, Set.subset_insert _ _, ⟨⟨h.closed.newObject, ?_⟩, ?_⟩, ?_⟩
    · exact fun v hv d hd => .inr (h.own v hv d hd)
    · exact fun f hf => h.code f (hf.resolve_left Cell.noConfusion)
    · rintro d ⟨⟩
      exact .inl rfl
  state_newScope h ht := by
    refine ⟨_, Set.subset_insert _ _, ⟨⟨h.closed.newScope ht, ?_⟩, ?_⟩, .inl rfl⟩
    · exact fun v hv d hd => .inr (h.own v hv d hd)
    · exact fun f hf => h.code f (hf.resolve_left Cell.noConfusion)
  state_newClosure {K m s f} h hf hbody := by
    refine ⟨_, Set.subset_insert _ _, ⟨⟨h.closed.newClosure hf, ?_⟩, ?_⟩, ?_⟩
    · exact fun v hv d hd => .inr (h.own v hv d hd)
    · intro g hg
      by_cases he : g = (m.newClosure f).1
      · rw [he, Memory.closure_newClosure]
        exact hbody
      · rw [Memory.closure_newClosure_of_ne he]
        exact h.code g (hg.resolve_left fun h => he (Cell.closure.inj h))
    · rintro d ⟨⟩
      exact .inl rfl
  code_child h hm := h.child hm
  proper_of_code _ := .inr fun _ => trivial
  fault_of_ordinary _ := trivial
  error_of_fault _ := trivial

variable {G}

theorem step_of_bringsNoCode {step : HostStep σ} {K : Set Cell} (h : step.BringsNoCode (PlacedBody G) own K) :
    (placedCode G own).Step step K := by
  induction step generalizing K with
  | finish result m s =>
    obtain ⟨K', hle, hm, hr⟩ := h
    refine ⟨K', hle, hm, ?_⟩
    cases result with
    | ok v => exact hr v rfl
    | error e => trivial
  | enter f args kept m s resume ih =>
    obtain ⟨K', hle, hm, hf, hargs, hresume⟩ := h
    have hclosure : (Value.closure f).Inside K' := by
      rintro d ⟨⟩
      exact hf
    refine ⟨K', hle, hm, hclosure, hargs, fun answer m' s' K'' hle' hm' ha => ?_⟩
    refine ih _ _ _ (hresume answer m' s' K'' hle' hm' ?_)
    rintro v rfl
    exact ha

theorem kept_placedCode {host : Host σ} (h : host.BringsNoCode own) (limit : Nat) (R : Activation σ → Prop) :
    (placedCode G own).contract.Kept host limit R :=
  Discipline.kept (fun n span args K m s hm hargs => step_of_bringsNoCode (h _ n span args K m s hm hargs))
    (fun _ _ _ _ _ _ _ => trivial) fun _ _ _ _ _ _ _ => trivial

end Code

/-! ## Faults -/

/-- Tasks that are given such places have faults at such places. -/
def faultsAt (σ : Type) (G : Span → Prop) : Contract σ where
  pre task _ := task.Placed G
  post _ _ r _ := ∀ f, r = .error f → G f.span

/-- A plan whose faults have places of which `G` holds, when those of the tasks do that it asks for. -/
def Plan.FaultsAt (G : Span → Prop) (act : Plan σ α) : Prop :=
  ∀ m, (act m).Meets (GameScript.faultsAt σ G) fun r _ => ∀ f, r = .error f → G f.span

section Faults

variable {G : Span → Prop} {span : Span}

namespace Plan.FaultsAt

variable {act : Plan σ α}

theorem bind {f : α → Plan σ β} (h : act.FaultsAt G) (hf : ∀ a, (f a).FaultsAt G) : (act >>= f).FaultsAt G := by
  intro m
  refine meets_bind ((h m).mono fun r m' hr => ?_)
  cases r with
  | ok a => exact hf a m'
  | error e =>
    rintro f ⟨⟩
    exact hr e rfl

theorem holding {cells : List Cell} (h : act.FaultsAt G) : (act.holding cells).FaultsAt G := fun _ => meets_holding (h _)

theorem deeper (h : act.FaultsAt G) : act.deeper.FaultsAt G := fun _ => meets_deeper (h _)

theorem attempt (h : act.FaultsAt G) : act.attempt.FaultsAt G :=
  fun _ => meets_attempt ((h _).mono fun _ _ _ _ hf => by cases hf)

end Plan.FaultsAt

/-- What raises faults at such places only. -/
def placedFaults (G : Span → Prop) : Conduct where
  change _ _ := True
  fault f := G f.span
  place := G
  change_refl _ := trivial
  change_trans _ _ := trivial
  change_bind _ _ _ _ := trivial
  change_newScope _ _ := trivial
  change_newClosure _ _ := trivial
  fault_of_place h _ := h

/-- The habit of raising faults at such places only. -/
def precision (σ : Type) (G : Span → Prop) : Habit σ where
  toConduct := placedFaults G
  plan := Plan.FaultsAt G
  now h m := (h m).fault
  bind := .bind
  ask h _ := meets_ask h fun _ _ hpost => hpost
  holding := .holding

theorem faultsAt_enter {limit : Nat} (h : G span) (c : ClosureId) (args : List Value) :
    (Plan.enter limit c args span : Plan σ Value).FaultsAt G := by
  let H : Habit σ := precision σ G
  refine H.bind (H.now Conduct.allows_get) fun m => ?_
  split
  · exact H.now (Conduct.allows_raise h)
  · have hrefuses (e : RuntimeError) (he : e.Basic) : e.Operational := .inl he
    refine H.bind (H.now (Conduct.allows_lift h ((refuses_newFunctionScope _ _ _ _).mono hrefuses))) fun r => ?_
    refine H.bind (H.now fun m => ⟨trivial, rfl, fun _ h => by cases h⟩) fun _ => ?_
    exact H.bind (Plan.FaultsAt.deeper (H.holding (H.ask trivial))) fun flow => H.pure _

/-- The contract is kept where all trees that run are placed. -/
theorem kept_faultsAt (hstart : G {}) {own : σ → List Value} {host : Host σ} {limit : Nat} {R : Activation σ → Prop}
    (hR : ∀ x, R x → (placedCode G own).contract.pre x.task x.machine) :
    (GameScript.faultsAt σ G).Kept host limit R := by
  let H : Habit σ := precision σ G
  have hobjects : H.TouchesObjects := ⟨fun _ _ => trivial, fun _ _ _ _ => trivial⟩
  intro k task m hx hpre
  obtain ⟨K, -, hallows⟩ := hR _ hx
  cases task with
  | statements s body => exact H.statements body m
  | statement s t => exact H.statement hallows.2.statement m
  | block s b => exact H.block b m
  | expression s e => exact H.expression hpre m
  | operand s span a => exact H.operand hpre hallows.2 (.inl hobjects) m
  | property s e => exact H.property hallows.2.1.expression m
  | assignment s e => exact H.assignment hpre hobjects m
  | compound s base e => exact H.compound hallows.2.1.expression hobjects base m
  | step s op e => exact H.step hallows.2.1.expression op m
  | invoke f args span =>
    cases f with
    | closure c =>
      have hcall : (Task.enter c args span).Placed G := hpre
      exact H.holding (H.ask hcall) m
    | native n => exact H.hostStep (fun _ _ => trivial) .attempt hstart (fun _ => hpre) _ m
    | _ => exact H.fail hpre (by simp) m
  | enter c args span => exact faultsAt_enter hpre c args m

end Faults

/-! ## Runs -/

section Runs

variable {G : Span → Prop} {own : σ → List Value} {host : Host σ} {limit : Nat} {scope : ScopeId} {p : Program}
  {m : Machine σ}

/-- Where all trees that a run can reach are placed, so is its fault. -/
theorem placed_fault (hhost : host.BringsNoCode own) (hstart : G {}) (hp : (Node.scope p.body).Placed G)
    (hm : ∀ c, .closure c ∈ m.memory.reached (entry own scope m.state) → PlacedBody G (m.memory.closure c).body)
    {f : RuntimeFault} (hf : (execute host limit scope p m).1 = .error f) : G f.span := by
  have hregion : CodeRegion (PlacedBody G) own (m.memory.reached (entry own scope m.state)) m.memory m.state :=
    ⟨⟨Memory.closed_reached _, fun v hv _ hc => Memory.subset_reached _ (.inr ⟨v, hv, hc⟩)⟩, hm⟩
  have hscope : .scope scope ∈ m.memory.reached (entry own scope m.state) := Memory.subset_reached _ (.inl rfl)
  have hkeeps : (placedCode G own).Keeps _ (p.plan scope) (placedCode G own).stored :=
    Discipline.keeps_program hscope hp
  obtain ⟨-, htasks⟩ := (hkeeps m hregion).runs (kept_placedCode hhost limit _)
  have hplan : (p.plan scope : Plan σ Value).FaultsAt G := (precision σ G).program p
  obtain ⟨hends, -⟩ := (hplan m).runs (kept_faultsAt hstart fun x hx => (htasks x hx).1)
  exact hends _ _ (finishes_execute host limit scope p m) f hf

/-- The same of the text of a script. -/
theorem placed_runSource {source : List Char} (hhost : host.BringsNoCode own) (hstart : G {})
    (hsource : ∀ p, parse source = .ok p → (Node.scope p.body).Placed G)
    (hm : ∀ c, .closure c ∈ m.memory.reached (entry own scope m.state) → PlacedBody G (m.memory.closure c).body)
    {f : RuntimeFault} (hf : (runSource host limit scope source m).1 = .error (.runtime f)) : G f.span := by
  cases hp : parse source with
  | error e =>
    unfold runSource at hf
    rw [hp] at hf
    cases hf
  | ok p =>
    rw [runSource_of_parse hp] at hf
    cases hx : (execute host limit scope p m).1 with
    | ok v =>
      rw [hx] at hf
      cases hf
    | error f' =>
      rw [hx] at hf
      cases hf
      exact placed_fault hhost hstart (hsource p hp) hm hx

end Runs

/-! ## Places in a text -/

/-- Each part of a program that a text is read as has a place in the text. -/
theorem placed_of_parse {source : List Char} {p : Program} (h : parse source = .ok p) :
    (Node.scope p.body).Placed (Span.Selects source) := by
  refine placed_of_parts fun x hx => ?_
  suffices hselects : x.Selects source by
    obtain ⟨w, hw, -⟩ := hselects.text
    exact selects_of_slice hw
  obtain ⟨tokens, d, hreads, hd⟩ := exists_reads_of_parse h
  exact selects_within hreads hd hx

/-- **Errors select what they blame.** The span of an error of the lexer selects a part of the text, unless the error is
an invalid escape that it cuts; the span of a parse error does, unless it is that of such an error; and the span of what
the run of a script fails with does, where no closure of other scripts can be reached. -/
theorem error_spans_select_text (source : List Char) :
    (∀ e ∈ (tokenize source).errors, e.span.Selects source ↔ ¬e.CutsEscape 0 source) ∧
      (∀ e, parse source = .error e →
        (e.span.Selects source ↔ ∀ first ∈ (tokenize source).errors.head?, ¬first.CutsEscape 0 source)) ∧
      ∀ {σ : Type} (own : σ → List Value) (host : Host σ), host.BringsNoCode own →
        ∀ limit scope (m : Machine σ), (∀ c, .closure c ∉ m.memory.reached (entry own scope m.state)) →
          ∀ f, (runSource host limit scope source m).1 = .error (.runtime f) → f.span.Selects source := by
  refine ⟨fun e he => selects_iff_of_mem_errors he, fun e he => selects_iff_of_parse_error he, ?_⟩
  intro σ own host hhost limit scope m hm f hf
  have hstart : Span.Selects source {} := by simpa using selects_append [] [] source
  exact placed_runSource hhost hstart (fun p hp => placed_of_parse hp) (fun c hc => absurd hc (hm c)) hf

/-- A host that does nothing brings no code into play. -/
theorem bringsNoCode_idleHost : idleHost.BringsNoCode fun _ => [] := fun _ _ _ _ K _ _ hm _ =>
  ⟨K, le_rfl, hm, fun _ hv _ hc => by
    cases hv
    cases hc⟩

theorem closure_not_reached_idleMachine (c : ClosureId) :
    .closure c ∉ idleMachine.memory.reached (entry (fun _ => []) ⟨0⟩ idleMachine.state) := by
  have hentry : entry (fun _ => []) ⟨0⟩ idleMachine.state ⊆ {.scope ⟨0⟩} := by
    rintro d (rfl | ⟨v, hv, -⟩)
    · rfl
    · cases hv
  exact fun hc => nomatch Memory.reached_subset closed_idleMachine hentry hc

/-- An unknown escape, a missing name and the step of a number. -/
theorem error_spans_select_text_each :
    (⟨2, 4⟩ : Span).Selects "'a\\q'".toList ∧ (⟨4, 5⟩ : Span).Selects "let = 1;".toList ∧
      (⟨5, 8⟩ : Span).Selects "f(); 1++;".toList := by
  have hunknown : ⟨.invalidEscape, ⟨2, 4⟩⟩ ∈ (tokenize "'a\\q'".toList).errors := by
    have herrors : (tokenize "'a\\q'".toList).errors = [⟨.invalidEscape, ⟨2, 4⟩⟩] := by cbv
    rw [herrors]
    exact List.mem_singleton_self _
  have hwhole : ¬LexError.CutsEscape 0 "'a\\q'".toList ⟨.invalidEscape, ⟨2, 4⟩⟩ := by
    rintro ⟨-, before, c, after, htext, hc, -⟩
    have hmem : c ∈ "'a\\q'".toList := by
      rw [htext]
      simp
    have hascii : ∀ d ∈ "'a\\q'".toList, d.utf8Size = 1 := by simp [Char.utf8Size]
    exact absurd (hascii c hmem) hc.ne'
  obtain ⟨e, hmissing, hplace⟩ : ∃ e, parse "let = 1;".toList = .error e ∧ e.span = ⟨4, 5⟩ := ⟨_, by cbv, rfl⟩
  have hclean : (tokenize "let = 1;".toList).errors = [] := by cbv
  have hparse : parse "f(); 1++;".toList = .ok steppedNumber := by cbv
  have hrun : (runSource idleHost 5 ⟨0⟩ "f(); 1++;".toList idleMachine).1 =
      .error (.runtime ⟨.invalidAssignmentTarget, ⟨5, 8⟩⟩) := by
    rw [runSource_of_parse hparse]
    rfl
  refine ⟨((error_spans_select_text _).1 _ hunknown).2 hwhole, ?_, ?_⟩
  · rw [← hplace]
    refine ((error_spans_select_text _).2.1 e hmissing).2 ?_
    rw [hclean]
    rintro first ⟨⟩
  · exact (error_spans_select_text _).2.2 _ idleHost bringsNoCode_idleHost 5 ⟨0⟩ idleMachine
      closure_not_reached_idleMachine _ hrun

/-- An unknown escape of a character of two bytes is cut in the middle of it. -/
theorem escape_cut_in_character :
    (tokenize "'\\é'".toList).errors = [⟨.invalidEscape, ⟨1, 3⟩⟩] ∧
      (∃ e, parse "'\\é'".toList = .error e ∧ e.span = ⟨1, 3⟩) ∧ ¬(⟨1, 3⟩ : Span).Selects "'\\é'".toList := by
  have herrors : (tokenize "'\\é'".toList).errors = [⟨.invalidEscape, ⟨1, 3⟩⟩] := by cbv
  refine ⟨herrors, ⟨ParseError.locate ⟨.lexical .invalidEscape, ⟨1, 3⟩⟩ "'\\é'".toList, ?_, rfl⟩, ?_⟩
  · simp only [parse, herrors, LexError.toParseError]
  · rintro ⟨-, -, -, -, w, hw⟩
    cases hw

end GameScript
