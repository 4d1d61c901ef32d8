import GameScript.Proofs.Run.Counterparts
import GameScript.Proofs.Run.Defensive
import GameScript.Proofs.Tree.Compared

/-!
# Evaluation depends on structure alone

A function of the evaluator does matching things for the same tree in scopes that match (`matches_expression` and its
sisters). For trees that differ in places this is carried over, because a function does the same without places. A
function of the host has its own part in it: it must do matching things with matching arguments in memories that match,
wherever it is called from (`Host.TreatsAlike`). Then every task does what its counterpart does
(`Task.Matches.plan`), and runs end alike, by induction on the run (`Finishes.matches`).

Main statement: two programs between which the comparison finds no difference, and whose floating-point literals have
the same bits, end with values that match or with the same error, and leave machines that match
(`execution_follows_structure`).
-/

namespace GameScript

open Eval

variable {σ α β : Type}

/-! ## What the functions do -/

section Functions

variable {T : Link → σ → σ → Prop} {R : Link} {s t : ScopeId} {span : Span} (hs : R (.scope s) (.scope t))

open Plan

include hs

/-- A tree may be asked for in scopes that match. -/
theorem matches_tree {k : Kind} (task : Task k) (h : task.scope? = some s) :
    (ask task : Plan σ k.Answer).Matches T k.Matches R (ask (task.inScope t)) := matches_ask (.tree h hs rfl)

theorem matches_slotValue (a : Option Operand) :
    (slotValue s span a : Plan σ Value).Matches T Value.Matches R (slotValue t span a) := by
  cases a with
  | none => exact (matches_fail _).now
  | some a => exact (matches_tree hs (.operand s span a) rfl).bind fun S v w _ hvw => (matches_resolve hvw).now

theorem matches_parentValue (a : Option Operand) : (parentValue s span a : Plan σ (Value × Bool)).Matches T
    (fun S p q => p.1.Matches S q.1 ∧ p.2 = q.2) R (parentValue t span a) := by
  cases a with
  | none => exact (matches_fail _).now
  | some a =>
    exact (matches_tree hs (.operand s span a) rfl).bind fun S v w _ hvw =>
      Plan.matches_pure fun S' hle => ⟨hvw.mono hle, rfl⟩

theorem matches_target (mayDeclare : Bool) (a : Option Operand) :
    (target s span mayDeclare a : Plan σ Target).Matches T Target.Matches R (target t span mayDeclare a) := by
  match a with
  | some (.var ⟨name, .use, place⟩) => exact Plan.matches_pure fun _ _ => .existing name
  | some (.var ⟨name, .declare, place⟩) =>
    cases mayDeclare with
    | true => exact Plan.matches_pure fun _ _ => .declare name
    | false => exact (matches_fail _).now
  | some (.expression e) =>
    show Plan.Matches T _ R (if e.operator? = some .child then _ else _ : Plan σ Target)
      (if e.operator? = some .child then _ else _)
    split
    · exact (matches_tree hs (.property s e) rfl).bind fun S r r' _ hr =>
        Plan.matches_pure fun S' hle => .property (hr.mono hle)
    · exact (matches_fail _).now
  | none | some (.value _) | some (.object _) | some (.block _) | some (.function _ _) | some (.call _ _) =>
    exact (matches_fail _).now

omit hs in
/-- Arguments that are evaluated in order, after those that match already. -/
theorem matches_values {before before' : List Value} (hs : R (.scope s) (.scope t))
    (h : List.Forall₂ (Value.Matches R) before before') (es : List Expression) :
    (values s before es : Plan σ (List Value)).Matches T (fun S => List.Forall₂ (Value.Matches S)) R
      (values t before' es) := by
  have hmono {S S' : Link} {vs ws : List Value} (h : List.Forall₂ (Value.Matches S) vs ws) (hle : S ≤ S') :
      List.Forall₂ (Value.Matches S') vs ws := h.imp fun _ _ hvw => hvw.mono hle
  induction es generalizing before before' R with
  | nil => exact Plan.matches_pure fun S hle => hmono h hle
  | cons e rest ih =>
    refine (matches_tree hs (.expression s e) rfl).bind fun R₁ v w hle₁ hvw => ?_
    refine (matches_resolve hvw).now.bind fun R₂ v w hle₂ hvw => ?_
    have hle := hle₁.trans hle₂
    refine Plan.Matches.holding ?_ (Value.forall₂_cells (.cons hvw .nil))
    exact ih (hle _ _ hs) (List.rel_append (hmono h hle) (.cons hvw .nil))

omit hs in
theorem matches_properties (hT : Monotone T) {o p : ObjectId} (hs : R (.scope s) (.scope t))
    (ho : R (.object o) (.object p)) (ps : List Property) :
    (properties s o ps : Plan σ Unit).Matches T (fun _ _ _ => True) R (properties t p ps) := by
  induction ps generalizing R with
  | nil => exact Plan.matches_pure fun _ _ => trivial
  | cons q rest ih =>
    obtain ⟨key, e⟩ := q
    refine (matches_tree hs (.expression s e) rfl).bind fun R₁ v w hle₁ hvw => ?_
    refine (matches_resolve hvw).now.bind fun R₂ v w hle₂ hvw => ?_
    have hle := hle₁.trans hle₂
    have hset : (do setMemory ((← memory).setProperty o key v) : Eval σ Unit).Matches T (fun _ _ _ => True) R₂
        (do setMemory ((← memory).setProperty p key w)) := fun S m n hle' hmn =>
      ⟨S, hmn.become hT (hmn.memory.setProperty (hle' _ _ (hle _ _ ho)) key (hvw.mono hle')), trivial⟩
    exact hset.now.bind fun R₃ _ _ hle₃ _ => ih ((hle.trans hle₃) _ _ hs) ((hle.trans hle₃) _ _ ho)

theorem matches_statements (body : List Statement) :
    (Plan.statements s body : Plan σ Flow).Matches T Flow.Matches R (Plan.statements t body) := by
  induction body generalizing R with
  | nil => exact Plan.matches_pure fun _ _ => .completed
  | cons x rest ih =>
    refine (matches_tree hs (.statement s x) rfl).bind fun S flow flow' hle hflow => ?_
    cases hflow with
    | completed => exact ih (hle _ _ hs)
    | returning hvw => exact Plan.matches_pure fun S' hle' => .returning (hvw.mono hle')

theorem matches_block (hT : Monotone T) (x : Scope) : (do
    let inner ← now (create (·.newScope (some s)))
    Plan.holding [.scope inner] (ask (.statements inner x.body)) : Plan σ Flow).Matches T Flow.Matches R (do
    let inner ← now (create (·.newScope (some t)))
    Plan.holding [.scope inner] (ask (.statements inner x.body))) := by
  have hnew : (create (·.newScope (some s)) : Eval σ ScopeId).Matches T (fun S s t => S (.scope s) (.scope t)) R
      (create (·.newScope (some t))) := matches_create hT fun x hx hle => hx.newScope (hle _ _ hs)
  refine hnew.now.bind fun S inner inner' hle hinner => ?_
  exact (matches_tree hinner (.statements inner x.body) rfl).holding (.cons hinner .nil)

theorem matches_expression (e : Expression) :
    (Plan.expression s e : Plan σ Value).Matches T Value.Matches R (Plan.expression t e) := by
  unfold Plan.expression
  cases e.checkShape with
  | some fault => exact (matches_fail _).now
  | none =>
    obtain ⟨left, op, right, place⟩ := e
    cases op with
    | none =>
      cases left with
      | none => exact (matches_fail _).now
      | some a => exact matches_tree hs (.operand s place a) rfl
    | some op =>
      obtain ⟨kind, opPlace⟩ := op
      dsimp only
      split
      · exact matches_tree hs (.compound s _ _) rfl
      · cases kind with
        | ret => exact (matches_fail _).now
        | assign => exact matches_tree hs (.assignment s _) rfl
        | inc => exact matches_tree hs (.step s .inc _) rfl
        | dec => exact matches_tree hs (.step s .dec _) rfl
        | child =>
          exact (matches_tree hs (.property s _) rfl).bind fun S r r' _ hr =>
            Plan.matches_pure fun S' hle => .reference (hr.mono hle)
        | not => exact (matches_slotValue hs right).bind fun S v w _ hvw => (matches_negate hvw).now
        | _ =>
          refine (matches_slotValue hs left).bind fun R₁ a a' hle₁ ha => ?_
          refine ((matches_slotValue (hle₁ _ _ hs) right).holding (Value.forall₂_cells (.cons ha .nil))).bind
            fun R₂ b b' hle₂ hb => ?_
          exact (matches_applyBinary (ha.mono hle₂) hb _).now

theorem matches_operand (hT : Monotone T) (a : Operand) :
    (Plan.operand s span a : Plan σ Value).Matches T Value.Matches R (Plan.operand t span a) := by
  cases a with
  | value literal => exact Plan.matches_pure fun _ _ => .same (by cases literal <;> rfl)
  | var x =>
    obtain ⟨name, form, place⟩ := x
    cases form with
    | declare => exact (matches_fail _).now
    | use => exact (matches_look fun _ hx hle => hx.lookup (hle _ _ hs) name).now
  | object ps =>
    have hnew : (create (·.newObject []) : Eval σ ObjectId).Matches T (fun S o p => S (.object o) (.object p)) R
        (create (·.newObject [])) := matches_create hT fun x hx _ => hx.newObject
    refine hnew.now.bind fun R₁ o p hle ho => ?_
    refine ((matches_properties hT (hle _ _ hs) ho ps).holding (.cons ho .nil)).bind fun R₂ _ _ hle' _ => ?_
    exact Plan.matches_pure fun S hS => .object (hS _ _ (hle' _ _ ho))
  | block block =>
    refine (matches_tree hs (.block s block) rfl).bind fun S flow flow' _ hflow => ?_
    cases hflow with
    | completed => exact Plan.matches_pure fun _ _ => .same rfl
    | returning _ => exact (matches_fail _).now
  | expression e => exact matches_tree hs (.expression s e) rfl
  | function parameters body =>
    have hnew : (create (·.newClosure ⟨parameters, body, s⟩) : Eval σ ClosureId).Matches T
        (fun S f g => S (.closure f) (.closure g)) R (create (·.newClosure ⟨parameters, body, t⟩)) :=
      matches_create hT fun x hx hle => hx.newClosure rfl rfl (hle _ _ hs)
    exact hnew.now.bind fun S f g _ hfg => Plan.matches_pure fun S' hle => .closure (hle _ _ hfg)
  | call callee args =>
    refine (matches_tree hs (.expression s callee) rfl).bind fun R₁ f g hle₁ hfg => ?_
    refine (matches_resolve hfg).now.bind fun R₂ f g hle₂ hfg => ?_
    have hle := hle₁.trans hle₂
    have hargs := (matches_values (T := T) (hle _ _ hs) .nil args).holding (Value.forall₂_cells (.cons hfg .nil))
    exact hargs.bind fun R₃ vs ws hle₃ hvs => matches_ask (k := .value) (.invoke (hfg.mono hle₃) hvs)

theorem matches_statement (x : Statement) :
    (Plan.statement s x : Plan σ Flow).Matches T Flow.Matches R (Plan.statement t x) := by
  rw [Plan.statement.eq_def s x, Plan.statement.eq_def t x]
  split
  · refine (matches_tree hs (.operand s _ _) rfl).bind fun R₁ v w _ hvw => ?_
    exact (matches_resolve hvw).now.bind fun R₂ v w _ hvw =>
      Plan.matches_pure fun S hle => .returning (hvw.mono hle)
  · exact matches_tree hs (.block s _) rfl
  · exact (matches_tree hs (.expression s _) rfl).bind fun S _ _ _ _ => Plan.matches_pure fun _ _ => .completed

theorem matches_assignment (hT : Monotone T) (e : Expression) :
    (Plan.assignment s e : Plan σ Value).Matches T Value.Matches R (Plan.assignment t e) := by
  refine (matches_slotValue hs e.right).bind fun R₁ v w hle₁ hvw => ?_
  have hs₁ := hle₁ _ _ hs
  have hwrite : (do
      let u ← target s e.span true e.written
      now (updateMemory e.span (u.write v s)) : Plan σ Unit).Matches T (fun _ _ _ => True) R₁ (do
      let u ← target t e.span true e.written
      now (updateMemory e.span (u.write w t))) :=
    (matches_target hs₁ true e.written).bind fun R₂ u u' hle₂ hu =>
      (matches_write hT (hle₂ _ _ hs₁) hu (hvw.mono hle₂)).now
  refine (hwrite.holding (Value.forall₂_cells (.cons hvw .nil))).bind fun R₂ _ _ hle₂ _ => ?_
  exact Plan.matches_pure fun S hle => hvw.mono (hle₂.trans hle)

theorem matches_compound (hT : Monotone T) (base : OperatorKind) (e : Expression) :
    (Plan.compound s base e : Plan σ Value).Matches T Value.Matches R (Plan.compound t base e) := by
  refine (matches_slotValue hs e.right).bind fun R₁ v w hle₁ hvw => ?_
  have hs₁ := hle₁ _ _ hs
  refine Plan.Matches.holding ?_ (Value.forall₂_cells (.cons hvw .nil))
  refine (matches_target hs₁ false e.written).bind fun R₂ u u' hle₂ hu => ?_
  have hs₂ := hle₂ _ _ hs₁
  refine (matches_read hs₂ hu).now.bind fun R₃ a b hle₃ hab => ?_
  refine (matches_applyBinary hab (hvw.mono (hle₂.trans hle₃)) base).now.bind fun R₄ c d hle₄ hcd => ?_
  have hle := hle₃.trans hle₄
  refine (matches_write hT (hle _ _ hs₂) (hu.mono hle) hcd).now.bind fun R₅ _ _ hle₅ _ => ?_
  exact Plan.matches_pure fun S hS => hcd.mono (hle₅.trans hS)

theorem matches_step (hT : Monotone T) (op : OperatorKind) (e : Expression) :
    (Plan.step s op e : Plan σ Value).Matches T Value.Matches R (Plan.step t op e) :=
  (matches_target hs false e.written).bind fun _ _ _ hle hu => (matches_stepBy hT op _ (hle _ _ hs) hu).now

theorem matches_property (e : Expression) : (do
    let key ← now (memberName e.span e.right)
    let (parent, named) ← parentValue s e.span e.left
    now (referenceTo e.span key named parent) : Plan σ Reference).Matches T Reference.Matches R (do
    let key ← now (memberName e.span e.right)
    let (parent, named) ← parentValue t e.span e.left
    now (referenceTo e.span key named parent)) := by
  refine (matches_memberName e.right).now.bind fun R₁ key key' hle₁ hkey => ?_
  subst hkey
  refine (matches_parentValue (hle₁ _ _ hs) e.left).bind fun R₂ p q _ hpq => ?_
  obtain ⟨v, named⟩ := p
  obtain ⟨w, named'⟩ := q
  obtain ⟨hvw, rfl⟩ := hpq
  exact (matches_referenceTo key named hvw).now

end Functions

/-! ## Functions of the host -/

/-- What a function of the host does next, called in two memories that match: it leaves memories that match, but for
what it holds, and finishes with answers that match, or it calls closures that match and does so again with whatever
answers and memories that match there are then. -/
inductive HostStep.Matches (T : Link → σ → σ → Prop) : Pairing → HostStep σ → HostStep σ → Prop
  | finish {x : Pairing} {R : Link} {result result' : Except RuntimeError Value} {m n : Memory} {s t : σ}
      (hm : x.Becomes (Pairing.heldAs ⟨m, n, R⟩ x)) (hstate : T R s t)
      (hresult : Agrees (Value.Matches R) result result') :
      HostStep.Matches T x (.finish result m s) (.finish result' n t)
  | enter {x : Pairing} {R : Link} {c d : ClosureId} {args args' kept kept' : List Value} {m n : Memory} {s t : σ}
      {resume resume' : Except RuntimeError Value → Memory → σ → HostStep σ}
      (hm : x.Becomes (Pairing.heldAs ⟨m, n, R⟩ x)) (hstate : T R s t) (hc : R (.closure c) (.closure d))
      (hargs : List.Forall₂ (Value.Matches R) args args') (hkept : List.Forall₂ (Value.Matches R) kept kept')
      (hrest : ∀ y answer answer' s' t', (Pairing.heldAs ⟨m, n, R⟩ x).Becomes y → T y.link s' t' →
        Agrees (Value.Matches y.link) answer answer' →
          HostStep.Matches T y (resume answer y.left s') (resume' answer' y.right t')) :
      HostStep.Matches T x (.enter c args kept m s resume) (.enter d args' kept' n t resume')

/-- A host whose functions do matching things with arguments that match, in memories that match, wherever they are
called. -/
def Host.TreatsAlike (T : Link → σ → σ → Prop) (host : Host σ) : Prop :=
  ∀ native span span' args args' x s t, x.Matched → T x.link s t → List.Forall₂ (Value.Matches x.link) args args' →
    (host.call native span args x.left s).Matches T x (host.call native span' args' x.right t)

section Host

variable {T : Link → σ → σ → Prop} {R : Link} {host : Host σ} {limit : Nat} {span span' : Span}

/-- Outcomes that correspond are answers that match or the same error, when their places are dropped. -/
theorem Corresponds.agrees {Q : α → α → Prop} {r r' : Except RuntimeFault α} (h : Corresponds Q r r') :
    Agrees Q (r.mapError RuntimeFault.error) (r'.mapError RuntimeFault.error) := by
  cases r <;> cases r' <;> exact h

theorem Corresponds.toOption {Q : α → α → Prop} {r r' : Except RuntimeFault α} (h : Corresponds Q r r') :
    List.Forall₂ Q r.toOption.toList r'.toOption.toList := by
  cases r <;> cases r' <;> first | exact .cons h .nil | exact .nil | exact h.elim

theorem matches_hostStep {x : Pairing} {step step' : HostStep σ} (h : step.Matches T x step') {S : Link}
    {m n : Machine σ} {cs ds : List Cell} (hmn : m.Matches T S n) (hcells : List.Forall₂ S cs ds)
    (hx : x = Pairing.holding ⟨m.memory, n.memory, S⟩ cs ds) :
    (Plan.hostStep span step m).Matches T Value.Matches ⟨m.memory, n.memory, S⟩ (Plan.hostStep span' step' n) := by
  induction h generalizing S m n cs ds with
  | @finish x R result result' k l s t hm hstate hresult =>
    subst hx
    have hleft := ((hmn.memory.holding hcells).1.trans hm).released hmn.memory
    rcases result with e | a <;> rcases result' with e' | b
    · exact .ended ⟨hleft, hmn.depth, hstate⟩ hresult
    · exact hresult.elim
    · exact hresult.elim
    · exact .ended ⟨hleft, hmn.depth, hstate⟩ hresult
  | @enter x R c d args args' kept kept' k l s t resume resume' hm hstate hc hargs hkept _ ih =>
    subst hx
    have hleft : Pairing.Attains T ⟨m.memory, n.memory, S⟩ R
        { m with memory := { k with held := m.memory.held }, state := s }
        { n with memory := { l with held := n.memory.held }, state := t } :=
      ⟨((hmn.memory.holding hcells).1.trans hm).released hmn.memory, hmn.depth, hstate⟩
    have hask : (Plan.ask (.enter c args {}) : Plan σ Value).Matches T Value.Matches R (Plan.ask (.enter d args' {})) :=
      Plan.matches_ask (k := .value) (.enter hc hargs)
    have hcall := (hask.holding (.cons hc (Value.forall₂_cells hkept))).attempt _ _ _ le_rfl hleft.matches
    rw [hostStep_enter, hostStep_enter]
    refine Course.Matches.from (Course.Matches.andThen hcall fun S' r r' m' n' hm' hr => ?_) hleft.memory
    rcases r with e | answer <;> rcases r' with f | answer'
    · exact .ended hm' hr
    · exact hr.elim
    · exact hr.elim
    · have hanswer : Corresponds (Value.Matches S') answer answer' := hr
      have hanswers : List.Forall₂ (Value.Matches S') (answer.toOption.toList ++ kept)
          (answer'.toOption.toList ++ kept') :=
        List.rel_append hanswer.toOption (hkept.imp fun _ _ hvw => hvw.mono hm'.memory.link)
      -- what the function held besides is let go, and what it holds of the answer is new
      have hbefore := (hleft.matches.memory.holding (hcells.imp hleft.memory.link)).2
      have hafter := (hm'.matches.memory.holding (Value.forall₂_cells hanswers)).1
      exact (ih _ _ _ _ _ (hbefore.trans (hm'.memory.trans hafter)) hm'.state hanswer.agrees hm'.matches
        (Value.forall₂_cells hanswers) rfl).from hm'.memory

variable {args args' : List Value}

theorem matches_invoke (hhost : host.TreatsAlike T) {f g : Value} (hfg : f.Matches R g)
    (hargs : List.Forall₂ (Value.Matches R) args args') :
    ((Task.invoke f args span).plan host limit).Matches T Value.Matches R
      ((Task.invoke g args' span').plan host limit) := by
  cases hfg with
  | same hf =>
    cases f with
    | native native =>
      intro S m n hle hmn
      have hvalues : List.Forall₂ (Value.Matches S) args args' := hargs.imp fun _ _ hvw => hvw.mono hle
      have hheld := (hmn.memory.holding (Value.forall₂_cells hvalues)).1.matched
      exact matches_hostStep (hhost native span span' _ _ _ _ _ hheld hmn.state hvalues) hmn
        (Value.forall₂_cells hvalues) rfl
    | object _ | closure _ | reference _ => cases hf
    | _ => exact (matches_fail _).now
  | closure hc => exact (Plan.matches_ask (k := .value) (.enter hc hargs)).holding (.cons hc .nil)
  | object _ | reference _ => exact (matches_fail _).now

theorem matches_enter (hT : Monotone T) {c d : ClosureId} (hcd : R (.closure c) (.closure d))
    (hargs : List.Forall₂ (Value.Matches R) args args') :
    (Plan.enter limit c args span : Plan σ Value).Matches T Value.Matches R (Plan.enter limit d args' span') := by
  intro S m n hle hmn
  show Course.Matches T _ _ ((if limit ≤ m.depth then _ else _ : Plan σ Value) m)
    ((if limit ≤ n.depth then _ else _ : Plan σ Value) n)
  rw [hmn.depth]
  split
  · exact (matches_fail _).now S m n hle hmn
  · have hcontent := hmn.memory.content _ _ (hle _ _ hcd)
    simp only [Memory.content] at hcontent
    generalize m.memory.closure c = f, n.memory.closure d = g at hcontent
    cases hcontent with
    | closure hparameters hbody hscope =>
      have hnew := hmn.memory.newFunctionScope hscope f.parameters (hargs.imp fun _ _ hvw => hvw.mono hle)
      rw [← hparameters]
      generalize m.memory.newFunctionScope _ _ _ = a, n.memory.newFunctionScope _ _ _ = b at hnew
      rcases a with e | ⟨inner, k⟩ <;> rcases b with e' | ⟨inner', l⟩
      · exact .ended hmn.attains hnew
      · exact hnew.elim
      · exact hnew.elim
      · obtain ⟨S', hbecomes, hinner⟩ := hnew
        have hask : (Plan.ask (.statements inner f.body.body) : Plan σ Flow).Matches T Flow.Matches S'
            (Plan.ask (.statements inner' g.body.body)) :=
          Plan.matches_ask (k := .flow) (.tree rfl hinner
            (congrArg (Task.statements inner') (Scope.eraseAll_body_congr hbody)))
        have hrun := (hask.holding (.cons hinner .nil)).deeper.bind fun _ _ _ _ hflow =>
          Plan.matches_pure (Q := Value.Matches) fun _ hle => hflow.value.mono hle
        exact (hrun S' _ _ le_rfl (hmn.become hT hbecomes).matches).from hbecomes

end Host

/-! ## Runs -/

section Runs

variable {T : Link → σ → σ → Prop} {R : Link} {host : Host σ} {limit : Nat} {k : Kind} {task task' : Task k}

theorem scope?_eraseSpans (task : Task k) : task.eraseSpans.scope? = task.scope? := by cases task <;> rfl

theorem scope?_inScope {s : ScopeId} (t : ScopeId) (h : task.scope? = some s) :
    (task.inScope t).scope? = some t := by cases task <;> first | rfl | cases h

variable (host limit)

/-- What is done with the same tree in scopes that match. -/
theorem matches_inScope (hT : Monotone T) {s t : ScopeId} (h : task.scope? = some s) (hs : R (.scope s) (.scope t)) :
    (task.plan host limit).Matches T k.Matches R ((task.inScope t).plan host limit) := by
  cases task with
  | invoke _ _ _ | enter _ _ _ => cases h
  | statements _ body =>
    cases h
    exact matches_statements hs body
  | statement _ x =>
    cases h
    exact matches_statement hs x
  | block _ x =>
    cases h
    exact matches_block hs hT x
  | expression _ e =>
    cases h
    exact matches_expression hs e
  | operand _ _ a =>
    cases h
    exact matches_operand hs hT a
  | property _ e =>
    cases h
    exact matches_property hs e
  | assignment _ e =>
    cases h
    exact matches_assignment hs hT e
  | compound _ base e =>
    cases h
    exact matches_compound hs hT base e
  | step _ op e =>
    cases h
    exact matches_step hs hT op e

variable {host}

/-- A task does what its counterpart does. -/
theorem Task.Matches.plan (hT : Monotone T) (hhost : host.TreatsAlike T) (h : task.Matches R task') :
    (task.plan host limit).Matches T k.Matches R (task'.plan host limit) := by
  cases h with
  | @tree _ _ _ s t hscope hs hplaces =>
    have hscope' : task'.scope? = some t := by
      rw [← scope?_eraseSpans, ← hplaces, scope?_eraseSpans, scope?_inScope t hscope]
    -- first the same tree in the other scope, then the tree without places, then the other tree
    have herased := (matches_inScope host limit hT hscope hs).congr (alike_tree host limit (scope?_inScope t hscope))
    rw [hplaces] at herased
    exact herased.congr fun m n hmn => (alike_tree host limit hscope' n m hmn.symm).symm
  | invoke hf hargs => exact matches_invoke hhost hf hargs
  | enter hc hargs => exact matches_enter hT hc hargs

variable {limit}

/-- Courses that match end alike, by induction on the run. -/
theorem Finishes.matches (hT : Monotone T) (hhost : host.TreatsAlike T) {Q : Link → α → α → Prop} {x : Pairing}
    {c c' : Course σ α} {r : Except RuntimeFault α} {m : Machine σ} (hrun : Finishes host limit c r m)
    (h : c.Matches T Q x c') :
    ∃ s n S, Finishes host limit c' s n ∧ x.Attains T S m n ∧ Corresponds (Q S) r s := by
  induction hrun generalizing x with
  | ended =>
    cases h with
    | ended hm hr => exact ⟨_, _, _, .ended _ _, hm, hr⟩
  | asks _ _ ihdone ihrest =>
    cases h with
    | asks hm htask hrest =>
      obtain ⟨answer, n, S, hdone, hn, hr⟩ := ihdone (htask.plan limit hT hhost _ _ _ le_rfl hm.matches)
      obtain ⟨s, n', S', hfinishes, hn', hs⟩ := ihrest (hrest _ _ _ _ _ hn hr)
      exact ⟨s, n', S', .asks hdone hfinishes, hn', hs⟩

/-- **Execution depends on structure alone.** Two programs that do not differ but in places, run in scopes that match
by a host that treats what matches alike, both give values that match or both fail with the same error, and the machines
that they leave match, by a link that has grown by what is new. -/
theorem execution_follows_structure (hT : Monotone T) (hhost : host.TreatsAlike T) (limit : Nat) {p q : Program}
    (hdiff : p.diff q = none) (hfloats : p.floats.map Float.toBits = q.floats.map Float.toBits) {m n : Machine σ}
    (hmn : m.Matches T R n) {s t : ScopeId} (hst : R (.scope s) (.scope t)) :
    ∃ S, Pairing.Attains T ⟨m.memory, n.memory, R⟩ S (execute host limit s p m).2 (execute host limit t q n).2 ∧
      Corresponds (Value.Matches S) (execute host limit s p m).1 (execute host limit t q n).1 := by
  have hbody : p.body.eraseSpans = q.body.eraseSpans := congrArg Program.body (eraseSpans_of_diff hdiff hfloats)
  have hask : (Plan.ask (.statements s p.body.body) : Plan σ Flow).Matches T Flow.Matches R
      (Plan.ask (.statements t q.body.body)) :=
    Plan.matches_ask (k := .flow) (.tree rfl hst (congrArg (Task.statements t) (Scope.eraseAll_body_congr hbody)))
  have hplan : (p.plan s : Plan σ Value).Matches T Value.Matches R (q.plan t) :=
    (hask.holding (.cons hst .nil)).bind fun _ _ _ _ hflow => Plan.matches_pure fun _ hle => hflow.value.mono hle
  obtain ⟨r, k, S, hrun, hk, hr⟩ := (finishes_execute host limit s p m).matches hT hhost (hplan R m n le_rfl hmn)
  obtain ⟨rfl, rfl⟩ := hrun.unique (finishes_execute host limit t q n)
  exact ⟨S, hk, hr⟩

end Runs

/-- The program of `f(1);`, written some way into a text. -/
def callingProgram (start : Nat) : Program :=
  let f : Expression := .leaf (.var ⟨"f", .use, ⟨start, start + 1⟩⟩) ⟨start, start + 1⟩
  let one : Expression := .leaf (.value (.int 1)) ⟨start + 2, start + 3⟩
  ⟨⟨[⟨.leaf (.call f [one]) ⟨start, start + 4⟩, ⟨start, start + 5⟩⟩], ⟨0, start + 5⟩⟩⟩

/-- The closure of `(x) => { x.y; }`, written some way into a text, in a scope. -/
def readingClosure (start : Nat) (s : ScopeId) : Closure :=
  let x : Operand := .var ⟨"x", .use, ⟨start, start + 1⟩⟩
  let y : Operand := .var ⟨"y", .use, ⟨start + 2, start + 3⟩⟩
  let read : Expression := .binary x ⟨.child, ⟨start + 1, start + 2⟩⟩ y ⟨start, start + 3⟩
  ⟨["x"], ⟨[⟨read, ⟨start, start + 4⟩⟩], ⟨start, start + 4⟩⟩, s⟩

/-- A machine with some scopes and a closure. -/
def readingMachine (scopes : Array ScopeCell) (f : Closure) : Machine Unit :=
  ⟨{ scopes := scopes, closures := #[f] }, 0, ()⟩

/-- A machine in whose second scope a name is bound to the closure. -/
def readingSecond : Machine Unit :=
  readingMachine #[⟨[], none, 0⟩, ⟨[("f", .closure ⟨0⟩)], none, 0⟩] (readingClosure 20 ⟨1⟩)

/-- A machine in whose only scope a name is bound to the closure, written somewhere else. -/
def readingOnly : Machine Unit := readingMachine #[⟨[("f", .closure ⟨0⟩)], none, 0⟩] (readingClosure 50 ⟨0⟩)

/-- The scopes that bind the name match, and so do the closures. -/
inductive ReadingLink : Link
  | scope : ReadingLink (.scope ⟨1⟩) (.scope ⟨0⟩)
  | closure : ReadingLink (.closure ⟨0⟩) (.closure ⟨0⟩)

theorem treatsAlike_idleHost (T : Link → Unit → Unit → Prop) : idleHost.TreatsAlike T :=
  fun _ _ _ _ _ _ _ _ hx hstate _ => .finish hx.refl hstate (.same rfl)

theorem eq_of_made_readingSecond {c : Cell} (h : c ∈ readingSecond.memory.made) :
    c = .scope ⟨0⟩ ∨ c = .scope ⟨1⟩ ∨ c = .closure ⟨0⟩ := by
  rcases c with ⟨⟨i⟩⟩ | ⟨⟨_ | _ | i⟩⟩ | ⟨⟨_ | i⟩⟩
  · exact absurd h (Nat.not_lt_zero i)
  · exact .inl rfl
  · exact .inr (.inl rfl)
  · exact absurd h (Nat.not_lt.2 (Nat.le_add_left 2 i))
  · exact .inr (.inr rfl)
  · exact absurd h (Nat.not_lt.2 (Nat.le_add_left 1 i))

theorem eq_of_made_readingOnly {c : Cell} (h : c ∈ readingOnly.memory.made) : c = .scope ⟨0⟩ ∨ c = .closure ⟨0⟩ := by
  rcases c with ⟨⟨i⟩⟩ | ⟨⟨_ | i⟩⟩ | ⟨⟨_ | i⟩⟩
  · exact absurd h (Nat.not_lt_zero i)
  · exact .inl rfl
  · exact absurd h (Nat.not_lt.2 (Nat.le_add_left 1 i))
  · exact .inr rfl
  · exact absurd h (Nat.not_lt.2 (Nat.le_add_left 1 i))

theorem intact_readingSecond : readingSecond.memory.Intact := by
  refine ⟨fun c hc d hd => ?_, nofun⟩
  rcases eq_of_made_readingSecond hc with rfl | rfl | rfl
  · cases hd
  · obtain rfl := List.mem_singleton.1 hd
    exact Nat.one_pos
  · obtain rfl := List.mem_singleton.1 hd
    exact Nat.one_lt_two

theorem intact_readingOnly : readingOnly.memory.Intact := by
  refine ⟨fun c hc d hd => ?_, nofun⟩
  rcases eq_of_made_readingOnly hc with rfl | rfl
  all_goals
    obtain rfl := List.mem_singleton.1 hd
    exact Nat.one_pos

theorem matches_reading : readingSecond.Matches (fun _ _ _ => True) ReadingLink readingOnly := by
  -- nothing is held from outside, and what the link leaves out holds nothing
  have hleft (c : Cell) : ¬readingSecond.memory.HeldBeyond ReadingLink.left c := by
    rintro (hheld | ⟨d, hd, halive, hc⟩)
    · cases hheld
    · rcases eq_of_made_readingSecond (intact_readingSecond.mem_made_of_isAlive halive) with rfl | rfl | rfl
      · cases hc
      · exact hd ⟨_, .scope⟩
      · exact hd ⟨_, .closure⟩
  have hright (c : Cell) : ¬readingOnly.memory.HeldBeyond ReadingLink.right c := by
    rintro (hheld | ⟨d, hd, halive, hc⟩)
    · cases hheld
    · rcases eq_of_made_readingOnly (intact_readingOnly.mem_made_of_isAlive halive) with rfl | rfl
      · exact hd ⟨_, .scope⟩
      · exact hd ⟨_, .closure⟩
  refine ⟨⟨intact_readingSecond, intact_readingOnly, ⟨?_, ?_⟩, ?_, ?_, ?_⟩, rfl, trivial⟩
  · rintro _ _ _ (_ | _) (_ | _) <;> rfl
  · rintro _ _ _ (_ | _) (_ | _) <;> rfl
  · rintro _ _ (_ | _)
    · exact ⟨Nat.one_lt_two, Nat.one_pos⟩
    · exact ⟨Nat.one_pos, Nat.one_pos⟩
  · rintro _ _ (_ | _)
    · exact .scope (.cons ⟨rfl, .closure .closure⟩ .nil) .none rfl
    · exact .closure rfl rfl .scope
  · exact fun c d _ => iff_of_false (hleft c) (hright d)

/-- What a call fails with does not depend on where things are written. -/
theorem execution_follows_structure_reading :
    ∃ S, Pairing.Attains (fun _ _ _ => True) ⟨readingSecond.memory, readingOnly.memory, ReadingLink⟩ S
        (execute idleHost 5 ⟨1⟩ (callingProgram 0) readingSecond).2
        (execute idleHost 5 ⟨0⟩ (callingProgram 9) readingOnly).2 ∧
      (execute idleHost 5 ⟨1⟩ (callingProgram 0) readingSecond).1 = .error ⟨.notAnObject "y" .int, ⟨20, 23⟩⟩ ∧
      (execute idleHost 5 ⟨0⟩ (callingProgram 9) readingOnly).1 = .error ⟨.notAnObject "y" .int, ⟨50, 53⟩⟩ := by
  obtain ⟨S, hS, -⟩ := execution_follows_structure (fun _ _ _ _ _ _ => trivial) (treatsAlike_idleHost _) 5
    (p := callingProgram 0) (q := callingProgram 9) rfl rfl matches_reading .scope
  exact ⟨S, hS, by cbv, by cbv⟩

end GameScript
