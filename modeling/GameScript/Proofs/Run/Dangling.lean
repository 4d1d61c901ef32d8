import GameScript.Proofs.Run.Delivery
import GameScript.Proofs.Run.Frames

/-!
# No reference dangles

A reference dangles when its object is not alive any more; to follow it is an error. An object is alive exactly while
something alive holds it: a binding, a property, a closure's scope, or what is held from outside, which includes
anchored references and all that is evaluated but not yet used (`Memory.Intact.isAlive_iff`). The evaluator takes a
reference that is not anchored only where the object is held by something that is, and uses it at once.

Main statement: whatever a host does with scripts and their functions, no function of the evaluator raises the fault of
a dangling reference, provided that the host stores, passes and returns no reference; and where the functions of the
host do not make up that fault themselves, nothing ever ends with it (`no_reference_dangles`).
-/

namespace GameScript

open Eval

variable {σ : Type} {F : RuntimeFault → Prop}

/-! ## Hosts -/

/-- A function of the host that stores, passes and returns no reference, and names only what has been made, as long as
that holds of what it is told. -/
def HostStep.Grounded (m : Memory) : HostStep σ → Prop
  | .finish result n _ => n.Sane ∧ m.made ⊆ n.made ∧ ∀ v, result = .ok v → n.Storable v
  | .enter c args kept n _ resume =>
    (n.Sane ∧ m.made ⊆ n.made ∧ .closure c ∈ n.made ∧ (∀ v ∈ args, n.Storable v) ∧ ∀ v ∈ kept, v.Inside n.made) ∧
      ∀ answer n' s, n'.Sane → n.made ⊆ n'.made → (∀ v, answer = .ok v → n'.Storable v) →
        (resume answer n' s).Grounded n'

/-- A host whose functions store, pass and return no reference. -/
def Host.Grounded (host : Host σ) : Prop :=
  ∀ n span args m s, m.Sane → (∀ v ∈ args, m.Storable v) → (host.call n span args m s).Grounded m

/-- A function of the host that fails because of a dangling reference only when it has been told of one. -/
def HostStep.Spares : HostStep σ → Prop
  | .finish result _ _ => ∀ key, result ≠ .error (.danglingReference key)
  | .enter _ _ _ _ _ resume =>
    ∀ answer m s, (∀ key, answer ≠ .error (.danglingReference key)) → (resume answer m s).Spares

/-- A host whose functions make up no dangling reference. -/
def Host.Spares (host : Host σ) : Prop := ∀ n span args m s, (host.call n span args m s).Spares

/-- The faults of a function of the host that is called at a place are allowed, as long as those it is told of are. -/
def HostStep.Admits (F : RuntimeFault → Prop) (span : Span) : HostStep σ → Prop
  | .finish result _ _ => ∀ e, result = .error e → F ⟨e, span⟩
  | .enter _ _ _ _ _ resume => ∀ (answer : Except RuntimeFault Value) m s, (∀ f, answer = .error f → F f) →
    (resume (answer.mapError RuntimeFault.error) m s).Admits F span

/-- That no reference dangles. -/
def RuntimeFault.Holds (f : RuntimeFault) : Prop := ∀ key, f.error ≠ .danglingReference key

theorem HostStep.admits_any (hall : ∀ f, F f) (span : Span) (step : HostStep σ) : step.Admits F span := by
  induction step with
  | finish result m s => exact fun _ _ => hall _
  | enter c args kept m s resume ih => exact fun answer n s _ => ih _ n s

theorem HostStep.Spares.admits {step : HostStep σ} (h : step.Spares) (span : Span) :
    step.Admits RuntimeFault.Holds span := by
  induction step with
  | finish result m s =>
    rintro e rfl key rfl
    exact h key rfl
  | enter c args kept m s resume ih =>
    refine fun answer n s ha => ih _ n s (h _ n s fun key hkey => ?_)
    cases answer with
    | ok v => cases hkey
    | error f => exact ha f rfl key (Except.error.inj hkey)

/-! ## Calls -/

section Calls

variable {m : Machine σ} {span : Span}

theorem Plan.Delivers.attempt {α : Type} {P : Memory → α → Prop} {act : Plan σ α} (h : act.Delivers F m P) :
    act.attempt.Delivers F m fun n r => (∀ a, r = .ok a → P n a) ∧ ∀ f, r = .error f → F f :=
  meets_attempt (h.mono fun _ _ hr => delivered_ok hr.onward ⟨hr.answer, hr.fault⟩)

theorem delivers_adopt (hm : m.memory.Fine) {n : Memory} (hn : n.Sane) (hmade : m.memory.made ⊆ n.made) (state : σ) :
    (adopt n state : Eval σ Unit).Delivers F m fun n' _ => n'.made = n.made :=
  delivered_ok ⟨⟨⟨hn.closed, hn.free.bindings, hn.free.properties⟩, fun c hc => hmade (hm.held c hc)⟩, rfl, hmade⟩ rfl

theorem delivers_get (hm : m.memory.Fine) :
    (get : Eval σ (Machine σ)).Delivers F m fun n a => a.memory = n := delivered_ok (.refl hm) rfl

/-- What a function of the host does delivers, by induction on its steps. -/
theorem delivers_hostStep {step : HostStep σ} {n : Memory} (hg : step.Grounded n) (ha : step.Admits F span)
    (hm : m.memory.Fine) (hmade : m.memory.made ⊆ n.made) :
    (Plan.hostStep span step).Delivers F m Memory.Storable := by
  induction step generalizing m n with
  | finish result n' state =>
    obtain ⟨hsane, hgrown, hresult⟩ := hg
    refine (delivers_adopt hm hsane (hmade.trans hgrown) state).now.bind fun _ m₁ h₁ he => Eval.Delivers.now ?_
    cases result with
    | ok v => exact delivers_pure h₁.fine ((hresult v rfl).mono he.ge)
    | error e => exact delivers_throw h₁.fine (ha e rfl)
  | enter c args kept n' state resume ih =>
    obtain ⟨⟨hsane, hgrown, hc, hargs, hkept⟩, hresume⟩ := hg
    refine (delivers_adopt hm hsane (hmade.trans hgrown) state).now.bind fun _ m₁ h₁ he => ?_
    have hcells : ∀ d ∈ .closure c :: Value.cells kept, d ∈ m₁.memory.made := by
      intro d hd
      rw [he]
      rcases List.mem_cons.1 hd with rfl | hd
      · exact hc
      · obtain ⟨v, hv, hcell⟩ := List.mem_filterMap.1 hd
        exact hkept v hv d (Value.lead?_of_cell? hcell)
    have hentered : (Plan.holding (.closure c :: Value.cells kept) (Plan.ask (.enter c args {}))).Delivers F m₁
        Memory.Storable :=
      Plan.delivers_holding h₁.fine hcells (fun hfine => Plan.delivers_ask (.enter c args {}) hfine
        ⟨hcells _ List.mem_cons_self, fun v hv => (hargs v hv).mono he.ge⟩) fun _ _ _ => id
    refine hentered.attempt.bind fun answer m₂ h₂ hanswer => ?_
    refine (delivers_get h₂.fine).now.bind fun m' m₃ h₃ hsame => ?_
    have hmade₃ : m₃.memory.made ⊆ m'.memory.made := hsame ▸ le_rfl
    have hsane₃ : (m'.memory.holding (Value.cells (answer.toOption.toList ++ kept))).Sane := by
      rw [hsame]
      exact ⟨h₃.fine.closed, h₃.fine.free.bindings, h₃.fine.free.properties⟩
    refine ih _ _ _ (hresume _ _ _ hsane₃ ?_ ?_) (ha answer _ _ hanswer.2) h₃.fine hmade₃
    · exact he.ge.trans ((h₂.trans h₃).made.trans hmade₃)
    · intro v hv
      cases answer with
      | ok w =>
        cases hv
        exact (hanswer.1 v rfl).mono (h₃.made.trans hmade₃)
      | error f => cases hv

end Calls

section Runs

variable {host : Host σ} {limit : Nat} {m : Machine σ}

/-- What a task does delivers, when the functions of the host are grounded. -/
theorem delivers_plan (hF : Tolerant F) (hhost : host.Grounded) {k : Kind} {task : Task k}
    (hadmits : task.CallsHost → ∀ n span args m s, (host.call n span args m s).Admits F span) (hm : m.memory.Fine)
    (hready : task.Ready m.memory) : (task.plan host limit).Delivers F m task.Good := by
  cases task with
  | statements s body => exact delivers_statements hm hready body
  | statement s t => exact delivers_statement hm hready t
  | block s b => exact delivers_block hm hready b
  | expression s e => exact delivers_expression hF hm hready e
  | operand s span a => exact delivers_operand hF hm hready a
  | property s e => exact delivers_property hF hm hready e
  | assignment s e => exact delivers_assignment hF hm hready e
  | compound s base e => exact delivers_compound hF hm hready base e
  | step s op e => exact delivers_step hF hm hready op e
  | invoke f args span =>
    obtain ⟨hf, hargs⟩ := hready
    cases f with
    | closure c =>
      have hc : .closure c ∈ m.memory.made := hf.1 _ rfl
      refine Plan.delivers_holding (P := Memory.Storable) hm (by simpa using hc) (fun hfine => ?_) fun _ _ _ => id
      exact Plan.delivers_ask (.enter c args span) hfine ⟨hc, hargs⟩
    | native n =>
      refine Plan.Delivers.bind (delivers_get hm).now fun m' m₁ h₁ hsame => ?_
      have hmade : m₁.memory.made ⊆ m'.memory.made := hsame ▸ le_rfl
      have hsane : (m'.memory.holding (Value.cells args)).Sane := by
        rw [hsame]
        exact ⟨h₁.fine.closed, h₁.fine.free.bindings, h₁.fine.free.properties⟩
      refine delivers_hostStep (hhost n span args _ _ hsane fun v hv => ?_)
        (hadmits trivial n span args _ _) h₁.fine hmade
      exact (hargs v hv).mono (h₁.made.trans hmade)
    | _ => exact delivers_fail (α := Value) hm hF (by simp)
  | enter c args span => exact delivers_enter hF hm hready.1 hready.2

theorem kept_delivery (limit : Nat) (hF : Tolerant F) (hhost : host.Grounded)
    (hadmits : ∀ n span args m s, (host.call n span args m s).Admits F span) (R : Activation σ → Prop) :
    (delivery F).Kept host limit R := fun _ _ _ h => delivers_plan hF hhost (fun _ => hadmits) h.1 h.2

theorem tolerant_any : Tolerant fun _ => True := fun _ _ _ => trivial

theorem tolerant_holds : Tolerant RuntimeFault.Holds := fun _ _ h => h

/-- Whatever ends, with an answer or a fault, has delivered. -/
theorem delivered_of_finishes (hhost : host.Grounded) {k : Kind} {task : Task k} (hm : m.memory.Fine)
    (hready : task.Ready m.memory) {r : Except RuntimeFault k.Answer} {m' : Machine σ}
    (hrun : Finishes host limit (task.plan host limit m) r m') : Delivered (fun _ => True) m task.Good r m' := by
  have hadmits : ∀ n span args m s, (host.call n span args m s).Admits (fun _ => True) span :=
    fun _ _ _ _ _ => HostStep.admits_any (fun _ => trivial) _ _
  exact (delivers_plan tolerant_any hhost (fun _ => hadmits) hm hready).of_finishes
    (kept_delivery limit tolerant_any hhost hadmits fun _ => True) (fun _ _ => trivial) hrun fun _ _ => trivial

/-- A course that only asks for what may be asked for, and does not end with the fault of a dangling reference, does not
raise it. -/
theorem not_raises_of_delivers (hhost : host.Grounded) {α : Type} {c : Course σ α} {f : RuntimeFault}
    {P : Memory → α → Prop} (h : c.Meets (delivery (· ≠ f)) (Delivered (· ≠ f) m P)) : ¬Raises host limit f c := by
  refine not_raises (fun task n r n' hpre hdone hnew => ?_) h fun _ hr => hr.fault f rfl rfl
  obtain ⟨honward, -, hanswer⟩ := delivered_of_finishes hhost hpre.1 hpre.2 hdone
  exact ⟨honward, fun g hg heq => hnew (heq ▸ hg), hanswer⟩

/-! ## Actions -/

/-- What must hold of what a host passes: the scope has been made, the arguments are storable, and if what is called is
a reference, it does not dangle. -/
def Action.Ready (m : Memory) : Action → Prop
  | .execute s _ => .scope s ∈ m.made
  | .call callee args => m.Sound callee ∧ ∀ v ∈ args, m.Storable v

theorem Memory.Sound.holding {n : Memory} {v : Value} (h : n.Sound v) (hn : n.Fine) (cells : List Cell) :
    (n.holding cells).Sound v := by
  refine ⟨h.1, fun r hr => (h.2 r hr).imp_right fun halive => ?_⟩
  have hsupported : (n.holding cells).Supported {c | n.isAlive c = true} := by
    intro c halive
    refine ⟨hn.intact.mem_made_of_isAlive halive, ?_⟩
    exact (hn.intact.isAlive_iff.1 halive).imp_left (List.mem_append_right _)
  exact hsupported.isAlive halive

theorem delivers_action (hm : m.memory.Fine) {a : Action} (ha : a.Ready m.memory) :
    (a.plan m).Meets (delivery F) (Delivered F m Memory.Storable) := by
  cases a with
  | execute s p =>
    have hcells : ∀ c ∈ [Cell.scope s], c ∈ m.memory.made := by simpa [Action.Ready] using ha
    have hbody : (Plan.holding [.scope s] (Plan.ask (.statements s p.body.body))).Delivers F m
        fun n flow => n.Storable flow.value :=
      Plan.delivers_holding hm hcells (fun hfine => delivers_askStatements hfine List.mem_cons_self _) fun _ _ _ => id
    exact hbody.bind fun flow m₁ h₁ hflow => Plan.delivers_pure h₁.fine hflow
  | call callee args =>
    obtain ⟨hcallee, hargs⟩ := ha
    have hcells := Memory.Storable.cells_subset hargs
    have hsound : (m.memory.holding (Value.cells args)).Sound callee := hcallee.holding hm _
    have hresolved : (Plan.holding (Value.cells args) (Plan.now (resolve {} callee))).Delivers F m Memory.Storable :=
      Plan.delivers_holding hm hcells (fun hfine => (delivers_resolve hfine hsound).now) fun _ _ _ => id
    exact hresolved.bind fun f m₁ h₁ hf =>
      Plan.delivers_ask (.invoke f args {}) h₁.fine ⟨hf, fun v hv => (hargs v hv).mono h₁.made⟩

/-- In an action of the host no reference dangles. -/
structure Action.FollowsReferences (host : Host σ) (limit : Nat) (a : Action) (m : Machine σ) : Prop where
  /-- The tasks that are spoken of are those of the action. -/
  course : Finishes host limit (a.plan m) (a.run host limit m).1 (a.run host limit m).2
  /-- A cell is alive exactly while it is held from outside or by a cell that is alive. -/
  alive : ∀ x, (a.plan m).Reaches host limit x → ∀ c, x.machine.memory.isAlive c = true ↔
    c ∈ x.machine.memory.held ∨ ∃ d, x.machine.memory.isAlive d = true ∧ c ∈ x.machine.memory.holds d
  /-- Only a function of the host could raise the fault of a dangling reference. -/
  raised : ∀ x, (a.plan m).Reaches host limit x → ¬x.task.CallsHost → ∀ key span,
    ¬x.Raises host limit ⟨.danglingReference key, span⟩
  quiet : ∀ key span, ¬Raises host limit ⟨.danglingReference key, span⟩ (a.plan m)
  /-- No task ends with that fault, unless the host makes it up. -/
  done : host.Spares → ∀ x, (a.plan m).Reaches host limit x → ∀ f m',
    Finishes host limit (x.task.plan host limit x.machine) (.error f) m' → f.Holds
  answered : host.Spares → ∀ f, (a.run host limit m).1 = .error f → f.Holds
  after : (a.run host limit m).2.memory.Fine

theorem tolerant_ne {key : String} {span : Span} : Tolerant (· ≠ ⟨.danglingReference key, span⟩) := by
  rintro e place he ⟨⟩
  exact he key rfl

/-- What one action does. -/
theorem followsReferences (hhost : host.Grounded) (hm : m.memory.Fine) {a : Action} (ha : a.Ready m.memory) :
    a.FollowsReferences host limit m := by
  obtain ⟨hends, htasks⟩ := (delivers_action hm ha).runs (kept_delivery limit tolerant_any hhost
    (fun _ _ _ _ _ => HostStep.admits_any (fun _ => trivial) _ _) _)
  have hcourse := a.finishes_run host limit m
  have hspares (hs : host.Spares) := (delivers_action hm ha).runs
    (kept_delivery limit tolerant_holds hhost (fun n span args m s => (hs n span args m s).admits span) _)
  refine ⟨hcourse, fun x hx c => (htasks x hx).1.1.intact.isAlive_iff, ?_, ?_, ?_, ?_, ?_⟩
  · intro x hx hcalls key span
    obtain ⟨⟨hfine, hready⟩, -⟩ := htasks x hx
    exact not_raises_of_delivers hhost (delivers_plan tolerant_ne hhost (fun h => absurd h hcalls) hfine hready)
  · exact fun key span => not_raises_of_delivers hhost (delivers_action hm ha)
  · exact fun hs x hx f m' hrun => (((hspares hs).2 x hx).2 _ _ hrun).fault f rfl
  · exact fun hs f hf => ((hspares hs).1 _ _ hcourse).fault f hf
  · exact (hends _ _ hcourse).onward.fine

/-- What a host passes is as it must be whenever it acts. -/
def ReadyAll (host : Host σ) (limit : Nat) : List Action → Machine σ → Prop
  | [], _ => True
  | a :: rest, m => a.Ready m.memory ∧ ReadyAll host limit rest (a.run host limit m).2

end Runs

/-- Whatever a host does one after another with scripts and their functions: starting from a memory that stores no
reference, with functions of the host that store, pass and return none, no function of the evaluator raises the fault
of a dangling reference, and where the functions of the host do not make it up, nothing ends with it. -/
theorem no_reference_dangles {host : Host σ} (hhost : host.Grounded) (limit : Nat) {m : Machine σ} (hm : m.memory.Fine)
    (before : List Action) (a : Action) (hready : ReadyAll host limit (before ++ [a]) m) :
    a.FollowsReferences host limit (session host limit before m) := by
  induction before generalizing m with
  | nil => exact followsReferences hhost hm hready.1
  | cons b rest ih =>
    have hb : b.FollowsReferences host limit m := followsReferences hhost hm hready.1
    exact ih hb.after hready.2

/-- A host of one function, which answers its argument. -/
def echoHost : Host Unit where
  call _ _ args m s := .finish (.ok (args.headD .undefined)) m s

/-- A machine with one scope, in which `f` is the function of that host. -/
def echoMachine : Machine Unit := ⟨{ scopes := #[⟨[("f", .native ⟨0⟩)], none, 0⟩] }, 0, ()⟩

/-- The program `return f({ x: { y: 2 } }).x.y;`, without places. -/
def temporaryProgram : Program :=
  let name (x : String) : Operand := .var ⟨x, .use, {}⟩
  let inner : Expression := .leaf (.object [⟨"y", .leaf (.value (.int 2)) {}⟩]) {}
  let outer : Expression := .leaf (.object [⟨"x", inner⟩]) {}
  let call : Operand := .call (.leaf (name "f") {}) [outer]
  let access (a : Operand) (x : String) : Operand := .expression (.binary a ⟨.child, {}⟩ (name x) {})
  ⟨⟨[⟨.prefixed ⟨.ret, {}⟩ (access (access call "x") "y") {}, {}⟩], {}⟩⟩

/-- The properties of an object that only the call has are read while it is there. -/
theorem no_reference_dangles_temporary :
    (Action.execute ⟨0⟩ temporaryProgram).FollowsReferences echoHost 5
        (session echoHost 5 [] echoMachine) ∧
      (execute echoHost 5 ⟨0⟩ temporaryProgram echoMachine).1 = .ok (.int 2) := by
  have hhost : echoHost.Grounded := by
    intro n span args m s hm hargs
    refine ⟨hm, le_rfl, ?_⟩
    rintro v ⟨⟩
    cases args with
    | nil => exact Memory.storable_of_isScalar trivial
    | cons a rest => exact hargs a List.mem_cons_self
  have hscope : .scope ⟨0⟩ ∈ echoMachine.memory.made := Nat.zero_lt_one
  have hmachine : echoMachine.memory.Fine := by
    refine ⟨⟨?_, ?_, ?_⟩, fun c hc => by cases hc⟩
    · rintro c hc d hd
      match c, hc with
      | .object ⟨n⟩, hc => exact absurd hc (Nat.not_lt_zero n)
      | .scope ⟨0⟩, _ => cases hd
      | .scope ⟨n + 1⟩, hc => exact absurd (Nat.lt_of_succ_lt_succ hc) (Nat.not_lt_zero n)
      | .closure ⟨n⟩, hc => exact absurd hc (Nat.not_lt_zero n)
    · intro s b hb
      match s with
      | ⟨0⟩ =>
        obtain rfl := List.mem_singleton.1 hb
        simp [Value.type]
      | ⟨n + 1⟩ => cases hb
    · intro o p hp
      cases hp
  -- values have no decidable equality, so it is the number in the answer that is decided
  have htwo : (execute echoHost 5 ⟨0⟩ temporaryProgram echoMachine).1.toOption.bind Value.asInt? = some 2 := by
    decide +kernel
  refine ⟨no_reference_dangles hhost 5 hmachine [] _ ⟨hscope, trivial⟩, ?_⟩
  generalize (execute echoHost 5 ⟨0⟩ temporaryProgram echoMachine).1 = answer at htwo ⊢
  obtain _ | v := answer
  · cases htwo
  · cases v with
    | int n =>
      obtain rfl := Option.some.inj htwo
      rfl
    | _ => cases htwo

end GameScript
