import GameScript.Proofs.Run.Blocks
import GameScript.Proofs.Run.Limits
import GameScript.Proofs.Run.MirrorPlans
import GameScript.Proofs.Run.Structure

/-!
# Block nesting inside a function is invisible

Where a closure is called whose body stands in `k` blocks, its statements run in a nest of `k + 1` new scopes; without
the blocks they run in one (`mirrors_runInside`, `mirrors_enter`). A function of the host has its own part in it: it
must do the same in a memory and in one that mirrors it (`Host.IgnoresNesting`). Then every task does what a task does
that it mirrors (`Task.Mirrors.plan`), and runs end alike, by induction on the run (`Finishes.mirrors`). So do actions
of the host, one after another (`runsAs_session`).

Main statement: what a host does has the same outcome with programs that are the same but for blocks around the bodies
of functions, whose own statements declare no name of a parameter; and a return at any depth of blocks leaves the
function around it, and no more (`block_nesting_is_invisible`).
-/

namespace GameScript

open Eval

variable {σ α β : Type}

/-! ## Functions of the host -/

/-- What a function of the host does next, called in a memory and in one that mirrors it: the same, and it leaves
memories one of which mirrors the other, but for what it holds; where it calls a closure, it does so again with whatever
answer and memories there are then. -/
inductive HostStep.Mirrors (P : Span → Span → Prop) : Nesting → Memory → Memory → HostStep σ → HostStep σ → Prop
  | finish {w w' : Nesting} {k l m n : Memory} {s : σ} {result : Except RuntimeError Value} (hle : w ≤ w')
      (hm : Memory.Mirrors P w' { m with held := k.held } { n with held := l.held })
      (hresult : ∀ v, result = .ok v → v.Inside w'.made) :
      HostStep.Mirrors P w k l (.finish result m s) (.finish result n s)
  | enter {w w' : Nesting} {k l m n : Memory} {s : σ} {c : ClosureId} {args kept : List Value}
      {resume resume' : Except RuntimeError Value → Memory → σ → HostStep σ} (hle : w ≤ w')
      (hm : Memory.Mirrors P w' { m with held := k.held } { n with held := l.held }) (hc : .closure c ∈ w'.made)
      (hargs : ∀ v ∈ args, v.Inside w'.made) (hkept : ∀ v ∈ kept, v.Inside w'.made)
      (hrest : ∀ w'' k' l' answer s', w' ≤ w'' → Memory.Mirrors P w'' k' l' →
        (∀ v, answer = .ok v → v.Inside w''.made) →
          HostStep.Mirrors P w'' k' l' (resume answer k' s') (resume' answer l' s')) :
      HostStep.Mirrors P w k l (.enter c args kept m s resume) (.enter c args kept n s resume')

/-- A host whose functions do the same in a memory and in one that mirrors it, so that they make nothing of the scope
that a closure was written in, and wherever in correspondence they are called from. -/
def Host.IgnoresNesting (P : Span → Span → Prop) (host : Host σ) : Prop :=
  ∀ native span span' args w k l s, P span span' → Memory.Mirrors P w k l → (∀ v ∈ args, v.Inside w.made) →
    (host.call native span args k s).Mirrors P w k l (host.call native span' args l s)

section Host

variable {P : Span → Span → Prop} {w : Nesting} {host : Host σ} {limit : Nat} {span span' : Span}

theorem mirrors_hostStep (hplace : P {} {}) (hspan : P span span') {k l : Memory} {step step' : HostStep σ}
    (h : step.Mirrors P w k l step') {m n : Machine σ} (hmn : m.Mirrors P w n) {vs : List Value}
    (hvs : ∀ v ∈ vs, v.Inside w.made) (hk : k = m.memory.holding (Value.cells vs))
    (hl : l = n.memory.holding (Value.cells vs)) :
    (Plan.hostStep span step m).Mirrors P Nesting.Fits w (Plan.hostStep span' step' n) := by
  induction h generalizing m n vs with
  | @finish w w' k l k' l' s result hle hm hresult =>
    have hmn' : Machine.Mirrors P w' { m with memory := { k' with held := m.memory.held }, state := s }
        { n with memory := { l' with held := n.memory.held }, state := s } :=
      ⟨hm.heldAs (hmn.memory.held.mono hle), hmn.depth, rfl⟩
    cases result with
    | ok v => exact .ended hle hmn' (.ok (hresult v rfl))
    | error e => exact .ended hle hmn' (.error hspan)
  | @enter w w' k l k' l' s c args kept resume resume' hle hm hc hargs hkept _ ih =>
    have hmn' : Machine.Mirrors P w' { m with memory := { k' with held := m.memory.held }, state := s }
        { n with memory := { l' with held := n.memory.held }, state := s } :=
      ⟨hm.heldAs (hmn.memory.held.mono hle), hmn.depth, rfl⟩
    have hkeeps : ∀ v ∈ Value.closure c :: kept, v.Inside w'.made := by
      refine List.forall_mem_cons.2 ⟨fun d hd => ?_, hkept⟩
      cases hd
      exact hc
    have hask : (Plan.ask (.enter c args {}) : Plan σ Value).Mirrors P Nesting.Fits w' (Plan.ask (.enter c args {})) :=
      Plan.mirrors_ask (k := .value) (.enter hc hargs hplace)
    have hcall := hask.holding (Nesting.held_cells hkeeps) _ _ _ le_rfl hmn'
    rw [hostStep_enter_eq, hostStep_enter_eq]
    refine Course.Mirrors.from (Course.Mirrors.andThen hcall fun w₁ r r' m' n' hle₁ hm' hr => ?_) hle
    rw [← hr.mapError_eq, ← hr.toOption_eq, hm'.state]
    have hanswers : ∀ v ∈ r.toOption.toList ++ kept, v.Inside w₁.made := by
      intro v hv
      rcases List.mem_append.1 hv with hv | hv
      · cases hr with
        | ok h => exact List.mem_singleton.1 hv ▸ h
        | error _ => cases hv
      · exact Nesting.inside_mono hle₁ (hkept v hv)
    exact (ih w₁ _ _ _ _ hle₁ (hm'.memory.holding (Nesting.held_cells hanswers)) (fun v hv => hr.of_ok hv) hm'
      hanswers rfl rfl).from hle₁

theorem mirrors_invoke (hplace : P {} {}) (hhost : host.IgnoresNesting P) {callee : Value} {args : List Value}
    (hcallee : callee.Inside w.made) (hargs : ∀ v ∈ args, v.Inside w.made) (hspan : P span span') :
    ((Task.invoke callee args span).plan host limit).Mirrors P Nesting.Fits w
      ((Task.invoke callee args span').plan host limit) := by
  cases callee with
  | closure c =>
    have hcells : w.Held [.closure c] [.closure c] := Nesting.held_cell hcallee
    exact (Plan.mirrors_ask (k := .value) (.enter (hcallee _ rfl) hargs hspan)).holding hcells
  | native native =>
    intro w₁ m n hle hmn
    have hvalues : ∀ v ∈ args, v.Inside w₁.made := fun v hv => Nesting.inside_mono hle (hargs v hv)
    have hheld := hmn.memory.holding (Nesting.held_cells hvalues)
    have hstep := hhost native span span' args w₁ _ _ m.state hspan hheld hvalues
    have hplan : (Task.invoke (.native native) args span').plan host limit n = Plan.hostStep span'
      (host.call native span' args (n.memory.holding (Value.cells args)) n.state) n := rfl
    rw [hplan, hmn.state]
    exact mirrors_hostStep hplace hspan hstep hmn hvalues rfl rfl
  | _ => exact (mirrors_fail hspan _).now

end Host

/-! ## Calls of closures -/

/-- In a scope alone any names may be reserved for the scopes around: there are none. -/
theorem Memory.Enters.reserve {m m' : Memory} {t : ScopeId} {es : Entries Value} {q : Option ScopeId}
    (h : m.Enters (.single t) es q m') (names : List String) : m.Enters ⟨t, [], names⟩ es q m' where
  intact := h.intact
  rooted := h.rooted
  objects := h.objects
  closures := h.closures
  made := h.made
  new := h.new
  scope := h.scope
  spreads :=
    have hspreads := h.spreads
    { hspreads with outer := fun _ hname => absurd hname List.not_mem_nil }

section Calls

variable {P : Span → Span → Prop} {w : Nesting} {host : Host σ} {limit k : Nat} {span span' : Span}

/-- Statements that are run in the new scope of a call, and the same statements in blocks. -/
theorem mirrors_runInside {m₀ n₀ : Memory} {m n : Machine σ} {s t : ScopeId} {es : Entries Value}
    {parent : Option ScopeId} {body body' : List Statement} {names : List String} (h : m₀.Mirrors P w n₀)
    (hm : m₀.Enters (.single s) es parent m.memory)
    (hn : n₀.Enters (.single t) es (parent.map fun p => (w.nest p).inner) n.memory)
    (hparent : ∀ p, parent = some p → m₀.HasScope p) (hheld : m.memory.held = m₀.held)
    (hheld' : n.memory.held = n₀.held) (hdepth : n.depth = m.depth) (hstate : n.state = m.state)
    (hbody : List.Forall₂ (Statement.Nests P) body body') (hes : k ≠ 0 → ∀ name ∈ es.keys, name ∈ names)
    (hfree : (Statement.declaresAll body).Disjoint names) :
    (Plan.holding [.scope s] (Plan.ask (.statements s body)) m).Mirrors P (Kind.Fits .flow) w
      (Plan.runInside k body' ⟨t, [], names⟩ n) := by
  have hleft : (m.memory.holding [.scope s]).Intact :=
    hm.intact.holding fun c hc => List.mem_singleton.1 hc ▸ hm.spreads.made s List.mem_cons_self
  have hright : (n.memory.holding [.scope t]).Intact :=
    hn.intact.holding fun c hc => List.mem_singleton.1 hc ▸ hn.spreads.made t List.mem_cons_self
  have hholds : (n.memory.holding [.scope t]).HoldsNew ⟨t, [], names⟩ n₀.held :=
    ⟨[t], congrArg (Cell.scope t :: ·) hheld', List.mem_cons_self, fun _ ht => ht⟩
  have hstart : n₀.Enters ⟨t, [], names⟩ es (parent.map fun p => (w.nest p).inner) (n.memory.holding [.scope t]) :=
    (hn.reserve names).heldAs hright.held
  obtain ⟨hinto, hnames, ts, hts, hinner, hmem⟩ := hstart.intoBlocks k hes hholds
  unfold Plan.runInside
  generalize (n.memory.holding [.scope t]).intoBlocks ⟨t, [], names⟩ k = into at hinto hnames hts hinner hmem
  obtain ⟨b, entered⟩ := into
  have hle : w ≤ w.extend s b := w.le_extend b (h.made ▸ hm.new s List.mem_cons_self)
  have hnest : (w.extend s b).nest s = b := Nesting.nest_extend_self w s b
  have hmade : .scope s ∈ (w.extend s b).made := .inl rfl
  have hheldNew : (w.extend s b).Held (m.memory.holding [.scope s]).held entered.held := by
    have hscopes := Nesting.held_scope hmade ts (by rwa [hnest]) (by rwa [hnest])
    rw [hts]
    show (w.extend s b).Held ([.scope s] ++ m.memory.held) _
    rw [hheld]
    exact hscopes.append (h.held.mono hle)
  have hadmits : (w.extend s b).Admits s (Statement.declaresAll body) := by
    refine ⟨hmade, ?_⟩
    rw [hnest, hnames]
    exact hfree
  have htask : Task.Mirrors P (w.extend s b) (.statements s body) (.statements b.inner body') := by
    have htask := Task.Mirrors.statements hadmits hbody
    rwa [hnest] at htask
  refine .asks hle ⟨h.opens (hm.heldAs hleft.held) hinto hparent hheldNew, hdepth, hstate⟩ htask ?_
  intro w₂ r r' m' n' hle₂ hm' hr
  have hbefore : w₂.Held m.memory.held n.memory.held := by
    rw [hheld, hheld']
    exact h.held.mono (hle.trans hle₂)
  exact .ended (hle.trans hle₂) ⟨hm'.memory.heldAs hbefore, hm'.depth, hm'.state⟩ hr

theorem Course.Mirrors.body {act act' : Plan σ Flow} {m n : Machine σ}
    (h : (act { m with depth := m.depth + 1 }).Mirrors P (Kind.Fits .flow) w (act' { n with depth := n.depth + 1 })) :
    (act.body m).Mirrors P Nesting.Fits w (act'.body n) := by
  have hback : (act.deeper m).Mirrors P (Kind.Fits .flow) w (act'.deeper n) := h.andThen fun w₁ r r' m' n' hle hm hr =>
    .ended hle ⟨hm.memory, congrArg (· - 1) hm.depth, hm.state⟩ hr
  refine hback.andThen fun w₁ r r' m' n' hle hm hr => ?_
  cases hr with
  | ok hflow => exact .ended hle hm (.ok hflow)
  | error hspan => exact .ended hle hm (.error hspan)

/-- A closure and the same one with its body in blocks. -/
theorem mirrors_enter {c : ClosureId} {args : List Value} {m n : Machine σ} (hmn : m.Mirrors P w n)
    (hc : .closure c ∈ w.made) (hargs : ∀ v ∈ args, v.Inside w.made) (hspan : P span span') :
    ∃ course, (Plan.enter limit c args span m).Mirrors P Nesting.Fits w course ∧
      course.Follows host limit (Plan.enter limit c args span' n) := by
  by_cases hfull : limit ≤ m.depth
  · refine ⟨_, ?_, .refl _⟩
    show Course.Mirrors P _ w ((if limit ≤ m.depth then _ else _ : Plan σ Value) m)
      ((if limit ≤ n.depth then _ else _ : Plan σ Value) n)
    rw [hmn.depth, if_pos hfull, if_pos hfull]
    exact (mirrors_fail hspan _).now w m n le_rfl hmn
  · have hmade : m.memory.HasClosure c := by rwa [hmn.memory.made] at hc
    have hclosure := hmn.memory.closure c hmade
    have hscope := hmn.memory.intactLeft.closed.scope hmade
    rw [enter_eq hfull, enter_eq (hmn.depth ▸ hfull)]
    generalize m.memory.closure c = f, n.memory.closure c = g at hclosure hscope
    obtain ⟨parameters, body, s⟩ := f
    obtain ⟨parameters', t, s'⟩ := g
    obtain ⟨hfunction, rfl⟩ := hclosure
    cases hfunction with
    | @function _ body body' place k t hbody hwraps hfree =>
      have hnew := hmn.memory.newFunctionScope hscope parameters hargs
      generalize m.memory.newFunctionScope _ _ _ = a, n.memory.newFunctionScope _ _ _ = b at hnew
      rcases a with e | ⟨inner, l⟩ <;> rcases b with e' | ⟨inner', l'⟩
      · obtain rfl : e = e' := hnew
        exact ⟨_, .ended le_rfl hmn (.error hspan), .refl _⟩
      · exact hnew.elim
      · exact hnew.elim
      · obtain ⟨es, hes, hleft, hright, hheld, hheld'⟩ := hnew
        -- no name is reserved where there are no blocks
        refine ⟨Plan.body (Plan.runInside k body' ⟨inner', [], if k = 0 then [] else parameters⟩)
          { n with memory := l' }, Course.Mirrors.body ?_, (follows_runInside host limit hwraps _ _).body⟩
        refine mirrors_runInside hmn.memory hleft hright (fun p hp => Option.some.inj hp ▸ hscope) hheld hheld'
          (congrArg (· + 1) hmn.depth) hmn.state hbody (fun hk => ?_) ?_
        · rwa [if_neg hk]
        · split
          · exact List.disjoint_nil_right _
          · exact hfree ‹_›

end Calls

/-! ## Runs -/

section Runs

variable {P : Span → Span → Prop} {w : Nesting} {host : Host σ} {limit : Nat} {k : Kind} {task task' : Task k}

variable (limit) in
/-- A task does what a task does that it mirrors. -/
theorem Task.Mirrors.plan (hplace : P {} {}) (hhost : host.IgnoresNesting P) (h : task.Mirrors P w task')
    {m n : Machine σ} (hmn : m.Mirrors P w n) : ∃ course, (task.plan host limit m).Mirrors P k.Fits w course ∧
      course.Follows host limit (task'.plan host limit n) := by
  have hsame {act act' : Plan σ k.Answer} (h : act.Mirrors P k.Fits w act') :
      ∃ course, (act m).Mirrors P k.Fits w course ∧ course.Follows host limit (act' n) :=
    ⟨_, h w m n le_rfl hmn, .refl _⟩
  cases h with
  | statements hs h => exact hsame (mirrors_statements hs h)
  | statement hs h => exact hsame (mirrors_statement hs h)
  | block hs h => exact hsame (mirrors_block hs h)
  | expression hs h => exact hsame (mirrors_expression hs h)
  | operand hs h hspan => exact hsame (mirrors_operand hs h hspan)
  | property hs h => exact hsame (mirrors_property hs h)
  | assignment hs hop h => exact hsame (mirrors_assignment hs hop h)
  | compound base hs h => exact hsame (mirrors_compound base hs h)
  | step op hs h => exact hsame (mirrors_step op hs h)
  | invoke hcallee hargs hspan => exact hsame (mirrors_invoke hplace hhost hcallee hargs hspan)
  | enter hc hargs hspan => exact mirrors_enter hmn hc hargs hspan

theorem Task.Mirrors.hostCalls_eq (h : task.Mirrors P w task') : task'.hostCalls = task.hostCalls := by
  cases h with
  | @invoke callee _ _ _ _ _ _ => cases callee <;> rfl
  | _ => rfl

/-- A course and one that mirrors it have the same outcome and make the same calls of functions of the host, by
induction on the run. -/
theorem Finishes.mirrors (hplace : P {} {}) (hhost : host.IgnoresNesting P) {Q : Nesting → α → Prop}
    {c c' : Course σ α} {r : Except RuntimeFault α} {m : Machine σ} (hrun : Finishes host limit c r m)
    (h : c.Mirrors P Q w c') :
    ∃ r' n w', Finishes host limit c' r' n ∧ w ≤ w' ∧ m.Mirrors P w' n ∧ Tallies P (Q w') r r' ∧
      ∀ log, c.MakesCalls host limit log → c'.MakesCalls host limit log := by
  induction hrun generalizing w with
  | ended r m =>
    cases h with
    | ended hle hm hr =>
      refine ⟨_, _, _, .ended _ _, hle, hm, hr, ?_⟩
      rintro log ⟨⟩
      exact .ended _ _
  | asks hdone _ ihdone ihrest =>
    cases h with
    | asks hle hm htask hrest =>
      obtain ⟨course, hmirrors, hfollows⟩ := htask.plan limit hplace hhost hm
      obtain ⟨answer, n, w₁, hfinishes, hle₁, hm₁, hr₁, hcalls₁⟩ := ihdone hmirrors
      obtain ⟨hdone', hcalls'⟩ := hfollows _ _ hfinishes
      obtain ⟨r', n', w₂, hfinishes₂, hle₂, hm₂, hr₂, hcalls₂⟩ := ihrest (hrest _ _ _ _ _ hle₁ hm₁ hr₁)
      refine ⟨r', n', w₂, .asks hdone' hfinishes₂, hle₂, hm₂, hr₂, ?_⟩
      rintro log (_ | ⟨hdone₂, hbelow, hrest₂⟩)
      obtain ⟨rfl, rfl⟩ := hdone.unique hdone₂
      rw [← htask.hostCalls_eq]
      exact .asks hdone' (hcalls' _ (hcalls₁ _ hbelow)) (hcalls₂ _ hrest₂)

end Runs

/-! ## Whole programs -/

section Programs

variable {P : Span → Span → Prop} {p q : Program} {scope : ScopeId}

/-- The world in which a memory mirrors itself: each scope does for itself. -/
def Nesting.same (m : Memory) : Nesting := ⟨m.made, .single⟩

theorem Memory.mirrors_refl {m : Memory} (hP : ∀ span, P span span) (hm : m.Intact) (hroot : m.WellRooted) :
    m.Mirrors P (.same m) m where
  intactLeft := hm
  intactRight := hm
  rootedLeft := hroot
  rootedRight := hroot
  made := rfl
  objects := rfl
  closures := rfl
  closure _ _ := ⟨Operand.nests_refl hP _, rfl⟩
  spreads s hs := by
    have hparent : ((m.scope s).parent.map fun p => ((Nesting.same m).nest p).inner) = (m.scope s).parent :=
      Option.map_id'
    rw [hparent]
    exact .single hs rfl
  onto t ht := ⟨t, ht, List.mem_cons_self⟩
  apart _ _ ht ht' := (List.mem_singleton.1 ht).symm.trans (List.mem_singleton.1 ht')
  held := ⟨hm.held, fun _ hs => hs, fun t ht => ⟨t, ht, List.mem_cons_self⟩, fun _ _ => Iff.rfl⟩

theorem mirrors_program {w : Nesting} (hs : w.Admits scope (Statement.declaresAll p.body.body)) (h : p.Nests P q) :
    (p.plan scope : Plan σ Value).Mirrors P Nesting.Fits w (q.plan (w.nest scope).inner) := by
  have hask := Plan.mirrors_ask (σ := σ) (k := .flow) (.statements hs h)
  have hscope := Nesting.held_scope hs.made [(w.nest scope).inner] List.mem_cons_self fun t ht =>
    List.mem_singleton.1 ht ▸ List.mem_cons_self
  exact (hask.holding hscope).bind fun _ _ _ hflow => Plan.mirrors_pure fun _ hle => Nesting.inside_mono hle hflow

end Programs

/-! ## Actions -/

/-- What a host does when it runs one program or another that is the same but for blocks around the bodies of functions,
in a scope that there was, or when it makes the same call. -/
inductive Action.Nests (P : Span → Span → Prop) (m : Memory) : Action → Action → Prop
  | execute {s : ScopeId} {p q : Program} (hs : m.HasScope s) (h : p.Nests P q) :
      Action.Nests P m (.execute s p) (.execute s q)
  | call (callee : Value) (args : List Value) : Action.Nests P m (.call callee args) (.call callee args)

/-- What a host calls and passes has been made. -/
def Action.Made (K : Set Cell) : Action → Prop
  | .execute _ _ => True
  | .call callee args => callee.Inside K ∧ ∀ v ∈ args, v.Inside K

/-- What a host calls and passes has been made whenever it acts. -/
def MadeAll (host : Host σ) (limit : Nat) : List Action → Machine σ → Prop
  | [], _ => True
  | a :: rest, m => a.Made m.memory.made ∧ MadeAll host limit rest (a.run host limit m).2

/-- Two actions, at two machines, have the same outcome but for scopes that are new since some memory: they end with the
same value, or with the same error at places that correspond, make the same calls of functions of the host in order, and
leave the same objects, in every scope that there was the same bindings, and for each new scope a nest that does for
it. -/
structure Action.RunsAs (P : Span → Span → Prop) (host : Host σ) (limit : Nat) (m : Memory) (a b : Action)
    (k l : Machine σ) : Prop where
  result : Tallies P (fun _ => True) (a.run host limit k).1 (b.run host limit l).1
  calls : ∃ log, (a.plan k).MakesCalls host limit log ∧ (b.plan l).MakesCalls host limit log
  depth : (b.run host limit l).2.depth = (a.run host limit k).2.depth
  state : (b.run host limit l).2.state = (a.run host limit k).2.state
  objects : (b.run host limit l).2.memory.objects = (a.run host limit k).2.memory.objects
  bindings : ∀ s, m.HasScope s →
    ((b.run host limit l).2.memory.scope s).bindings = ((a.run host limit k).2.memory.scope s).bindings
  mirrors : ∃ w, Nesting.same m ≤ w ∧ (a.run host limit k).2.Mirrors P w (b.run host limit l).2

section Actions

variable {P : Span → Span → Prop} {host : Host σ} {limit : Nat} {w : Nesting} {m : Memory} {a b : Action}
  {k l : Machine σ}

theorem Action.Nests.mirrors_plan (hplace : P {} {}) (h : a.Nests P m b) (hle : Nesting.same m ≤ w)
    (hmade : a.Made w.made) : (a.plan : Plan σ Value).Mirrors P Nesting.Fits w b.plan := by
  cases h with
  | @execute s p q hs h =>
    have hnest : w.nest s = .single s := Nesting.nest_eq hle hs
    have hadmits : w.Admits s (Statement.declaresAll p.body.body) := by
      refine ⟨hle.1 hs, ?_⟩
      rw [hnest]
      exact List.disjoint_nil_right _
    have hprogram := mirrors_program (σ := σ) hadmits h
    rwa [hnest] at hprogram
  | call callee args =>
    obtain ⟨hcallee, hargs⟩ := hmade
    refine ((mirrors_resolve hplace hcallee).now.holding (Nesting.held_cells hargs)).bind fun w₁ f hle hf => ?_
    exact Plan.mirrors_ask (k := .value) (.invoke hf (fun v hv => Nesting.inside_mono hle (hargs v hv)) hplace)

/-- One action has the same outcome at a machine that mirrors another one, and leaves one that does. -/
theorem Action.Nests.runs (hplace : P {} {}) (hhost : host.IgnoresNesting P) (limit : Nat) (h : a.Nests P m b)
    (hle : Nesting.same m ≤ w) (hkl : k.Mirrors P w l) (hmade : a.Made k.memory.made) :
    a.RunsAs P host limit m b k l := by
  have hrun := a.finishes_run host limit k
  have hplan := h.mirrors_plan (σ := σ) hplace hle (hkl.memory.made ▸ hmade)
  obtain ⟨r, n, w', hrun', hle', hmirrors, hresult, hcalls⟩ := hrun.mirrors hplace hhost (hplan w k l le_rfl hkl)
  obtain ⟨rfl, rfl⟩ := hrun'.unique (b.finishes_run host limit l)
  obtain ⟨log, hlog⟩ := hrun.exists_makesCalls
  have hgrown := hle.trans hle'
  refine ⟨hresult.imp fun _ _ => trivial, ⟨log, hlog, hcalls log hlog⟩, hmirrors.depth, hmirrors.state,
    hmirrors.memory.objects, fun s hs => ?_, w', hgrown, hmirrors⟩
  have hspreads := hmirrors.memory.spreads s (hmirrors.memory.hasScope (hgrown.1 hs))
  rw [Nesting.nest_eq hgrown hs] at hspreads
  exact hspreads.joined

/-- After actions that have the same outcome one by one, the next ones have it too. -/
theorem runsAs_session (hplace : P {} {}) (hhost : host.IgnoresNesting P) (limit : Nat) {before before' : List Action}
    (hbefore : List.Forall₂ (Action.Nests P m) before before') (hab : a.Nests P m b) (hle : Nesting.same m ≤ w)
    (hkl : k.Mirrors P w l) (hmade : MadeAll host limit (before ++ [a]) k) :
    a.RunsAs P host limit m b (session host limit before k) (session host limit before' l) := by
  induction hbefore generalizing w k l with
  | nil => exact hab.runs hplace hhost limit hle hkl hmade.1
  | cons hfirst _ ih =>
    obtain ⟨w', hle', hkl'⟩ := (hfirst.runs hplace hhost limit hle hkl hmade.1).mirrors
    exact ih hle' hkl' hmade.2

end Actions

/-- **Block nesting inside a function is invisible.** A host runs programs and calls values, one after another, and
another time it runs instead programs that are the same but for blocks around the bodies of functions, whose own
statements declare no name of a parameter. Starting from the same machine, and where the functions of the host make
nothing of scopes, every action has the same outcome. And a function in which the statements up to some place, at any
depth of blocks, end with a return answers its value as they left the machine: nothing behind the place runs, and no
more than the function is left. -/
theorem block_nesting_is_invisible {P : Span → Span → Prop} (hP : ∀ span, P span span) {host : Host σ}
    (hhost : host.IgnoresNesting P) (limit : Nat) {m : Machine σ} (hm : m.memory.Intact) (hroot : m.memory.WellRooted)
    {before before' : List Action} (hbefore : List.Forall₂ (Action.Nests P m.memory) before before') {a b : Action}
    (hab : a.Nests P m.memory b) (hmade : MadeAll host limit (before ++ [a]) m) :
    a.RunsAs P host limit m.memory b (session host limit before m) (session host limit before' m) ∧
      ∀ (refuse : Span → Eval σ Value) (room : Nat) (c : ClosureId) (args : List Value) (span : Span) (k n : Machine σ)
        (xs : List Statement) (v : Value), Statement.UpTo xs (k.memory.closure c).body.body →
          callWith host refuse room xs c args span k = (.ok (.returning v), n) →
            callWithin host refuse (room + 1) c args span k = (.ok v, n) := by
  have hstart : m.Mirrors P (.same m.memory) m := ⟨Memory.mirrors_refl hP hm hroot, rfl, rfl⟩
  exact ⟨runsAs_session (hP {}) hhost limit hbefore hab le_rfl hstart hmade,
    fun _ _ _ _ _ _ _ _ _ hupTo hrun => callWithin_of_returning hupTo hrun⟩

/-- The statements of `let y = x; return () => { return y; };`. -/
def keepingBody : List Statement :=
  let declare : Expression :=
    .binary (.var ⟨"y", .declare, ⟨21, 22⟩⟩) ⟨.assign, ⟨23, 24⟩⟩ (.var ⟨"x", .use, ⟨25, 26⟩⟩) ⟨17, 26⟩
  let inner : Expression := .prefixed ⟨.ret, ⟨43, 49⟩⟩ (.var ⟨"y", .use, ⟨50, 51⟩⟩) ⟨43, 51⟩
  let keep : Expression := .prefixed ⟨.ret, ⟨28, 34⟩⟩ (.function [] ⟨[⟨inner, ⟨43, 51⟩⟩], ⟨41, 54⟩⟩) ⟨28, 54⟩
  [⟨declare, ⟨17, 26⟩⟩, ⟨keep, ⟨28, 54⟩⟩]

/-- The program of `let g = (x) => { … }; return g(1);`, with some body for the function. -/
def keepingProgram (body : Scope) : Program :=
  let declare : Expression :=
    .binary (.var ⟨"g", .declare, ⟨4, 5⟩⟩) ⟨.assign, ⟨6, 7⟩⟩ (.function ["x"] body) ⟨0, 57⟩
  let called : Operand := .call (.leaf (.var ⟨"g", .use, ⟨66, 67⟩⟩) ⟨66, 67⟩) [.leaf (.value (.int 1)) ⟨68, 69⟩]
  ⟨⟨[⟨declare, ⟨0, 57⟩⟩, ⟨.prefixed ⟨.ret, ⟨59, 65⟩⟩ called ⟨59, 70⟩, ⟨59, 70⟩⟩], ⟨0, 71⟩⟩⟩

/-- The body in two blocks. -/
def keepingBlocks : Scope :=
  ⟨[Scope.statement ⟨[Scope.statement ⟨keepingBody, {}⟩ {} {}], {}⟩ {} {}], ⟨15, 57⟩⟩

theorem nests_keepingProgram :
    (keepingProgram ⟨keepingBody, ⟨15, 57⟩⟩).Nests (· = ·) (keepingProgram keepingBlocks) := by
  have hrefl (span : Span) : span = span := rfl
  have hfunction : (Operand.function ["x"] ⟨keepingBody, ⟨15, 57⟩⟩).Nests (· = ·) (.function ["x"] keepingBlocks) :=
    .function (Statement.nestsAll_refl hrefl keepingBody) (.block (.block .bare)) fun _ => by
      rw [show Statement.declaresAll keepingBody = ["y"] from rfl]
      simp
  exact .cons (.mk (.mk (.some (.var rfl)) rfl (.some hfunction) rfl)) (Statement.nestsAll_refl hrefl _)

theorem ignoresNesting_swallowingHost (P : Span → Span → Prop) : swallowingHost.IgnoresNesting P := by
  intro native span span' args w k l s _ hm hargs
  have hscalar (w : Nesting) : (.undefined : Value).Inside w.made := Value.IsScalar.inside (v := .undefined) trivial _
  unfold swallowingHost
  dsimp only
  split
  · rename_i c
    have hc : .closure c ∈ w.made := hargs (.closure c) List.mem_cons_self _ rfl
    refine .enter le_rfl hm hc (List.forall_mem_nil _) (List.forall_mem_nil _) fun w' _ _ answer _ _ hm' hanswer => ?_
    refine .finish le_rfl hm' ?_
    rintro v ⟨⟩
    cases answer with
    | ok v => exact hanswer v rfl
    | error e => exact hscalar w'
  · refine .finish le_rfl hm ?_
    rintro v ⟨⟩
    exact hscalar w

theorem intact_idleMachine : idleMachine.memory.Intact := by
  refine ⟨fun c hc d hd => ?_, nofun⟩
  rcases c with ⟨⟨i⟩⟩ | ⟨⟨_ | i⟩⟩ | ⟨⟨i⟩⟩
  · exact absurd hc (Nat.not_lt_zero i)
  · cases hd
  · exact absurd hc (Nat.not_lt.2 (Nat.le_add_left 1 i))
  · exact absurd hc (Nat.not_lt_zero i)

/-- A machine with the function of `() => { { return 1; 2; } 3; }`. -/
def leavingMachine : Machine Unit :=
  let one : Statement := ⟨.prefixed ⟨.ret, ⟨10, 16⟩⟩ (.value (.int 1)) ⟨10, 18⟩, ⟨10, 18⟩⟩
  let two : Statement := ⟨.leaf (.value (.int 2)) ⟨20, 21⟩, ⟨20, 21⟩⟩
  let three : Statement := ⟨.leaf (.value (.int 3)) ⟨25, 26⟩, ⟨25, 26⟩⟩
  let body : Scope := ⟨[Scope.statement ⟨[one, two], ⟨8, 24⟩⟩ ⟨8, 24⟩ ⟨8, 24⟩, three], ⟨6, 29⟩⟩
  ⟨{ scopes := #[⟨[], none, 0⟩], closures := #[⟨[], body, ⟨0⟩⟩] }, 0, ()⟩

/-- The body of a function that leaves a closure may stand in two blocks: a function of the host that calls the closure
later has the same answer. And nothing behind a return is run. -/
theorem block_nesting_is_invisible_keeping :
    (Action.call (.native ⟨0⟩) [.closure ⟨1⟩]).RunsAs (· = ·) swallowingHost 5 idleMachine.memory
        (.call (.native ⟨0⟩) [.closure ⟨1⟩])
        (session swallowingHost 5 [.execute ⟨0⟩ (keepingProgram ⟨keepingBody, ⟨15, 57⟩⟩)] idleMachine)
        (session swallowingHost 5 [.execute ⟨0⟩ (keepingProgram keepingBlocks)] idleMachine) ∧
      ((Action.call (.native ⟨0⟩) [.closure ⟨1⟩]).run swallowingHost 5
        (session swallowingHost 5 [.execute ⟨0⟩ (keepingProgram keepingBlocks)] idleMachine)).1 = .ok (.int 1) ∧
      (callWithin swallowingHost (refuseCall 5) 5 ⟨0⟩ [] {} leavingMachine).1 = .ok (.int 1) := by
  have hscope : idleMachine.memory.HasScope ⟨0⟩ := Nat.one_pos
  have hsize : ((Action.execute ⟨0⟩ (keepingProgram ⟨keepingBody, ⟨15, 57⟩⟩)).run swallowingHost 5
      idleMachine).2.memory.closures.size = 2 := by cbv
  have hcall {n : Memory} (hn : n.closures.size = 2) : (Action.call (.native ⟨0⟩) [.closure ⟨1⟩]).Made n.made := by
    refine ⟨fun c hc => (by cases hc), fun v hv c hc => ?_⟩
    obtain rfl := List.mem_singleton.1 hv
    cases hc
    show 1 < n.closures.size
    omega
  have hmade : MadeAll swallowingHost 5 [.execute ⟨0⟩ (keepingProgram ⟨keepingBody, ⟨15, 57⟩⟩),
      .call (.native ⟨0⟩) [.closure ⟨1⟩]] idleMachine := ⟨trivial, hcall hsize, trivial⟩
  obtain ⟨hruns, hleaves⟩ := block_nesting_is_invisible (fun _ => rfl) (ignoresNesting_swallowingHost _) 5
    intact_idleMachine wellRooted_idleMachine (.cons (.execute hscope nests_keepingProgram) .nil) (.call _ _) hmade
  have hone := hleaves (refuseCall 5) 4 ⟨0⟩ [] {} leavingMachine _ _ (.int 1)
    (.inside [] [_] ⟨8, 24⟩ ⟨8, 24⟩ ⟨8, 24⟩ (.here [_] [_])) rfl
  exact ⟨hruns, by cbv, congrArg Prod.fst hone⟩

end GameScript
