import GameScript.Proofs.Run.Termination
import GameScript.Proofs.Run.Upkeep
import Mathlib

/-!
# References do not outlive their statement

An expression may evaluate to a reference, and so may the call of a host function. But memory stays `ReferenceFree`:
what is bound to a name or put into an object is what a reference stands for, never the reference. A property of a
memory without references holds none, so to follow a reference once is enough; that is why memory, arguments and results
are free of references together or not at all (`referenceFree`, a discipline with a single world).

Main statement: whatever a host does one after another with scripts and their functions, references stay inside
(`references_stay_inside`).
-/

namespace GameScript

/-- No name is bound to a reference, and no property holds one. -/
structure Memory.ReferenceFree (m : Memory) : Prop where
  bindings : ∀ s, ∀ b ∈ (m.scope s).bindings, b.2.type ≠ .reference
  properties : ∀ o, ∀ p ∈ m.properties o, p.2.type ≠ .reference

variable {σ : Type}

/-- A function of the host that stores no reference and passes none to scripts, as long as it is told of none. It may
answer one. -/
def HostStep.StoresNoReference : HostStep σ → Prop
  | .finish _ m _ => m.ReferenceFree
  | .enter _ args _ m _ resume =>
    m.ReferenceFree ∧ (∀ v ∈ args, v.type ≠ .reference) ∧
      ∀ answer m' s, m'.ReferenceFree → (∀ v, answer = .ok v → v.type ≠ .reference) →
        (resume answer m' s).StoresNoReference

/-- A host whose functions store no reference. -/
def Host.StoresNoReference (host : Host σ) : Prop :=
  ∀ n span args m s, m.ReferenceFree → (∀ v ∈ args, v.type ≠ .reference) → (host.call n span args m s).StoresNoReference

/-! ## The discipline -/

section Discipline

variable {m : Memory}

theorem Memory.ReferenceFree.setProperty (h : m.ReferenceFree) {o : ObjectId} {key : String} {v : Value}
    (hv : v.type ≠ .reference) : (m.setProperty o key v).ReferenceFree where
  bindings := h.bindings
  properties p e he := by
    rcases Memory.mem_properties_setProperty he with he | ⟨-, rfl⟩
    · exact h.properties p e he
    · exact hv

theorem Memory.ReferenceFree.bind (h : m.ReferenceFree) {s : ScopeId} {name : String} {v : Value}
    (hv : v.type ≠ .reference) : (m.bind s name v).ReferenceFree where
  bindings t e he := by
    rcases Memory.mem_bindings_bind he with he | ⟨-, rfl⟩
    · exact h.bindings t e he
    · exact hv
  properties := h.properties

theorem Memory.ReferenceFree.newObject (h : m.ReferenceFree) : (m.newObject []).2.ReferenceFree where
  bindings := h.bindings
  properties p e he := by
    by_cases hp : p = (m.newObject []).1
    · rw [hp, Memory.properties_newObject] at he
      cases he
    · exact h.properties p e (Memory.properties_newObject_of_ne hp ▸ he)

theorem Memory.ReferenceFree.newScope (h : m.ReferenceFree) (parent : Option ScopeId) :
    (m.newScope parent).2.ReferenceFree where
  bindings t e he := by
    by_cases ht : t = (m.newScope parent).1
    · rw [ht, Memory.scope_newScope] at he
      cases he
    · exact h.bindings t e (Memory.scope_newScope_of_ne ht ▸ he)
  properties := h.properties

/-- Memory is free of references, and what is bound, put into objects, passed or returned is none. Expressions may
evaluate to references, all programs may run, and every fault may be raised. -/
def referenceFree (σ : Type) : Discipline σ Unit where
  state _ m _ := m.ReferenceFree
  value _ _ := True
  stored _ v := v.type ≠ .reference
  scope _ _ := True
  code _ := True
  fault _ := True
  error _ := True
  value_mono _ := id
  stored_mono _ := id
  scope_mono _ := id
  value_of_stored _ := trivial
  stored_of_isScalar {_ v} h := by cases v <;> first | exact h.elim | simp [Value.type]
  value_reference := by simp [Value.type]
  stored_of_value _ h := h
  state_held h := ⟨h.bindings, h.properties⟩
  stored_property h _ hv := h.properties _ _ (Entries.mem_of_get? hv)
  stored_binding h _ hv := h.bindings _ _ (Entries.mem_of_get? hv)
  scope_parent _ _ _ := trivial
  scope_closure _ _ := trivial
  code_closure _ _ := trivial
  state_setProperty h _ hv := h.setProperty hv
  state_bind h _ hv := h.bind hv
  state_newObject h := ⟨(), le_rfl, h.newObject, by simp [Value.type]⟩
  state_newScope h _ := ⟨(), le_rfl, h.newScope _, trivial⟩
  state_newClosure h _ _ := ⟨(), le_rfl, ⟨h.bindings, h.properties⟩, by simp [Value.type]⟩
  code_child _ _ := trivial
  proper_of_code _ := .inr fun _ => trivial
  fault_of_ordinary _ := trivial
  error_of_fault _ := trivial

theorem step_of_storesNoReference {step : HostStep σ} (h : step.StoresNoReference) :
    (referenceFree σ).Step step () := by
  induction step with
  | finish result m s =>
    refine ⟨(), le_rfl, h, ?_⟩
    cases result <;> trivial
  | enter c args kept m s resume ih =>
    obtain ⟨hm, hargs, hresume⟩ := h
    refine ⟨(), le_rfl, hm, by simp [referenceFree, Value.type], hargs, fun answer m' s' _ _ hm' ha => ?_⟩
    refine ih answer m' s' (hresume answer m' s' hm' fun v hv => ?_)
    subst hv
    exact ha

theorem host_of_storesNoReference {host : Host σ} (h : host.StoresNoReference) : (referenceFree σ).Host host :=
  fun n span args _ m s hm hargs => step_of_storesNoReference (h n span args m s hm hargs)

end Discipline

/-! ## Actions -/

/-- Whether it is a script that answers, and no function of the host. -/
def Action.RunsScript (m : Memory) : Action → Prop
  | .execute _ _ => True
  | .call callee args => ∃ c, (m.holding (Value.cells args)).resolve callee = .ok (.closure c)

/-- The values that a call passes. -/
def Task.arguments : {k : Kind} → Task k → List Value
  | _, .invoke _ args _ => args
  | _, .enter _ args _ => args
  | _, _ => []

/-- Nowhere in an action is a reference stored, passed, or returned by a script. -/
structure Action.KeepsReferencesInside (host : Host σ) (limit : Nat) (a : Action) (m : Machine σ) : Prop where
  /-- The tasks that are spoken of are those of the action. -/
  course : Finishes host limit (a.plan m) (a.run host limit m).1 (a.run host limit m).2
  before : m.memory.ReferenceFree
  after : (a.run host limit m).2.memory.ReferenceFree
  asked : ∀ x, (a.plan m).Reaches host limit x → x.machine.memory.ReferenceFree
  done : ∀ x, (a.plan m).Reaches host limit x → ∀ r m',
    Finishes host limit (x.task.plan host limit x.machine) r m' → m'.memory.ReferenceFree
  passed : ∀ x, (a.plan m).Reaches host limit x → ∀ v ∈ x.task.arguments, v.type ≠ .reference
  returned : ∀ c args span n, (a.plan m).Reaches host limit ⟨_, .enter c args span, n⟩ → ∀ v m',
    Finishes host limit ((Task.enter c args span).plan host limit n) (.ok v) m' → v.type ≠ .reference
  answered : a.RunsScript m.memory → ∀ v, (a.run host limit m).1 = .ok v → v.type ≠ .reference

section Sessions

variable {host : Host σ} {limit : Nat} {m : Machine σ}

theorem kept_referenceFree (hhost : host.StoresNoReference) (R : Activation σ → Prop) :
    (referenceFree σ).contract.Kept host limit R :=
  Discipline.kept (host_of_storesNoReference hhost) (fun _ _ _ _ _ _ _ => trivial) fun _ _ _ _ _ _ _ => trivial

theorem meets_plan (hm : m.memory.ReferenceFree) {a : Action} (ha : ∀ v ∈ a.arguments, v.type ≠ .reference) :
    (a.plan m).Meets (referenceFree σ).contract ((referenceFree σ).Ends () fun _ v =>
      a.RunsScript m.memory → v.type ≠ .reference) := by
  cases a with
  | execute scope p =>
    have h : (referenceFree σ).Keeps () (p.plan scope) (referenceFree σ).stored :=
      Discipline.keeps_program trivial trivial
    exact (h.mono fun _ _ v hv _ => hv) m hm
  | call callee args =>
    by_cases hc : ∃ c, (m.memory.holding (Value.cells args)).resolve callee = .ok (.closure c)
    · obtain ⟨c, hc⟩ := hc
      have h : (callPlan callee args m).Meets (referenceFree σ).contract
          ((referenceFree σ).Ends () (referenceFree σ).stored) := Discipline.meets_callPlan hm trivial ha hc
      exact h.mono fun r m' hend => hend.imp fun _ _ v hv _ => hv
    · have h : (referenceFree σ).Keeps () (callPlan callee args) (referenceFree σ).value :=
        Discipline.keeps_callPlan trivial ha
      exact (h.mono fun _ _ v _ hr => absurd hr hc) m hm

/-- What one action keeps. -/
theorem keepsReferencesInside (hhost : host.StoresNoReference) (hm : m.memory.ReferenceFree) {a : Action}
    (ha : ∀ v ∈ a.arguments, v.type ≠ .reference) : a.KeepsReferencesInside host limit m := by
  obtain ⟨hends, htasks⟩ := (meets_plan hm ha).runs (kept_referenceFree hhost _)
  have hcourse := Action.finishes_run host limit a m
  obtain ⟨_, _, hafter, hanswer⟩ := hends _ _ hcourse
  refine ⟨hcourse, hm, hafter, ?_, ?_, ?_, ?_, ?_⟩
  · intro x hx
    obtain ⟨⟨_, hm', _⟩, _⟩ := htasks x hx
    exact hm'
  · intro x hx r m' hrun
    obtain ⟨⟨w, hx, hallow⟩, hpost⟩ := htasks x hx
    obtain ⟨_, _, hm', _⟩ := hpost r m' hrun w hx hallow
    exact hm'
  · intro x hx
    obtain ⟨⟨_, _, hallow⟩, _⟩ := htasks x hx
    obtain ⟨k, task, n⟩ := x
    cases task with
    | invoke callee args span => exact hallow.2
    | enter c args span => exact hallow.2
    | _ => exact fun v hv => absurd hv List.not_mem_nil
  · intro c args span n hx v m' hrun
    obtain ⟨⟨w, hx, hallow⟩, hpost⟩ := htasks _ hx
    obtain ⟨_, _, _, hv⟩ := hpost _ _ hrun w hx hallow
    exact hv
  · intro hscript v hv
    rw [hv] at hanswer
    exact hanswer hscript

theorem referenceFree_session (hhost : host.StoresNoReference) (actions : List Action)
    (hargs : ∀ b ∈ actions, ∀ v ∈ b.arguments, v.type ≠ .reference) (hm : m.memory.ReferenceFree) :
    (session host limit actions m).memory.ReferenceFree := by
  induction actions generalizing m with
  | nil => exact hm
  | cons b rest ih =>
    have hb : b.KeepsReferencesInside host limit m := keepsReferencesInside hhost hm (hargs b List.mem_cons_self)
    exact ih (fun b hb => hargs b (List.mem_cons_of_mem _ hb)) hb.after

end Sessions

/-- Whatever a host does one after another with scripts and their functions, each of its actions starts without stored
references and stores, passes or returns none, when the functions of the host store none. -/
theorem references_stay_inside {host : Host σ} (hhost : host.StoresNoReference) (limit : Nat) {m : Machine σ}
    (hm : m.memory.ReferenceFree) (before : List Action) (a : Action)
    (hargs : ∀ b ∈ before ++ [a], ∀ v ∈ b.arguments, v.type ≠ .reference) :
    a.KeepsReferencesInside host limit (session host limit before m) := by
  have hbefore : (session host limit before m).memory.ReferenceFree :=
    referenceFree_session hhost before (fun b hb => hargs b (List.mem_append_left _ hb)) hm
  exact keepsReferencesInside hhost hbefore (hargs a (List.mem_append_right _ (List.mem_singleton.2 rfl)))

/-- A host of one function, which answers a reference to a property of its argument. -/
def pointingHost : Host Unit where
  call _ _ args m s :=
    match args with
    | [.object o] => .finish (.ok (.reference ⟨o, "x", true⟩)) m s
    | _ => .finish (.ok .undefined) m s

/-- A machine with one scope, in which `f` is the function of that host. -/
def pointingMachine : Machine Unit := ⟨{ scopes := #[⟨[("f", .native ⟨0⟩)], none, 0⟩] }, 0, ()⟩

/-- The program `return f({ x: 1 });`, without places. -/
def pointingProgram : Program :=
  let f : Expression := .leaf (.var ⟨"f", .use, {}⟩) {}
  let o : Expression := .leaf (.object [⟨"x", .leaf (.value (.int 1)) {}⟩]) {}
  ⟨⟨[⟨.prefixed ⟨.ret, {}⟩ (.call f [o]) {}, {}⟩], {}⟩⟩

/-- A program that returns what a host function answers returns what the reference stands for. -/
theorem references_stay_inside_pointing :
    (Action.execute ⟨0⟩ pointingProgram).KeepsReferencesInside pointingHost 5
        (session pointingHost 5 [.execute ⟨0⟩ pointingProgram] pointingMachine) ∧
      (execute pointingHost 5 ⟨0⟩ pointingProgram pointingMachine).1 = .ok (.int 1) := by
  have hhost : pointingHost.StoresNoReference := by
    intro n span args m s hm _
    simp only [pointingHost]
    split
    · exact hm
    · exact hm
  have hmachine : pointingMachine.memory.ReferenceFree := by
    constructor
    · intro s b hb
      match s with
      | ⟨0⟩ =>
        obtain rfl := List.mem_singleton.1 hb
        simp [Value.type]
      | ⟨n + 1⟩ => cases hb
    · intro o p hp
      cases hp
  refine ⟨references_stay_inside hhost 5 hmachine _ _ fun b hb v hv => ?_, rfl⟩
  obtain rfl : b = .execute ⟨0⟩ pointingProgram := by simpa using hb
  cases hv

end GameScript
