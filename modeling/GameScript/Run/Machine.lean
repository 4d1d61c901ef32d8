import GameScript.Run.Liveness

/-!
# Machines and hosts

A `Machine` is the state of a run: memory, the number of script functions that are being called, and whatever the host
keeps for its own functions. `Eval` is a computation on machines that may fail; what it did before it failed stays
done.

A function of the host answers a call with a `HostStep`: it is finished, or it calls a closure of the script first and
goes on with the result. A step is a finite tree for every answer that the closure may give, so no function of the
host goes on for ever by itself.

The arguments of a call belong to what is called. A closure has them in its scope; a function of the host holds them
while it works, but when it calls a closure it goes on holding only what it says.
-/

namespace GameScript

/-- What a function of the host does next: it finishes, or it calls a closure and resumes with the answer. During that
call the closure and the values that are `kept` are held; of its own arguments the function lets go what it does not
keep. -/
inductive HostStep (σ : Type)
  | finish (result : Except RuntimeError Value) (memory : Memory) (state : σ)
  | enter (closure : ClosureId) (arguments kept : List Value) (memory : Memory) (state : σ)
      (resume : Except RuntimeError Value → Memory → σ → HostStep σ)

/-- The functions of a host that keeps a state of type `σ`. They are told where in the script they are called. In the
memory that one of them is given its arguments are held; what it does to what is held ends with it. -/
structure Host (σ : Type) where
  call : NativeId → Span → List Value → Memory → σ → HostStep σ

/-- What a function of the host does to call any value, to give the arguments away and to finish with the answer. -/
def Host.callStep {σ : Type} (host : Host σ) (callee : Value) (arguments : List Value) (memory : Memory) (state : σ) :
    HostStep σ :=
  match memory.resolve callee with
  | .error e => .finish (.error e) memory state
  | .ok (.closure c) => .enter c arguments [] memory state .finish
  | .ok (.native n) => host.call n {} arguments memory state
  | .ok other => .finish (.error (.notCallable other.type)) memory state

/-- The state of a run. -/
structure Machine (σ : Type) where
  memory : Memory
  /-- How many script functions are being called. -/
  depth : Nat
  state : σ

/-- A computation on machines that may fail. -/
abbrev Eval (σ : Type) := ExceptT RuntimeFault (StateM (Machine σ))

namespace Eval

variable {σ α : Type}

/-- Fails at a place. -/
def fail (span : Span) (error : RuntimeError) : Eval σ α := throw ⟨error, span⟩

/-- Fails at a place if there is an error. -/
def lift (span : Span) : Except RuntimeError α → Eval σ α
  | .ok a => pure a
  | .error e => fail span e

/-- What memory holds now. -/
def memory : Eval σ Memory := do return (← get).memory

/-- Replaces memory. -/
def setMemory (memory : Memory) : Eval σ Unit := modify fun m => { m with memory := memory }

/-- Replaces memory, unless that failed. -/
def updateMemory (span : Span) (change : Memory → Except RuntimeError Memory) : Eval σ Unit := do
  setMemory (← lift span (change (← memory)))

/-- Makes something in memory. -/
def create (make : Memory → α × Memory) : Eval σ α := fun m =>
  match make m.memory with
  | (a, memory) => (.ok a, { m with memory := memory })

/-- What a value stands for. -/
def resolve (span : Span) (v : Value) : Eval σ Value := do lift span ((← memory).resolve v)

/-- Runs a computation while cells are held, and then lets them go, also when it fails. -/
def holding (cells : List Cell) (act : Eval σ α) : Eval σ α := fun m =>
  let before := m.memory.held
  match act { m with memory := m.memory.holding cells } with
  | (result, m) => (result, { m with memory := { m.memory with held := before } })

/-- Takes over the memory and the state that a function of the host leaves. What is held stays as it is. -/
def adopt (memory : Memory) (state : σ) : Eval σ Unit :=
  modify fun m => { m with memory := { memory with held := m.memory.held }, state := state }

/-- Runs a computation as the body of one more script function. -/
def deeper (act : Eval σ α) : Eval σ α := fun m =>
  match act { m with depth := m.depth + 1 } with
  | (result, m) => (result, { m with depth := m.depth - 1 })

/-- Runs a computation and takes its failure as an answer. -/
def attempt (act : Eval σ α) : Eval σ (Except RuntimeFault α) := fun m =>
  match act m with
  | (result, m) => (.ok result, m)

end Eval

/-- How a run calls script functions, and which functions its host has. -/
structure Calls (σ : Type) where
  host : Host σ
  /-- Calls a closure with arguments from a place in the script. -/
  enter : ClosureId → List Value → Span → Eval σ Value

namespace Calls

variable {σ : Type}

/-- Does what a function of the host asks for, until it is finished. -/
def finish (calls : Calls σ) (span : Span) : HostStep σ → Eval σ Value
  | .finish result memory state => do
    Eval.adopt memory state
    Eval.lift span result
  | .enter closure arguments kept memory state resume => do
    Eval.adopt memory state
    let answer ← Eval.attempt do
      Eval.holding (.closure closure :: Value.cells kept) (calls.enter closure arguments {})
    let m ← get
    let memory := m.memory.holding (Value.cells (answer.toOption.toList ++ kept))
    calls.finish span (resume (answer.mapError RuntimeFault.error) memory m.state)

/-- Calls a value with arguments from a place in the script. A closure is held during the call. -/
def invoke (calls : Calls σ) (callee : Value) (arguments : List Value) (span : Span) : Eval σ Value :=
  match callee with
  | .closure c => Eval.holding [.closure c] (calls.enter c arguments span)
  | .native n => do
    let m ← get
    calls.finish span (calls.host.call n span arguments (m.memory.holding (Value.cells arguments)) m.state)
  | other => Eval.fail span (.notCallable other.type)

end Calls

end GameScript
