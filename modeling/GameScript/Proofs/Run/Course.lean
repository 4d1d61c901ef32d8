import GameScript.Run.Evaluate

/-!
# The course of an evaluation

Evaluation is done by functions that call each other: one runs the statements of a scope, one a statement, one
evaluates an expression, one an operand, and so on, down to the one that calls a closure. A `Task` is a call of such a
function with its arguments, and `Task.plan` is what the function does: a `Course`, which either has ended or asks for
a task to be done at a machine and goes on with the outcome. Nothing bounds the tasks here but the counter of the
machine, which the call of a closure compares with the limit.

`Finishes` follows a course to its end, the tasks that it asks for included, and `Activates` relates a task at a machine
to those that it asks for on the way. An outcome is unique (`Finishes.unique`).
-/

namespace GameScript

open Eval

/-- What a task answers. -/
inductive Kind
  | flow | value | reference

/-- The answers of a kind. -/
abbrev Kind.Answer : Kind → Type
  | flow => Flow
  | value => Value
  | reference => Reference

/-- The call of a function of the evaluator. -/
inductive Task : Kind → Type
  /-- To run the statements of a scope. -/
  | statements (scope : ScopeId) (body : List Statement) : Task .flow
  | statement (scope : ScopeId) (s : Statement) : Task .flow
  /-- To run the statements of a block in a scope of their own. -/
  | block (scope : ScopeId) (s : Scope) : Task .flow
  | expression (scope : ScopeId) (e : Expression) : Task .value
  | operand (scope : ScopeId) (span : Span) (a : Operand) : Task .value
  /-- To find the property that an expression accesses. -/
  | property (scope : ScopeId) (e : Expression) : Task .reference
  | assignment (scope : ScopeId) (e : Expression) : Task .value
  | compound (scope : ScopeId) (base : OperatorKind) (e : Expression) : Task .value
  | step (scope : ScopeId) (op : OperatorKind) (e : Expression) : Task .value
  /-- To call a value. -/
  | invoke (callee : Value) (arguments : List Value) (span : Span) : Task .value
  /-- To call a closure. -/
  | enter (closure : ClosureId) (arguments : List Value) (span : Span) : Task .value

/-- What is done: it has ended, or it asks for a task at a machine and goes on with the outcome. -/
inductive Course (σ : Type) (α : Type) : Type
  | ended (result : Except RuntimeFault α) (machine : Machine σ)
  | asks {k : Kind} (task : Task k) (machine : Machine σ)
      (resume : Except RuntimeFault k.Answer → Machine σ → Course σ α)

/-- One course and then, from where it ends, another one. -/
def Course.andThen {σ α β : Type} (next : Except RuntimeFault α → Machine σ → Course σ β) : Course σ α → Course σ β
  | ended result machine => next result machine
  | asks task machine resume => asks task machine fun result m => (resume result m).andThen next

theorem Course.andThen_andThen {σ α β γ : Type} (c : Course σ α) (f : Except RuntimeFault α → Machine σ → Course σ β)
    (g : Except RuntimeFault β → Machine σ → Course σ γ) :
    (c.andThen f).andThen g = c.andThen fun r m => (f r m).andThen g := by
  induction c with
  | ended r m => rfl
  | asks task m resume ih => exact congrArg (Course.asks task m) (funext fun r => funext fun m => ih r m)

/-- A course for every machine to start from. -/
def Plan (σ α : Type) := Machine σ → Course σ α

theorem Eval.bind_apply {σ α β : Type} (act : Eval σ α) (f : α → Eval σ β) (m : Machine σ) :
    (act >>= f) m = match act m with
      | (.ok a, m') => f a m'
      | (.error e, m') => (.error e, m') := by
  simp only [bind, ExceptT.bind, ExceptT.mk, StateT.bind]
  rcases act m with ⟨_ | _, _⟩ <;> rfl

namespace Plan

variable {σ α β : Type}

instance : Monad (Plan σ) where
  pure a := fun m => .ended (.ok a) m
  bind act f := fun m => (act m).andThen fun
    | .ok a, m => f a m
    | .error e, m => .ended (.error e) m

/-- Does a computation that asks for no task. -/
def now (act : Eval σ α) : Plan σ α := fun m => .ended (act m).1 (act m).2

/-- Has a task done. -/
def ask {k : Kind} (task : Task k) : Plan σ k.Answer := fun m => .asks task m .ended

/-- Has something done while cells are held. -/
def holding (cells : List Cell) (act : Plan σ α) : Plan σ α := fun m =>
  (act { m with memory := m.memory.holding cells }).andThen fun result m' =>
    .ended result { m' with memory := { m'.memory with held := m.memory.held } }

/-- Has something done as the body of one more script function. -/
def deeper (act : Plan σ α) : Plan σ α := fun m =>
  (act { m with depth := m.depth + 1 }).andThen fun result m' => .ended result { m' with depth := m'.depth - 1 }

/-- Takes a failure as an answer. -/
def attempt (act : Plan σ α) : Plan σ (Except RuntimeFault α) := fun m =>
  (act m).andThen fun result m => .ended (.ok result) m

/-! ## Parts of evaluation -/

/-- What the operand in a slot stands for. -/
def slotValue (scope : ScopeId) (span : Span) : Option Operand → Plan σ Value
  | none => now (fail span (.malformedExpression .missingOperand))
  | some a => do now (resolve span (← ask (.operand scope span a)))

/-- The value of the parent of a property, and whether it is a name. -/
def parentValue (scope : ScopeId) (span : Span) : Option Operand → Plan σ (Value × Bool)
  | none => now (fail span (.malformedExpression .missingObject))
  | some a => do return (← ask (.operand scope span a), a.isName)

/-- The target that the operand in a slot is. -/
def target (scope : ScopeId) (span : Span) (mayDeclare : Bool) : Option Operand → Plan σ Target
  | some (.var ⟨name, .use, _⟩) => return .existing name
  | some (.var ⟨name, .declare, _⟩) =>
    if mayDeclare then return .declare name else now (fail span .invalidAssignmentTarget)
  | some (.expression e) =>
    if e.operator? = some .child then return .property (← ask (.property scope e))
    else now (fail span .invalidAssignmentTarget)
  | _ => now (fail span .invalidAssignmentTarget)

/-- The values of arguments, after those that are evaluated already. -/
def values (scope : ScopeId) (before : List Value) : List Expression → Plan σ (List Value)
  | [] => return before
  | e :: rest => do
    let v ← ask (.expression scope e)
    let v ← now (resolve e.span v)
    holding (Value.cells [v]) (values scope (before ++ [v]) rest)

/-- Evaluates the properties of an object literal and writes them one by one. -/
def properties (scope : ScopeId) (o : ObjectId) : List Property → Plan σ Unit
  | [] => return ()
  | ⟨key, e⟩ :: rest => do
    let v ← ask (.expression scope e)
    let v ← now (resolve e.span v)
    now do setMemory ((← memory).setProperty o key v)
    properties scope o rest

/-- Runs statements in order, up to the first that returns. -/
def statements (scope : ScopeId) : List Statement → Plan σ Flow
  | [] => return .completed
  | s :: rest => do
    match ← ask (.statement scope s) with
    | .completed => statements scope rest
    | .returning v => return .returning v

/-- Does what a function of the host asks for, until it is finished. -/
def hostStep (span : Span) : HostStep σ → Plan σ Value
  | .finish result memory state => do
    now (adopt memory state)
    now (Eval.lift span result)
  | .enter closure arguments kept memory state resume => do
    now (adopt memory state)
    let answer : Except RuntimeFault Value ←
      attempt (holding (.closure closure :: Value.cells kept) (ask (.enter closure arguments {})))
    let m : Machine σ ← now get
    let memory := m.memory.holding (Value.cells (answer.toOption.toList ++ kept))
    hostStep span (resume (answer.mapError RuntimeFault.error) memory m.state)

end Plan

/-- The slot that an expression writes to: the left one, or else the right one. -/
def Expression.written (e : Expression) : Option Operand := if e.left.isSome then e.left else e.right

section

variable {σ : Type}

open Plan

/-! ## What the functions do -/

/-- What the evaluation of an expression does, which passes assignments, steps and accesses on. -/
def Plan.expression (scope : ScopeId) (e : Expression) : Plan σ Value :=
  match e.checkShape with
  | some fault => now (fail e.span (.malformedExpression (.shape fault)))
  | none =>
    match e.op with
    | none =>
      match e.left with
      | some a => ask (.operand scope e.span a)
      | none => now (fail e.span (.malformedExpression (.shape .empty)))
    | some ⟨kind, _⟩ =>
      match kind.compoundBase with
      | some base => ask (.compound scope base e)
      | none =>
        match kind with
        | .ret => now (fail e.span .returnNotAllowed)
        | .assign => ask (.assignment scope e)
        | .inc => ask (.step scope .inc e)
        | .dec => ask (.step scope .dec e)
        | .child => do return .reference (← ask (.property scope e))
        | .not => do now (negate e.span (← slotValue scope e.span e.right))
        | _ => do
          let a ← slotValue scope e.span e.left
          let b ← holding (Value.cells [a]) (slotValue scope e.span e.right)
          now (Eval.lift e.span (applyBinary kind a b))

/-- What the evaluation of an operand does. -/
def Plan.operand (scope : ScopeId) (span : Span) : Operand → Plan σ Value
  | .value literal => return .ofLiteral literal
  | .var ⟨name, .declare, place⟩ => now (fail place (.malformedExpression (.declarationAsValue name)))
  | .var ⟨name, .use, place⟩ => now do Eval.lift place ((← memory).lookup scope name)
  | .object ps => do
    let o ← now (create (·.newObject []))
    holding [.object o] (properties scope o ps)
    return .object o
  | .block block => do
    match ← ask (.block scope block) with
    | .completed => return .undefined
    | .returning _ => now (fail block.span .returnNotAllowed)
  | .expression e => ask (.expression scope e)
  | .function parameters body => do return .closure (← now (create (·.newClosure ⟨parameters, body, scope⟩)))
  | .call callee arguments => do
    let f ← ask (.expression scope callee)
    let f ← now (resolve callee.span f)
    let args ← holding (Value.cells [f]) (values scope [] arguments)
    ask (.invoke f args span)

/-- What the running of a statement does. -/
def Plan.statement (scope : ScopeId) : Statement → Plan σ Flow
  | ⟨⟨none, some ⟨.ret, _⟩, some value, span⟩, _⟩ => do
    return .returning (← now (resolve span (← ask (.operand scope span value))))
  | ⟨⟨some (.block block), none, none, _⟩, _⟩ => ask (.block scope block)
  | ⟨e, _⟩ => do
    let _ ← ask (.expression scope e)
    return .completed

/-- What an assignment does. -/
def Plan.assignment (scope : ScopeId) (e : Expression) : Plan σ Value := do
  let v ← slotValue scope e.span e.right
  holding (Value.cells [v]) do
    let t ← target scope e.span true e.written
    now (updateMemory e.span (t.write v scope))
  return v

/-- What a compound assignment does. -/
def Plan.compound (scope : ScopeId) (base : OperatorKind) (e : Expression) : Plan σ Value := do
  let v ← slotValue scope e.span e.right
  holding (Value.cells [v]) do
    let t ← target scope e.span false e.written
    let current ← now do Eval.lift e.span (t.read (← memory) scope)
    let updated ← now (Eval.lift e.span (applyBinary base current v))
    now (updateMemory e.span (t.write updated scope))
    return updated

/-- What a step up or down does. -/
def Plan.step (scope : ScopeId) (op : OperatorKind) (e : Expression) : Plan σ Value := do
  let t ← target scope e.span false e.written
  now (stepBy op e.left.isNone scope e.span (pure t))

/-- What the call of a closure does: it is refused when as many script functions as may are being called. -/
def Plan.enter (limit : Nat) (c : ClosureId) (arguments : List Value) (span : Span) : Plan σ Value := do
  let m : Machine σ ← now get
  if limit ≤ m.depth then now (fail span (.callDepthExceeded limit))
  else
    let f := m.memory.closure c
    let (scope, memory) ← now (Eval.lift span (m.memory.newFunctionScope f.scope f.parameters arguments))
    now (setMemory memory)
    let flow ← deeper (holding [.scope scope] (ask (.statements scope f.body.body)))
    return flow.value

/-- What a function of the evaluator does. -/
def Task.plan (host : Host σ) (limit : Nat) : {k : Kind} → Task k → Plan σ k.Answer
  | _, .statements scope body => Plan.statements scope body
  | _, .statement scope s => Plan.statement scope s
  | _, .block scope s => do
    let inner ← now (create (·.newScope (some scope)))
    Plan.holding [.scope inner] (ask (.statements inner s.body))
  | _, .expression scope e => Plan.expression scope e
  | _, .operand scope span a => Plan.operand scope span a
  | _, .property scope e => do
    let key ← now (memberName e.span e.right)
    let (parent, named) ← parentValue scope e.span e.left
    now (referenceTo e.span key named parent)
  | _, .assignment scope e => Plan.assignment scope e
  | _, .compound scope base e => Plan.compound scope base e
  | _, .step scope op e => Plan.step scope op e
  | _, .invoke (.closure c) arguments span => Plan.holding [.closure c] (ask (.enter c arguments span))
  | _, .invoke (.native n) arguments span => do
    let m : Machine σ ← now get
    Plan.hostStep span (host.call n span arguments (m.memory.holding (Value.cells arguments)) m.state)
  | _, .invoke other _ span => now (fail span (.notCallable other.type))
  | _, .enter c arguments span => Plan.enter limit c arguments span

/-- What the running of a program in a scope does. -/
def Program.plan (scope : ScopeId) (p : Program) : Plan σ Value := do
  let flow ← Plan.holding [.scope scope] (ask (.statements scope p.body.body))
  return flow.value

/-- What the call of a value from the host does. -/
def callPlan (callee : Value) (arguments : List Value) : Plan σ Value := do
  let f ← Plan.holding (Value.cells arguments) (now (resolve {} callee))
  ask (.invoke f arguments {})

end

/-! ## What is done for a call -/

section Calls

variable {σ : Type} {limit : Nat} {span : Span}

/-- What is done for a function of the host that calls a closure: once memory and state are taken over, the closure is
called, and the function goes on with the answer. -/
theorem hostStep_enter (c : ClosureId) (args kept : List Value) (k : Memory) (state : σ)
    (resume : Except RuntimeError Value → Memory → σ → HostStep σ) (m : Machine σ) :
    Plan.hostStep span (.enter c args kept k state resume) m =
      ((Plan.holding (.closure c :: Value.cells kept) (Plan.ask (.enter c args {}))).attempt
        { m with memory := { k with held := m.memory.held }, state := state }).andThen fun
        | .ok answer, m' => Plan.hostStep span (resume (answer.mapError RuntimeFault.error)
            (m'.memory.holding (Value.cells (answer.toOption.toList ++ kept))) m'.state) m'
        | .error e, m' => .ended (.error e) m' := rfl

/-- What is done for a function of the host that calls a closure, as one call and what comes behind it. -/
theorem hostStep_enter_eq (c : ClosureId) (args kept : List Value) (k : Memory) (state : σ)
    (resume : Except RuntimeError Value → Memory → σ → HostStep σ) (m : Machine σ) :
    Plan.hostStep span (.enter c args kept k state resume) m =
      (Plan.holding (.closure c :: Value.cells kept) (Plan.ask (.enter c args {}))
        { m with memory := { k with held := m.memory.held }, state := state }).andThen fun answer m' =>
          Plan.hostStep span (resume (answer.mapError RuntimeFault.error)
            (m'.memory.holding (Value.cells (answer.toOption.toList ++ kept))) m'.state) m' := by
  rw [hostStep_enter, Plan.attempt, Course.andThen_andThen]
  rfl

/-- What is done in the body of a script function, for the value that it returns. -/
def Plan.body (act : Plan σ Flow) : Plan σ Value := do
  let flow ← Plan.deeper act
  return flow.value

/-- What the call of a closure does where it is not refused. -/
theorem enter_eq {c : ClosureId} {args : List Value} {m : Machine σ} (h : ¬limit ≤ m.depth) :
    Plan.enter limit c args span m =
      match m.memory.newFunctionScope (m.memory.closure c).scope (m.memory.closure c).parameters args with
      | .ok (s, k) => Plan.body (Plan.holding [.scope s] (Plan.ask (.statements s (m.memory.closure c).body.body)))
          { m with memory := k }
      | .error e => .ended (.error ⟨e, span⟩) m := by
  show (if limit ≤ m.depth then _ else _ : Plan σ Value) m = _
  rw [if_neg h]
  cases m.memory.newFunctionScope (m.memory.closure c).scope (m.memory.closure c).parameters args <;> rfl

end Calls

/-! ## What a host does -/

/-- What a host does with scripts: it runs a program in a scope, or it calls a value. -/
inductive Action
  | execute (scope : ScopeId) (program : Program)
  | call (callee : Value) (arguments : List Value)

namespace Action

variable {σ : Type}

/-- What the host passes. -/
def arguments : Action → List Value
  | execute _ _ => []
  | call _ args => args

/-- What happens. -/
def run (host : Host σ) (limit : Nat) : Action → Eval σ Value
  | execute scope p => GameScript.execute host limit scope p
  | call callee args => callValue host limit callee args

/-- What happens, task by task. -/
def plan : Action → Plan σ Value
  | execute scope p => p.plan scope
  | call callee args => callPlan callee args

end Action

/-- The machine after some actions, one after another, whether they fail or not. -/
def session {σ : Type} (host : Host σ) (limit : Nat) (actions : List Action) (m : Machine σ) : Machine σ :=
  actions.foldl (fun m a => (a.run host limit m).2) m

/-! ## Runs -/

section Runs

variable {σ α β : Type} (host : Host σ) (limit : Nat)

/-- A course ends with a result at a machine when every task that it asks for on the way is done. -/
inductive Finishes : {α : Type} → Course σ α → Except RuntimeFault α → Machine σ → Prop
  | ended {α : Type} (result : Except RuntimeFault α) (m : Machine σ) : Finishes (.ended result m) result m
  | asks {α : Type} {k : Kind} {task : Task k} {m m' m'' : Machine σ}
      {resume : Except RuntimeFault k.Answer → Machine σ → Course σ α} {answer : Except RuntimeFault k.Answer}
      {result : Except RuntimeFault α} (hdone : Finishes (task.plan host limit m) answer m')
      (hrest : Finishes (resume answer m') result m'') : Finishes (.asks task m resume) result m''

/-- A task at a machine. -/
structure Activation (σ : Type) where
  kind : Kind
  task : Task kind
  machine : Machine σ

/-- A course asks for a task at a machine, after what it asked for before is done. -/
inductive Asks : {α : Type} → Course σ α → Activation σ → Prop
  | first {α : Type} {k : Kind} {task : Task k} {m : Machine σ}
      {resume : Except RuntimeFault k.Answer → Machine σ → Course σ α} : Asks (.asks task m resume) ⟨k, task, m⟩
  | later {α : Type} {k : Kind} {task : Task k} {m m' : Machine σ}
      {resume : Except RuntimeFault k.Answer → Machine σ → Course σ α} {answer : Except RuntimeFault k.Answer}
      {x : Activation σ} (hdone : Finishes host limit (task.plan host limit m) answer m')
      (hrest : Asks (resume answer m') x) : Asks (.asks task m resume) x

/-- One task at a machine asks for another one while it is done. -/
def Activation.Activates (x y : Activation σ) : Prop := Asks host limit (x.task.plan host limit x.machine) y

variable {host limit}

/-- A course ends in one way only. -/
theorem Finishes.unique {c : Course σ α} {r r' : Except RuntimeFault α} {m m' : Machine σ}
    (h : Finishes host limit c r m) (h' : Finishes host limit c r' m') : r = r' ∧ m = m' := by
  induction h generalizing m' with
  | ended =>
    cases h'
    exact ⟨rfl, rfl⟩
  | asks _ _ ihdone ihrest =>
    cases h' with
    | asks hdone' hrest' =>
      obtain ⟨rfl, rfl⟩ := ihdone hdone'
      exact ihrest hrest'

end Runs

end GameScript
