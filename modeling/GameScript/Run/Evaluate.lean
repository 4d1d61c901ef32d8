import GameScript.Run.Machine
import GameScript.Run.Arithmetic

/-!
# Running programs

Expressions evaluate to values, statements run for their effect, and a `return` leaves the function around it through
every block in between (`Flow`). Evaluation follows the tree; only a call leaves it, and how a closure is called is a
parameter (`Calls.enter`). `callWithin` fills it in: a closure's body runs with calls that may go one level less deep,
and where no level is left the call is refused.

What is evaluated first is held until what is evaluated after it is done.
-/

namespace GameScript

open Eval

/-- How a list of statements ends. -/
inductive Flow
  | completed
  | returning (v : Value)

/-- The value of a function or a program whose statements ended so. -/
def Flow.value : Flow → Value
  | completed => .undefined
  | returning v => v

/-- Where a write goes. -/
inductive Target
  | declare (name : String)
  | existing (name : String)
  | property (r : Reference)

namespace Target

/-- What is at a target now. -/
def read (m : Memory) (scope : ScopeId) : Target → Except RuntimeError Value
  | declare name => .error (.undefinedVariable name)
  | existing name => do m.resolve (← m.lookup scope name)
  | property r => m.read r

/-- Puts a value at a target. -/
def write (value : Value) (scope : ScopeId) (target : Target) (m : Memory) : Except RuntimeError Memory :=
  match target with
  | declare name => m.declare scope name value
  | existing name => m.update scope name value
  | property r => m.write r value

end Target

section

variable {σ : Type}

/-! ## Operators on evaluated parts -/

/-- An assignment: the value, then the target, then the write. The value is the result. It is held until it is written,
so a target in an object that only the value keeps alive can be written. -/
def assign (scope : ScopeId) (span : Span) (value : Eval σ Value) (target : Eval σ Target) : Eval σ Value := do
  let v ← value
  holding (Value.cells [v]) do
    let t ← target
    updateMemory span (t.write v scope)
  return v

/-- A compound assignment: the right value, then the target, which is read and written while the right value is
held. -/
def assignWith (op : OperatorKind) (scope : ScopeId) (span : Span) (value : Eval σ Value) (target : Eval σ Target) :
    Eval σ Value := do
  let v ← value
  holding (Value.cells [v]) do
    let t ← target
    let current ← lift span (t.read (← memory) scope)
    let updated ← lift span (applyBinary op current v)
    updateMemory span (t.write updated scope)
    return updated

/-- A step up or down of an integer variable; the result is the new value, or the old one where that is asked for. -/
def stepBy (op : OperatorKind) (yieldsNew : Bool) (scope : ScopeId) (span : Span) (target : Eval σ Target) :
    Eval σ Value := do
  match ← target with
  | .property r => fail span (.typeError (.stepOfProperty op r.key))
  | t =>
    match ← lift span (t.read (← memory) scope) with
    | .int old =>
      let new ← lift span (checked op (if op = .inc then old.toInt + 1 else old.toInt - 1))
      updateMemory span (t.write new scope)
      return if yieldsNew then new else .int old
    | other => fail span (.typeError (.stepOfNonInt op other.type))

/-- The opposite of a truth value. -/
def negate (span : Span) : Value → Eval σ Value
  | .bool b => return .bool (!b)
  | other => fail span (.typeError (.notOfNonBool other.type))

/-- The name after a point. -/
def memberName (span : Span) : Option Operand → Eval σ String
  | some (.var ⟨name, .use, _⟩) => return name
  | other => fail span (.malformedExpression (.memberName (other.map Operand.kindName)))

/-- Whether an operand is a name. -/
def Operand.isName : Operand → Bool
  | .var _ => true
  | _ => false

/-- The reference to a property of a parent. A parent that is reached by a name lives in what the name is bound to, and
what an unanchored reference names lives in its object; any other parent has no owner and is anchored. -/
def referenceTo (span : Span) (key : String) (named : Bool) (parent : Value) : Eval σ Reference := do
  let anchored :=
    match parent with
    | .reference r => !named && r.anchored
    | _ => !named
  match ← resolve span parent with
  | .object o => return ⟨o, key, anchored⟩
  | other => fail span (.notAnObject key other.type)

/-! ## Evaluation -/

mutual

/-- The value of an operand that stands at a place. -/
def Operand.eval (calls : Calls σ) (scope : ScopeId) (span : Span) : Operand → Eval σ Value
  | .value literal => return .ofLiteral literal
  | .var ⟨name, .declare, place⟩ => fail place (.malformedExpression (.declarationAsValue name))
  | .var ⟨name, .use, place⟩ => do lift place ((← memory).lookup scope name)
  | .object properties => do
    let o ← create (·.newObject [])
    holding [.object o] (Property.evalAll calls scope o properties)
    return .object o
  | .block block => do
    match ← block.execInside calls scope with
    | .completed => return .undefined
    | .returning _ => fail block.span .returnNotAllowed
  | .expression e => e.eval calls scope
  | .function parameters body => do return .closure (← create (·.newClosure ⟨parameters, body, scope⟩))
  | .call callee arguments => do
    let f ← callee.eval calls scope
    let f ← resolve callee.span f
    let args ← holding (Value.cells [f]) (Expression.evalAll calls scope [] arguments)
    calls.invoke f args span

/-- Evaluates the properties of an object literal and writes them one by one. -/
def Property.evalAll (calls : Calls σ) (scope : ScopeId) (o : ObjectId) : List Property → Eval σ Unit
  | [] => return ()
  | ⟨key, e⟩ :: rest => do
    let v ← e.eval calls scope
    let v ← resolve e.span v
    setMemory ((← memory).setProperty o key v)
    Property.evalAll calls scope o rest

/-- The values of arguments, after those that are evaluated already. -/
def Expression.evalAll (calls : Calls σ) (scope : ScopeId) (before : List Value) : List Expression → Eval σ (List Value)
  | [] => return before
  | e :: rest => do
    let v ← e.eval calls scope
    let v ← resolve e.span v
    holding (Value.cells [v]) (Expression.evalAll calls scope (before ++ [v]) rest)

/-- What the operand in a slot stands for. -/
def Operand.evalSlot (calls : Calls σ) (scope : ScopeId) (span : Span) : Option Operand → Eval σ Value
  | none => fail span (.malformedExpression .missingOperand)
  | some a => do resolve span (← a.eval calls scope span)

/-- The value of the parent of a property, and whether it is a name. -/
def Operand.evalParent (calls : Calls σ) (scope : ScopeId) (span : Span) : Option Operand → Eval σ (Value × Bool)
  | none => fail span (.malformedExpression .missingObject)
  | some a => do return (← a.eval calls scope span, a.isName)

/-- The target that an operand is for an expression at a place. -/
def Operand.target (calls : Calls σ) (scope : ScopeId) (span : Span) (mayDeclare : Bool) : Operand → Eval σ Target
  | .var ⟨name, .use, _⟩ => return .existing name
  | .var ⟨name, .declare, _⟩ => if mayDeclare then return .declare name else fail span .invalidAssignmentTarget
  | .expression ⟨left, some ⟨.child, _⟩, right, place⟩ => do
    let key ← memberName place right
    let (parent, named) ← Operand.evalParent calls scope place left
    return .property (← referenceTo place key named parent)
  | _ => fail span .invalidAssignmentTarget

/-- The target that the operand in a slot is. -/
def Operand.slotTarget (calls : Calls σ) (scope : ScopeId) (span : Span) (mayDeclare : Bool) :
    Option Operand → Eval σ Target
  | none => fail span .invalidAssignmentTarget
  | some a => a.target calls scope span mayDeclare

/-- The value of an expression; of a property, the reference to it. -/
def Expression.eval (calls : Calls σ) (scope : ScopeId) : Expression → Eval σ Value
  | ⟨left, op, right, span⟩ =>
    match Expression.checkShape ⟨left, op, right, span⟩ with
    | some fault => fail span (.malformedExpression (.shape fault))
    | none =>
      match op with
      | none =>
        match left with
        | some a => a.eval calls scope span
        | none => fail span (.malformedExpression (.shape .empty))
      | some ⟨kind, _⟩ =>
        -- the left operand is the target, or else the right one
        let target (mayDeclare : Bool) :=
          if left.isSome then Operand.slotTarget calls scope span mayDeclare left
          else Operand.slotTarget calls scope span mayDeclare right
        match kind.compoundBase with
        | some base =>
          assignWith base scope span (Operand.evalSlot calls scope span right) (target false)
        | none =>
          match kind with
          | .ret => fail span .returnNotAllowed
          | .assign =>
            assign scope span (Operand.evalSlot calls scope span right) (target true)
          | .inc => stepBy .inc left.isNone scope span (target false)
          | .dec => stepBy .dec left.isNone scope span (target false)
          | .child => do
            let key ← memberName span right
            let (parent, named) ← Operand.evalParent calls scope span left
            return .reference (← referenceTo span key named parent)
          | .not => do negate span (← Operand.evalSlot calls scope span right)
          | _ => do
            let a ← Operand.evalSlot calls scope span left
            let b ← holding (Value.cells [a]) (Operand.evalSlot calls scope span right)
            lift span (applyBinary kind a b)

/-- Runs the statements of a scope in a given scope. -/
def Scope.exec (calls : Calls σ) (scope : ScopeId) : Scope → Eval σ Flow
  | ⟨body, _⟩ => Statement.execAll calls scope body

/-- Runs the statements of a block in a new scope. -/
def Scope.execInside (calls : Calls σ) (scope : ScopeId) : Scope → Eval σ Flow
  | ⟨body, _⟩ => do
    let inner ← create (·.newScope (some scope))
    holding [.scope inner] (Statement.execAll calls inner body)

/-- Runs statements in order, up to the first that returns. -/
def Statement.execAll (calls : Calls σ) (scope : ScopeId) : List Statement → Eval σ Flow
  | [] => return .completed
  | s :: rest => do
    match ← s.exec calls scope with
    | .completed => Statement.execAll calls scope rest
    | .returning v => return .returning v

/-- Runs a statement. A block passes on how it ends, a `return` ends the statements with a value, and any other
expression is evaluated. -/
def Statement.exec (calls : Calls σ) (scope : ScopeId) : Statement → Eval σ Flow
  | ⟨⟨none, some ⟨.ret, _⟩, some value, span⟩, _⟩ => do
    return .returning (← resolve span (← value.eval calls scope span))
  | ⟨⟨some (.block block), none, none, _⟩, _⟩ => block.execInside calls scope
  | ⟨e, _⟩ => do
    let _ ← e.eval calls scope
    return .completed

end

/-! ## Calls -/

/-- Calls a closure when `room` more levels of calls are allowed; where none is left, the call is refused. -/
def callWithin (host : Host σ) (refuse : Span → Eval σ Value) :
    (room : Nat) → ClosureId → List Value → Span → Eval σ Value
  | 0, _, _, span => refuse span
  | room + 1, c, arguments, span => do
    let f := (← memory).closure c
    let (scope, m) ← lift span ((← memory).newFunctionScope f.scope f.parameters arguments)
    setMemory m
    let flow ← deeper (holding [.scope scope] (f.body.exec ⟨host, callWithin host refuse room⟩ scope))
    return flow.value

/-- The refusal of a call beyond the limit. -/
def refuseCall (limit : Nat) (span : Span) : Eval σ Value := fail span (.callDepthExceeded limit)

/-- The calls of a run in which script functions may nest `limit` deep and `depth` are being called already. -/
def callsAt (host : Host σ) (limit depth : Nat) : Calls σ := ⟨host, callWithin host (refuseCall limit) (limit - depth)⟩

/-- Runs a program in a scope. Its value is what it returns. -/
def execute (host : Host σ) (limit : Nat) (scope : ScopeId) (program : Program) : Eval σ Value := do
  let flow ← holding [.scope scope] (program.body.exec (callsAt host limit (← get).depth) scope)
  return flow.value

/-- Calls a value from the host. The arguments are held until it is known what is called. -/
def callValue (host : Host σ) (limit : Nat) (callee : Value) (arguments : List Value) : Eval σ Value := do
  let f ← holding (Value.cells arguments) (resolve {} callee)
  (callsAt host limit (← get).depth).invoke f arguments {}

end

/-- The default limit of nested calls. -/
def defaultCallLimit : Nat := 200

end GameScript
