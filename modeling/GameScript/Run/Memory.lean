import GameScript.Run.Fault
import GameScript.Run.Entries

/-!
# Memory

What lives while scripts run: the properties of objects, the scopes, the closures, and what is held from outside.
Objects, scopes and closures are cells, numbered in the order in which they were made and never moved; `Cell` names
any of them.

A scope has bindings of its own and a parent. Looking a name up, or writing to it, finds the nearest scope of the
chain that binds it; declaring a name concerns one scope alone.
-/

namespace GameScript

/-- A scope: its bindings, the scope around it, and how many scopes are around it. -/
structure ScopeCell where
  bindings : Entries Value
  parent : Option ScopeId
  depth : Nat
deriving Inhabited

/-- A function of a script: its parameters, its body, and the scope it was written in. -/
structure Closure where
  parameters : List String
  body : Scope
  scope : ScopeId
deriving Inhabited

/-- Anything that is kept alive by being held. -/
inductive Cell
  | object (id : ObjectId)
  | scope (id : ScopeId)
  | closure (id : ClosureId)
deriving DecidableEq, Hashable, Repr

/-- The cell that a value keeps alive. -/
def Value.cell? : Value → Option Cell
  | .object o => some (.object o)
  | .closure c => some (.closure c)
  | .reference r => if r.anchored then some (.object r.object) else none
  | _ => none

/-- The cells that values keep alive. -/
def Value.cells (vs : List Value) : List Cell := vs.filterMap Value.cell?

/-- All cells, and those that are held from outside: by the host, or by an evaluation that is under way. -/
structure Memory where
  objects : Array (Entries Value) := #[]
  scopes : Array ScopeCell := #[]
  closures : Array Closure := #[]
  held : List Cell := []
deriving Inhabited

namespace Memory

/-! ## Objects -/

/-- The properties of an object. -/
def properties (m : Memory) (o : ObjectId) : Entries Value := m.objects.getD o.index []

/-- Makes an object. -/
def newObject (m : Memory) (properties : Entries Value) : ObjectId × Memory :=
  (⟨m.objects.size⟩, { m with objects := m.objects.push properties })

/-- The value of a property. -/
def property? (m : Memory) (o : ObjectId) (key : String) : Option Value := (m.properties o).get? key

/-- Writes a property. -/
def setProperty (m : Memory) (o : ObjectId) (key : String) (value : Value) : Memory :=
  { m with objects := m.objects.modify o.index (·.put key value) }

/-! ## Closures -/

/-- The closure of an identity. -/
def closure (m : Memory) (c : ClosureId) : Closure := m.closures.getD c.index default

/-- Makes a closure. -/
def newClosure (m : Memory) (c : Closure) : ClosureId × Memory :=
  (⟨m.closures.size⟩, { m with closures := m.closures.push c })

/-! ## Scopes -/

/-- The scope of an identity. -/
def scope (m : Memory) (s : ScopeId) : ScopeCell := m.scopes.getD s.index default

/-- How deep a scope with this parent is; a root has depth 0. -/
def depthUnder (m : Memory) : Option ScopeId → Nat
  | none => 0
  | some p => (m.scope p).depth + 1

/-- Makes a scope with a parent, or a root without one. -/
def newScope (m : Memory) (parent : Option ScopeId) : ScopeId × Memory :=
  (⟨m.scopes.size⟩, { m with scopes := m.scopes.push ⟨[], parent, m.depthUnder parent⟩ })

/-- A scope and those around it, from the inside, at most `bound` of them. -/
def chainUpTo (m : Memory) : (bound : Nat) → ScopeId → List ScopeId
  | 0, _ => []
  | bound + 1, s =>
    match (m.scope s).parent with
    | none => [s]
    | some p => s :: chainUpTo m bound p

/-- A scope and those around it, from the inside. -/
def chain (m : Memory) (s : ScopeId) : List ScopeId := m.chainUpTo ((m.scope s).depth + 1) s

/-- Whether a scope binds a name itself. -/
def hasLocal (m : Memory) (s : ScopeId) (name : String) : Bool := (m.scope s).bindings.has name

/-- Gives a name in one scope a value. -/
def bind (m : Memory) (s : ScopeId) (name : String) (value : Value) : Memory :=
  { m with scopes := m.scopes.modify s.index fun c => { c with bindings := c.bindings.put name value } }

/-- The nearest scope that binds a name. -/
def binder? (m : Memory) (s : ScopeId) (name : String) : Option ScopeId := (m.chain s).find? (m.hasLocal · name)

/-- The value of the nearest binding of a name. -/
def lookup (m : Memory) (s : ScopeId) (name : String) : Except RuntimeError Value :=
  match (m.chain s).findSome? fun t => (m.scope t).bindings.get? name with
  | some value => .ok value
  | none => .error (.undefinedVariable name)

/-- Overwrites the nearest binding of a name. -/
def update (m : Memory) (s : ScopeId) (name : String) (value : Value) : Except RuntimeError Memory :=
  match m.binder? s name with
  | some t => .ok (m.bind t name value)
  | none => .error (.undefinedVariable name)

/-- Declares a name in a scope that does not bind it yet. -/
def declare (m : Memory) (s : ScopeId) (name : String) (value : Value) : Except RuntimeError Memory :=
  if m.hasLocal s name then .error (.alreadyDefined name) else .ok (m.bind s name value)

/-- Declares names with values in a scope, one after another. -/
def declareAll (m : Memory) (s : ScopeId) : List (String × Value) → Except RuntimeError Memory
  | [] => .ok m
  | (name, value) :: rest => do (← m.declare s name value).declareAll s rest

/-- Makes a child of a scope in which each parameter is bound to its argument. -/
def newFunctionScope (m : Memory) (parent : ScopeId) (parameters : List String) (arguments : List Value) :
    Except RuntimeError (ScopeId × Memory) :=
  if parameters.length = arguments.length then do
    let (s, m) := m.newScope (some parent)
    return (s, ← m.declareAll s (parameters.zip arguments))
  else .error (.arityMismatch parameters.length arguments.length)

/-! ## Holding -/

/-- The cells that a cell keeps alive. -/
def holds (m : Memory) : Cell → List Cell
  | .object o => Value.cells ((m.properties o).map Prod.snd)
  | .scope s =>
    ((m.scope s).parent.map Cell.scope).toList ++ Value.cells ((m.scope s).bindings.map Prod.snd)
  | .closure c => [.scope (m.closure c).scope]

/-- How many cells there are. -/
def cellCount (m : Memory) : Nat := m.objects.size + m.scopes.size + m.closures.size

/-- Every cell. -/
def cells (m : Memory) : List Cell :=
  (List.range m.objects.size).map (fun i => .object ⟨i⟩)
    ++ (List.range m.scopes.size).map (fun i => .scope ⟨i⟩)
    ++ (List.range m.closures.size).map (fun i => .closure ⟨i⟩)

/-- Holds more cells from outside. -/
def holding (m : Memory) (cells : List Cell) : Memory := { m with held := cells ++ m.held }

end Memory

end GameScript
