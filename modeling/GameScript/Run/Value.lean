import GameScript.Tree.Basic

/-!
# Values

What expressions evaluate to. Scalars are values of their own; objects, closures and host functions are known by an
identity, and what an object holds is kept in memory. A `Reference` names a property of an object; an anchored one
also keeps the object alive.
-/

namespace GameScript

/-- The identity of an object. -/
structure ObjectId where
  index : Nat
deriving DecidableEq, Hashable, Repr, Inhabited

/-- The identity of a scope. -/
structure ScopeId where
  index : Nat
deriving DecidableEq, Hashable, Repr, Inhabited

/-- The identity of a closure. -/
structure ClosureId where
  index : Nat
deriving DecidableEq, Hashable, Repr, Inhabited

/-- The identity of a function of the host. -/
structure NativeId where
  index : Nat
deriving DecidableEq, Repr, Inhabited

/-- A property of an object, there or not. -/
structure Reference where
  object : ObjectId
  key : String
  /-- Whether the reference keeps the object alive. -/
  anchored : Bool
deriving DecidableEq, Repr

/-- What an expression evaluates to. -/
inductive Value
  | undefined
  | bool (b : Bool)
  | int (n : Int64)
  | float (x : Float)
  | string (s : String)
  | object (id : ObjectId)
  | reference (r : Reference)
  | closure (id : ClosureId)
  | native (id : NativeId)
deriving Repr, Inhabited

/-- The types of values. Closures and host functions share one. -/
inductive ValueType
  | undefined | bool | int | float | string | object | reference | callable
deriving DecidableEq, Repr

/-- The name of a type. -/
def ValueType.name : ValueType → String
  | undefined => "undefined"
  | bool => "bool"
  | int => "int"
  | float => "float"
  | string => "string"
  | object => "object"
  | reference => "reference"
  | callable => "callable"

namespace Value

/-- The type of a value. -/
def type : Value → ValueType
  | undefined => .undefined
  | bool _ => .bool
  | int _ => .int
  | float _ => .float
  | string _ => .string
  | object _ => .object
  | reference _ => .reference
  | closure _ => .callable
  | native _ => .callable

/-- The value of a literal. -/
def ofLiteral : Literal → Value
  | .undefined => undefined
  | .bool b => bool b
  | .int n => int n
  | .float x => float x
  | .string s => string s

/-- Equality as scripts see it: scalars of one type by content, floating-point numbers as numbers, objects and
functions by identity, references by the property that they name; `false` across types. -/
def equals : Value → Value → Bool
  | undefined, undefined => true
  | bool a, bool b => a == b
  | int a, int b => a == b
  | float a, float b => a == b
  | string a, string b => a == b
  | object a, object b => a == b
  | reference r, reference s => r.object == s.object && r.key == s.key
  | closure a, closure b => a == b
  | native a, native b => a == b
  | _, _ => false

/-- The truth value that a value is. -/
def asBool? : Value → Option Bool
  | bool b => some b
  | _ => none

/-- The integer that a value is. -/
def asInt? : Value → Option Int64
  | int n => some n
  | _ => none

/-- The string that a value is. -/
def asString? : Value → Option String
  | string s => some s
  | _ => none

/-- The object that a value is. -/
def asObject? : Value → Option ObjectId
  | object o => some o
  | _ => none

end Value

end GameScript
