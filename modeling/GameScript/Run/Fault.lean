import GameScript.Run.Value
import GameScript.Tree.Shape

/-!
# Why a script stops

A `RuntimeError` is a cause, a `RuntimeFault` also the place in the script. The wording is in `RuntimeError.message`.
-/

namespace GameScript

/-- An operand of a type that an operator is not made for. -/
inductive TypeFault
  /-- `++` or `--` on a property. -/
  | stepOfProperty (op : OperatorKind) (key : String)
  /-- `++` or `--` on something else than an integer. -/
  | stepOfNonInt (op : OperatorKind) (found : ValueType)
  /-- `!` on something else than a truth value. -/
  | notOfNonBool (found : ValueType)
  /-- A binary operator on two values of a type. -/
  | undefinedFor (op : OperatorKind) (type : ValueType)
deriving DecidableEq, Repr

/-- The text of a fault. -/
def TypeFault.message : TypeFault → String
  | stepOfProperty op key =>
    "operator " ++ op.quoted ++ " needs an integer variable, found property `" ++ key ++ "`"
  | stepOfNonInt op found => "operator " ++ op.quoted ++ " needs an int, found " ++ found.name
  | notOfNonBool found => "operator `!` needs a bool, found " ++ found.name
  | undefinedFor op type => "operator " ++ op.quoted ++ " is not defined for " ++ type.name

/-- A tree that no script parses to. -/
inductive Malformation
  | shape (fault : ShapeFault)
  | missingOperand
  | missingObject
  | declarationAsValue (name : String)
  /-- Something else than a name after a point; `found` is its kind. -/
  | memberName (found : Option String)
deriving DecidableEq, Repr

/-- The text of a malformation. -/
def Malformation.message : Malformation → String
  | shape fault => fault.message
  | missingOperand => "missing operand"
  | missingObject => "missing object"
  | declarationAsValue name => "declaration of `" ++ name ++ "` used as a value"
  | memberName found => "property name must be a name, found " ++ found.getD "nothing"

/-- Why a script stops. -/
inductive RuntimeError
  | undefinedVariable (name : String)
  | alreadyDefined (name : String)
  | typeError (fault : TypeFault)
  | typeMismatch (op : OperatorKind) (left right : ValueType)
  | divisionByZero
  | integerOverflow (op : OperatorKind)
  | arityMismatch (expected got : Nat)
  | notCallable (found : ValueType)
  | notAnObject (key : String) (found : ValueType)
  | danglingReference (key : String)
  | invalidAssignmentTarget
  | returnNotAllowed
  | malformedExpression (why : Malformation)
  | callDepthExceeded (limit : Nat)
  | host (message : String)
deriving DecidableEq, Repr

/-- A number of arguments in words. -/
def argumentsText (n : Nat) : String := toString n ++ " argument" ++ (if n = 1 then "" else "s")

/-- The text of an error. -/
def RuntimeError.message : RuntimeError → String
  | undefinedVariable name => "undefined variable `" ++ name ++ "`"
  | alreadyDefined name => "variable `" ++ name ++ "` is already defined in this scope"
  | typeError fault => fault.message
  | typeMismatch op left right =>
    "operator " ++ op.quoted ++ " cannot combine " ++ left.name ++ " and " ++ right.name
  | divisionByZero => "division by zero; check divisor before dividing"
  | integerOverflow op => "integer overflow in " ++ op.quoted
  | arityMismatch expected got => "expected " ++ argumentsText expected ++ ", got " ++ toString got
  | notCallable found => found.name ++ " is not callable"
  | notAnObject key found => "cannot read property `" ++ key ++ "` of " ++ found.name
  | danglingReference key => "property `" ++ key ++ "` refers to an object that no longer exists"
  | invalidAssignmentTarget => "invalid assignment target; assign to a variable or a property"
  | returnNotAllowed => "`return` is only allowed as a statement"
  | malformedExpression why => "malformed expression: " ++ why.message
  | callDepthExceeded limit => "call depth limit of " ++ toString limit ++ " exceeded"
  | host message => message

/-- An error and its place in the script. -/
structure RuntimeFault where
  error : RuntimeError
  span : Span
deriving DecidableEq, Repr

end GameScript
