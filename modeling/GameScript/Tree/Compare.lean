import GameScript.Tree.Shape

/-!
# The first difference between two programs

`Program.diff` compares two programs without their spans and reports the first place at which they differ, from the
left, with a path such as `body[2].a.callee`.
-/

namespace GameScript

/-- A step into a tree. -/
inductive PathStep
  | statement (index : Nat)
  | left
  | right
  | property (key : String)
  | block
  | functionBody
  | callee
  | argument (index : Nat)
deriving DecidableEq, Repr

/-- The text of a step. -/
def PathStep.text : PathStep → String
  | statement i => "body[" ++ toString i ++ "]"
  | left => "a"
  | right => "b"
  | property key => "\x7b" ++ key ++ "\x7d"
  | block => "scope"
  | functionBody => "fn"
  | callee => "callee"
  | argument i => "arguments[" ++ toString i ++ "]"

/-- A place at which two trees differ, and what stands there in each. -/
structure Mismatch where
  path : List PathStep
  expected : String
  found : String
deriving DecidableEq, Repr

namespace Mismatch

/-- The text of the path; the root has one of its own. -/
def pathText (m : Mismatch) : String :=
  if m.path.isEmpty then "<root>" else ".".intercalate (m.path.map PathStep.text)

/-- The whole report. -/
def text (m : Mismatch) : String := "at " ++ m.pathText ++ ": expected " ++ m.expected ++ ", found " ++ m.found

/-- A mismatch right here. -/
def here (expected found : String) : Option Mismatch := some ⟨[], expected, found⟩

/-- A mismatch found below a step, seen from above it. -/
def under (step : PathStep) (m : Option Mismatch) : Option Mismatch :=
  m.map fun m => { m with path := step :: m.path }

end Mismatch

open Mismatch

/-- A number of things. -/
def countOf (n : Nat) (things : String) : String := toString n ++ " " ++ things

/-- How a report calls an operator, or that there is none. -/
def operatorText : Option OperatorKind → String
  | none => "no operator"
  | some k => k.quoted

/-- How a report calls a name. -/
def Variable.listed (v : Variable) : String := "variable `" ++ v.name ++ "` (" ++ v.role.name ++ ")"

/-- How a report calls parameters. -/
def parametersText (ps : List String) : String := "parameters (" ++ ", ".intercalate ps ++ ")"

mutual

/-- The first difference between two operands. -/
def Operand.diff : Operand → Operand → Option Mismatch
  | .value a, .value b => if a == b then none else here a.listed b.listed
  | .var a, .var b => if a.name = b.name ∧ a.role = b.role then none else here a.listed b.listed
  | .object ps, .object qs =>
    if ps.length = qs.length then Property.diffList ps qs
    else here (countOf ps.length "properties") (countOf qs.length "properties")
  | .block s, .block t => under .block (s.diff t)
  | .expression e, .expression f => e.diff f
  | .function ps s, .function qs t =>
    if ps = qs then under .functionBody (s.diff t) else here (parametersText ps) (parametersText qs)
  | .call e es, .call f fs =>
    (under .callee (e.diff f)).or <|
      if es.length = fs.length then Expression.diffList 0 es fs
      else here (countOf es.length "arguments") (countOf fs.length "arguments")
  | a, b => here a.kindName b.kindName
  termination_by structural tree => tree

/-- The first difference between two lists of properties of one length. -/
def Property.diffList : List Property → List Property → Option Mismatch
  | ⟨k, e⟩ :: ps, ⟨l, f⟩ :: qs =>
    if k = l then (under (.property k) (e.diff f)).or (Property.diffList ps qs)
    else here ("property `" ++ k ++ "`") ("property `" ++ l ++ "`")
  | _, _ => none
  termination_by structural tree => tree

/-- The first difference between two scopes. -/
def Scope.diff : Scope → Scope → Option Mismatch
  | ⟨ss, _⟩, ⟨ts, _⟩ =>
    if ss.length = ts.length then Statement.diffList 0 ss ts
    else here (countOf ss.length "statements") (countOf ts.length "statements")
  termination_by structural tree => tree

/-- The first difference between two lists of statements of one length, the first of which has the given number. -/
def Statement.diffList (index : Nat) : List Statement → List Statement → Option Mismatch
  | ⟨e, _⟩ :: ss, ⟨f, _⟩ :: ts => (under (.statement index) (e.diff f)).or (Statement.diffList (index + 1) ss ts)
  | _, _ => none
  termination_by structural tree => tree

/-- The first difference between two expressions. -/
def Expression.diff : Expression → Expression → Option Mismatch
  | ⟨a, o, b, _⟩, ⟨c, p, d, _⟩ =>
    if o.map Operator.kind = p.map Operator.kind then
      (under .left (Operand.diffSlot a c)).or (under .right (Operand.diffSlot b d))
    else here (operatorText (o.map Operator.kind)) (operatorText (p.map Operator.kind))
  termination_by structural tree => tree

/-- The first difference between two slots. -/
def Operand.diffSlot : Option Operand → Option Operand → Option Mismatch
  | none, none => none
  | some a, some b => a.diff b
  | some a, none => here a.kindName "nothing"
  | none, some b => here "nothing" b.kindName
  termination_by structural tree => tree

/-- The first difference between two lists of expressions of one length, the first of which has the given number. -/
def Expression.diffList (index : Nat) : List Expression → List Expression → Option Mismatch
  | e :: es, f :: fs => (under (.argument index) (e.diff f)).or (Expression.diffList (index + 1) es fs)
  | _, _ => none
  termination_by structural tree => tree

end

/-- The first difference between two programs, spans aside. -/
def Program.diff (expected found : Program) : Option Mismatch := expected.body.diff found.body

end GameScript
