import GameScript.Tree.Shape
import Mathlib.Data.List.Forall2

/-!
# Function bodies in blocks

`Scope.Wraps k body s` says that a scope consists of `k` blocks, each of which is the only statement around the next
one, and of the statements of `body` inside. Two trees are the same but for such blocks around the bodies of functions
(`Operand.Nests` and its sisters) when wherever one has a function, the other one has a function whose body stands in
some number of blocks, the same or none. Everything else is the same but for places, which correspond as a relation
says: to put a body into blocks moves what is written behind it.

A body may be put into blocks when its own statements declare no name of a parameter: `Statement.declaresAll` are the
names that statements declare in the scope they are run in, and not in a block or a function of theirs.

Main statements: every tree is the same as itself in this sense (`Operand.nests_refl` and its sisters), so that single
functions may be chosen; and the slots of two such trees are filled alike (`Expression.Nests.checkShape_eq`).
-/

namespace GameScript

/-! ## Names that are declared -/

/-- The name that an operand declares where it is assigned to. -/
def Operand.declaredName : Option Operand → List String
  | some (.var ⟨name, .declare, _⟩) => [name]
  | _ => []

mutual

/-- The names that the evaluation of an operand declares in the scope it is evaluated in. -/
def Operand.declares : Operand → List String
  | .value _ => []
  | .var _ => []
  | .object ps => Property.declaresAll ps
  | .block _ => []
  | .expression e => e.declares
  | .function _ _ => []
  | .call e es => e.declares ++ Expression.declaresAll es

/-- The names that the evaluation of properties declares. -/
def Property.declaresAll : List Property → List String
  | [] => []
  | ⟨_, e⟩ :: ps => e.declares ++ Property.declaresAll ps

/-- The names that an expression declares in the scope it is evaluated in. -/
def Expression.declares : Expression → List String
  | ⟨left, op, right, _⟩ =>
    (if op.map Operator.kind = some .assign then Operand.declaredName (if left.isSome then left else right) else [])
      ++ Operand.declaresSlot left ++ Operand.declaresSlot right

/-- The names that the evaluation of a slot declares. -/
def Operand.declaresSlot : Option Operand → List String
  | none => []
  | some a => a.declares

/-- The names that the evaluation of expressions declares. -/
def Expression.declaresAll : List Expression → List String
  | [] => []
  | e :: es => e.declares ++ Expression.declaresAll es

end

/-- The names that statements declare in the scope they are run in. -/
def Statement.declaresAll (body : List Statement) : List String := body.flatMap fun s => s.body.declares

/-! ## Blocks around statements -/

/-- A block as a statement. -/
def Scope.statement (s : Scope) (inner outer : Span) : Statement := ⟨⟨some (.block s), none, none, inner⟩, outer⟩

/-- A scope that is `k` nested blocks with some statements inside, wherever the blocks are written. -/
inductive Scope.Wraps : Nat → List Statement → Scope → Prop
  | bare {body : List Statement} {span : Span} : Scope.Wraps 0 body ⟨body, span⟩
  | block {k : Nat} {body : List Statement} {s : Scope} {inner outer span : Span} (h : Scope.Wraps k body s) :
      Scope.Wraps (k + 1) body ⟨[s.statement inner outer], span⟩

/-! ## Trees that are the same but for such blocks -/

section Nests

variable (P : Span → Span → Prop)

mutual

/-- Operands that are the same but for blocks around the bodies of functions, at places that correspond. -/
inductive Operand.Nests : Operand → Operand → Prop
  | value (literal : Literal) : Operand.Nests (.value literal) (.value literal)
  | var {name : String} {role : VariableRole} {span span' : Span} (hspan : P span span') :
      Operand.Nests (.var ⟨name, role, span⟩) (.var ⟨name, role, span'⟩)
  | object {ps qs : List Property} (h : List.Forall₂ Property.Nests ps qs) : Operand.Nests (.object ps) (.object qs)
  | block {body body' : List Statement} {span span' : Span} (h : List.Forall₂ Statement.Nests body body')
      (hspan : P span span') : Operand.Nests (.block ⟨body, span⟩) (.block ⟨body', span'⟩)
  | expression {e f : Expression} (h : Expression.Nests e f) : Operand.Nests (.expression e) (.expression f)
  | function {parameters : List String} {body body' : List Statement} {span : Span} {k : Nat} {t : Scope}
      (h : List.Forall₂ Statement.Nests body body') (hwraps : Scope.Wraps k body' t)
      (hfree : k ≠ 0 → (Statement.declaresAll body).Disjoint parameters) :
      Operand.Nests (.function parameters ⟨body, span⟩) (.function parameters t)
  | call {e f : Expression} {es fs : List Expression} (he : Expression.Nests e f)
      (hes : List.Forall₂ Expression.Nests es fs) : Operand.Nests (.call e es) (.call f fs)

/-- Properties that are the same but for blocks around the bodies of functions, at places that correspond. -/
inductive Property.Nests : Property → Property → Prop
  | mk {key : String} {e f : Expression} (h : Expression.Nests e f) : Property.Nests ⟨key, e⟩ ⟨key, f⟩

/-- Statements that are the same but for blocks around the bodies of functions, at places that correspond. -/
inductive Statement.Nests : Statement → Statement → Prop
  | mk {e f : Expression} {span span' : Span} (h : Expression.Nests e f) : Statement.Nests ⟨e, span⟩ ⟨f, span'⟩

/-- Expressions that are the same but for blocks around the bodies of functions, at places that correspond. -/
inductive Expression.Nests : Expression → Expression → Prop
  | mk {left left' right right' : Option Operand} {op op' : Option Operator} {span span' : Span}
      (hleft : Option.Rel Operand.Nests left left') (hop : op.map Operator.kind = op'.map Operator.kind)
      (hright : Option.Rel Operand.Nests right right') (hspan : P span span') :
      Expression.Nests ⟨left, op, right, span⟩ ⟨left', op', right', span'⟩

end

/-- Programs that are the same but for blocks around the bodies of functions, at places that correspond. -/
def Program.Nests (p q : Program) : Prop := List.Forall₂ (Statement.Nests P) p.body.body q.body.body

end Nests

/-! ## A tree and itself -/

section Refl

variable {P : Span → Span → Prop}

mutual

theorem Operand.nests_refl (hP : ∀ span, P span span) : ∀ a : Operand, a.Nests P a
  | .value _ => .value _
  | .var ⟨_, _, span⟩ => .var (hP span)
  | .object ps => .object (Property.nestsAll_refl hP ps)
  | .block ⟨body, span⟩ => .block (Statement.nestsAll_refl hP body) (hP span)
  | .expression e => .expression (e.nests_refl hP)
  | .function _ ⟨body, _⟩ => .function (Statement.nestsAll_refl hP body) .bare fun h => absurd rfl h
  | .call e es => .call (e.nests_refl hP) (Expression.nestsAll_refl hP es)

theorem Property.nestsAll_refl (hP : ∀ span, P span span) : ∀ ps : List Property, List.Forall₂ (Property.Nests P) ps ps
  | [] => .nil
  | ⟨_, e⟩ :: ps => .cons (.mk (e.nests_refl hP)) (Property.nestsAll_refl hP ps)

theorem Statement.nestsAll_refl (hP : ∀ span, P span span) :
    ∀ body : List Statement, List.Forall₂ (Statement.Nests P) body body
  | [] => .nil
  | ⟨e, _⟩ :: rest => .cons (.mk (e.nests_refl hP)) (Statement.nestsAll_refl hP rest)

theorem Expression.nests_refl (hP : ∀ span, P span span) : ∀ e : Expression, e.Nests P e
  | ⟨left, _, right, span⟩ =>
    .mk (Operand.nestsSlot_refl hP left) rfl (Operand.nestsSlot_refl hP right) (hP span)

theorem Operand.nestsSlot_refl (hP : ∀ span, P span span) : ∀ a : Option Operand, Option.Rel (Operand.Nests P) a a
  | none => .none
  | some a => .some (a.nests_refl hP)

theorem Expression.nestsAll_refl (hP : ∀ span, P span span) :
    ∀ es : List Expression, List.Forall₂ (Expression.Nests P) es es
  | [] => .nil
  | e :: es => .cons (e.nests_refl hP) (Expression.nestsAll_refl hP es)

end

end Refl

/-! ## Slots -/

section Slots

variable {P : Span → Span → Prop} {e f : Expression} {a b : Option Operand}

theorem isSome_eq_of_nests (h : Option.Rel (Operand.Nests P) a b) : a.isSome = b.isSome := by cases h <;> rfl

namespace Expression.Nests

theorem left (h : e.Nests P f) : Option.Rel (Operand.Nests P) e.left f.left := by
  cases h
  assumption

theorem right (h : e.Nests P f) : Option.Rel (Operand.Nests P) e.right f.right := by
  cases h
  assumption

theorem operator?_eq (h : e.Nests P f) : e.operator? = f.operator? := by
  cases h
  assumption

theorem span (h : e.Nests P f) : P e.span f.span := by
  cases h
  assumption

/-- The same slots are filled. -/
theorem checkShape_eq (h : e.Nests P f) : e.checkShape = f.checkShape := by
  have hop := h.operator?_eq
  unfold Expression.operator? at hop
  unfold Expression.checkShape
  rw [isSome_eq_of_nests h.left, isSome_eq_of_nests h.right]
  generalize e.op = op, f.op = op' at hop
  rcases op with _ | ⟨kind, _⟩ <;> rcases op' with _ | ⟨kind', _⟩ <;> cases hop <;> rfl

end Expression.Nests

end Slots

end GameScript
