import GameScript.Tree.Shape
import Mathlib.Logic.Relation

/-!
# Canonical trees

The types of trees hold more than the grammar can say. A `Node` is a piece of a program together with the position in
which it stands; its `children` are the pieces directly inside it, and `Node.Within` reaches all of them. A piece is
`Proper` when what it is made of suits its position, and canonical when every piece inside it is proper.

Main statements: a piece is canonical when it is proper and what is directly inside it is canonical
(`Node.canonical_iff`), and the forms that readers build keep that (`canonical_leaf`, `canonical_binary`,
`canonical_prefixed`, `canonical_postfixed`), and a canonical expression has one of these forms
(`formed_of_canonical`), as a canonical statement has one of its own (`formedStatement_of_canonical`).
-/

namespace GameScript

/-- A piece of a program and the position in which it stands. -/
inductive Node
  | scope (s : Scope)
  /-- The body of a statement. -/
  | statement (e : Expression)
  /-- An expression that stands for a value. -/
  | expression (e : Expression)
  /-- An operand that stands for a value. -/
  | operand (a : Operand)

/-- Whether an operand is a name in use or the access to a property. -/
def Operand.IsPlace : Operand → Prop
  | .var v => v.role = .use
  | .expression e => e.operator? = some .child
  | _ => False

/-- Whether an operand is a name in use. -/
def Operand.IsUse : Operand → Prop
  | .var v => v.role = .use
  | _ => False

/-- Whether an operand is an expression of its own. -/
def Operand.IsExpression : Operand → Prop
  | .expression _ => True
  | _ => False

namespace Node

/-- The pieces directly inside a piece. A block, a `return` and a declaration are statements of their own form; what is
declared is no piece. -/
def children : Node → List Node
  | scope s => s.body.map fun t => statement t.body
  | statement e =>
    match e with
    | ⟨some (.block s), none, none, _⟩ => [scope s]
    | ⟨none, some ⟨.ret, _⟩, some a, _⟩ => [operand a]
    | ⟨some (.var ⟨_, .declare, _⟩), some ⟨.assign, _⟩, some a, _⟩ => [operand a]
    | e => [expression e]
  | expression e => (e.left.toList ++ e.right.toList).map operand
  | operand a =>
    match a with
    | .value _ | .var _ => []
    | .object ps => ps.map fun p => expression p.value
    | .block s => [scope s]
    | .expression e => [expression e]
    | .function _ s => [scope s]
    | .call e es => expression e :: es.map expression

/-- Whether what a piece is made of suits its position. An expression fills the slots of its operator, which is no
`return`; an assignment has a place on its left and a property access a name on its right; an expression without an
operator is no wrapping of another one. An operand is no block and declares nothing, an expression that it is has an
operator, and the parameters of a function differ. -/
def Proper : Node → Prop
  | scope _ => True
  | statement _ => True
  | expression e =>
    e.WellShaped ∧
      match e.op with
      | none => ∀ a ∈ e.left, ¬a.IsExpression
      | some op =>
        op.kind ≠ .ret ∧ (op.kind.isAssignment = true → ∀ a ∈ e.left, a.IsPlace) ∧
          (op.kind = .child → ∀ a ∈ e.right, a.IsUse)
  | operand a =>
    match a with
    | .block _ => False
    | .var v => v.role = .use
    | .expression e => e.op ≠ none
    | .function ps _ => ps.Nodup
    | _ => True

/-- Whether a piece is inside another one, or is that one. -/
def Within (root : Node) : Node → Prop := Relation.ReflTransGen (fun a b => b ∈ a.children) root

/-- A piece all of whose pieces are proper. -/
def Canonical (n : Node) : Prop := ∀ m, n.Within m → m.Proper

variable {n m : Node}

theorem Canonical.proper (h : n.Canonical) : n.Proper := h n .refl

theorem Canonical.within (h : n.Canonical) (hm : n.Within m) : m.Canonical := fun _ hk => h _ (hm.trans hk)

theorem Canonical.child (h : n.Canonical) (hm : m ∈ n.children) : m.Canonical := h.within (.single hm)

theorem canonical_iff : n.Canonical ↔ n.Proper ∧ ∀ m ∈ n.children, m.Canonical := by
  refine ⟨fun h => ⟨h.proper, fun m hm => h.child hm⟩, fun ⟨hp, hc⟩ m hm => ?_⟩
  rcases Relation.ReflTransGen.cases_head hm with rfl | ⟨k, hk, hkm⟩
  · exact hp
  · exact hc k hk m hkm

end Node

/-- A program all of whose pieces are proper. -/
def Program.Canonical (p : Program) : Prop := (Node.scope p.body).Canonical

/-! ## Forms that readers build -/

section Forms

open Node

variable {a b : Operand} {e : Expression} {op : Operator} {span : Span}

theorem OperatorKind.isAssignment_eq_false {k : OperatorKind} (h : k.arity ≠ .binary) : k.isAssignment = false := by
  cases hk : k.isAssignment
  · rfl
  · exact absurd (arity_eq_binary_of_isAssignment hk) h

theorem canonical_scope {body : List Statement} (h : ∀ t ∈ body, (statement t.body).Canonical) :
    (scope ⟨body, span⟩).Canonical := by
  rw [canonical_iff]
  refine ⟨trivial, ?_⟩
  intro m hm
  obtain ⟨t, ht, rfl⟩ := List.mem_map.1 hm
  exact h t ht

theorem canonical_leaf (h : (operand a).Canonical) (ha : ¬a.IsExpression) :
    (expression (.leaf a span)).Canonical := by
  rw [canonical_iff]
  refine ⟨⟨?_, ?_⟩, ?_⟩
  · simp [Expression.leaf, Expression.WellShaped]
  · simpa [Expression.leaf] using ha
  · intro m hm
    obtain rfl : m = operand a := by simpa [children, Expression.leaf] using hm
    exact h

theorem canonical_binary (ha : (operand a).Canonical) (hb : (operand b).Canonical) (hop : op.kind.arity = .binary)
    (hplace : op.kind.isAssignment = true → a.IsPlace) (huse : op.kind = .child → b.IsUse) :
    (expression (.binary a op b span)).Canonical := by
  have hret : op.kind ≠ .ret := fun h => by simp [h, OperatorKind.arity] at hop
  refine canonical_iff.2 ⟨⟨?_, hret, ?_, ?_⟩, fun m hm => ?_⟩
  · simp [Expression.binary, Expression.WellShaped, hop, Arity.takes]
  · simpa [Expression.binary] using hplace
  · simpa [Expression.binary] using huse
  · have hm : m = operand a ∨ m = operand b := by simpa [children, Expression.binary] using hm
    rcases hm with rfl | rfl
    · exact ha
    · exact hb

theorem canonical_prefixed (hb : (operand b).Canonical) (hop : op.kind.arity ≠ .binary) (hret : op.kind ≠ .ret) :
    (expression (.prefixed op b span)).Canonical := by
  have hno := OperatorKind.isAssignment_eq_false hop
  have hchild : op.kind ≠ .child := fun h => hop (by rw [h]; rfl)
  refine canonical_iff.2 ⟨⟨?_, hret, ?_, ?_⟩, fun m hm => ?_⟩
  · cases hk : op.kind.arity <;> simp_all [Expression.prefixed, Expression.WellShaped, Arity.takes]
  · simp [Expression.prefixed, hno]
  · simp [Expression.prefixed, hchild]
  · obtain rfl : m = operand b := by simpa [children, Expression.prefixed] using hm
    exact hb

theorem canonical_postfixed (ha : (operand a).Canonical) (hop : op.kind.arity = .either) :
    (expression (.postfixed a op span)).Canonical := by
  have hno : op.kind.isAssignment = false := OperatorKind.isAssignment_eq_false (by simp [hop])
  have hchild : op.kind ≠ .child := fun h => by simp [h, OperatorKind.arity] at hop
  have hret : op.kind ≠ .ret := fun h => by simp [h, OperatorKind.arity] at hop
  refine canonical_iff.2 ⟨⟨?_, hret, ?_, ?_⟩, fun m hm => ?_⟩
  · simp [Expression.postfixed, Expression.WellShaped, hop, Arity.takes]
  · simp [Expression.postfixed, hno]
  · simp [Expression.postfixed, hchild]
  · obtain rfl : m = operand a := by simpa [children, Expression.postfixed] using hm
    exact ha

/-- The forms of an expression that stands for a value. -/
inductive Expression.Formed : Expression → Prop
  | leaf (a : Operand) (span : Span) (ha : (operand a).Canonical) (hne : ¬a.IsExpression) : Formed (.leaf a span)
  | binary (a : Operand) (op : Operator) (b : Operand) (span : Span) (ha : (operand a).Canonical)
      (hb : (operand b).Canonical) (hop : op.kind.arity = .binary)
      (hplace : op.kind.isAssignment = true → a.IsPlace) (huse : op.kind = .child → b.IsUse) :
      Formed (.binary a op b span)
  | prefixed (op : Operator) (b : Operand) (span : Span) (hb : (operand b).Canonical)
      (hop : op.kind.arity ≠ .binary) (hret : op.kind ≠ .ret) : Formed (.prefixed op b span)
  | postfixed (a : Operand) (op : Operator) (span : Span) (ha : (operand a).Canonical)
      (hop : op.kind.arity = .either) : Formed (.postfixed a op span)

/-- A canonical expression has one of the forms that readers build. -/
theorem formed_of_canonical (h : (expression e).Canonical) : e.Formed := by
  obtain ⟨hshape, hp⟩ := h.proper
  have hchild : ∀ a, a ∈ e.left ∨ a ∈ e.right → (operand a).Canonical := fun a ha =>
    h.child (by simpa [children] using ha)
  match e with
  | ⟨some a, none, none, span⟩ => exact .leaf a span (hchild a (.inl rfl)) (hp a rfl)
  | ⟨some a, some op, some b, span⟩ =>
    refine .binary a op b span (hchild a (.inl rfl)) (hchild b (.inr rfl)) ?_ (fun ha => hp.2.1 ha a rfl)
      (fun hk => hp.2.2 hk b rfl)
    cases hk : op.kind.arity <;> simp [Expression.WellShaped, hk, Arity.takes] at hshape ⊢
  | ⟨none, some op, some b, span⟩ =>
    refine .prefixed op b span (hchild b (.inr rfl)) (fun hk => ?_) hp.1
    simp [Expression.WellShaped, hk, Arity.takes] at hshape
  | ⟨some a, some op, none, span⟩ =>
    refine .postfixed a op span (hchild a (.inl rfl)) ?_
    cases hk : op.kind.arity <;> simp [Expression.WellShaped, hk, Arity.takes] at hshape ⊢
  | ⟨none, none, _, _⟩ => simp [Expression.WellShaped] at hshape
  | ⟨none, some op, none, _⟩ =>
    cases hk : op.kind.arity <;> simp [Expression.WellShaped, hk, Arity.takes] at hshape
  | ⟨some _, none, some _, _⟩ => simp [Expression.WellShaped] at hshape

/-- The forms of a statement: a block, a `return`, a declaration, or an expression that stands for a value. -/
inductive Expression.FormedStatement : Expression → Prop
  | block (s : Scope) (span : Span) (hs : (scope s).Canonical) : FormedStatement (.leaf (.block s) span)
  | ret (opSpan : Span) (a : Operand) (span : Span) (ha : (operand a).Canonical) :
      FormedStatement (.prefixed ⟨.ret, opSpan⟩ a span)
  | declaration (name : String) (nameSpan opSpan : Span) (a : Operand) (span : Span) (ha : (operand a).Canonical) :
      FormedStatement (.binary (.var ⟨name, .declare, nameSpan⟩) ⟨.assign, opSpan⟩ a span)
  | expression (e : Expression) (he : (expression e).Canonical) : FormedStatement e

/-- A canonical statement has one of these forms. -/
theorem formedStatement_of_canonical (h : (statement e).Canonical) : e.FormedStatement := by
  have hc : ∀ m ∈ (statement e).children, m.Canonical := fun m hm => h.child hm
  simp only [children] at hc
  split at hc
  · exact .block _ _ (hc _ (List.mem_singleton.2 rfl))
  · exact .ret _ _ _ (hc _ (List.mem_singleton.2 rfl))
  · exact .declaration _ _ _ _ _ (hc _ (List.mem_singleton.2 rfl))
  · exact .expression _ (hc _ (List.mem_singleton.2 rfl))

theorem toOperand_of_op (h : e.op ≠ none) : e.toOperand = .expression e := by
  obtain ⟨left, op, right, span⟩ := e
  cases left <;> cases op <;> first | rfl | exact absurd rfl h

/-- A canonical expression makes a canonical operand, be it unwrapped or not. -/
theorem canonical_toOperand (h : (expression e).Canonical) : (operand e.toOperand).Canonical := by
  by_cases hop : e.op = none
  · obtain ⟨left, op, right, span⟩ := e
    obtain rfl : op = none := hop
    obtain ⟨hl, hr⟩ : left.isSome = true ∧ right = none := by simpa [Expression.WellShaped] using h.proper.1
    obtain ⟨a, rfl⟩ := Option.isSome_iff_exists.1 hl
    subst hr
    exact h.child (by simp [children, Expression.toOperand])
  · rw [toOperand_of_op hop]
    exact canonical_iff.2 ⟨hop, by simpa [children] using h⟩

end Forms

end GameScript
