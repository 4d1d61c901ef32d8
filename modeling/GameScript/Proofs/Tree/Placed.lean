import GameScript.Proofs.Tree.Layout

/-!
# Places of trees

A piece of a program is placed as `G` says (`Node.Placed`) when `G` holds of the places of all parts inside it. What is
directly inside a piece consists of parts that are inside its own (`within_parts_of_child`); so a tree is placed when all
of its parts have such places (`placed_of_parts`).
-/

namespace GameScript

/-- The parts that a piece of a program is or consists of. -/
def Node.placedParts : Node → List Part
  | scope s => [.scope s]
  | statement e => [Statement.bodyPart ⟨e, {}⟩]
  | expression e => [.expression e]
  | operand a => a.parts

/-- A piece of a program all of whose parts have places of which `G` holds. -/
def Node.Placed (G : Span → Prop) (n : Node) : Prop := ∀ m, n.Within m → ∀ x ∈ m.placedParts, G x.span

section Trees

variable {G : Span → Prop} {n m : Node} {e : Expression} {a : Operand}

theorem children_bodyPart (e : Expression) (span : Span) : (Statement.bodyPart ⟨e, span⟩).children = e.parts := by
  unfold Statement.bodyPart
  split <;> rfl

theorem span_bodyPart (e : Expression) (span : Span) : (Statement.bodyPart ⟨e, span⟩).span = e.span := by
  unfold Statement.bodyPart
  split <;> rfl

theorem mem_parts_left (ha : e.left = some a) {x : Part} (hx : x ∈ a.parts) : x ∈ e.parts := by
  simp [Expression.parts, ha, hx]

theorem mem_parts_right (ha : e.right = some a) {x : Part} (hx : x ∈ a.parts) : x ∈ e.parts := by
  simp [Expression.parts, ha, hx]

theorem within_bodyPart {y : Part} (hy : y ∈ e.parts) : ∃ x ∈ (Node.statement e).placedParts, x.Within y :=
  ⟨_, List.mem_singleton_self _, .single (by rwa [children_bodyPart])⟩

/-- Where a statement is an expression by itself, that is its part. -/
theorem bodyPart_of_not_isStatementForm {span : Span} (h : e.isStatementForm = false) :
    Statement.bodyPart ⟨e, span⟩ = .expression e := by
  simp [Statement.bodyPart, h]

theorem within_parts_of_statement (hm : m ∈ (Node.statement e).children) {y : Part} (hy : y ∈ m.placedParts) :
    ∃ x ∈ (Node.statement e).placedParts, x.Within y := by
  simp only [Node.children] at hm
  split at hm <;> obtain rfl := List.mem_singleton.1 hm
  · rename_i s _
    exact within_bodyPart (mem_parts_left rfl (show y ∈ (Operand.block s).parts from hy))
  · exact within_bodyPart (mem_parts_right rfl hy)
  · exact within_bodyPart (mem_parts_right rfl hy)
  · rename_i hblock hret hlet
    obtain rfl := List.mem_singleton.1 hy
    have hform : e.isStatementForm = false := by
      unfold Expression.isStatementForm
      split
      · exact absurd rfl (hblock _ _)
      · exact absurd rfl (hret _ _ _)
      · exact absurd rfl (hlet _ _ _ _ _)
      · rfl
    exact ⟨_, List.mem_singleton_self _, bodyPart_of_not_isStatementForm hform ▸ .refl⟩

theorem within_parts_of_operand (hm : m ∈ (Node.operand a).children) {y : Part} (hy : y ∈ m.placedParts) :
    ∃ x ∈ (Node.operand a).placedParts, x.Within y := by
  cases a with
  | value _ | var _ => cases hm
  | object ps =>
    obtain ⟨p, hp, rfl⟩ := List.mem_map.1 hm
    obtain rfl := List.mem_singleton.1 hy
    exact ⟨_, List.mem_map_of_mem hp, .refl⟩
  | block _ | expression _ | function _ _ =>
    obtain rfl := List.mem_singleton.1 hm
    exact ⟨y, hy, .refl⟩
  | call callee args =>
    rcases List.mem_cons.1 hm with rfl | hm
    · obtain rfl := List.mem_singleton.1 hy
      exact ⟨_, List.mem_cons_self, .refl⟩
    · obtain ⟨e, he, rfl⟩ := List.mem_map.1 hm
      obtain rfl := List.mem_singleton.1 hy
      exact ⟨_, List.mem_cons_of_mem _ (List.mem_map_of_mem he), .refl⟩

/-- The parts of what is directly inside a piece are inside its own parts. -/
theorem within_parts_of_child (hm : m ∈ n.children) {y : Part} (hy : y ∈ m.placedParts) :
    ∃ x ∈ n.placedParts, x.Within y := by
  cases n with
  | scope s =>
    obtain ⟨t, ht, rfl⟩ := List.mem_map.1 hm
    obtain rfl := List.mem_singleton.1 hy
    exact ⟨_, List.mem_singleton_self _, .head (List.mem_map_of_mem ht) (.single (List.mem_singleton_self _))⟩
  | statement e => exact within_parts_of_statement hm hy
  | expression e =>
    obtain ⟨a, ha, rfl⟩ := List.mem_map.1 hm
    refine ⟨_, List.mem_singleton_self _, .single ?_⟩
    rcases List.mem_append.1 ha with ha | ha
    · exact mem_parts_left (Option.mem_toList.1 ha) hy
    · exact mem_parts_right (Option.mem_toList.1 ha) hy
  | operand a => exact within_parts_of_operand hm hy

theorem placed_of_forall (h : ∀ span, G span) : n.Placed G := fun _ _ _ _ => h _

/-- A tree is placed when each of its parts is. -/
theorem placed_of_parts {s : Scope} (h : ∀ x, (Part.scope s).Within x → G x.span) : (Node.scope s).Placed G := by
  intro m hm x hx
  suffices hwithin : (Part.scope s).Within x from h x hwithin
  induction hm generalizing x with
  | refl =>
    obtain rfl := List.mem_singleton.1 hx
    exact .refl
  | tail _ hstep ih =>
    obtain ⟨y, hy, hyx⟩ := within_parts_of_child hstep hx
    exact (ih y hy).trans hyx

namespace Node.Placed

theorem child (h : n.Placed G) (hm : m ∈ n.children) : m.Placed G := fun k hk => h k (.head hm hk)

theorem span (h : n.Placed G) {x : Part} (hx : x ∈ n.placedParts) : G x.span := h n .refl x hx

theorem expression (h : (Node.expression e).Placed G) : G e.span :=
  have hmem : Part.expression e ∈ (Node.expression e).placedParts := List.mem_singleton_self _
  h.span hmem

theorem statement (h : (Node.statement e).Placed G) : G e.span := by
  rw [← span_bodyPart e {}]
  exact h.span (List.mem_singleton_self _)

end Node.Placed

end Trees

end GameScript
