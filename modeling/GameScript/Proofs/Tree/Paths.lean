import GameScript.Tree.Shape
import Mathlib.Data.List.Basic

/-!
# Paths through trees

A tree can be as deep as its text is long, since every operator and every call that stands behind an expression takes
that expression in: in `a.b.c` and in `f()()` the left operand or the callee is as deep as what is written before it.
A `Branch` is an operand together with whether it is `continued` in this way. A path from the root of a tree to a leaf
is a list of branches (`Branch.Path`), and `Within n bs` says that from `bs` no path has more than `n` branches that
go deeper without being taken in (`Branch.deepens`).

Main statements: a branch that deepens takes one (`within_deepening`) and any other one takes nothing
(`within_passing`); what follows from that for the forms that readers build is said by `within_operator`,
`within_call`, `within_object` and `within_function_iff`.
-/

namespace GameScript

/-- An operand in a tree, and whether an operator or a call behind it takes it in. -/
structure Branch where
  operand : Operand
  continued : Bool

/-- The operands of an expression, which is the callee of a call or not. -/
def Expression.branches (callee : Bool) (e : Expression) : List Branch :=
  (e.left.map fun a => ⟨a, callee || e.op.isSome⟩).toList ++ (e.right.map fun a => ⟨a, false⟩).toList

/-- The operands of the statements of a scope. -/
def Scope.branches (s : Scope) : List Branch := s.body.flatMap fun t => t.body.branches false

namespace Operand

/-- The operands directly below an operand. -/
def branches : Operand → List Branch
  | .value _ | .var _ => []
  | .object ps => ps.flatMap fun p => p.value.branches false
  | .block s | .function _ s => s.branches
  | .expression e => e.branches false
  | .call e es => e.branches true ++ es.flatMap fun f => f.branches false

/-- Whether something can stand below an operand. -/
def nests : Operand → Bool
  | .value _ | .var _ => false
  | _ => true

/-- Whether an operand is one that an operator or a call makes. -/
def isChain : Operand → Bool
  | .expression _ | .call _ _ => true
  | _ => false

end Operand

namespace Branch

/-- Whether a branch goes deeper, other than by an operator or a call behind it that takes it in. -/
def deepens (b : Branch) : Bool := b.operand.nests && !(b.continued && b.operand.isChain)

/-- A path from some operands down to a leaf. -/
inductive Path : List Branch → List Branch → Prop
  | leaf : Path [] []
  | step {b : Branch} {bs path : List Branch} (hb : b ∈ bs) (h : Path b.operand.branches path) : Path bs (b :: path)

/-- The path that goes by the last operand each time, as far as `bound` goes. -/
def lastPath : (bound : Nat) → List Branch → List Branch
  | 0, _ => []
  | bound + 1, bs =>
    match bs.getLast? with
    | none => []
    | some b => b :: lastPath bound b.operand.branches

theorem path_lastPath {bound : Nat} {bs : List Branch} (h : (lastPath bound bs).length < bound) :
    Path bs (lastPath bound bs) := by
  induction bound generalizing bs with
  | zero => exact absurd h (Nat.not_lt_zero _)
  | succ bound ih =>
    unfold lastPath at h ⊢
    cases hlast : bs.getLast? with
    | none =>
      rw [List.getLast?_eq_none_iff.1 hlast]
      exact .leaf
    | some b =>
      rw [hlast] at h
      exact .step (List.mem_of_getLast? hlast) (ih (Nat.lt_of_succ_lt_succ h))

end Branch

/-- No path from some operands down to a leaf deepens more often than `n` times. -/
def Within (n : Nat) (bs : List Branch) : Prop := ∀ path, Branch.Path bs path → path.countP Branch.deepens ≤ n

section Within

variable {n : Nat} {b : Branch} {bs cs : List Branch}

/-- A path goes through one of the operands only. -/
theorem within_iff_forall : Within n bs ↔ ∀ b ∈ bs, Within n [b] := by
  constructor
  · intro h b hb path hpath
    cases hpath with
    | step hmem hrest =>
      obtain rfl := List.mem_singleton.1 hmem
      exact h _ (.step hb hrest)
  · intro h path hpath
    cases hpath with
    | leaf => exact Nat.zero_le _
    | step hmem hrest => exact h _ hmem _ (.step List.mem_cons_self hrest)

theorem within_nil : Within n [] := within_iff_forall.2 fun _ hb => absurd hb List.not_mem_nil

theorem within_append : Within n (bs ++ cs) ↔ Within n bs ∧ Within n cs := by
  rw [within_iff_forall, @within_iff_forall _ bs, @within_iff_forall _ cs, List.forall_mem_append]

theorem within_flatMap {α : Type} {f : α → List Branch} {l : List α} :
    Within n (l.flatMap f) ↔ ∀ a ∈ l, Within n (f a) := by
  rw [within_iff_forall]
  constructor
  · intro h a ha
    exact within_iff_forall.2 fun b hb => h b (List.mem_flatMap.2 ⟨a, ha, hb⟩)
  · intro h b hb
    obtain ⟨a, ha, hb⟩ := List.mem_flatMap.1 hb
    exact within_iff_forall.1 (h a ha) b hb

/-- Through an operand, a path is one from the operands below it. -/
theorem within_singleton : Within n [b] ↔
    ∀ path, Branch.Path b.operand.branches path → path.countP Branch.deepens + (if b.deepens then 1 else 0) ≤ n := by
  constructor
  · intro h path hpath
    rw [← List.countP_cons]
    exact h _ (.step List.mem_cons_self hpath)
  · intro h path hpath
    cases hpath with
    | step hmem hrest =>
      obtain rfl := List.mem_singleton.1 hmem
      rw [List.countP_cons]
      exact h _ hrest

/-- A branch that deepens takes one. -/
theorem within_deepening (hb : b.deepens = true) : Within (n + 1) [b] ↔ Within n b.operand.branches := by
  rw [within_singleton]
  simp [Within, hb]

/-- A branch that does not deepen takes nothing. -/
theorem within_passing (hb : b.deepens = false) : Within n [b] ↔ Within n b.operand.branches := by
  rw [within_singleton]
  simp [Within, hb]

/-- Below an operand there is no more than from it on. -/
theorem Within.below (h : Within n [b]) : Within n b.operand.branches :=
  fun path hpath => Nat.le_trans (Nat.le_add_right _ _) (within_singleton.1 h path hpath)

end Within

/-! ## What operators, calls and literals take -/

section Forms

variable {n : Nat} {c : Bool} {a : Operand} {e : Expression}

/-- What takes an operand in adds nothing to the paths through it. -/
theorem Within.continue (h : Within n [⟨a, false⟩]) : Within n [⟨a, true⟩] := by
  refine within_singleton.2 fun path hpath => ?_
  have hcount := within_singleton.1 h path hpath
  -- only of an expression and of a call does it matter, and there it takes the one away
  cases a <;> simp [Branch.deepens, Operand.nests, Operand.isChain] at hcount ⊢ <;> omega

/-- An operand by itself takes at most one more than where it is taken in. -/
theorem Within.by_itself (h : Within n [⟨a, true⟩]) : Within (n + 1) [⟨a, false⟩] := by
  refine within_singleton.2 fun path hpath => ?_
  have hcount := h.below path hpath
  split <;> omega

theorem within_branches_callee (h : Within n (e.branches false)) : Within n (e.branches c) := by
  obtain ⟨left, op, right, span⟩ := e
  rw [Expression.branches, within_append] at h ⊢
  refine ⟨?_, h.2⟩
  cases left with
  | none => exact within_nil
  | some a =>
    cases c with
    | false => exact h.1
    | true =>
      cases op with
      | none => exact Within.continue h.1
      | some op => exact h.1

/-- The operands of an expression are no deeper than the operand that the expression becomes. -/
theorem within_branches (h : Within n [⟨e.toOperand, c⟩]) : Within n (e.branches c) := by
  have hother (he : e.toOperand = .expression e) : Within n (e.branches c) := by
    rw [he] at h
    exact within_branches_callee h.below
  -- an expression that holds one operand and no operator becomes that operand
  obtain ⟨left, op, right, span⟩ := e
  cases left with
  | none => exact hother rfl
  | some a =>
    cases op with
    | some op => exact hother rfl
    | none =>
      cases right with
      | some b => exact hother rfl
      | none => simpa [Expression.branches, Expression.toOperand] using h

theorem within_operands {left right : Option Operand} {op : Operator} {span : Span}
    (hleft : ∀ a ∈ left, Within n [⟨a, true⟩]) (hright : ∀ a ∈ right, Within n [⟨a, false⟩]) :
    Within n (Expression.branches c ⟨left, some op, right, span⟩) := by
  rw [Expression.branches, within_append]
  constructor
  · cases left with
    | none => exact within_nil
    | some a => simpa using hleft a rfl
  · cases right with
    | none => exact within_nil
    | some b => exact hright b rfl

/-- An operator behind an operand takes it in, and what the right operand takes. -/
theorem within_operator {left right : Option Operand} {op : Operator} {span : Span}
    (hleft : ∀ a ∈ left, Within n [⟨a, true⟩]) (hright : ∀ a ∈ right, Within n [⟨a, false⟩]) :
    Within n [⟨(⟨left, some op, right, span⟩ : Expression).toOperand, true⟩] := by
  have htoOperand : (⟨left, some op, right, span⟩ : Expression).toOperand =
      .expression ⟨left, some op, right, span⟩ := by
    cases left <;> rfl
  rw [htoOperand]
  exact (within_passing rfl).2 (within_operands hleft hright)

/-- The place of an expression is nothing that paths go through. -/
theorem within_withSpan {span : Span} :
    Within n [⟨({ e with span } : Expression).toOperand, c⟩] ↔ Within n [⟨e.toOperand, c⟩] := by
  obtain ⟨left, op, right, span'⟩ := e
  rw [within_singleton, within_singleton]
  cases left <;> cases op <;> cases right <;>
    simp [Expression.toOperand, Branch.deepens, Operand.nests, Operand.isChain, Operand.branches, Expression.branches]

/-- A call takes its callee in, and what the arguments take. -/
theorem within_call {es : List Expression} (he : Within n [⟨e.toOperand, true⟩])
    (hes : ∀ f ∈ es, Within n [⟨f.toOperand, false⟩]) : Within n [⟨.call e es, true⟩] :=
  (within_passing rfl).2 (within_append.2 ⟨within_branches he, within_flatMap.2 fun f hf => within_branches (hes f hf)⟩)

/-- An object literal takes one more than the values of its properties. -/
theorem within_object {ps : List Property} (h : ∀ p ∈ ps, Within n [⟨p.value.toOperand, false⟩]) :
    Within (n + 1) [⟨.object ps, c⟩] :=
  (within_deepening (by simp [Branch.deepens, Operand.nests, Operand.isChain])).2
    (within_flatMap.2 fun p hp => within_branches (h p hp))

/-- A block takes one more than its statements. -/
theorem within_block {s : Scope} (h : ∀ t ∈ s.body, Within n (t.body.branches false)) :
    Within (n + 1) [⟨.block s, c⟩] :=
  (within_deepening (by simp [Branch.deepens, Operand.nests, Operand.isChain])).2 (within_flatMap.2 h)

/-- A function takes what its body takes as a block. -/
theorem within_function_iff {s : Scope} {ps : List String} :
    Within n [⟨.function ps s, c⟩] ↔ Within n [⟨.block s, false⟩] := by
  rw [within_singleton, within_singleton]
  simp [Branch.deepens, Operand.nests, Operand.isChain, Operand.branches]

/-- A value and a name take nothing. -/
theorem within_of_not_nests (h : a.nests = false) : Within n [⟨a, c⟩] := by
  have hpasses : (⟨a, c⟩ : Branch).deepens = false := by simp [Branch.deepens, h]
  refine (within_passing hpasses).2 ?_
  cases a with
  | value _ => exact within_nil
  | var _ => exact within_nil
  | _ => cases h

end Forms

end GameScript
