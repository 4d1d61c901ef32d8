import GameScript.Proofs.Text.Numbers
import GameScript.Proofs.Tree.Compared

/-!
# What a comparison finds

The comparison of two programs reports nothing exactly when they are equal without places
(`Scope.diff_eq_none_iff`), literals being equal as `Literal.beq` has it. It treats both programs alike: from the other
side the same place is reported, with what stands there exchanged (`Scope.diff_comm`). A program differs from itself
where a literal does, so only at a `NaN` (`Scope.diff_self`).
-/

namespace GameScript

/-- A mismatch seen from the other side. -/
def Mismatch.swap (m : Mismatch) : Mismatch := ⟨m.path, m.found, m.expected⟩

open Mismatch

/-! ## Reports -/

section Reports

variable {step : PathStep} {m m' : Option Mismatch} {expected found : String}

@[simp] theorem Mismatch.here_ne_none : here expected found ≠ none := nofun

/-- Nothing is reported exactly where a test succeeds and nothing is reported behind it. -/
theorem Mismatch.ite_eq_none_iff {c : Prop} [Decidable c] :
    (if c then m else here expected found) = none ↔ c ∧ m = none :=
  ⟨of_ite_eq_none, fun ⟨hc, hm⟩ => by rw [if_pos hc, hm]⟩

@[simp] theorem Mismatch.map_swap_here : (here expected found).map swap = here found expected := rfl

@[simp] theorem Mismatch.map_swap_under : (under step m).map swap = under step (m.map swap) := by
  cases m <;> rfl

@[simp] theorem Mismatch.map_swap_or : (m.or m').map swap = (m.map swap).or (m'.map swap) := by
  cases m <;> rfl

/-- A test that comes out the same from both sides. -/
theorem Mismatch.ite_swap {c d : Prop} [Decidable c] [Decidable d] (hcd : d ↔ c) (hm : m' = m.map swap) :
    (if d then m' else here found expected) = (if c then m else here expected found).map swap := by
  by_cases hc : c
  · rw [if_pos hc, if_pos (hcd.2 hc), hm]
  · rw [if_neg hc, if_neg fun hd => hc (hcd.1 hd)]
    rfl

end Reports

/-! ## Literals -/

theorem Literal.beq_swap (l k : Literal) : (l == k) = (k == l) := by
  cases l <;> cases k <;> try rfl
  case bool.bool b c => exact Bool.beq_comm (a := b) (b := c)
  case int.int n m => exact BEq.comm (a := n) (b := m)
  case float.float x y => exact float_beq_comm x y
  case string.string s t => exact BEq.comm (a := s) (b := t)

/-- A literal is equal to itself unless it is `NaN`. -/
theorem Literal.beq_self_iff (l : Literal) : (l == l) = true ↔ ∀ x ∈ l.floats, x.isNaN = false := by
  cases l with
  | float x => simp [Literal.floats, show (Literal.float x == .float x) = !x.isNaN from float_beq_self x]
  | undefined => exact iff_of_true rfl nofun
  | bool b => exact iff_of_true (beq_self_eq_true b) nofun
  | int n => exact iff_of_true (beq_self_eq_true n) nofun
  | string s => exact iff_of_true (beq_self_eq_true s) nofun

theorem Operator.beq_eraseSpan_iff {op op' : Option Operator} :
    (op.map Operator.eraseSpan == op'.map Operator.eraseSpan) = true ↔
      op.map Operator.kind = op'.map Operator.kind := by
  cases op <;> cases op' <;> simp [Operator.eraseSpan]

/-! ## Nothing to report -/

mutual

/-- Nothing is reported between operands that are equal without places, and only between these. -/
theorem Operand.diff_eq_none_iff (a b : Operand) : a.diff b = none ↔ a.eraseSpans.beq b.eraseSpans = true := by
  match a with
  | .value l =>
    cases b with
    | value k => simp only [Operand.diff, Operand.eraseSpans, Operand.beq, ite_eq_none_iff, and_true]
    | _ => simp [Operand.diff, Operand.eraseSpans, Operand.beq]
  | .var v =>
    cases b with
    | var w => simp [Operand.diff, Operand.eraseSpans, Operand.beq, Variable.eraseSpan]
    | _ => simp [Operand.diff, Operand.eraseSpans, Operand.beq]
  | .object ps =>
    cases b with
    | object qs =>
      simp only [Operand.diff, Operand.eraseSpans, Operand.beq, ite_eq_none_iff, Property.diffList_eq_none_iff ps qs]
    | _ => simp [Operand.diff, Operand.eraseSpans, Operand.beq]
  | .block s =>
    cases b with
    | block t => simp only [Operand.diff, Operand.eraseSpans, Operand.beq, under_eq_none, Scope.diff_eq_none_iff s t]
    | _ => simp [Operand.diff, Operand.eraseSpans, Operand.beq]
  | .expression e =>
    cases b with
    | expression f => simp only [Operand.diff, Operand.eraseSpans, Operand.beq, Expression.diff_eq_none_iff e f]
    | _ => simp [Operand.diff, Operand.eraseSpans, Operand.beq]
  | .function ps s =>
    cases b with
    | function qs t =>
      simp only [Operand.diff, Operand.eraseSpans, Operand.beq, ite_eq_none_iff, under_eq_none, Bool.and_eq_true,
        beq_iff_eq, Scope.diff_eq_none_iff s t]
    | _ => simp [Operand.diff, Operand.eraseSpans, Operand.beq]
  | .call e es =>
    cases b with
    | call f fs =>
      simp only [Operand.diff, Operand.eraseSpans, Operand.beq, Option.or_eq_none_iff, ite_eq_none_iff, under_eq_none,
        Bool.and_eq_true, Expression.diff_eq_none_iff e f, Expression.diffList_eq_none_iff 0 es fs]
    | _ => simp [Operand.diff, Operand.eraseSpans, Operand.beq]
  termination_by structural a

theorem Property.diffList_eq_none_iff (ps qs : List Property) :
    ps.length = qs.length ∧ Property.diffList ps qs = none ↔
      Property.beqList (Property.eraseAll ps) (Property.eraseAll qs) = true := by
  match ps, qs with
  | [], [] | [], ⟨_, _⟩ :: _ | ⟨_, _⟩ :: _, [] => simp [Property.diffList, Property.eraseAll, Property.beqList]
  | ⟨key, e⟩ :: ps, ⟨key', f⟩ :: qs =>
    have hrest := Property.diffList_eq_none_iff ps qs
    simp only [Property.diffList, Property.eraseAll, Property.beqList, Property.beq, ite_eq_none_iff,
      Option.or_eq_none_iff, under_eq_none, Bool.and_eq_true, beq_iff_eq, Expression.diff_eq_none_iff e f, ← hrest,
      List.length_cons, Nat.add_right_cancel_iff]
    tauto
  termination_by structural ps

theorem Scope.diff_eq_none_iff (s t : Scope) : s.diff t = none ↔ s.eraseSpans.beq t.eraseSpans = true := by
  match s, t with
  | ⟨ss, _⟩, ⟨ts, _⟩ =>
    simp only [Scope.diff, Scope.eraseSpans, Scope.beq, ite_eq_none_iff, Bool.and_eq_true, beq_self_eq_true, and_true,
      Statement.diffList_eq_none_iff 0 ss ts]
  termination_by structural s

theorem Statement.diffList_eq_none_iff (index : Nat) (ss ts : List Statement) :
    ss.length = ts.length ∧ Statement.diffList index ss ts = none ↔
      Statement.beqList (Statement.eraseAll ss) (Statement.eraseAll ts) = true := by
  match ss, ts with
  | [], [] | [], ⟨_, _⟩ :: _ | ⟨_, _⟩ :: _, [] => simp [Statement.diffList, Statement.eraseAll, Statement.beqList]
  | ⟨e, _⟩ :: ss, ⟨f, _⟩ :: ts =>
    have hrest := Statement.diffList_eq_none_iff (index + 1) ss ts
    simp only [Statement.diffList, Statement.eraseAll, Statement.beqList, Statement.beq, Option.or_eq_none_iff,
      under_eq_none, Bool.and_eq_true, beq_self_eq_true, and_true, Expression.diff_eq_none_iff e f, ← hrest,
      List.length_cons, Nat.add_right_cancel_iff]
    tauto
  termination_by structural ss

theorem Expression.diff_eq_none_iff (e f : Expression) :
    e.diff f = none ↔ e.eraseSpans.beq f.eraseSpans = true := by
  match e, f with
  | ⟨a, op, b, _⟩, ⟨c, op', d, _⟩ =>
    simp only [Expression.diff, Expression.eraseSpans, Expression.beq, ite_eq_none_iff, Option.or_eq_none_iff,
      under_eq_none, Bool.and_eq_true, beq_self_eq_true, and_true, Operator.beq_eraseSpan_iff,
      Operand.diffSlot_eq_none_iff a c, Operand.diffSlot_eq_none_iff b d]
    tauto
  termination_by structural e

theorem Operand.diffSlot_eq_none_iff (a b : Option Operand) :
    Operand.diffSlot a b = none ↔ Operand.beqSlot (Operand.eraseSlot a) (Operand.eraseSlot b) = true := by
  match a, b with
  | none, none | none, some _ | some _, none => simp [Operand.diffSlot, Operand.eraseSlot, Operand.beqSlot]
  | some a, some b =>
    simp only [Operand.diffSlot, Operand.eraseSlot, Operand.beqSlot]
    exact Operand.diff_eq_none_iff a b
  termination_by structural a

theorem Expression.diffList_eq_none_iff (index : Nat) (es fs : List Expression) :
    es.length = fs.length ∧ Expression.diffList index es fs = none ↔
      Expression.beqList (Expression.eraseAll es) (Expression.eraseAll fs) = true := by
  match es, fs with
  | [], [] | [], _ :: _ | _ :: _, [] => simp [Expression.diffList, Expression.eraseAll, Expression.beqList]
  | e :: es, f :: fs =>
    have hrest := Expression.diffList_eq_none_iff (index + 1) es fs
    simp only [Expression.diffList, Expression.eraseAll, Expression.beqList, Option.or_eq_none_iff, under_eq_none,
      Bool.and_eq_true, Expression.diff_eq_none_iff e f, ← hrest, List.length_cons, Nat.add_right_cancel_iff]
    tauto
  termination_by structural es

end

/-! ## The other side -/

mutual

/-- From the other side the same place is reported, with what stands there exchanged. -/
theorem Operand.diff_comm (a b : Operand) : b.diff a = (a.diff b).map swap := by
  match a with
  | .value l =>
    cases b with
    | value k => exact ite_swap (by rw [Literal.beq_swap]) rfl
    | _ => rfl
  | .var v =>
    cases b with
    | var w => exact ite_swap (and_congr eq_comm eq_comm) rfl
    | _ => rfl
  | .object ps =>
    cases b with
    | object qs => exact ite_swap eq_comm (Property.diffList_comm ps qs)
    | _ => rfl
  | .block s =>
    cases b with
    | block t =>
      simp only [Operand.diff, map_swap_under, Scope.diff_comm s t]
    | _ => rfl
  | .expression e =>
    cases b with
    | expression f => exact Expression.diff_comm e f
    | _ => rfl
  | .function ps s =>
    cases b with
    | function qs t => exact ite_swap eq_comm (by rw [map_swap_under, Scope.diff_comm s t])
    | _ => rfl
  | .call e es =>
    cases b with
    | call f fs =>
      simp only [Operand.diff, map_swap_or, map_swap_under, Expression.diff_comm e f]
      rw [ite_swap eq_comm (Expression.diffList_comm 0 es fs)]
    | _ => rfl
  termination_by structural a

theorem Property.diffList_comm (ps qs : List Property) :
    Property.diffList qs ps = (Property.diffList ps qs).map swap := by
  match ps, qs with
  | [], [] | [], _ :: _ | _ :: _, [] => simp [Property.diffList]
  | ⟨key, e⟩ :: ps, ⟨key', f⟩ :: qs =>
    by_cases hkey : key = key'
    · subst hkey
      simp only [Property.diffList, if_true, map_swap_or, map_swap_under, Expression.diff_comm e f,
        Property.diffList_comm ps qs]
    · simp only [Property.diffList, if_neg hkey, if_neg (Ne.symm hkey), map_swap_here]
  termination_by structural ps

theorem Scope.diff_comm (s t : Scope) : t.diff s = (s.diff t).map swap := by
  match s, t with
  | ⟨ss, _⟩, ⟨ts, _⟩ => exact ite_swap eq_comm (Statement.diffList_comm 0 ss ts)
  termination_by structural s

theorem Statement.diffList_comm (index : Nat) (ss ts : List Statement) :
    Statement.diffList index ts ss = (Statement.diffList index ss ts).map swap := by
  match ss, ts with
  | [], [] | [], _ :: _ | _ :: _, [] => simp [Statement.diffList]
  | ⟨e, _⟩ :: ss, ⟨f, _⟩ :: ts =>
    simp only [Statement.diffList, map_swap_or, map_swap_under, Expression.diff_comm e f,
      Statement.diffList_comm (index + 1) ss ts]
  termination_by structural ss

theorem Expression.diff_comm (e f : Expression) : f.diff e = (e.diff f).map swap := by
  match e, f with
  | ⟨a, op, b, _⟩, ⟨c, op', d, _⟩ =>
    refine ite_swap eq_comm ?_
    rw [map_swap_or, map_swap_under, map_swap_under, Operand.diffSlot_comm a c, Operand.diffSlot_comm b d]
  termination_by structural e

theorem Operand.diffSlot_comm (a b : Option Operand) :
    Operand.diffSlot b a = (Operand.diffSlot a b).map swap := by
  match a, b with
  | none, none | none, some _ | some _, none => rfl
  | some a, some b => exact Operand.diff_comm a b
  termination_by structural a

theorem Expression.diffList_comm (index : Nat) (es fs : List Expression) :
    Expression.diffList index fs es = (Expression.diffList index es fs).map swap := by
  match es, fs with
  | [], [] | [], _ :: _ | _ :: _, [] => simp [Expression.diffList]
  | e :: es, f :: fs =>
    simp only [Expression.diffList, map_swap_or, map_swap_under, Expression.diff_comm e f,
      Expression.diffList_comm (index + 1) es fs]
  termination_by structural es

end

/-! ## A program and itself -/

mutual

/-- An operand differs from itself where it holds `NaN`, and only there. -/
theorem Operand.diff_self (a : Operand) : a.diff a = none ↔ ∀ x ∈ a.floats, x.isNaN = false := by
  match a with
  | .value l => simp only [Operand.diff, Operand.floats, ite_eq_none_iff, and_true, Literal.beq_self_iff]
  | .var v => simp [Operand.diff, Operand.floats]
  | .object ps => simp only [Operand.diff, Operand.floats, if_true, Property.diffList_self ps]
  | .block s => simp only [Operand.diff, Operand.floats, under_eq_none, Scope.diff_self s]
  | .expression e => simp only [Operand.diff, Operand.floats, Expression.diff_self e]
  | .function ps s => simp only [Operand.diff, Operand.floats, if_true, under_eq_none, Scope.diff_self s]
  | .call e es =>
    simp only [Operand.diff, Operand.floats, Option.or_eq_none_iff, if_true, under_eq_none, List.forall_mem_append,
      Expression.diff_self e, Expression.diffList_self 0 es]
  termination_by structural a

theorem Property.diffList_self (ps : List Property) :
    Property.diffList ps ps = none ↔ ∀ x ∈ Property.floatsAll ps, x.isNaN = false := by
  match ps with
  | [] => exact iff_of_true rfl nofun
  | ⟨key, e⟩ :: ps =>
    simp only [Property.diffList, Property.floatsAll, Option.or_eq_none_iff, if_true, under_eq_none,
      List.forall_mem_append, Expression.diff_self e, Property.diffList_self ps]
  termination_by structural ps

theorem Scope.diff_self (s : Scope) : s.diff s = none ↔ ∀ x ∈ s.floats, x.isNaN = false := by
  match s with
  | ⟨ss, _⟩ => simp only [Scope.diff, Scope.floats, if_true, Statement.diffList_self 0 ss]
  termination_by structural s

theorem Statement.diffList_self (index : Nat) (ss : List Statement) :
    Statement.diffList index ss ss = none ↔ ∀ x ∈ Statement.floatsAll ss, x.isNaN = false := by
  match ss with
  | [] => exact iff_of_true rfl nofun
  | ⟨e, _⟩ :: ss =>
    simp only [Statement.diffList, Statement.floatsAll, Option.or_eq_none_iff, under_eq_none, List.forall_mem_append,
      Expression.diff_self e, Statement.diffList_self (index + 1) ss]
  termination_by structural ss

theorem Expression.diff_self (e : Expression) : e.diff e = none ↔ ∀ x ∈ e.floats, x.isNaN = false := by
  match e with
  | ⟨a, op, b, _⟩ =>
    simp only [Expression.diff, Expression.floats, Option.or_eq_none_iff, if_true, under_eq_none,
      List.forall_mem_append, Operand.diffSlot_self a, Operand.diffSlot_self b]
  termination_by structural e

theorem Operand.diffSlot_self (a : Option Operand) :
    Operand.diffSlot a a = none ↔ ∀ x ∈ Operand.floatsSlot a, x.isNaN = false := by
  match a with
  | none => exact iff_of_true rfl nofun
  | some a => exact Operand.diff_self a
  termination_by structural a

theorem Expression.diffList_self (index : Nat) (es : List Expression) :
    Expression.diffList index es es = none ↔ ∀ x ∈ Expression.floatsAll es, x.isNaN = false := by
  match es with
  | [] => exact iff_of_true rfl nofun
  | e :: es =>
    simp only [Expression.diffList, Expression.floatsAll, Option.or_eq_none_iff, under_eq_none,
      List.forall_mem_append, Expression.diff_self e, Expression.diffList_self (index + 1) es]
  termination_by structural es

end

end GameScript
