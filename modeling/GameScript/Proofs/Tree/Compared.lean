import GameScript.Proofs.Tree.Printer
import GameScript.Tree.Compare

/-!
# What a comparison overlooks

Where the comparison of two programs reports nothing they are the same but for two things: their places, which it does
not look at, and floating-point literals, which it compares as numbers, so that it takes the two zeros for one. Where
these have the same bits the programs are the same without places (`eraseSpans_of_diff`).
-/

namespace GameScript

open Mismatch

/-! ## Floating-point literals -/

/-- The floating-point number that a literal is. -/
def Literal.floats : Literal → List Float
  | .float x => [x]
  | _ => []

mutual

/-- The floating-point literals of an operand, in order. -/
def Operand.floats : Operand → List Float
  | .value literal => literal.floats
  | .var _ => []
  | .object ps => Property.floatsAll ps
  | .block s => s.floats
  | .expression e => e.floats
  | .function _ s => s.floats
  | .call e es => e.floats ++ Expression.floatsAll es

/-- The floating-point literals of properties. -/
def Property.floatsAll : List Property → List Float
  | [] => []
  | ⟨_, e⟩ :: ps => e.floats ++ Property.floatsAll ps

/-- The floating-point literals of a scope. -/
def Scope.floats : Scope → List Float
  | ⟨body, _⟩ => Statement.floatsAll body

/-- The floating-point literals of statements. -/
def Statement.floatsAll : List Statement → List Float
  | [] => []
  | ⟨e, _⟩ :: rest => e.floats ++ Statement.floatsAll rest

/-- The floating-point literals of an expression. -/
def Expression.floats : Expression → List Float
  | ⟨a, _, b, _⟩ => Operand.floatsSlot a ++ Operand.floatsSlot b

/-- The floating-point literals in a slot. -/
def Operand.floatsSlot : Option Operand → List Float
  | none => []
  | some a => a.floats

/-- The floating-point literals of expressions. -/
def Expression.floatsAll : List Expression → List Float
  | [] => []
  | e :: es => e.floats ++ Expression.floatsAll es

end

/-- The floating-point literals of a program, in order. -/
def Program.floats (p : Program) : List Float := p.body.floats

/-- Floating-point numbers with the same bits are the same. -/
theorem toBits_injective : Function.Injective Float.toBits := by
  rintro ⟨⟨bits, _⟩⟩ ⟨⟨bits', _⟩⟩ h
  obtain rfl : bits = bits' := h
  rfl

/-! ## Trees -/

theorem Mismatch.under_eq_none {step : PathStep} {m : Option Mismatch} : under step m = none ↔ m = none :=
  Option.map_eq_none_iff

/-- Nothing is reported where a test succeeds and nothing is reported behind it. -/
theorem Mismatch.of_ite_eq_none {c : Prop} [Decidable c] {m : Option Mismatch} {expected found : String}
    (h : (if c then m else here expected found) = none) : c ∧ m = none := by
  split at h
  · exact ⟨‹c›, h⟩
  · cases h

theorem Literal.eq_of_floats {l k : Literal} (h : (l == k) = true) {us vs : List Float}
    (hfloats : l.floats ++ us = k.floats ++ vs) : l = k ∧ us = vs := by
  cases l <;> cases k <;> try exact absurd h Bool.false_ne_true
  case float.float x y =>
    obtain ⟨rfl, hrest⟩ := List.cons.inj hfloats
    exact ⟨rfl, hrest⟩
  all_goals exact ⟨by first | rfl | exact congrArg _ (eq_of_beq h), hfloats⟩

theorem Variable.eraseSpan_congr {v w : Variable} (h : v.name = w.name ∧ v.role = w.role) :
    v.eraseSpan = w.eraseSpan := by
  rw [Variable.eraseSpan, Variable.eraseSpan, h.1, h.2]

theorem Operator.eraseSpan_congr {op op' : Option Operator} (h : op.map Operator.kind = op'.map Operator.kind) :
    op.map Operator.eraseSpan = op'.map Operator.eraseSpan := by
  cases op <;> cases op' <;> simp_all [Operator.eraseSpan]

/-! Each of the lemmas below compares a part of two programs that goes before others: of the literals that the parts
begin with, those of the part are the same, and so are those that come after it. -/

mutual

theorem Operand.eraseSpans_of_diff (a b : Operand) {us vs : List Float} (h : a.diff b = none)
    (hfloats : a.floats ++ us = b.floats ++ vs) : a.eraseSpans = b.eraseSpans ∧ us = vs := by
  match a with
  | .value l =>
    cases b <;> try cases h
    rename_i k
    obtain ⟨rfl, hrest⟩ := Literal.eq_of_floats (of_ite_eq_none h).1 hfloats
    exact ⟨rfl, hrest⟩
  | .var v =>
    cases b <;> try cases h
    exact ⟨congrArg Operand.var (Variable.eraseSpan_congr (of_ite_eq_none h).1), hfloats⟩
  | .object ps =>
    cases b <;> try cases h
    rename_i qs
    obtain ⟨hlength, hall⟩ := of_ite_eq_none h
    obtain ⟨herase, hrest⟩ := Property.eraseAll_of_diff ps qs hlength hall hfloats
    exact ⟨congrArg Operand.object herase, hrest⟩
  | .block s =>
    cases b <;> try cases h
    rename_i t
    obtain ⟨herase, hrest⟩ := Scope.eraseSpans_of_diff s t (under_eq_none.1 h) hfloats
    exact ⟨congrArg Operand.block herase, hrest⟩
  | .expression e =>
    cases b <;> try cases h
    rename_i f
    obtain ⟨herase, hrest⟩ := Expression.eraseSpans_of_diff e f h hfloats
    exact ⟨congrArg Operand.expression herase, hrest⟩
  | .function ps s =>
    cases b <;> try cases h
    rename_i qs t
    obtain ⟨rfl, hbody⟩ := of_ite_eq_none h
    obtain ⟨herase, hrest⟩ := Scope.eraseSpans_of_diff s t (under_eq_none.1 hbody) hfloats
    exact ⟨congrArg (Operand.function ps) herase, hrest⟩
  | .call e es =>
    cases b <;> try cases h
    rename_i f fs
    obtain ⟨hcallee, hargs⟩ := Option.or_eq_none_iff.1 h
    obtain ⟨hlength, hall⟩ := of_ite_eq_none hargs
    simp only [Operand.floats, List.append_assoc] at hfloats
    obtain ⟨herase, hrest⟩ := Expression.eraseSpans_of_diff e f (under_eq_none.1 hcallee) hfloats
    obtain ⟨heach, hrest⟩ := Expression.eraseAll_of_diff 0 es fs hlength hall hrest
    exact ⟨by rw [Operand.eraseSpans, Operand.eraseSpans, herase, heach], hrest⟩
  termination_by structural a

theorem Property.eraseAll_of_diff (ps qs : List Property) {us vs : List Float} (hlength : ps.length = qs.length)
    (h : Property.diffList ps qs = none) (hfloats : Property.floatsAll ps ++ us = Property.floatsAll qs ++ vs) :
    Property.eraseAll ps = Property.eraseAll qs ∧ us = vs := by
  match ps, qs with
  | [], [] => exact ⟨rfl, hfloats⟩
  | ⟨key, e⟩ :: ps, ⟨key', f⟩ :: qs =>
    obtain ⟨rfl, hpair⟩ := of_ite_eq_none h
    obtain ⟨hfirst, hall⟩ := Option.or_eq_none_iff.1 hpair
    simp only [Property.floatsAll, List.append_assoc] at hfloats
    obtain ⟨herase, hrest⟩ := Expression.eraseSpans_of_diff e f (under_eq_none.1 hfirst) hfloats
    obtain ⟨heach, hrest⟩ := Property.eraseAll_of_diff ps qs (Nat.succ.inj hlength) hall hrest
    exact ⟨by rw [Property.eraseAll, Property.eraseAll, herase, heach], hrest⟩
  termination_by structural ps

theorem Scope.eraseSpans_of_diff (s t : Scope) {us vs : List Float} (h : s.diff t = none)
    (hfloats : s.floats ++ us = t.floats ++ vs) : s.eraseSpans = t.eraseSpans ∧ us = vs := by
  match s, t with
  | ⟨ss, _⟩, ⟨ts, _⟩ =>
    obtain ⟨hlength, hall⟩ := of_ite_eq_none h
    obtain ⟨herase, hrest⟩ := Statement.eraseAll_of_diff 0 ss ts hlength hall hfloats
    exact ⟨by rw [Scope.eraseSpans, Scope.eraseSpans, herase], hrest⟩
  termination_by structural s

theorem Statement.eraseAll_of_diff (index : Nat) (ss ts : List Statement) {us vs : List Float}
    (hlength : ss.length = ts.length) (h : Statement.diffList index ss ts = none)
    (hfloats : Statement.floatsAll ss ++ us = Statement.floatsAll ts ++ vs) :
    Statement.eraseAll ss = Statement.eraseAll ts ∧ us = vs := by
  match ss, ts with
  | [], [] => exact ⟨rfl, hfloats⟩
  | ⟨e, _⟩ :: ss, ⟨f, _⟩ :: ts =>
    obtain ⟨hfirst, hall⟩ := Option.or_eq_none_iff.1 h
    simp only [Statement.floatsAll, List.append_assoc] at hfloats
    obtain ⟨herase, hrest⟩ := Expression.eraseSpans_of_diff e f (under_eq_none.1 hfirst) hfloats
    obtain ⟨heach, hrest⟩ := Statement.eraseAll_of_diff _ ss ts (Nat.succ.inj hlength) hall hrest
    exact ⟨by rw [Statement.eraseAll, Statement.eraseAll, herase, heach], hrest⟩
  termination_by structural ss

theorem Expression.eraseSpans_of_diff (e f : Expression) {us vs : List Float} (h : e.diff f = none)
    (hfloats : e.floats ++ us = f.floats ++ vs) : e.eraseSpans = f.eraseSpans ∧ us = vs := by
  match e, f with
  | ⟨a, op, b, _⟩, ⟨c, op', d, _⟩ =>
    obtain ⟨hop, hslots⟩ := of_ite_eq_none h
    obtain ⟨hleft, hright⟩ := Option.or_eq_none_iff.1 hslots
    simp only [Expression.floats, List.append_assoc] at hfloats
    obtain ⟨ha, hrest⟩ := Operand.eraseSlot_of_diff a c (under_eq_none.1 hleft) hfloats
    obtain ⟨hb, hrest⟩ := Operand.eraseSlot_of_diff b d (under_eq_none.1 hright) hrest
    exact ⟨by rw [Expression.eraseSpans, Expression.eraseSpans, ha, hb, Operator.eraseSpan_congr hop], hrest⟩
  termination_by structural e

theorem Operand.eraseSlot_of_diff (a b : Option Operand) {us vs : List Float} (h : Operand.diffSlot a b = none)
    (hfloats : Operand.floatsSlot a ++ us = Operand.floatsSlot b ++ vs) :
    Operand.eraseSlot a = Operand.eraseSlot b ∧ us = vs := by
  match a, b with
  | none, none => exact ⟨rfl, hfloats⟩
  | some a, some b =>
    obtain ⟨herase, hrest⟩ := Operand.eraseSpans_of_diff a b h hfloats
    exact ⟨congrArg some herase, hrest⟩
  | none, some _ | some _, none => cases h
  termination_by structural a

theorem Expression.eraseAll_of_diff (index : Nat) (es fs : List Expression) {us vs : List Float}
    (hlength : es.length = fs.length) (h : Expression.diffList index es fs = none)
    (hfloats : Expression.floatsAll es ++ us = Expression.floatsAll fs ++ vs) :
    Expression.eraseAll es = Expression.eraseAll fs ∧ us = vs := by
  match es, fs with
  | [], [] => exact ⟨rfl, hfloats⟩
  | e :: es, f :: fs =>
    obtain ⟨hfirst, hall⟩ := Option.or_eq_none_iff.1 h
    simp only [Expression.floatsAll, List.append_assoc] at hfloats
    obtain ⟨herase, hrest⟩ := Expression.eraseSpans_of_diff e f (under_eq_none.1 hfirst) hfloats
    obtain ⟨heach, hrest⟩ := Expression.eraseAll_of_diff _ es fs (Nat.succ.inj hlength) hall hrest
    exact ⟨by rw [Expression.eraseAll, Expression.eraseAll, herase, heach], hrest⟩
  termination_by structural es

end

/-- Programs between which the comparison finds no difference, and whose floating-point literals have the same bits, are
the same without places. -/
theorem eraseSpans_of_diff {p q : Program} (h : p.diff q = none)
    (hfloats : p.floats.map Float.toBits = q.floats.map Float.toBits) : p.eraseSpans = q.eraseSpans := by
  have hsame : p.floats = q.floats := (List.map_inj_right fun _ _ hxy => toBits_injective hxy).1 hfloats
  exact congrArg Program.mk (Scope.eraseSpans_of_diff p.body q.body h (congrArg (· ++ []) hsame)).1

end GameScript
