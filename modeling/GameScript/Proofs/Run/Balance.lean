import GameScript.Proofs.Run.Contract
import GameScript.Proofs.Run.Habits

/-!
# What evaluation leaves as it was

Whatever a task does, in the end the counter of the machine is what it was, and so is what is held, whether the task
has an answer or fails (`Balanced`). On the way a task has others done at its own depth, and the call of a closure has
them done one deeper (`Task.frames`). And no function of the evaluator fails with the fault of a refused call, unless
it is the refusal itself, a function of the host, or a task that was asked for (`meets_balance`, for the faults `F` that
are allowed).
-/

namespace GameScript

open Eval

/-- Done with the counter and what is held as they were, or failed so, with a fault that is allowed. -/
structure Balanced {σ α : Type} (F : RuntimeFault → Prop) (m : Machine σ) (r : Except RuntimeFault α)
    (m' : Machine σ) : Prop where
  depth : m'.depth = m.depth
  held : m'.memory.held = m.memory.held
  fault : ∀ f, r = .error f → F f

/-- Tasks that are asked for at a depth and leave everything balanced. -/
def balance {σ : Type} (F : RuntimeFault → Prop) (d : Nat) : Contract σ where
  pre _ m := m.depth = d
  post _ m := Balanced F m

/-- Every fault is allowed but that of a refused call. -/
def Lenient (F : RuntimeFault → Prop) : Prop := ∀ e span, (∀ limit, e ≠ .callDepthExceeded limit) → F ⟨e, span⟩

theorem lenient_true : Lenient fun _ => True := fun _ _ _ => trivial

section Conducts

variable {F : RuntimeFault → Prop}

/-- What leaves alone what is held, and raises what is allowed. -/
def Lenient.conduct (hF : Lenient F) : Conduct where
  change m n := n.held = m.held
  fault := F
  place _ := True
  change_refl _ := rfl
  change_trans h h' := h'.trans h
  change_bind _ _ _ _ := rfl
  change_newScope _ _ := rfl
  change_newClosure _ _ := rfl
  fault_of_place _ h := hF _ _ h

theorem Lenient.touchesObjects (hF : Lenient F) : hF.conduct.TouchesObjects := ⟨fun _ _ => rfl, fun _ _ _ _ => rfl⟩

theorem held_write {v : Value} {t : Target} {s : ScopeId} {m m' : Memory} (h : t.write v s m = .ok m') :
    m'.held = m.held := lenient_true.conduct.change_write (.inl lenient_true.touchesObjects) h

end Conducts

/-! ## Computations and plans -/

section Plans

variable {σ α β : Type} {F : RuntimeFault → Prop} {span : Span}

/-- A computation that leaves everything balanced. -/
def Eval.Steady (F : RuntimeFault → Prop) (ev : Eval σ α) : Prop := ∀ m, Balanced F m (ev m).1 (ev m).2

theorem Balanced.trans {r : Except RuntimeFault α} {r' : Except RuntimeFault β} {m m₁ m₂ : Machine σ}
    (h : Balanced F m r m₁) (h' : Balanced F m₁ r' m₂) : Balanced F m r' m₂ :=
  ⟨h'.depth.trans h.depth, h'.held.trans h.held, h'.fault⟩

theorem Balanced.error {f : RuntimeFault} {m m' : Machine σ} (h : Balanced F m (.error f : Except _ α) m') :
    Balanced F m (.error f : Except _ β) m' := ⟨h.depth, h.held, fun _ he => h.fault _ (by cases he; rfl)⟩

theorem steady_throw {e : RuntimeError} (h : F ⟨e, span⟩) : (fail span e : Eval σ α).Steady F :=
  fun _ => ⟨rfl, rfl, fun _ he => by cases he; exact h⟩

/-- A plan that has its tasks done where it starts, and leaves everything balanced. -/
def Plan.Steady (F : RuntimeFault → Prop) (act : Plan σ α) : Prop :=
  ∀ m, (act m).Meets (balance F m.depth) (Balanced F m)

theorem Plan.steady_ask {k : Kind} (task : Task k) : (Plan.ask task : Plan σ k.Answer).Steady F :=
  fun _ => meets_ask rfl fun _ _ => id

theorem Plan.Steady.bind {act : Plan σ α} {f : α → Plan σ β} (h : act.Steady F) (hf : ∀ a, (f a).Steady F) :
    (act >>= f).Steady F := by
  refine fun m => meets_bind ((h m).mono fun r m' hr => ?_)
  cases r with
  | ok a =>
    have hrest := hf a m'
    rw [hr.depth] at hrest
    exact hrest.mono fun _ _ => hr.trans
  | error e => exact hr.error

theorem Plan.Steady.holding {act : Plan σ α} (h : act.Steady F) (cells : List Cell) : (act.holding cells).Steady F :=
  fun m => meets_holding ((h { m with memory := m.memory.holding cells }).mono fun _ _ hr => ⟨hr.depth, rfl, hr.fault⟩)

/-- The habit of leaving everything balanced. -/
def steadiness (hF : Lenient F) : Habit σ where
  toConduct := hF.conduct
  plan := Plan.Steady F
  now h m := ⟨(h m).depth, (h m).change, (h m).fault⟩
  bind := .bind
  ask _ := Plan.steady_ask _
  holding h := h.holding _

end Plans

/-! ## Calls -/

section Calls

variable {σ : Type} {F : RuntimeFault → Prop} {span : Span}

/-- A function of the host may fail with any error, but it leaves everything balanced. -/
theorem steady_hostStep (hF : Lenient F) (hall : ∀ f, F f) (step : HostStep σ) :
    (Plan.hostStep span step).Steady F := by
  refine (steadiness hF).hostStep (fun _ _ => rfl) (fun h m => ?_) trivial (fun _ => hall _) step
  exact meets_attempt ((h m).mono fun _ _ hr => ⟨hr.depth, hr.held, fun _ h => by cases h⟩)

/-- The call of a closure has its body done one deeper. -/
theorem meets_enter (hF : Lenient F) {limit : Nat} {c : ClosureId} {args : List Value} {m : Machine σ}
    (hrefused : limit ≤ m.depth → F ⟨.callDepthExceeded limit, span⟩) :
    (Plan.enter limit c args span m).Meets (balance F (m.depth + 1)) (Balanced F m) := by
  refine meets_bind ?_
  show ((if limit ≤ m.depth then _ else _ : Plan σ Value) m).Meets (balance F (m.depth + 1)) (Balanced F m)
  split
  · rename_i hfull
    exact steady_throw (α := Value) (hrefused hfull) m
  · refine meets_bind ?_
    cases hx : m.memory.newFunctionScope (m.memory.closure c).scope (m.memory.closure c).parameters args with
    | error e =>
      have he : e.Operational := .inl (refuses_newFunctionScope _ _ _ _ e hx)
      exact steady_throw (α := Value) (hF e span he.ne_callDepthExceeded) m
    | ok r =>
      have hheld : r.2.held = m.memory.held := hF.conduct.change_newFunctionScope hx
      refine meets_bind (meets_bind (meets_deeper (meets_holding (meets_ask rfl fun r' m' hr => ?_))))
      have hdepth : m'.depth = m.depth + 1 := hr.depth
      cases r' with
      | ok flow => exact ⟨Nat.sub_eq_of_eq_add hdepth, hheld, fun _ h => by cases h⟩
      | error f => exact ⟨Nat.sub_eq_of_eq_add hdepth, hheld, fun _ h => hr.fault _ (by cases h; rfl)⟩

end Calls

/-! ## Tasks -/

section Tasks

variable {σ : Type} {F : RuntimeFault → Prop}

/-- How many script functions are called by a task itself. -/
def Task.frames : {k : Kind} → Task k → Nat
  | _, .enter _ _ _ => 1
  | _, _ => 0

/-- Whether a task is the call of a function of the host. -/
def Task.CallsHost : {k : Kind} → Task k → Prop
  | _, .invoke (.native _) _ _ => True
  | _, _ => False

/-- What every task does to the counter and to what is held, and which faults are its own. -/
theorem meets_balance (hF : Lenient F) (host : Host σ) (limit : Nat) {k : Kind} (task : Task k) (m : Machine σ)
    (hhost : task.CallsHost → ∀ f, F f) (hrefused : task.frames = 1 → limit ≤ m.depth →
      ∀ span, F ⟨.callDepthExceeded limit, span⟩) :
    (task.plan host limit m).Meets (balance F (m.depth + task.frames)) (Balanced F m) := by
  let H : Habit σ := steadiness hF
  have hobjects : H.TouchesObjects := hF.touchesObjects
  cases task with
  | statements scope body => exact H.statements body m
  | statement scope s => exact H.statement trivial m
  | block scope s => exact H.block s m
  | expression scope e => exact H.expression trivial m
  | operand scope span a => exact H.operand trivial (placed_of_forall fun _ => trivial) (.inl hobjects) m
  | property scope e => exact H.property trivial m
  | assignment scope e => exact H.assignment trivial hobjects m
  | compound scope base e => exact H.compound trivial hobjects base m
  | step scope op e => exact H.step trivial op m
  | invoke callee args span =>
    cases callee with
    | closure c => exact (Plan.steady_ask _).holding _ m
    | native n => exact steady_hostStep hF (hhost trivial) _ m
    | _ => exact H.fail trivial (by simp) m
  | enter c args span => exact meets_enter hF fun hfull => hrefused rfl hfull span

end Tasks

end GameScript
