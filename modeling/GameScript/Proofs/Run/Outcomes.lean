import GameScript.Run.Evaluate

/-!
# What operations answer

Three of the errors guard against trees that no script parses to; the others are `Ordinary`. Operations on memory and
on values raise few of these: what goes by names, parameters or operators refuses with a `Basic` error
(`refuses_lookup`, `refuses_newFunctionScope` and their sisters), and what follows a reference may also find that it
dangles (`refuses_read`). An operator answers a scalar, or refuses with an error of operators (`plain_applyBinary`).
-/

namespace GameScript

/-- The errors that do not guard against trees which no script parses to. -/
def RuntimeError.Ordinary : RuntimeError → Prop
  | .invalidAssignmentTarget | .returnNotAllowed | .malformedExpression _ => False
  | _ => True

/-- The errors of operators. -/
def RuntimeError.Arithmetic : RuntimeError → Prop
  | .typeError _ | .typeMismatch _ _ _ | .divisionByZero | .integerOverflow _ => True
  | _ => False

/-- The errors of names, parameters and operators. -/
def RuntimeError.Basic : RuntimeError → Prop
  | .undefinedVariable _ | .alreadyDefined _ | .arityMismatch _ _ => True
  | .typeError _ | .typeMismatch _ _ _ | .divisionByZero | .integerOverflow _ => True
  | _ => False

/-- The errors of operations on memory and on values. -/
def RuntimeError.Operational (e : RuntimeError) : Prop := e.Basic ∨ ∃ key, e = .danglingReference key

theorem RuntimeError.Arithmetic.basic {e : RuntimeError} (h : e.Arithmetic) : e.Basic := by cases e <;> trivial

theorem RuntimeError.Basic.ordinary {e : RuntimeError} (h : e.Basic) : e.Ordinary := by cases e <;> trivial

theorem RuntimeError.Operational.ordinary {e : RuntimeError} (h : e.Operational) : e.Ordinary := by
  rcases h with h | ⟨key, rfl⟩
  · exact h.ordinary
  · trivial

/-- Values that name nothing in memory and nothing of the host. -/
def Value.IsScalar : Value → Prop
  | .undefined | .bool _ | .int _ | .float _ | .string _ => True
  | _ => False

theorem isScalar_ofLiteral (l : Literal) : (Value.ofLiteral l).IsScalar := by cases l <;> trivial

/-- An answer, or a refusal with an error of a class. -/
def Refuses {α : Type} (P : RuntimeError → Prop) (x : Except RuntimeError α) : Prop := ∀ e, x = .error e → P e

section Refuses

variable {α β : Type} {P Q : RuntimeError → Prop}

theorem refuses_ok (a : α) : Refuses P (.ok a) := fun _ h => by cases h

theorem refuses_error {e : RuntimeError} (h : P e) : Refuses P (.error e : Except RuntimeError α) := by
  intro _ he
  cases he
  exact h

theorem Refuses.mono {x : Except RuntimeError α} (h : Refuses P x) (hpq : ∀ e, P e → Q e) : Refuses Q x :=
  fun e he => hpq e (h e he)

theorem exists_of_bind_eq_ok {x : Except RuntimeError α} {f : α → Except RuntimeError β} {b : β}
    (h : x >>= f = .ok b) : ∃ a, x = .ok a ∧ f a = .ok b := by
  cases x with
  | ok a => exact ⟨a, rfl, h⟩
  | error e => cases h

theorem Refuses.bind {x : Except RuntimeError α} {f : α → Except RuntimeError β} (h : Refuses P x)
    (hf : ∀ a, Refuses P (f a)) : Refuses P (x >>= f) := by
  cases x with
  | ok a => exact hf a
  | error e => exact refuses_error (h e rfl)

end Refuses

/-! ## Memory -/

section Memory

variable (m : Memory) (s : ScopeId) (name : String) (value : Value) (r : Reference)

theorem refuses_lookup : Refuses RuntimeError.Basic (m.lookup s name) := by
  unfold Memory.lookup
  split
  · exact refuses_ok _
  · exact refuses_error trivial

theorem refuses_update : Refuses RuntimeError.Basic (m.update s name value) := by
  unfold Memory.update
  split
  · exact refuses_ok _
  · exact refuses_error trivial

theorem refuses_declare : Refuses RuntimeError.Basic (m.declare s name value) := by
  unfold Memory.declare
  split
  · exact refuses_error trivial
  · exact refuses_ok _

theorem refuses_declareAll (bindings : List (String × Value)) :
    Refuses RuntimeError.Basic (m.declareAll s bindings) := by
  induction bindings generalizing m with
  | nil => exact refuses_ok _
  | cons b rest ih => exact (refuses_declare m s b.1 b.2).bind fun n => ih n

theorem refuses_newFunctionScope (parameters : List String) (arguments : List Value) :
    Refuses RuntimeError.Basic (m.newFunctionScope s parameters arguments) := by
  unfold Memory.newFunctionScope
  split
  · exact (refuses_declareAll _ _ _).bind fun _ => refuses_ok _
  · exact refuses_error trivial

theorem refuses_target : Refuses RuntimeError.Operational (m.target r) := by
  unfold Memory.target
  split
  · exact refuses_ok _
  · exact refuses_error (.inr ⟨_, rfl⟩)

theorem refuses_read : Refuses RuntimeError.Operational (m.read r) := (refuses_target m r).bind fun _ => refuses_ok _

theorem refuses_write : Refuses RuntimeError.Operational (m.write r value) :=
  (refuses_target m r).bind fun _ => refuses_ok _

variable {m r value} in
theorem Memory.eq_of_target {o : ObjectId} (h : m.target r = .ok o) : r.object = o := by
  unfold Memory.target at h
  split at h <;> cases h
  rfl

variable {m r} in
theorem Memory.eq_of_read {v : Value} (h : m.read r = .ok v) : (m.property? r.object r.key).getD .undefined = v := by
  obtain ⟨o, ho, hv⟩ := exists_of_bind_eq_ok h
  cases hv
  rw [eq_of_target ho]

variable {m r value} in
theorem Memory.eq_of_write {n : Memory} (h : m.write r value = .ok n) : m.setProperty r.object r.key value = n := by
  obtain ⟨o, ho, hn⟩ := exists_of_bind_eq_ok h
  cases hn
  rw [eq_of_target ho]

theorem refuses_resolve : Refuses RuntimeError.Operational (m.resolve value) := by
  cases value with
  | reference r => exact refuses_read m r
  | _ => exact refuses_ok _

theorem refuses_targetRead (t : Target) : Refuses RuntimeError.Operational (t.read m s) := by
  cases t with
  | declare name => exact refuses_error (.inl trivial)
  | existing name => exact ((refuses_lookup m s name).mono fun _ => .inl).bind fun v => refuses_resolve m v
  | property r => exact refuses_read m r

theorem refuses_targetWrite (t : Target) : Refuses RuntimeError.Operational (t.write value s m) := by
  cases t with
  | declare name => exact (refuses_declare m s name value).mono fun _ => .inl
  | existing name => exact (refuses_update m s name value).mono fun _ => .inl
  | property r => exact refuses_write m value r

end Memory

/-! ## Operators -/

section Operators

/-- A scalar, or a refusal with an error of operators. -/
def Plain (x : Except RuntimeError Value) : Prop := Refuses RuntimeError.Arithmetic x ∧ ∀ v, x = .ok v → v.IsScalar

variable {op : OperatorKind} {l r : Value} {x : Except RuntimeError Value}

theorem plain_ok {v : Value} (h : v.IsScalar) : Plain (.ok v) := ⟨refuses_ok v, fun _ hv => by cases hv; exact h⟩

theorem plain_error {e : RuntimeError} (h : e.Arithmetic) : Plain (.error e) :=
  ⟨refuses_error h, fun _ hv => by cases hv⟩

theorem plain_checked (n : Int) : Plain (checked op n) := by
  unfold checked
  split
  · exact plain_ok trivial
  · exact plain_error trivial

theorem plain_intArithmetic {a b : Int} (h : intArithmetic op a b = some x) : Plain x := by
  unfold intArithmetic at h
  split at h <;> cases h
  · exact plain_checked _
  · exact plain_checked _
  · exact plain_checked _
  · split
    · exact plain_error trivial
    · exact plain_checked _
  · split
    · exact plain_error trivial
    · split
      · exact plain_checked _
      · exact plain_error trivial

theorem plain_orderAnswer {lt le gt ge : Bool}
    (h : (orderAnswer op lt le gt ge).map (Except.ok <| Value.bool ·) = some x) : Plain x := by
  obtain ⟨b, -, rfl⟩ := Option.map_eq_some_iff.1 h
  exact plain_ok trivial

theorem plain_applySame (h : applySame op l r = some x) : Plain x := by
  unfold applySame at h
  split at h
  · rcases Option.or_eq_some_iff.1 h with h | ⟨-, h⟩
    · exact plain_intArithmetic h
    · exact plain_orderAnswer h
  · rcases Option.or_eq_some_iff.1 h with h | ⟨-, h⟩
    · obtain ⟨y, -, rfl⟩ := Option.map_eq_some_iff.1 h
      exact plain_ok trivial
    · exact plain_orderAnswer h
  · split at h
    · cases h
      exact plain_ok trivial
    · exact plain_orderAnswer h
  · split at h <;> cases h <;> exact plain_ok trivial
  · cases h

/-- An operator answers a scalar or refuses with an error of operators. -/
theorem plain_applyBinary (op : OperatorKind) (l r : Value) : Plain (applyBinary op l r) := by
  have hrest : Plain ((applySame op l r).getD
      (if l.type = r.type then .error (.typeError (.undefinedFor op l.type))
        else .error (.typeMismatch op l.type r.type))) := by
    cases h : applySame op l r with
    | some x => exact plain_applySame h
    | none =>
      show Plain (if _ then _ else _)
      split <;> exact plain_error trivial
  unfold applyBinary
  split
  · exact plain_ok trivial
  · exact plain_ok trivial
  · exact hrest

end Operators

end GameScript
