import GameScript.Proofs.Run.Compound

/-!
# A failing step adds nothing of its own

An assignment, a compound assignment or a step first evaluates its parts: the right side, and the parent of the property
that it writes to, if it writes to one (`Expression.evalParts`). A call first evaluates the callee and the arguments
(`Operand.evalCall`). What comes after that is all or nothing (`Eval.AllOrNothing`): where it fails, the machine is what
the parts have left.

Main statement: so it is for every expression that writes, and for every call that is refused, be it made in a script
or by the host (`failures_add_nothing`).
-/

namespace GameScript

open Eval

variable {σ α β : Type}

/-! ## All or nothing -/

/-- A computation that leaves every machine where it fails as it is. -/
def Eval.AllOrNothing (ev : Eval σ α) : Prop := ∀ m f, (ev m).1 = .error f → (ev m).2 = m

/-- At a machine, a computation fails where its parts do, with their fault, and wherever it fails the machine is what
the parts leave. -/
structure Eval.FailsAfter (ev : Eval σ α) (parts : Eval σ β) (m : Machine σ) : Prop where
  passes : ∀ f, (parts m).1 = .error f → (ev m).1 = .error f
  leaves : ∀ f, (ev m).1 = .error f → (ev m).2 = (parts m).2

section AllOrNothing

variable {ev : Eval σ α} {f : α → Eval σ β} {m : Machine σ} {span : Span}

theorem Eval.Reads.allOrNothing (h : ev.Reads) : ev.AllOrNothing := fun m _ _ => h m

theorem Eval.Reads.bind_allOrNothing (h : ev.Reads) (hf : ∀ a, (f a).AllOrNothing) : (ev >>= f).AllOrNothing := by
  intro m g hg
  have hm := h m
  rw [Eval.bind_apply] at hg ⊢
  rcases hev : ev m with ⟨e | a, k⟩ <;> rw [hev] at hm hg <;> obtain rfl : k = m := hm
  · rfl
  · exact hf a k g hg

theorem allOrNothing_updateMemory (change : Memory → Except RuntimeError Memory) :
    (updateMemory span change : Eval σ Unit).AllOrNothing := by
  intro m f hf
  rw [updateMemory_apply] at hf ⊢
  cases hn : change m.memory with
  | ok n =>
    rw [hn] at hf
    cases hf
  | error e => rfl

/-- What cannot fail may follow. -/
theorem Eval.AllOrNothing.bind_pure (h : ev.AllOrNothing) (g : α → β) :
    (do return g (← ev) : Eval σ β).AllOrNothing := by
  intro m f hf
  have hm := h m
  rw [Eval.bind_apply] at hf ⊢
  rcases hev : ev m with ⟨e | a, k⟩ <;> rw [hev] at hm hf
  · exact hm e rfl
  · cases hf

end AllOrNothing

section FailsAfter

variable {γ : Type} {ev : Eval σ α} {parts : Eval σ β} {m : Machine σ}

/-- What is all or nothing fails after what comes before it. -/
theorem failsAfter_bind {f : β → Eval σ α} (h : ∀ b, (f b).AllOrNothing) (parts : Eval σ β) (m : Machine σ) :
    (parts >>= f).FailsAfter parts m := by
  constructor <;> intro g hg <;> rw [Eval.bind_apply] at * <;> rcases hparts : parts m with ⟨e | b, k⟩ <;>
    simp only [hparts] at hg ⊢
  · exact congrArg Except.error (Except.error.inj hg)
  · cases hg
  · exact h b k g hg

/-- What follows on the same fails after what follows on it there. -/
theorem Eval.FailsAfter.after {f : γ → Eval σ α} {g : γ → Eval σ β} (first : Eval σ γ)
    (h : ∀ c k, (f c).FailsAfter (g c) k) : (first >>= f).FailsAfter (first >>= g) m := by
  constructor <;> intro e he <;> rw [Eval.bind_apply] at * <;> rcases hfirst : first m with ⟨e' | c, k⟩ <;>
    rw [hfirst] at he
  · exact congrArg Except.error (Except.error.inj he)
  · exact (h c k).passes e he
  · rw [Eval.bind_apply, hfirst]
  · rw [Eval.bind_apply, hfirst]
    exact (h c k).leaves e he

/-- What cannot fail may follow. -/
theorem Eval.FailsAfter.bind_pure (h : ev.FailsAfter parts m) (c : γ) :
    (do let _ ← ev; return c : Eval σ γ).FailsAfter parts m := by
  constructor <;> intro e he
  · have hev := h.passes e he
    rw [Eval.bind_apply]
    rcases hact : ev m with ⟨e' | a, k⟩ <;> rw [hact] at hev
    · exact congrArg Except.error (Except.error.inj hev)
    · cases hev
  · rw [Eval.bind_apply] at he ⊢
    have hm := h.leaves
    rcases hact : ev m with ⟨e' | a, k⟩ <;> rw [hact] at he hm
    · exact hm e' rfl
    · cases he

theorem Eval.FailsAfter.holding {cells : List Cell}
    (h : ev.FailsAfter parts { m with memory := m.memory.holding cells }) :
    (holding cells ev).FailsAfter (holding cells parts) m where
  passes := h.passes
  leaves f hf := congrArg (fun k : Machine σ => { k with memory := { k.memory with held := m.memory.held } })
    (h.leaves f hf)

end FailsAfter

/-! ## Expressions that write -/

/-- The owner of a property that is written to: a value, and whether a name stands for it, with the name of the
property. -/
structure Owner where
  key : String
  parent : Value
  named : Bool

section Writing

variable (calls : Calls σ) (scope : ScopeId)

/-- Evaluates what there is to evaluate of a target: the parent of a property. -/
def Operand.evalOwner : Option Operand → Eval σ (Option Owner)
  | some (.expression e) =>
    if e.operator? = some .child then do
      let key ← memberName e.span e.right
      let (parent, named) ← Operand.evalParent calls scope e.span e.left
      return some ⟨key, parent, named⟩
    else return none
  | _ => return none

/-- Evaluates the parts of an expression that writes, and does not write: the right side of an assignment, and while its
value is held the owner of what is written. Where the slots are not filled as the operator wants, nothing is
evaluated. -/
def Expression.evalParts (e : Expression) : Eval σ (Option Owner) :=
  if e.checkShape.isSome then return none
  else if e.operator? = some .inc ∨ e.operator? = some .dec then Operand.evalOwner calls scope e.written
  else do
    let v ← Operand.evalSlot calls scope e.span e.right
    holding (Value.cells [v]) (Operand.evalOwner calls scope e.written)

variable (span : Span)

/-- The target that a property of an owner is, which is accessed at a place; without an owner there is none. -/
def Owner.target? (place : Span) : Option Owner → Eval σ Target
  | some o => do return .property (← referenceTo place o.key o.named o.parent)
  | none => fail span .invalidAssignmentTarget

/-- What has no owner to evaluate is no more than looked at. -/
theorem exists_look {mayDeclare : Bool} {a : Option Operand} {ev : Eval σ Target} (hev : ev.Reads)
    (htarget : Operand.slotTarget calls scope span mayDeclare a = ev)
    (howner : Operand.evalOwner calls scope a = pure none) : ∃ look : Option Owner → Eval σ Target,
    (∀ o, (look o).Reads) ∧
      Operand.slotTarget calls scope span mayDeclare a = Operand.evalOwner calls scope a >>= look := by
  refine ⟨fun _ => ev, fun _ => hev, ?_⟩
  rw [htarget, howner, pure_bind]

/-- A target is its owner, and from there on only looked at. -/
theorem exists_slotTarget_eq (mayDeclare : Bool) (a : Option Operand) : ∃ look : Option Owner → Eval σ Target,
    (∀ o, (look o).Reads) ∧
      Operand.slotTarget calls scope span mayDeclare a = Operand.evalOwner calls scope a >>= look := by
  have hfails : (fail span .invalidAssignmentTarget : Eval σ Target).Reads := fun _ => rfl
  match a with
  | none => exact exists_look calls scope span hfails (by rw [Operand.slotTarget]) rfl
  | some (.var ⟨name, .use, place⟩) =>
    refine exists_look calls scope span (reads_pure (.existing name)) ?_ rfl
    rw [Operand.slotTarget, Operand.target]
  | some (.var ⟨name, .declare, place⟩) =>
    cases mayDeclare with
    | true =>
      refine exists_look calls scope span (reads_pure (.declare name)) ?_ rfl
      rw [Operand.slotTarget, Operand.target]
      rfl
    | false =>
      refine exists_look calls scope span hfails ?_ rfl
      rw [Operand.slotTarget, Operand.target]
      rfl
  | some (.expression e) =>
    by_cases hop : e.operator? = some .child
    · refine ⟨Owner.target? span e.span, ?_, ?_⟩
      · rintro (_ | o)
        · exact hfails
        · exact (reads_referenceTo _ _ _).bind fun _ => reads_pure _
      · rw [Operand.slotTarget, target_of_child hop, Operand.evalOwner, if_pos hop]
        simp only [Expression.evalAccess, bind_assoc, pure_bind, Owner.target?]
    · refine exists_look calls scope span hfails ?_ ?_
      · rw [Operand.slotTarget, target_of_ne_child hop]
      · rw [Operand.evalOwner, if_neg hop]
  | some (.value _) | some (.object _) | some (.block _) | some (.function _ _) | some (.call _ _) =>
    refine exists_look calls scope span hfails ?_ rfl
    rw [Operand.slotTarget, Operand.target] <;> simp

/-- What is done at a target fails after its owner, if it is all or nothing. -/
theorem failsAfter_target {f : Target → Eval σ α} (hf : ∀ t, (f t).AllOrNothing) (mayDeclare : Bool)
    (a : Option Operand) (m : Machine σ) :
    (Operand.slotTarget calls scope span mayDeclare a >>= f).FailsAfter (Operand.evalOwner calls scope a) m := by
  obtain ⟨look, hlook, htarget⟩ := exists_slotTarget_eq calls scope span mayDeclare a
  rw [htarget, bind_assoc]
  exact failsAfter_bind (fun o => (hlook o).bind_allOrNothing hf) _ m

variable {calls scope span} {op base : OperatorKind} {e : Expression} (m : Machine σ)

theorem failsAfter_assign (hop : e.operator? = some .assign) (h : e.checkShape = none) :
    (e.eval calls scope).FailsAfter (e.evalParts calls scope) m := by
  rw [eval_of_assign hop h, Expression.evalParts, h, hop]
  refine Eval.FailsAfter.after _ fun v k => Eval.FailsAfter.bind_pure ?_ v
  exact (failsAfter_target calls scope e.span (fun t => allOrNothing_updateMemory _) true e.written _).holding

/-- What a compound assignment does at its target is all or nothing. -/
theorem allOrNothing_compound (v : Value) (t : Target) : (do
    let current ← Eval.lift span (t.read (← memory) scope)
    let updated ← Eval.lift span (applyBinary base current v)
    updateMemory span (t.write updated scope)
    return updated : Eval σ Value).AllOrNothing := by
  refine reads_memory.bind_allOrNothing fun n => (reads_lift _).bind_allOrNothing fun current => ?_
  refine (reads_lift _).bind_allOrNothing fun updated => ?_
  exact (allOrNothing_updateMemory _).bind_pure fun _ => updated

theorem failsAfter_compound (hop : e.operator? = some op) (hbase : op.compoundBase = some base)
    (h : e.checkShape = none) : (e.eval calls scope).FailsAfter (e.evalParts calls scope) m := by
  have hstep : ¬(some op = some OperatorKind.inc ∨ some op = some OperatorKind.dec) := by
    cases op <;> cases hbase <;> simp
  rw [eval_of_compound hop hbase h, Expression.evalParts, h, hop, if_neg hstep]
  refine Eval.FailsAfter.after _ fun v k => ?_
  exact (failsAfter_target calls scope e.span (allOrNothing_compound v) false e.written _).holding

theorem reads_fail (e : RuntimeError) : (fail span e : Eval σ α).Reads := fun _ => rfl

theorem allOrNothing_stepBy (new : Bool) (t : Target) :
    (stepBy op new scope span (pure t) : Eval σ Value).AllOrNothing := by
  refine (reads_pure t).bind_allOrNothing fun t => ?_
  cases t with
  | property r => exact (reads_fail _).allOrNothing
  | _ =>
    refine reads_memory.bind_allOrNothing fun n => (reads_lift _).bind_allOrNothing fun v => ?_
    cases v with
    | int old =>
      refine (reads_lift _).bind_allOrNothing fun v => ?_
      exact (allOrNothing_updateMemory _).bind_pure fun _ => _
    | _ => exact (reads_fail _).allOrNothing

theorem failsAfter_step (hop : e.operator? = some op) (hstep : op = .inc ∨ op = .dec) (h : e.checkShape = none) :
    (e.eval calls scope).FailsAfter (e.evalParts calls scope) m := by
  have hcase : some op = some OperatorKind.inc ∨ some op = some OperatorKind.dec := by simpa using hstep
  rw [eval_of_step hop hstep h, Expression.evalParts, h, hop, if_pos hcase]
  exact failsAfter_target calls scope e.span (fun t => allOrNothing_stepBy _ t) false e.written m

/-- Whatever is written, and however that fails: the machine is what the parts leave. -/
theorem failsAfter_parts (hop : e.operator? = some op) (hwrites : op.isAssignment = true ∨ op = .inc ∨ op = .dec) :
    (e.eval calls scope).FailsAfter (e.evalParts calls scope) m := by
  cases h : e.checkShape with
  | some fault =>
    rw [eval_of_shape h, Expression.evalParts, h]
    constructor
    · rintro f ⟨⟩
    · exact fun f _ => rfl
  | none =>
    rcases hwrites with hassign | hstep
    · by_cases heq : op = .assign
      · exact failsAfter_assign m (heq ▸ hop) h
      · have hbase : ∃ base, op.compoundBase = some base := by
          simpa [OperatorKind.isAssignment, heq, Option.isSome_iff_exists] using hassign
        obtain ⟨base, hbase⟩ := hbase
        exact failsAfter_compound m hop hbase h
    · exact failsAfter_step m hop hstep h

end Writing

/-! ## Calls that are refused -/

section Calls

/-- Evaluates the parts of a call: the callee, and while it is held the arguments. -/
def Operand.evalCall (calls : Calls σ) (scope : ScopeId) (callee : Expression) (arguments : List Expression) :
    Eval σ (Value × List Value) := do
  let f ← callee.eval calls scope
  let f ← resolve callee.span f
  let args ← holding (Value.cells [f]) (Expression.evalAll calls scope [] arguments)
  return (f, args)

/-- At a machine the call of a value with arguments is refused, with an error: there are as many calls as there may be,
the arguments are not as many as the parameters, these cannot be bound, or the value cannot be called at all. -/
inductive Refused (limit : Nat) (m : Machine σ) : Value → List Value → RuntimeError → Prop
  | tooDeep {c : ClosureId} {args : List Value} (h : limit ≤ m.depth) :
      Refused limit m (.closure c) args (.callDepthExceeded limit)
  | arity {c : ClosureId} {args : List Value} (hroom : m.depth < limit)
      (h : (m.memory.closure c).parameters.length ≠ args.length) :
      Refused limit m (.closure c) args (.arityMismatch (m.memory.closure c).parameters.length args.length)
  | unbound {c : ClosureId} {args : List Value} {e : RuntimeError} (hroom : m.depth < limit)
      (h : m.memory.newFunctionScope (m.memory.closure c).scope (m.memory.closure c).parameters args = .error e) :
      Refused limit m (.closure c) args e
  | notCallable {v : Value} {args : List Value} (h : v.type ≠ .callable) : Refused limit m v args (.notCallable v.type)

variable {host : Host σ} {limit d : Nat} {scope : ScopeId} {span : Span} {m n : Machine σ} {f : Value}
  {args : List Value} {e : RuntimeError}

theorem declareAll_holding (k : Memory) (cells : List Cell) (s : ScopeId) (bindings : List (String × Value)) :
    (k.holding cells).declareAll s bindings = (k.declareAll s bindings).map (·.holding cells) := by
  induction bindings generalizing k with
  | nil => rfl
  | cons b rest ih =>
    have hdeclare : (k.holding cells).declare s b.1 b.2 = (k.declare s b.1 b.2).map (·.holding cells) := by
      show (if k.hasLocal s b.1 then _ else _) = (if k.hasLocal s b.1 then _ else _ : Except RuntimeError Memory).map _
      split <;> rfl
    show (k.holding cells).declare s b.1 b.2 >>= _ = (k.declare s b.1 b.2 >>= _).map _
    rw [hdeclare]
    cases k.declare s b.1 b.2 with
    | ok n => exact ih n
    | error e => rfl

/-- What is held does not matter to whether the scope of a function can be made. -/
theorem newFunctionScope_holding {k : Memory} {p : ScopeId} {parameters : List String}
    (h : k.newFunctionScope p parameters args = .error e) (cells : List Cell) :
    (k.holding cells).newFunctionScope p parameters args = .error e := by
  unfold Memory.newFunctionScope at h ⊢
  split
  · rename_i hlength
    rw [if_pos hlength] at h
    replace h : (k.newScope (some p)).2.declareAll (k.newScope (some p)).1 (parameters.zip args) >>= _ = _ := h
    show ((k.newScope (some p)).2.holding cells).declareAll (k.newScope (some p)).1 (parameters.zip args) >>= _ = _
    rw [declareAll_holding]
    cases hbound : (k.newScope (some p)).2.declareAll (k.newScope (some p)).1 (parameters.zip args) <;>
      rw [hbound] at h <;> cases h
    rfl
  · rename_i hlength
    rwa [if_neg hlength] at h

theorem newFunctionScope_of_length_ne {k : Memory} {p : ScopeId} {parameters : List String}
    (h : parameters.length ≠ args.length) :
    k.newFunctionScope p parameters args = .error (.arityMismatch parameters.length args.length) := if_neg h

theorem Refused.holding (h : Refused limit m f args e) (cells : List Cell) :
    Refused limit { m with memory := m.memory.holding cells } f args e := by
  cases h with
  | tooDeep h => exact .tooDeep h
  | arity hroom h => exact .arity (m := { m with memory := m.memory.holding cells }) hroom h
  | unbound hroom h => exact .unbound hroom (newFunctionScope_holding h cells)
  | notCallable h => exact .notCallable h

theorem enter_unbound {c : ClosureId} (hroom : m.depth < limit)
    (h : m.memory.newFunctionScope (m.memory.closure c).scope (m.memory.closure c).parameters args = .error e) :
    (callsAt host limit m.depth).enter c args span m = (.error ⟨e, span⟩, m) := by
  obtain ⟨room, hr⟩ : ∃ room, limit - m.depth = room + 1 := ⟨limit - m.depth - 1, by omega⟩
  show callWithin host (refuseCall limit) (limit - m.depth) c args span m = _
  rw [hr]
  show (Eval.lift span (m.memory.newFunctionScope (m.memory.closure c).scope (m.memory.closure c).parameters args)
    >>= _ : Eval σ Value) m = _
  rw [h]
  rfl

theorem enter_refused {c : ClosureId} (h : Refused limit m (.closure c) args e) :
    (callsAt host limit m.depth).enter c args span m = (.error ⟨e, span⟩, m) := by
  cases h with
  | tooDeep h =>
    have hroom : limit - m.depth = 0 := by omega
    show callWithin host (refuseCall limit) (limit - m.depth) c args span m = _
    rw [hroom]
    rfl
  | arity hroom h => exact enter_unbound hroom (newFunctionScope_of_length_ne h)
  | unbound hroom h => exact enter_unbound hroom h
  | notCallable h => exact absurd rfl h

/-- A call that is refused leaves the machine as it is. -/
theorem invoke_refused (h : Refused limit m f args e) :
    (callsAt host limit m.depth).invoke f args span m = (.error ⟨e, span⟩, m) := by
  cases f with
  | closure c =>
    -- the closure is held while it is called, and let go when the call is refused
    have henter : (callsAt host limit m.depth).enter c args span { m with memory := m.memory.holding [.closure c] } =
        (.error ⟨e, span⟩, { m with memory := m.memory.holding [.closure c] }) := enter_refused (h.holding _)
    show holding [.closure c] ((callsAt host limit m.depth).enter c args span) m = _
    rw [holding_apply, henter]
    rfl
  | native n =>
    cases h with
    | notCallable h => exact absurd rfl h
  | _ =>
    cases h
    rfl

variable (host limit d scope) in
theorem neutral_call (callee : Expression) (arguments : List Expression) :
    (Operand.evalCall (callsAt host limit d) scope callee arguments).Neutral d := by
  refine (neutral_expression host limit d scope callee).bind fun f => ?_
  refine ((reads_resolve f).neutral d).bind fun f => ?_
  refine ((neutral_values host limit d scope [] arguments).holding _).bind fun args => ?_
  exact (reads_pure (f, args)).neutral d

theorem call_eq (calls : Calls σ) (callee : Expression) (arguments : List Expression) :
    (Operand.call callee arguments).eval calls scope span = (do
      let (f, args) ← Operand.evalCall calls scope callee arguments
      calls.invoke f args span) := by
  rw [Operand.eval]
  simp only [Operand.evalCall, bind_assoc, pure_bind]

theorem call_refused {callee : Expression} {arguments : List Expression}
    (hparts : Operand.evalCall (callsAt host limit m.depth) scope callee arguments m = (.ok (f, args), n))
    (h : Refused limit n f args e) :
    (Operand.call callee arguments).eval (callsAt host limit m.depth) scope span m = (.error ⟨e, span⟩, n) := by
  have hneutral := neutral_call host limit m.depth scope callee arguments m rfl
  rw [hparts] at hneutral
  rw [call_eq, Eval.bind_apply, hparts, ← hneutral.1]
  exact invoke_refused h

theorem callValue_refused {callee : Value}
    (hcallee : (m.memory.holding (Value.cells args)).resolve callee = .ok f) (h : Refused limit m f args e) :
    callValue host limit callee args m = (.error ⟨e, {}⟩, m) := by
  have hresolve : holding (Value.cells args) (resolve {} callee) m = (.ok f, m) := by
    have hvalue : (resolve {} callee : Eval σ Value) { m with memory := m.memory.holding (Value.cells args) } =
        (.ok f, { m with memory := m.memory.holding (Value.cells args) }) := by
      show (Eval.lift {} ((m.memory.holding (Value.cells args)).resolve callee) : Eval σ Value) _ = _
      rw [hcallee]
      rfl
    rw [holding_apply, hvalue]
    rfl
  rw [callValue, Eval.bind_apply, hresolve]
  exact invoke_refused h

end Calls

/-! ## The law -/

/-- From a machine, failing adds nothing: neither to what the parts of an expression that writes have left, nor to what
the parts of a call have left that is refused. -/
structure Machine.FailingAddsNothing (host : Host σ) (limit : Nat) (scope : ScopeId) (m : Machine σ) : Prop where
  writes : ∀ (e : Expression) (op : OperatorKind), e.operator? = some op →
    op.isAssignment = true ∨ op = .inc ∨ op = .dec →
    (e.eval (callsAt host limit m.depth) scope).FailsAfter (e.evalParts (callsAt host limit m.depth) scope) m
  calls : ∀ (callee : Expression) (arguments : List Expression) (span : Span) (f : Value) (args : List Value)
    (n : Machine σ) (e : RuntimeError),
    Operand.evalCall (callsAt host limit m.depth) scope callee arguments m = (.ok (f, args), n) →
    Refused limit n f args e →
    (Operand.call callee arguments).eval (callsAt host limit m.depth) scope span m = (.error ⟨e, span⟩, n)
  /-- Calls of the host are refused where it makes them. -/
  fromHost : ∀ (callee f : Value) (args : List Value) (e : RuntimeError),
    (m.memory.holding (Value.cells args)).resolve callee = .ok f → Refused limit m f args e →
    callValue host limit callee args m = (.error ⟨e, {}⟩, m)
  /-- So are those that its functions make. -/
  entered : ∀ (c : ClosureId) (args : List Value) (span : Span) (e : RuntimeError),
    Refused limit m (.closure c) args e →
    (callsAt host limit m.depth).enter c args span m = (.error ⟨e, span⟩, m)
  depth : ∀ e : Expression, (e.eval (callsAt host limit m.depth) scope m).2.depth = m.depth

theorem failures_add_nothing (host : Host σ) (limit : Nat) (scope : ScopeId) (m : Machine σ) :
    m.FailingAddsNothing host limit scope where
  writes _ _ := failsAfter_parts m
  calls _ _ _ _ _ _ _ := call_refused
  fromHost _ _ _ _ := callValue_refused
  entered _ _ _ _ := enter_refused
  depth e := (neutral_expression host limit m.depth scope e m rfl).1

/-- `y = (x = 5)` -/
def overwritingFirst : Expression := .binary (.var ⟨"y", .use, {}⟩) ⟨.assign, {}⟩ overwriting {}

/-- Where there is no `y`, the assignment `y = (x = 5)` leaves what `x = 5` does, and does no more. -/
theorem failures_add_nothing_undefined :
    (overwritingFirst.eval (callsAt idleHost 5 0) ⟨0⟩ counters).1 = .error ⟨.undefinedVariable "y", {}⟩ ∧
      (overwritingFirst.eval (callsAt idleHost 5 0) ⟨0⟩ counters).2.memory =
        counters.memory.bind ⟨0⟩ "x" (.int 5) := by
  have hfails : (overwritingFirst.eval (callsAt idleHost 5 0) ⟨0⟩ counters).1 =
      .error ⟨.undefinedVariable "y", {}⟩ := rfl
  have hwrites := (failures_add_nothing idleHost 5 ⟨0⟩ counters).writes overwritingFirst .assign rfl (.inl rfl)
  have hleaves : (overwritingFirst.eval (callsAt idleHost 5 0) ⟨0⟩ counters).2 = _ := hwrites.leaves _ hfails
  rw [hleaves]
  exact ⟨hfails, rfl⟩

end GameScript
