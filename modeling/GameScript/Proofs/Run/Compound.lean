import GameScript.Proofs.Run.Operations
import GameScript.Proofs.Run.Alike
import GameScript.Proofs.Run.Defensive

/-!
# Compound assignments, spelled out

`t op= e` is a way to write `t = t op e`, where `t` is a name or a property that is reached from one (`Operand.IsPath`).
The two are evaluated in different orders: the compound assignment evaluates `e` first and reads `t` after it, as if
the value of `e` had been named before (`rightFirst`), and the assignment reads `t` first. So they do the same
(`SameOutcome`) where the evaluation of `e` leaves alone what `t` reads (`Undisturbed`), and may differ where `e` writes
to `t`.

Main statements: what a compound assignment does, whatever `e` does, and that this is the assignment wherever `e` leaves
`t` alone (`compound_assignment_is_assignment`); and a compound assignment that is not (`compound_reads_late`).
-/

namespace GameScript

open Eval

variable {σ α β : Type}

/-! ## Ends that are the same -/

/-- Computations have ended at one machine, and with one result but for the place of an error. -/
structure SameOutcome (r r' : Except RuntimeFault α × Machine σ) : Prop where
  result : Corresponds (· = ·) r.1 r'.1
  machine : r.2 = r'.2

section SameOutcome

variable {r r' r'' : Except RuntimeFault α × Machine σ} {ev ev' : Eval σ α} {f f' : α → Eval σ β} {m : Machine σ}
  {span span' : Span}

theorem SameOutcome.refl (r : Except RuntimeFault α × Machine σ) : SameOutcome r r := ⟨.refl _, rfl⟩

theorem SameOutcome.symm (h : SameOutcome r r') : SameOutcome r' r := ⟨h.result.symm, h.machine.symm⟩

theorem SameOutcome.trans (h : SameOutcome r r') (h' : SameOutcome r' r'') : SameOutcome r r'' :=
  ⟨h.result.trans h'.result, h.machine.trans h'.machine⟩

theorem SameOutcome.bind (h : SameOutcome (ev m) (ev' m)) (hf : ∀ a k, SameOutcome (f a k) (f' a k)) :
    SameOutcome ((ev >>= f) m) ((ev' >>= f') m) := by
  obtain ⟨hr, hm⟩ := h
  rw [Eval.bind_apply, Eval.bind_apply]
  rcases hev : ev m with ⟨_ | a, k⟩ <;> rcases hev' : ev' m with ⟨_ | b, k'⟩ <;> rw [hev, hev'] at hr hm
  · exact ⟨hr, hm⟩
  · exact hr.elim
  · exact hr.elim
  · obtain rfl : a = b := hr
    obtain rfl : k = k' := hm
    exact hf a k

/-- What follows on the same is the same if it ends so. -/
theorem SameOutcome.andThen (h : ∀ a k, SameOutcome (f a k) (f' a k)) : SameOutcome ((ev >>= f) m) ((ev >>= f') m) :=
  (SameOutcome.refl _).bind h

theorem same_fail (e : RuntimeError) :
    SameOutcome ((fail span e : Eval σ α) m) ((fail span' e : Eval σ α) m) := ⟨rfl, rfl⟩

theorem same_lift (x : Except RuntimeError α) :
    SameOutcome ((Eval.lift span x : Eval σ α) m) ((Eval.lift span' x : Eval σ α) m) := by
  cases x with
  | ok a => exact .refl _
  | error e => exact same_fail e

theorem same_resolve (v : Value) :
    SameOutcome ((resolve span v : Eval σ Value) m) ((resolve span' v : Eval σ Value) m) :=
  SameOutcome.andThen fun n _ => same_lift (n.resolve v)

theorem SameOutcome.holding {cells : List Cell}
    (h : SameOutcome (ev { m with memory := m.memory.holding cells })
      (ev' { m with memory := m.memory.holding cells })) : SameOutcome (holding cells ev m) (holding cells ev' m) :=
  ⟨h.result, congrArg (fun k : Machine σ => { k with memory := { k.memory with held := m.memory.held } }) h.machine⟩

end SameOutcome

/-! ## Calls from another place -/

section Places

variable {host : Host σ} {limit d : Nat} {span span' : Span} {m : Machine σ}

theorem same_finish (calls : Calls σ) (step : HostStep σ) (m : Machine σ) :
    SameOutcome (calls.finish span step m) (calls.finish span' step m) := by
  induction step generalizing m with
  | finish result memory state => exact SameOutcome.andThen fun _ _ => same_lift result
  | enter c args kept memory state resume ih =>
    refine SameOutcome.andThen fun _ _ => SameOutcome.andThen fun answer _ => SameOutcome.andThen fun k k' => ?_
    exact ih _ _ _ k'

theorem same_enter (room : Nat) (c : ClosureId) (args : List Value) :
    SameOutcome (callWithin host (refuseCall limit) room c args span m)
      (callWithin host (refuseCall limit) room c args span' m) := by
  cases room with
  | zero => exact same_fail _
  | succ room =>
    refine SameOutcome.andThen fun n k => SameOutcome.andThen fun n' k' => ?_
    exact SameOutcome.bind (same_lift _) fun _ _ => .refl _

/-- A call does the same from another place, unless the host makes something of where it is called from. -/
theorem same_invoke (hplace : ∀ n, host.call n span = host.call n span') (callee : Value) (args : List Value) :
    SameOutcome ((callsAt host limit d).invoke callee args span m)
      ((callsAt host limit d).invoke callee args span' m) := by
  cases callee with
  | closure c => exact SameOutcome.holding (same_enter _ c args)
  | native n =>
    refine SameOutcome.andThen fun k k' => ?_
    show SameOutcome ((callsAt host limit d).finish span (host.call n span args _ _) k')
      ((callsAt host limit d).finish span' (host.call n span' args _ _) k')
    rw [hplace n]
    exact same_finish _ _ k'
  | _ => exact same_fail _

theorem same_slotValue (hplace : ∀ n, host.call n span = host.call n span') (scope : ScopeId) (a : Option Operand) :
    SameOutcome (Operand.evalSlot (callsAt host limit d) scope span a m)
      (Operand.evalSlot (callsAt host limit d) scope span' a m) := by
  cases a with
  | none =>
    rw [Operand.evalSlot, Operand.evalSlot]
    exact same_fail _
  | some a =>
    rw [Operand.evalSlot, Operand.evalSlot]
    refine SameOutcome.bind ?_ fun v _ => same_resolve v
    cases a with
    | call callee args =>
      rw [Operand.eval, Operand.eval]
      refine SameOutcome.andThen fun f _ => SameOutcome.andThen fun f _ => SameOutcome.andThen fun args _ => ?_
      exact same_invoke hplace f args
    | var v =>
      obtain ⟨name, _ | _, place⟩ := v <;> rw [Operand.eval, Operand.eval] <;> exact .refl _
    | _ =>
      rw [Operand.eval, Operand.eval]
      exact .refl _

end Places

/-! ## Names and what is reached from them -/

/-- A name in use, or a property that is reached from one. -/
inductive Operand.IsPath : Operand → Prop
  | name (name : String) (place : Span) : IsPath (.var ⟨name, .use, place⟩)
  | property {parent : Operand} (h : parent.IsPath) (key : String) (keyPlace opPlace place : Span) :
      IsPath (.expression (.binary parent ⟨.child, opPlace⟩ (.var ⟨key, .use, keyPlace⟩) place))

/-- A computation that leaves every machine as it is. -/
def Eval.Reads (ev : Eval σ α) : Prop := ∀ m, (ev m).2 = m

section Paths

variable {ev : Eval σ α} {f : α → Eval σ β} {span : Span}

theorem Eval.Reads.bind (h : ev.Reads) (hf : ∀ a, (f a).Reads) : (ev >>= f).Reads := by
  intro m
  rw [Eval.bind_apply]
  have hm := h m
  rcases hev : ev m with ⟨e | a, k⟩ <;> rw [hev] at hm <;> obtain rfl : k = m := hm
  · rfl
  · exact hf a k

theorem reads_pure (a : α) : (pure a : Eval σ α).Reads := fun _ => rfl

theorem reads_memory : (memory : Eval σ Memory).Reads := fun _ => rfl

theorem reads_lift (x : Except RuntimeError α) : (Eval.lift span x : Eval σ α).Reads := by
  intro m
  cases x <;> rfl

theorem reads_resolve (v : Value) : (resolve span v : Eval σ Value).Reads :=
  reads_memory.bind fun _ => reads_lift _

theorem reads_referenceTo (key : String) (named : Bool) (parent : Value) :
    (referenceTo span key named parent : Eval σ Reference).Reads := by
  refine (reads_resolve parent).bind fun v => ?_
  cases v <;> exact fun _ => rfl

theorem Eval.Reads.neutral (h : ev.Reads) (d : Nat) : ev.Neutral d := by
  intro m hm
  rw [h m]
  exact ⟨hm, rfl⟩

variable {calls : Calls σ} {scope : ScopeId} {a : Operand}

theorem reads_access {parent : Operand} {key : String} {keyPlace opPlace place : Span}
    (h : (parent.eval calls scope place).Reads) : (Expression.evalAccess calls scope
      (.binary parent ⟨.child, opPlace⟩ (.var ⟨key, .use, keyPlace⟩) place)).Reads := by
  refine (reads_pure key).bind fun key => Eval.Reads.bind ?_ fun p => reads_referenceTo _ _ _
  show (Operand.evalParent calls scope place (some parent)).Reads
  rw [Operand.evalParent]
  exact h.bind fun v => reads_pure _

variable (calls scope)

/-- The evaluation of a path changes nothing, by induction on the path. -/
theorem Operand.IsPath.reads (h : a.IsPath) (span : Span) : (a.eval calls scope span).Reads := by
  induction h generalizing span with
  | name name place =>
    rw [Operand.eval]
    exact reads_memory.bind fun _ => reads_lift _
  | property _ key keyPlace opPlace place ih =>
    rw [Operand.eval, eval_of_child rfl rfl]
    exact (reads_access (ih place)).bind fun _ => reads_pure _

theorem Operand.IsPath.reads_slotValue (h : a.IsPath) (span : Span) :
    (Operand.evalSlot calls scope span (some a)).Reads := by
  rw [Operand.evalSlot]
  exact (h.reads calls scope span).bind fun v => reads_resolve v

theorem Operand.IsPath.reads_target (h : a.IsPath) (span : Span) (mayDeclare : Bool) :
    (Operand.slotTarget calls scope span mayDeclare (some a)).Reads := by
  rw [Operand.slotTarget]
  cases h with
  | name name place =>
    rw [Operand.target]
    exact reads_pure _
  | property h key keyPlace opPlace place =>
    rw [target_of_child rfl]
    exact (reads_access (h.reads calls scope place)).bind fun _ => reads_pure _

/-- A path is the same target wherever it stands. -/
theorem Operand.IsPath.target_eq (h : a.IsPath) (span span' : Span) (mayDeclare mayDeclare' : Bool) :
    Operand.slotTarget calls scope span mayDeclare (some a) =
      Operand.slotTarget calls scope span' mayDeclare' (some a) := by
  rw [Operand.slotTarget, Operand.slotTarget]
  cases h with
  | name name place => rw [Operand.target, Operand.target]
  | property h key keyPlace opPlace place => rw [target_of_child rfl, target_of_child rfl]

/-- What a path stands for is what there is to read at the target that it is. -/
theorem Operand.IsPath.same_read (h : a.IsPath) (span span' : Span) (m : Machine σ) :
    SameOutcome ((do
        let t ← Operand.slotTarget calls scope span false (some a)
        Eval.lift span (t.read (← memory) scope) : Eval σ Value) m)
      (Operand.evalSlot calls scope span' (some a) m) := by
  rw [Operand.slotTarget, Operand.evalSlot]
  cases h with
  | name name place =>
    rw [Operand.target, Operand.eval]
    show SameOutcome ((Eval.lift span (do m.memory.resolve (← m.memory.lookup scope name)) : Eval σ Value) m)
      ((Eval.lift place (m.memory.lookup scope name) >>= resolve span' : Eval σ Value) m)
    cases m.memory.lookup scope name with
    | ok v => exact same_lift _
    | error e => exact same_fail e
  | property h key keyPlace opPlace place =>
    rw [target_of_child rfl, Operand.eval, eval_of_child rfl rfl]
    simp only [bind_assoc, pure_bind]
    exact SameOutcome.andThen fun r _ => SameOutcome.andThen fun n _ => same_lift _

end Paths

/-! ## The two orders -/

section Orders

variable (calls : Calls σ) (scope : ScopeId) (base : OperatorKind) (t : Operand) (inner outer : Span)

/-- The assignment `t = t op v`, for a value `v` that is known. -/
def assignCombined (v : Value) : Eval σ Value :=
  assign scope outer (do Eval.lift inner (applyBinary base (← Operand.evalSlot calls scope inner (some t)) v))
    (Operand.slotTarget calls scope outer true (some t))

/-- The assignment `t = t op e` with the value of `e` known before: `e` is evaluated first, and its value is held. -/
def rightFirst (b : Operand) : Eval σ Value := do
  let v ← Operand.evalSlot calls scope inner (some b)
  holding (Value.cells [v]) (assignCombined calls scope base t inner outer v)

/-- The assignment `t = t op e` as an expression. -/
def Expression.spelledOut (base : OperatorKind) (t b : Operand) (opPlace assignPlace inner outer : Span) : Expression :=
  .binary t ⟨.assign, assignPlace⟩ (.expression (.binary t ⟨base, opPlace⟩ b inner)) outer

/-- At a machine, the evaluation of `b` leaves alone what `t` reads: `t` reads the same before and after it, and it is
the same while that is held; or there is nothing to read for `t`, neither before nor after, and `b` does nothing. -/
inductive Undisturbed (b : Operand) (m : Machine σ) : Prop
  | reads (a : Value) (hbefore : (Operand.evalSlot calls scope inner (some t) m).1 = .ok a)
      (hheld : holding (Value.cells [a]) (Operand.evalSlot calls scope inner (some b)) m =
        Operand.evalSlot calls scope inner (some b) m)
      (hafter : ∀ v k, Operand.evalSlot calls scope inner (some b) m = (.ok v, k) →
        (holding (Value.cells [v]) (Operand.evalSlot calls scope inner (some t)) k).1 = .ok a)
  | fails (f : RuntimeFault) (v : Value) (hbefore : (Operand.evalSlot calls scope inner (some t) m).1 = .error f)
      (hright : Operand.evalSlot calls scope inner (some b) m = (.ok v, m))
      (hafter : Corresponds (· = ·) (holding (Value.cells [v]) (Operand.evalSlot calls scope inner (some t)) m).1
        (.error f))

variable {calls scope base t inner outer} {op : OperatorKind} {b : Operand} {span : Span} {m : Machine σ}

theorem Value.IsScalar.cells {v : Value} (h : v.IsScalar) : Value.cells [v] = [] := by
  cases v <;> first | rfl | exact h.elim

theorem Value.IsScalar.resolve {v : Value} (h : v.IsScalar) (n : Memory) : n.resolve v = .ok v := by
  cases v <;> first | rfl | exact h.elim

theorem isScalar_of_applySame {a v : Value} {x : Except RuntimeError Value} (h : applySame base a v = some x) :
    v.IsScalar := by
  unfold applySame at h
  split at h
  · trivial
  · trivial
  · trivial
  · trivial
  · cases h

/-- An operator of a compound assignment has an answer for scalars only. -/
theorem isScalar_of_applyBinary (hbase : op.compoundBase = some base) {a v u : Value}
    (h : applyBinary base a v = .ok u) : v.IsScalar := by
  have happly : applyBinary base a v = (applySame base a v).getD
      (if a.type = v.type then .error (.typeError (.undefinedFor base a.type))
        else .error (.typeMismatch base a.type v.type)) := by
    cases op <;> cases hbase <;> rfl
  cases hsame : applySame base a v with
  | some x => exact isScalar_of_applySame hsame
  | none =>
    rw [happly, hsame, Option.getD_none] at h
    split at h <;> cases h

/-- How a path is read as a target, and how it is evaluated: both fail alike, or both come to one value. -/
inductive ReadsAlike (calls : Calls σ) (scope : ScopeId) (t : Operand) (span inner : Span) (k : Machine σ) : Prop
  | noTarget {f g : RuntimeFault} (htarget : Operand.slotTarget calls scope span false (some t) k = (.error f, k))
      (hvalue : Operand.evalSlot calls scope inner (some t) k = (.error g, k)) (h : f.error = g.error)
  | unreadable {target : Target} {e : RuntimeError} {g : RuntimeFault}
      (htarget : Operand.slotTarget calls scope span false (some t) k = (.ok target, k))
      (hread : target.read k.memory scope = .error e)
      (hvalue : Operand.evalSlot calls scope inner (some t) k = (.error g, k)) (h : e = g.error)
  | reads {target : Target} {a : Value}
      (htarget : Operand.slotTarget calls scope span false (some t) k = (.ok target, k))
      (hread : target.read k.memory scope = .ok a)
      (hvalue : Operand.evalSlot calls scope inner (some t) k = (.ok a, k))

theorem Operand.IsPath.readsAlike (ht : t.IsPath) (span inner : Span) (k : Machine σ) :
    ReadsAlike calls scope t span inner k := by
  have htarget := ht.reads_target calls scope span false k
  have hvalue := ht.reads_slotValue calls scope inner k
  have hread := ht.same_read calls scope span inner k
  rw [Eval.bind_apply] at hread
  rcases hslot : Operand.slotTarget calls scope span false (some t) k with ⟨f | target, k'⟩ <;>
    rcases hright : Operand.evalSlot calls scope inner (some t) k with ⟨g | a, n⟩ <;>
    rw [hslot] at htarget hread <;> rw [hright] at hvalue hread <;>
    obtain rfl : k' = k := htarget <;> obtain rfl : n = k' := hvalue
  · exact .noTarget hslot hright hread.result
  · exact hread.result.elim
  · replace hread : SameOutcome ((Eval.lift span (target.read n.memory scope) : Eval σ Value) n) (.error g, n) := hread
    cases hcurrent : target.read n.memory scope with
    | error e =>
      rw [hcurrent] at hread
      exact .unreadable hslot hcurrent hright hread.result
    | ok a =>
      rw [hcurrent] at hread
      exact hread.result.elim
  · replace hread : SameOutcome ((Eval.lift span (target.read n.memory scope) : Eval σ Value) n) (.ok a, n) := hread
    cases hcurrent : target.read n.memory scope with
    | error e =>
      rw [hcurrent] at hread
      exact hread.result.elim
    | ok a' =>
      rw [hcurrent] at hread
      obtain rfl : a' = a := hread.result
      exact .reads hslot hcurrent hright

/-- While the right value is held, a compound assignment does what the assignment with that value does. -/
theorem same_combined (ht : t.IsPath) (v : Value) (k : Machine σ) :
    SameOutcome ((do
        let target ← Operand.slotTarget calls scope span false (some t)
        let current ← Eval.lift span (target.read (← memory) scope)
        let updated ← Eval.lift span (applyBinary base current v)
        updateMemory span (target.write updated scope)
        return updated : Eval σ Value) k)
      (assignCombined calls scope base t inner outer v k) := by
  rw [assignCombined, assign, Eval.bind_apply, Eval.bind_apply, Eval.bind_apply]
  cases (ht.readsAlike span inner k : ReadsAlike calls scope t span inner k) with
  | noTarget htarget hvalue h =>
    rw [htarget, hvalue]
    exact ⟨h, rfl⟩
  | unreadable htarget hread hvalue h =>
    rw [htarget, hvalue]
    show SameOutcome ((Eval.lift span (Target.read k.memory scope _) >>= _ : Eval σ Value) k) _
    rw [hread]
    exact ⟨h, rfl⟩
  | @reads target a htarget hread hvalue =>
    rw [htarget, hvalue]
    show SameOutcome ((Eval.lift span (target.read k.memory scope) >>= _ : Eval σ Value) k) _
    rw [hread]
    show SameOutcome ((Eval.lift span (applyBinary base a v) >>= _ : Eval σ Value) k) _
    dsimp only
    cases happly : applyBinary base a v with
    | error e => exact ⟨rfl, rfl⟩
    | ok u =>
      have hcells : Value.cells [u] = [] := ((plain_applyBinary base a v).2 u happly).cells
      show SameOutcome ((updateMemory span (target.write u scope) >>= fun _ => pure u : Eval σ Value) k)
        ((holding (Value.cells [u]) _ >>= fun _ => pure u : Eval σ Value) k)
      rw [hcells]
      refine SameOutcome.bind (.symm ?_) fun _ _ => .refl _
      have hwrite : (do updateMemory outer ((← Operand.slotTarget calls scope outer true (some t)).write u scope) :
          Eval σ Unit) k = updateMemory outer (target.write u scope) k := by
        rw [ht.target_eq calls scope outer span true false, Eval.bind_apply, htarget]
      rw [holding_nil]
      · rw [hwrite, updateMemory_apply, updateMemory_apply]
        cases target.write u scope k.memory <;> exact ⟨rfl, rfl⟩
      · rw [hwrite, updateMemory_apply]
        cases hn : target.write u scope k.memory with
        | ok n => exact held_write hn
        | error e => rfl

/-- A compound assignment is the assignment with the right side evaluated first. -/
theorem same_rightFirst {host : Host σ} {limit d : Nat} (ht : t.IsPath) (hbase : op.compoundBase = some base)
    (hplace : ∀ n, host.call n span = host.call n inner) (place outer : Span) (m : Machine σ) :
    SameOutcome ((Expression.binary t ⟨op, place⟩ b span).eval (callsAt host limit d) scope m)
      (rightFirst (callsAt host limit d) scope base t inner outer b m) := by
  have hshape : (Expression.binary t ⟨op, place⟩ b span).checkShape = none := by
    cases op <;> cases hbase <;> rfl
  rw [eval_of_compound rfl hbase hshape]
  exact SameOutcome.bind (same_slotValue hplace scope (some b)) fun v k => SameOutcome.holding (same_combined ht v _)

theorem held_holding_bind {cells : List Cell} (act : Eval σ α) (a : β) (k : Machine σ) :
    ((holding cells act >>= fun _ => pure a : Eval σ β) k).2.memory.held = k.memory.held := by
  rw [Eval.bind_apply]
  rcases hact : holding cells act k with ⟨f | x, n⟩ <;> exact congrArg (fun r => r.2.memory.held) hact.symm

theorem assignCombined_of_reads {a v : Value} {k : Machine σ}
    (hvalue : Operand.evalSlot calls scope inner (some t) k = (.ok a, k)) :
    assignCombined calls scope base t inner outer v k = match applyBinary base a v with
      | .error e => (.error ⟨e, inner⟩, k)
      | .ok u => (do
          holding (Value.cells [u]) do
            let target ← Operand.slotTarget calls scope outer true (some t)
            updateMemory outer (target.write u scope)
          return u : Eval σ Value) k := by
  rw [assignCombined, assign, Eval.bind_apply, Eval.bind_apply, hvalue]
  dsimp only
  cases applyBinary base a v <;> rfl

theorem evalSlot_of_base (hbase : op.compoundBase = some base) (opPlace : Span) :
    Operand.evalSlot calls scope outer (some (.expression (.binary t ⟨base, opPlace⟩ b inner))) = (do
      let a ← Operand.evalSlot calls scope inner (some t)
      let v ← holding (Value.cells [a]) (Operand.evalSlot calls scope inner (some b))
      let u ← Eval.lift inner (applyBinary base a v)
      resolve outer u) := by
  have hshape : (Expression.binary t ⟨base, opPlace⟩ b inner).checkShape = none := by
    cases op <;> cases hbase <;> rfl
  rw [Operand.evalSlot, Operand.eval, eval_of_base rfl hbase hshape]
  simp only [bind_assoc]
  rfl

theorem eval_spelledOut (hbase : op.compoundBase = some base) (opPlace place : Span) :
    (Expression.spelledOut base t b opPlace place inner outer).eval calls scope = assign scope outer (do
      let a ← Operand.evalSlot calls scope inner (some t)
      let v ← holding (Value.cells [a]) (Operand.evalSlot calls scope inner (some b))
      let u ← Eval.lift inner (applyBinary base a v)
      resolve outer u) (Operand.slotTarget calls scope outer true (some t)) := by
  rw [← evalSlot_of_base hbase opPlace, Expression.spelledOut, eval_of_assign rfl rfl]
  rfl

/-- What the target reads is the same before and after the right side: the orders do the operation on the same values,
and what comes of it is a scalar, so nothing is kept alive that is not in the other order. -/
theorem same_spelledOut_of_reads (ht : t.IsPath) (hbase : op.compoundBase = some base) {a : Value}
    (hbefore : (Operand.evalSlot calls scope inner (some t) m).1 = .ok a)
    (hheld : holding (Value.cells [a]) (Operand.evalSlot calls scope inner (some b)) m =
      Operand.evalSlot calls scope inner (some b) m)
    (hafter : ∀ v k, Operand.evalSlot calls scope inner (some b) m = (.ok v, k) →
      (holding (Value.cells [v]) (Operand.evalSlot calls scope inner (some t)) k).1 = .ok a) (opPlace place : Span) :
    SameOutcome (rightFirst calls scope base t inner outer b m)
      ((Expression.spelledOut base t b opPlace place inner outer).eval calls scope m) := by
  have hreads := ht.reads_slotValue calls scope inner
  have hvalue : Operand.evalSlot calls scope inner (some t) m = (.ok a, m) := Prod.ext hbefore (hreads m)
  rw [eval_spelledOut hbase, rightFirst, assign, Eval.bind_apply, Eval.bind_apply, Eval.bind_apply, hvalue]
  dsimp only
  rw [Eval.bind_apply, hheld]
  rcases hright : Operand.evalSlot calls scope inner (some b) m with ⟨f | v, k⟩
  · exact .refl _
  have hread : Operand.evalSlot calls scope inner (some t)
      { k with memory := k.memory.holding (Value.cells [v]) } =
      (.ok a, { k with memory := k.memory.holding (Value.cells [v]) }) := Prod.ext (hafter v k hright) (hreads _)
  dsimp only
  rw [Eval.bind_apply]
  cases happly : applyBinary base a v with
  | error e =>
    rw [holding_apply, assignCombined_of_reads hread, happly]
    exact ⟨rfl, rfl⟩
  | ok u =>
    have hu : u.IsScalar := (plain_applyBinary base a v).2 u happly
    have hcells : Value.cells [v] = [] := (isScalar_of_applyBinary hbase happly).cells
    replace hread : Operand.evalSlot calls scope inner (some t) k = (.ok a, k) := by
      rw [hcells] at hread
      exact hread
    rw [hcells, holding_nil, assignCombined_of_reads hread, happly]
    · have hlift : (Eval.lift inner (.ok u) : Eval σ Value) k = (.ok u, k) := rfl
      have hresolve : (resolve outer u : Eval σ Value) k = (.ok u, k) := by
        show (Eval.lift outer (k.memory.resolve u) : Eval σ Value) k = _
        rw [hu.resolve]
        rfl
      rw [hlift]
      dsimp only
      rw [hresolve]
      exact .refl _
    · rw [assignCombined_of_reads hread, happly]
      exact held_holding_bind _ _ _

/-- Where the right side leaves alone what the target reads, the orders make no difference. -/
theorem same_spelledOut (ht : t.IsPath) (hbase : op.compoundBase = some base)
    (h : Undisturbed calls scope t inner b m) (opPlace place : Span) :
    SameOutcome (rightFirst calls scope base t inner outer b m)
      ((Expression.spelledOut base t b opPlace place inner outer).eval calls scope m) := by
  cases h with
  | reads a hbefore hheld hafter => exact same_spelledOut_of_reads ht hbase hbefore hheld hafter opPlace place
  | fails f v hbefore hright hafter =>
    have hreads := ht.reads_slotValue calls scope inner
    have hvalue : Operand.evalSlot calls scope inner (some t) m = (.error f, m) := Prod.ext hbefore (hreads m)
    rw [eval_spelledOut hbase, rightFirst, assign, Eval.bind_apply, Eval.bind_apply, Eval.bind_apply, hvalue, hright]
    dsimp only
    rw [holding_apply, assignCombined, assign, Eval.bind_apply, Eval.bind_apply]
    have hread := hreads { m with memory := m.memory.holding (Value.cells [v]) }
    rw [holding_apply] at hafter
    rcases hslot : Operand.evalSlot calls scope inner (some t) { m with memory := m.memory.holding (Value.cells [v]) }
      with ⟨g | a, n⟩ <;> rw [hslot] at hread hafter <;> obtain rfl : n = _ := hread
    · exact ⟨hafter, rfl⟩
    · exact hafter.elim

/-- A target that reads a scalar is undisturbed where it reads the same after the right side: a scalar keeps nothing
alive. -/
theorem undisturbed_of_isScalar {host : Host σ} {limit : Nat} {a : Value} (ha : a.IsScalar)
    (hbefore : (Operand.evalSlot (callsAt host limit m.depth) scope inner (some t) m).1 = .ok a)
    (hafter : ∀ v k, Operand.evalSlot (callsAt host limit m.depth) scope inner (some b) m = (.ok v, k) →
      (holding (Value.cells [v]) (Operand.evalSlot (callsAt host limit m.depth) scope inner (some t)) k).1 = .ok a) :
    Undisturbed (callsAt host limit m.depth) scope t inner b m := by
  refine .reads a hbefore ?_ hafter
  rw [ha.cells, holding_nil]
  exact (neutral_slotValue host limit m.depth scope inner (some b) m rfl).2

/-- Whatever its right side does, a compound assignment to a path is the assignment that evaluates the right side first;
and it is the assignment of the operation, place for place and call for call, wherever the right side leaves alone what
the path reads. A host that is called from the right side is called from another place then, and must not make anything
of that. -/
theorem compound_assignment_is_assignment {host : Host σ} {limit d : Nat} (ht : t.IsPath)
    (hbase : op.compoundBase = some base) (hplace : ∀ n, host.call n span = host.call n inner)
    (place opPlace assignPlace outer : Span) (m : Machine σ) :
    SameOutcome ((Expression.binary t ⟨op, place⟩ b span).eval (callsAt host limit d) scope m)
        (rightFirst (callsAt host limit d) scope base t inner outer b m) ∧
      (Undisturbed (callsAt host limit d) scope t inner b m →
        SameOutcome ((Expression.binary t ⟨op, place⟩ b span).eval (callsAt host limit d) scope m)
          ((Expression.spelledOut base t b opPlace assignPlace inner outer).eval (callsAt host limit d) scope m)) := by
  have hfirst : SameOutcome _ (rightFirst (callsAt host limit d) scope base t inner outer b m) :=
    same_rightFirst ht hbase hplace place outer m
  exact ⟨hfirst, fun h => hfirst.trans (same_spelledOut ht hbase h opPlace assignPlace)⟩

end Orders

/-- A variable that holds 1, and one that holds an object with a property that is 7. -/
def counters : Machine Unit :=
  ⟨{ objects := #[[("n", .int 7)]], scopes := #[⟨[("x", .int 1), ("o", .object ⟨0⟩)], none, 0⟩], held := [.scope ⟨0⟩] },
    0, ()⟩

/-- `o.n` -/
def countedProperty : Operand :=
  .expression (.binary (.var ⟨"o", .use, {}⟩) ⟨.child, {}⟩ (.var ⟨"n", .use, {}⟩) {})

/-- `o.n -= 2` is `o.n = o.n - 2`. -/
theorem compound_assignment_is_assignment_property :
    SameOutcome
      ((Expression.binary countedProperty ⟨.subAssign, {}⟩ (.value (.int 2)) {}).eval (callsAt idleHost 5 0) ⟨0⟩
        counters)
      ((Expression.spelledOut .sub countedProperty (.value (.int 2)) {} {} {} {}).eval (callsAt idleHost 5 0) ⟨0⟩
        counters) := by
  have hpath : countedProperty.IsPath := .property (.name "o" {}) "n" {} {} {}
  refine (compound_assignment_is_assignment hpath rfl (fun _ => rfl) {} {} {} {} counters).2 ?_
  have hsupported : counters.memory.Supported {.scope ⟨0⟩, .object ⟨0⟩} := by
    rintro c (rfl | rfl)
    · exact ⟨Nat.one_pos, .inl (by decide)⟩
    · exact ⟨Nat.one_pos, .inr ⟨.scope ⟨0⟩, .inl rfl, by decide⟩⟩
  have hread : counters.memory.read ⟨⟨0⟩, "n", false⟩ = .ok (.int 7) := by
    rw [Memory.read, Memory.target, hsupported.isAlive (.inr rfl)]
    rfl
  have hvalue : (Operand.evalSlot (callsAt idleHost 5 0) ⟨0⟩ {} (some countedProperty) counters).1 = .ok (.int 7) := by
    show ((Eval.lift {} (counters.memory.read ⟨⟨0⟩, "n", false⟩) : Eval Unit Value) counters).1 = _
    rw [hread]
    rfl
  have hafter : ∀ v k, Operand.evalSlot (callsAt idleHost 5 0) ⟨0⟩ {} (some (.value (.int 2))) counters = (.ok v, k) →
      (holding (Value.cells [v]) (Operand.evalSlot (callsAt idleHost 5 0) ⟨0⟩ {} (some countedProperty)) k).1 =
        .ok (.int 7) := by
    rintro v k h
    cases h
    exact hvalue
  exact undisturbed_of_isScalar (m := counters) (a := .int 7) trivial hvalue hafter

/-- `x = 5` -/
def overwriting : Operand := .expression (.binary (.var ⟨"x", .use, {}⟩) ⟨.assign, {}⟩ (.value (.int 5)) {})

/-- Where `x` is 1, `x += (x = 5)` is 10 and `x = x + (x = 5)` is 6. -/
theorem compound_reads_late :
    ((Expression.binary (.var ⟨"x", .use, {}⟩) ⟨.addAssign, {}⟩ overwriting {}).eval (callsAt idleHost 5 0) ⟨0⟩
        counters).1 = .ok (.int 10) ∧
      ((Expression.spelledOut .add (.var ⟨"x", .use, {}⟩) overwriting {} {} {} {}).eval (callsAt idleHost 5 0) ⟨0⟩
        counters).1 = .ok (.int 6) :=
  ⟨rfl, rfl⟩

end GameScript
