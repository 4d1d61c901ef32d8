import GameScript.Proofs.Run.Sound

/-!
# What tasks deliver

A task that is asked for in fine memory, with its scope held and with storable values, leaves memory fine, and what it
answers can be relied on: the value of an expression is sound, that of a call storable, that of a name alive besides
(`Task.Good`). References are only followed where they are sound, because no task stands between the making of a
reference and its use; so no function of the evaluator fails because a reference dangles. `F` are the faults that are
allowed: all others at least (`Tolerant`).

Main statement: every task that calls no function of the host delivers this (`delivers_plan`).
-/

namespace GameScript

open Eval

/-- Every fault is allowed but that of a dangling reference. -/
def Tolerant (F : RuntimeFault → Prop) : Prop := ∀ e span, (∀ key, e ≠ .danglingReference key) → F ⟨e, span⟩

theorem RuntimeError.Basic.ne_danglingReference {e : RuntimeError} (h : e.Basic) (key : String) :
    e ≠ .danglingReference key := by
  rintro rfl
  exact h

/-- Memory is as fine as before, and there is an answer that can be relied on or a fault that is allowed. -/
structure Delivered {σ α : Type} (F : RuntimeFault → Prop) (m : Machine σ) (P : Memory → α → Prop)
    (r : Except RuntimeFault α) (m' : Machine σ) : Prop where
  onward : m.memory.Onward m'.memory
  fault : ∀ f, r = .error f → F f
  answer : ∀ a, r = .ok a → P m'.memory a

/-- What must hold of memory and of the values that a task is asked for with. -/
def Task.Ready (m : Memory) : {k : Kind} → Task k → Prop
  | _, .statements s _ => .scope s ∈ m.held
  | _, .statement s _ => .scope s ∈ m.held
  | _, .block s _ => .scope s ∈ m.held
  | _, .expression s _ => .scope s ∈ m.held
  | _, .operand s _ _ => .scope s ∈ m.held
  | _, .property s _ => .scope s ∈ m.held
  | _, .assignment s _ => .scope s ∈ m.held
  | _, .compound s _ _ => .scope s ∈ m.held
  | _, .step s _ _ => .scope s ∈ m.held
  | _, .invoke f args _ => m.Storable f ∧ ∀ v ∈ args, m.Storable v
  | _, .enter c args _ => .closure c ∈ m.made ∧ ∀ v ∈ args, m.Storable v

/-- What can be relied on of the answer to a task. -/
def Task.Good : {k : Kind} → Task k → Memory → k.Answer → Prop
  | _, .statements _ _, m, flow => m.Storable flow.value
  | _, .statement _ _, m, flow => m.Storable flow.value
  | _, .block _ _, m, flow => m.Storable flow.value
  | _, .expression _ _, m, v => m.Sound v
  | _, .operand _ _ a, m, v => m.Sound v ∧ (a.isName = true → m.Living v)
  | _, .property _ _, m, r => m.Sound (.reference r)
  | _, .assignment _ _, m, v => m.Storable v
  | _, .compound _ _ _, m, v => m.Storable v
  | _, .step _ _ _, m, v => m.Storable v
  | _, .invoke _ _ _, m, v => m.Storable v
  | _, .enter _ _ _, m, v => m.Storable v

/-- Tasks that are asked for in fine memory, and deliver. -/
def delivery {σ : Type} (F : RuntimeFault → Prop) : Contract σ where
  pre task m := m.memory.Fine ∧ task.Ready m.memory
  post task m := Delivered F m task.Good

variable {σ α β : Type} {F : RuntimeFault → Prop} {m : Machine σ} {P : Memory → α → Prop} {Q : Memory → β → Prop}
variable {span : Span} {s : ScopeId}

theorem Memory.Onward.mem_held {n n' : Memory} (h : n.Onward n') {c : Cell} (hc : c ∈ n.held) : c ∈ n'.held :=
  h.held.symm ▸ hc

theorem Delivered.mono {m₁ m' : Machine σ} {r : Except RuntimeFault α} (hm : m.memory.Onward m₁.memory)
    (h : Delivered F m₁ P r m') : Delivered F m P r m' := ⟨hm.trans h.onward, h.fault, h.answer⟩

theorem Delivered.imp {P' : Memory → α → Prop} {m' : Machine σ} {r : Except RuntimeFault α} (h : Delivered F m P r m')
    (hp : ∀ n a, P n a → P' n a) : Delivered F m P' r m' := ⟨h.onward, h.fault, fun a ha => hp _ a (h.answer a ha)⟩

theorem delivered_ok {m' : Machine σ} {a : α} (hm : m.memory.Onward m'.memory) (h : P m'.memory a) :
    Delivered F m P (.ok a) m' := by
  refine ⟨hm, (fun _ h => by cases h), ?_⟩
  rintro _ ⟨⟩
  exact h

theorem delivered_error {m' : Machine σ} {f : RuntimeFault} (hm : m.memory.Onward m'.memory) (h : F f) :
    Delivered F m P (.error f) m' := by
  refine ⟨hm, ?_, fun _ h => by cases h⟩
  rintro _ ⟨⟩
  exact h

/-! ## Computations -/

section Computations

/-- A computation that delivers. -/
def Eval.Delivers (ev : Eval σ α) (F : RuntimeFault → Prop) (m : Machine σ) (P : Memory → α → Prop) : Prop :=
  Delivered F m P (ev m).1 (ev m).2

theorem Eval.Delivers.bind {ev : Eval σ α} {f : α → Eval σ β} (h : ev.Delivers F m P)
    (hf : ∀ a m', m.memory.Onward m'.memory → P m'.memory a → (f a).Delivers F m' Q) : (ev >>= f).Delivers F m Q := by
  obtain ⟨honward, hfault, hanswer⟩ := h
  unfold Eval.Delivers
  rw [Eval.bind_apply]
  rcases hev : ev m with ⟨e | a, m'⟩ <;> rw [hev] at honward hfault hanswer
  · exact delivered_error honward (hfault e rfl)
  · exact (hf a m' honward (hanswer a rfl)).mono honward

variable (hm : m.memory.Fine)

include hm

theorem delivers_pure {a : α} (h : P m.memory a) : (pure a : Eval σ α).Delivers F m P :=
  delivered_ok (.refl hm) h

theorem delivers_throw {e : RuntimeError} (h : F ⟨e, span⟩) : (fail span e : Eval σ α).Delivers F m P :=
  delivered_error (.refl hm) h

omit hm in
theorem delivers_create {make : Memory → α × Memory} (h : m.memory.Onward (make m.memory).2)
    (hp : P (make m.memory).2 (make m.memory).1) : (create make : Eval σ α).Delivers F m P :=
  delivered_ok h hp

omit hm in
theorem delivers_change (change : Memory → Memory) (h : m.memory.Onward (change m.memory)) :
    (do setMemory (change (← memory)) : Eval σ Unit).Delivers F m fun _ _ => True :=
  delivered_ok h trivial

theorem delivers_resolved {v : Value} (hv : m.memory.Sound v) : (resolve span v : Eval σ Value).Delivers F m
    fun n u => n = m.memory ∧ n.resolve v = .ok u ∧ n.Storable u := by
  obtain ⟨u, hu, hstorable⟩ := Memory.exists_resolve hm hv
  have hstep : resolve span v m = Eval.lift span (m.memory.resolve v) m := rfl
  unfold Eval.Delivers
  rw [hstep, hu]
  exact delivers_pure hm ⟨rfl, hu, hstorable⟩

theorem delivers_resolve {v : Value} (hv : m.memory.Sound v) :
    (resolve span v : Eval σ Value).Delivers F m Memory.Storable :=
  Delivered.imp (delivers_resolved hm hv) fun _ _ h => h.2.2

variable (hF : Tolerant F)

include hF

theorem delivers_fail {e : RuntimeError} (h : ∀ key, e ≠ .danglingReference key) :
    (fail span e : Eval σ α).Delivers F m P := delivers_throw hm (hF e span h)

theorem delivers_lift {x : Except RuntimeError α} (hx : Yields (P m.memory) x) :
    (Eval.lift span x : Eval σ α).Delivers F m P := by
  cases x with
  | ok a => exact delivers_pure hm (hx.2 a rfl)
  | error e => exact delivers_fail hm hF (hx.1 e rfl).ne_danglingReference

theorem delivers_read (span : Span) {t : Target} (hs : .scope s ∈ m.memory.held) (ht : t.Sound m.memory) :
    (do Eval.lift span (t.read (← memory) s) : Eval σ Value).Delivers F m fun n v => n = m.memory ∧ n.Storable v :=
  delivers_lift hm hF ((Memory.yields_read hm hs ht).imp_right fun h a ha => ⟨rfl, h a ha⟩)

theorem delivers_write {t : Target} {v : Value} (ht : t.Sound m.memory) (hv : m.memory.Storable v) :
    (updateMemory span (t.write v s) : Eval σ Unit).Delivers F m fun _ _ => True := by
  have hstep : updateMemory span (t.write v s) m = (Eval.lift span (t.write v s m.memory) >>= setMemory) m := rfl
  have hwrite := Memory.yields_write (s := s) hm ht hv
  unfold Eval.Delivers
  rw [hstep, Eval.bind_apply]
  cases hx : t.write v s m.memory with
  | ok n => exact delivered_ok (hwrite.2 n hx) trivial
  | error e => exact delivers_fail (α := Unit) hm hF (hwrite.1 e hx).ne_danglingReference

theorem delivers_applyBinary (op : OperatorKind) (l r : Value) :
    (Eval.lift span (applyBinary op l r) : Eval σ Value).Delivers F m fun n v => n = m.memory ∧ n.Storable v :=
  delivers_lift hm hF <| (plain_applyBinary op l r).imp (·.mono fun _ h => h.basic) fun h a ha =>
    ⟨rfl, Memory.storable_of_isScalar (h a ha)⟩

theorem delivers_negate (v : Value) : (negate span v : Eval σ Value).Delivers F m Memory.Storable := by
  cases v <;> first
    | exact delivers_pure hm (Memory.storable_of_isScalar trivial)
    | exact delivers_fail hm hF (by simp)

theorem delivers_memberName (a : Option Operand) :
    (memberName span a : Eval σ String).Delivers F m fun _ _ => True := by
  unfold memberName
  split
  · exact delivers_pure hm trivial
  · exact delivers_fail hm hF (by simp)

/-- The reference to a property is sound: either it is anchored, or the parent is a name and the object lives in what
the name is bound to, or the object lives in that of an unanchored reference, which is alive. -/
theorem delivers_referenceTo (key : String) {named : Bool} {v : Value} (hv : m.memory.Sound v)
    (hnamed : named = true → m.memory.Living v) :
    (referenceTo span key named v : Eval σ Reference).Delivers F m fun n r => n.Sound (.reference r) := by
  refine (delivers_resolved hm hv).bind ?_
  rintro u m₁ h₁ ⟨he, hu, hstorable⟩
  have hm₁ := h₁.fine
  rw [← he] at hv hnamed
  cases u with
  | object o =>
    refine delivers_pure hm₁ ⟨by rintro _ ⟨⟩; exact hstorable.1 _ rfl, ?_⟩
    rintro _ ⟨⟩
    cases named with
    | true =>
      obtain ⟨hstored, halive⟩ := hnamed rfl
      cases v with
      | reference r => exact absurd rfl hstored.2
      | object p =>
        cases hu
        exact .inr (halive _ rfl)
      | _ => cases hu
    | false =>
      cases v with
      | reference r =>
        rcases hv.2 r rfl with hanchored | halive
        · exact .inl (by simpa using hanchored)
        · exact .inr (hm₁.intact.isAlive_of_mem_holds halive (Memory.mem_holds_of_read hu))
      | _ => exact .inl rfl
  | _ => exact delivers_fail hm₁ hF (by simp)

theorem delivers_stepBy (hs : .scope s ∈ m.memory.held) (op : OperatorKind) (new : Bool) {t : Target}
    (ht : t.Sound m.memory) : (stepBy op new s span (pure t) : Eval σ Value).Delivers F m Memory.Storable := by
  refine Eval.Delivers.bind (delivers_pure (P := fun n u => n = m.memory ∧ u = t) hm ⟨rfl, rfl⟩) ?_
  rintro u m₁ h₁ ⟨he, rfl⟩
  cases u with
  | property r => exact delivers_fail h₁.fine hF (by simp)
  | _ =>
    have hread := delivers_read h₁.fine hF span (h₁.mem_held hs) (he.symm ▸ ht)
    show Eval.Delivers (memory >>= fun n => Eval.lift span (Target.read n s _) >>= _) F m₁ _
    rw [← bind_assoc (m := Eval σ)]
    refine hread.bind fun v m₂ h₂ hv => ?_
    cases v with
    | int old =>
      have hchecked (n : Int) : Yields (fun v => v.IsScalar) (checked op n) :=
        (plain_checked n).imp_left (·.mono fun _ h => h.basic)
      refine Eval.Delivers.bind (P := fun _ v => v.IsScalar) (delivers_lift h₂.fine hF (hchecked _))
        fun v m₃ h₃ hv => ?_
      refine Eval.Delivers.bind (delivers_write h₃.fine hF trivial (Memory.storable_of_isScalar hv))
        fun _ m₄ h₄ _ => delivers_pure h₄.fine (Memory.storable_of_isScalar ?_)
      split
      · exact hv
      · trivial
    | _ => exact delivers_fail h₂.fine hF (by simp)

end Computations

/-! ## Plans -/

section Plans

/-- A plan that delivers. -/
def Plan.Delivers (act : Plan σ α) (F : RuntimeFault → Prop) (m : Machine σ) (P : Memory → α → Prop) : Prop :=
  (act m).Meets (delivery F) (Delivered F m P)

theorem Eval.Delivers.now {ev : Eval σ α} (h : ev.Delivers F m P) : (Plan.now ev).Delivers F m P := h

theorem Plan.delivers_pure (hm : m.memory.Fine) {a : α} (h : P m.memory a) : (pure a : Plan σ α).Delivers F m P :=
  GameScript.delivers_pure hm h

theorem Plan.Delivers.bind {act : Plan σ α} {f : α → Plan σ β} (h : act.Delivers F m P)
    (hf : ∀ a m', m.memory.Onward m'.memory → P m'.memory a → (f a).Delivers F m' Q) : (act >>= f).Delivers F m Q := by
  refine meets_bind (h.mono fun r m' hr => ?_)
  cases r with
  | ok a => exact (hf a m' hr.onward (hr.answer a rfl)).mono fun _ _ => .mono hr.onward
  | error e => exact delivered_error hr.onward (hr.fault e rfl)

theorem Plan.delivers_ask {k : Kind} (task : Task k) (hm : m.memory.Fine) (h : task.Ready m.memory) :
    (Plan.ask task).Delivers F m task.Good := meets_ask ⟨hm, h⟩ fun _ _ => id

/-- What is relied on does not depend on what was held on the way. -/
theorem Plan.delivers_holding (hm : m.memory.Fine) {cells : List Cell} (hc : ∀ c ∈ cells, c ∈ m.memory.made)
    {act : Plan σ α} (h : (m.memory.holding cells).Fine → act.Delivers F { m with memory := m.memory.holding cells } P)
    (hp : ∀ n a held, P n a → P { n with held := held } a) : (act.holding cells).Delivers F m P := by
  refine meets_holding ((h (hm.holding hc)).mono fun r m' hr => ⟨⟨⟨⟨?_, ?_⟩, ?_⟩, rfl, hr.onward.made⟩, hr.fault, ?_⟩)
  · exact hr.onward.fine.closed
  · exact ⟨hr.onward.fine.free.bindings, hr.onward.fine.free.properties⟩
  · exact fun c hc => hr.onward.made (hm.held c hc)
  · exact fun a ha => hp _ a _ (hr.answer a ha)

end Plans

/-! ## What the functions do -/

section Asked

variable (hm : m.memory.Fine) (hs : .scope s ∈ m.memory.held)

include hm hs

theorem delivers_askExpression (e : Expression) : (Plan.ask (.expression s e)).Delivers F m Memory.Sound :=
  Plan.delivers_ask (.expression s e) hm hs

theorem delivers_askOperand (a : Operand) : (Plan.ask (.operand s span a)).Delivers F m
    fun n v => n.Sound v ∧ (a.isName = true → n.Living v) := Plan.delivers_ask (.operand s span a) hm hs

theorem delivers_askProperty (e : Expression) : (Plan.ask (.property s e)).Delivers F m
    fun n r => n.Sound (.reference r) := Plan.delivers_ask (.property s e) hm hs

theorem delivers_askBlock (b : Scope) : (Plan.ask (.block s b)).Delivers F m fun n flow => n.Storable flow.value :=
  Plan.delivers_ask (.block s b) hm hs

theorem delivers_askStatements (body : List Statement) :
    (Plan.ask (.statements s body)).Delivers F m fun n flow => n.Storable flow.value :=
  Plan.delivers_ask (.statements s body) hm hs

end Asked

section Functions

variable (hF : Tolerant F) (hm : m.memory.Fine) (hs : .scope s ∈ m.memory.held)

include hF hm

theorem delivers_slotValue (hs : .scope s ∈ m.memory.held) (a : Option Operand) :
    (Plan.slotValue s span a).Delivers F m Memory.Storable := by
  cases a with
  | none => exact (delivers_fail hm hF (by simp)).now
  | some a =>
    refine (delivers_askOperand hm hs a).bind fun v m₁ h₁ hv => ?_
    exact (delivers_resolve h₁.fine hv.1).now

include hs

theorem delivers_parentValue (a : Option Operand) : (Plan.parentValue s span a).Delivers F m
    fun n p => n.Sound p.1 ∧ (p.2 = true → n.Living p.1) := by
  cases a with
  | none => exact (delivers_fail hm hF (by simp)).now
  | some a =>
    exact (delivers_askOperand hm hs a).bind fun v m₁ h₁ hv => Plan.delivers_pure h₁.fine hv

theorem delivers_target (mayDeclare : Bool) (a : Option Operand) :
    (Plan.target s span mayDeclare a).Delivers F m fun n t => t.Sound n := by
  unfold Plan.target
  split
  · exact Plan.delivers_pure hm trivial
  · split
    · exact Plan.delivers_pure hm trivial
    · exact (delivers_fail hm hF (by simp)).now
  · split
    · exact (delivers_askProperty hm hs _).bind fun r m₁ h₁ hr => Plan.delivers_pure h₁.fine hr
    · exact (delivers_fail hm hF (by simp)).now
  · exact (delivers_fail hm hF (by simp)).now

theorem delivers_property (e : Expression) : Plan.Delivers (do
    let key ← Plan.now (memberName e.span e.right)
    let (parent, named) ← Plan.parentValue s e.span e.left
    Plan.now (referenceTo e.span key named parent)) F m fun n r => n.Sound (.reference r) := by
  refine (delivers_memberName hm hF _).now.bind fun key m₁ h₁ _ => ?_
  refine (delivers_parentValue hF h₁.fine (h₁.mem_held hs) e.left).bind fun p m₂ h₂ hp => ?_
  exact (delivers_referenceTo h₂.fine hF key hp.1 hp.2).now

omit hF in
theorem delivers_values {before : List Value} (hb : ∀ v ∈ before, m.memory.Storable v) (es : List Expression) :
    (Plan.values s before es).Delivers F m fun n vs => ∀ v ∈ vs, n.Storable v := by
  induction es generalizing before m with
  | nil => exact Plan.delivers_pure hm hb
  | cons e rest ih =>
    refine (delivers_askExpression hm hs e).bind fun v m₁ h₁ hv => ?_
    refine (delivers_resolve h₁.fine hv).now.bind fun u m₂ h₂ hu => ?_
    have hall : ∀ v ∈ before ++ [u], m₂.memory.Storable v := by
      intro w hw
      rcases List.mem_append.1 hw with hw | hw
      · exact (hb w hw).mono (h₁.trans h₂).made
      · exact List.mem_singleton.1 hw ▸ hu
    have hcells := hu.cell_subset
    refine Plan.delivers_holding h₂.fine hcells (fun hfine => ih hfine ?_ hall) fun _ _ _ => id
    exact List.mem_append_right _ ((h₁.trans h₂).mem_held hs)

omit hF in
theorem delivers_properties {o : ObjectId} (ho : .object o ∈ m.memory.made) (ps : List Property) :
    (Plan.properties s o ps).Delivers F m fun _ _ => True := by
  induction ps generalizing m with
  | nil => exact Plan.delivers_pure hm trivial
  | cons p rest ih =>
    obtain ⟨key, e⟩ := p
    refine (delivers_askExpression hm hs e).bind fun v m₁ h₁ hv => ?_
    refine (delivers_resolve h₁.fine hv).now.bind fun u m₂ h₂ hu => ?_
    refine (delivers_change (·.setProperty o key u) (h₂.fine.setProperty hu)).now.bind fun _ m₃ h₃ _ => ?_
    have hall := (h₁.trans h₂).trans h₃
    exact ih hall.fine (hall.mem_held hs) (hall.made ho)

omit hF in
theorem delivers_statements (body : List Statement) :
    (Plan.statements s body).Delivers F m fun n flow => n.Storable flow.value := by
  induction body generalizing m with
  | nil => exact Plan.delivers_pure hm (Memory.storable_of_isScalar trivial)
  | cons t rest ih =>
    refine (Plan.delivers_ask (.statement s t) hm hs).bind fun flow m₁ h₁ hflow => ?_
    cases flow with
    | completed => exact ih h₁.fine (h₁.mem_held hs)
    | returning v => exact Plan.delivers_pure h₁.fine hflow

omit hF in
theorem delivers_block (b : Scope) : Plan.Delivers (do
    let inner ← Plan.now (create (·.newScope (some s)))
    Plan.holding [.scope inner] (Plan.ask (.statements inner b.body))) F m fun n flow => n.Storable flow.value := by
  obtain ⟨hnew, hmade⟩ := hm.newScope (hm.held _ hs)
  have hcreate : (create (·.newScope (some s)) : Eval σ ScopeId).Delivers F m fun n t => .scope t ∈ n.made :=
    delivers_create hnew hmade
  refine hcreate.now.bind fun t m₁ h₁ ht => ?_
  have hcells : ∀ c ∈ [Cell.scope t], c ∈ m₁.memory.made := by simpa using ht
  refine Plan.delivers_holding h₁.fine hcells (fun hfine => ?_) fun _ _ _ => id
  exact delivers_askStatements hfine List.mem_cons_self b.body

theorem delivers_expression (e : Expression) : (Plan.expression s e).Delivers F m Memory.Sound := by
  have hask {k : Kind} (task : Task k) (hready : task.Ready m.memory) : (Plan.ask task).Delivers F m task.Good :=
    Plan.delivers_ask _ hm hready
  have hstored {act : Plan σ Value} (h : act.Delivers F m Memory.Storable) : act.Delivers F m Memory.Sound :=
    h.mono fun _ _ hr => hr.imp fun _ _ hv => hv.sound
  unfold Plan.expression
  cases e.checkShape with
  | some fault => exact (delivers_fail hm hF (by simp)).now
  | none =>
    dsimp only
    split
    · split
      · exact (delivers_askOperand hm hs _).mono fun _ _ hr => hr.imp fun _ _ => And.left
      · exact (delivers_fail hm hF (by simp)).now
    · split
      · exact hstored (hask (.compound s _ e) hs)
      · split
        · exact (delivers_fail hm hF (by simp)).now
        · exact hstored (hask (.assignment s e) hs)
        · exact hstored (hask (.step s .inc e) hs)
        · exact hstored (hask (.step s .dec e) hs)
        · exact (delivers_askProperty hm hs e).bind fun r m₁ h₁ hr => Plan.delivers_pure h₁.fine hr
        · refine hstored ((delivers_slotValue hF hm hs _).bind fun v m₁ h₁ hv => ?_)
          exact (delivers_negate h₁.fine hF v).now
        · refine hstored ((delivers_slotValue hF hm hs _).bind fun a m₁ h₁ ha => ?_)
          have hcells := ha.cell_subset
          refine (Plan.delivers_holding h₁.fine hcells (fun hfine => delivers_slotValue hF hfine ?_ _)
            fun _ _ _ => id).bind fun b m₂ h₂ _ => ?_
          · exact List.mem_append_right _ (h₁.mem_held hs)
          · exact (delivers_applyBinary h₂.fine hF _ a b).now.mono fun _ _ hr => hr.imp fun _ _ => And.right

theorem delivers_operand (a : Operand) :
    (Plan.operand s span a).Delivers F m fun n v => n.Sound v ∧ (a.isName = true → n.Living v) := by
  have hunnamed {act : Plan σ Value} (hname : a.isName = false) (h : act.Delivers F m Memory.Sound) :
      act.Delivers F m fun n v => n.Sound v ∧ (a.isName = true → n.Living v) :=
    h.mono fun _ _ hr => hr.imp fun _ _ hv => ⟨hv, fun h => by rw [hname] at h; cases h⟩
  cases a with
  | value l =>
    exact hunnamed rfl (Plan.delivers_pure hm (Memory.storable_of_isScalar (isScalar_ofLiteral l)).sound)
  | var x =>
    obtain ⟨name, hint, place⟩ := x
    cases hint with
    | declare => exact (delivers_fail hm hF (by simp)).now
    | use =>
      have hlookup := Memory.yields_lookup name hm hs
      exact (delivers_lift hm hF (hlookup.imp_right fun h v hv => ⟨(h v hv).1.sound, fun _ => h v hv⟩)).now
  | object ps =>
    have hcreate : (create (·.newObject []) : Eval σ ObjectId).Delivers F m fun n o => .object o ∈ n.made :=
      delivers_create hm.newObject.1 hm.newObject.2
    refine hunnamed rfl (hcreate.now.bind fun o m₁ h₁ ho => ?_)
    have hcells : ∀ c ∈ [Cell.object o], c ∈ m₁.memory.made := by simpa using ho
    refine (Plan.delivers_holding h₁.fine hcells (P := fun _ _ => True)
      (fun hfine => delivers_properties hfine ?_ ?_ ps) fun _ _ _ => id).bind fun _ m₂ h₂ _ =>
        Plan.delivers_pure h₂.fine (Memory.Storable.sound ⟨?_, ?_⟩)
    · exact List.mem_append_right _ (h₁.mem_held hs)
    · exact ho
    · rintro _ ⟨⟩
      exact h₂.made ho
    · simp [Value.type]
  | block b =>
    refine hunnamed rfl ((delivers_askBlock hm hs b).bind fun flow m₁ h₁ hflow => ?_)
    cases flow with
    | completed => exact Plan.delivers_pure h₁.fine (Memory.storable_of_isScalar (v := .undefined) trivial).sound
    | returning v => exact (delivers_fail h₁.fine hF (by simp)).now
  | expression e => exact hunnamed rfl (delivers_askExpression hm hs e)
  | function ps b =>
    have hnew := hm.newClosure (f := ⟨ps, b, s⟩) (hm.held _ hs)
    have hcreate : (create (·.newClosure ⟨ps, b, s⟩) : Eval σ ClosureId).Delivers F m fun n c => .closure c ∈ n.made :=
      delivers_create hnew.1 hnew.2
    refine hunnamed rfl (hcreate.now.bind fun c m₁ h₁ hc => Plan.delivers_pure h₁.fine (Memory.Storable.sound ⟨?_, ?_⟩))
    · rintro _ ⟨⟩
      exact hc
    · simp [Value.type]
  | call callee args =>
    refine hunnamed rfl ((delivers_askExpression hm hs callee).bind fun f m₁ h₁ hf => ?_)
    refine (delivers_resolve h₁.fine hf).now.bind fun u m₂ h₂ hu => ?_
    have hcells := hu.cell_subset
    refine (Plan.delivers_holding h₂.fine hcells
      (fun hfine => delivers_values hfine ?_ (fun _ h => absurd h List.not_mem_nil) args)
      fun _ _ _ h => h).bind fun vs m₃ h₃ hvs => ?_
    · exact List.mem_append_right _ ((h₁.trans h₂).mem_held hs)
    · refine (Plan.delivers_ask (.invoke u vs span) h₃.fine ⟨hu.mono h₃.made, hvs⟩).mono fun _ _ hr => ?_
      exact hr.imp fun _ _ hv => Memory.Storable.sound hv

omit hF in
theorem delivers_statement (t : Statement) :
    (Plan.statement s t).Delivers F m fun n flow => n.Storable flow.value := by
  unfold Plan.statement
  split
  · refine (delivers_askOperand hm hs _).bind fun v m₁ h₁ hv => ?_
    exact (delivers_resolve h₁.fine hv.1).now.bind fun u m₂ h₂ hu => Plan.delivers_pure h₂.fine hu
  · exact delivers_askBlock hm hs _
  · refine (delivers_askExpression hm hs _).bind fun v m₁ h₁ _ => ?_
    exact Plan.delivers_pure h₁.fine (Memory.storable_of_isScalar trivial)

theorem delivers_assignment (e : Expression) : (Plan.assignment s e).Delivers F m Memory.Storable := by
  refine (delivers_slotValue hF hm hs _).bind fun v m₁ h₁ hv => ?_
  have hcells := hv.cell_subset
  refine (Plan.delivers_holding h₁.fine hcells (P := fun _ _ => True) (fun hfine => ?_) fun _ _ _ => id).bind
    fun _ m₂ h₂ _ => Plan.delivers_pure h₂.fine (hv.mono h₂.made)
  refine (delivers_target hF hfine (List.mem_append_right _ (h₁.mem_held hs)) _ _).bind fun t m₂ h₂ ht => ?_
  exact (delivers_write h₂.fine hF ht (hv.mono h₂.made)).now

theorem delivers_compound (base : OperatorKind) (e : Expression) :
    (Plan.compound s base e).Delivers F m Memory.Storable := by
  refine (delivers_slotValue hF hm hs _).bind fun v m₁ h₁ hv => ?_
  have hcells := hv.cell_subset
  refine Plan.delivers_holding h₁.fine hcells (fun hfine => ?_) fun _ _ _ => id
  have hheld := List.mem_append_right (Value.cells [v]) (h₁.mem_held hs)
  -- the target stays sound while it is read and the operator is applied, since neither changes memory
  refine (delivers_target hF hfine hheld _ _).bind fun t m₂ h₂ ht => ?_
  refine (delivers_read h₂.fine hF _ (h₂.mem_held hheld) ht).now.bind fun current m₃ h₃ hcurrent => ?_
  refine (delivers_applyBinary h₃.fine hF _ _ _).now.bind fun updated m₄ h₄ hupdated => ?_
  have hsame : m₄.memory = m₂.memory := hupdated.1.trans hcurrent.1
  refine (delivers_write h₄.fine hF (hsame ▸ ht) hupdated.2).now.bind fun _ m₅ h₅ _ => ?_
  exact Plan.delivers_pure h₅.fine (hupdated.2.mono h₅.made)

theorem delivers_step (op : OperatorKind) (e : Expression) : (Plan.step s op e).Delivers F m Memory.Storable :=
  (delivers_target hF hm hs _ _).bind fun _ _ h₁ ht => (delivers_stepBy h₁.fine hF (h₁.mem_held hs) op _ ht).now

omit hs in
theorem delivers_enter {limit : Nat} {c : ClosureId} {args : List Value} (hc : .closure c ∈ m.memory.made)
    (hargs : ∀ v ∈ args, m.memory.Storable v) : (Plan.enter limit c args span).Delivers F m Memory.Storable := by
  refine meets_bind ?_
  show ((if limit ≤ m.depth then _ else _ : Plan σ Value) m).Meets (delivery F) (Delivered F m Memory.Storable)
  split
  · exact delivers_fail (α := Value) hm hF (by simp)
  · have hnew := Memory.yields_newFunctionScope hm (hm.closed.scope hc) (m.memory.closure c).parameters hargs
    refine meets_bind ?_
    cases hx : m.memory.newFunctionScope (m.memory.closure c).scope (m.memory.closure c).parameters args with
    | error e => exact delivers_fail (α := Value) hm hF (hnew.1 e hx).ne_danglingReference
    | ok r =>
      obtain ⟨honward, hscope⟩ := hnew.2 r hx
      have hcells : ∀ c ∈ [Cell.scope r.1], c ∈ r.2.made := by simpa using hscope
      have hbody (d : Nat) (body : List Statement) :
          (Plan.holding [.scope r.1] (Plan.ask (.statements r.1 body))).Delivers F ⟨r.2, d, m.state⟩
            fun n flow => n.Storable flow.value :=
        Plan.delivers_holding honward.fine hcells
          (fun hfine => delivers_askStatements hfine List.mem_cons_self _) fun _ _ _ => id
      refine meets_bind (meets_bind (meets_deeper ((hbody (m.depth + 1) _).mono fun r' m' hr => ?_)))
      have hall := hr.mono (m := m) honward
      cases r' with
      | ok flow => exact delivered_ok hall.onward (hall.answer flow rfl)
      | error f => exact delivered_error hall.onward (hall.fault f rfl)

end Functions

end GameScript
