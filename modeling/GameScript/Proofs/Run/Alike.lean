import GameScript.Proofs.Run.Places
import GameScript.Proofs.Run.Termination
import GameScript.Proofs.Tree.Erase

/-!
# Evaluation does not depend on places

Trees that differ in places alone do the same: from machines that are alike they ask for the same tasks but for places,
and where those are answered alike they go on alike (`Course.Alike`). What is answered alike is an error of the same
kind at any place, or an answer that is the same.

A function of the host may see places in two ways, in the call and in the bodies of closures. Where it makes nothing of
either (`Host.IgnoresPlaces`), every plan is like that of the task without places (`alike_plan`), and so runs end alike,
by induction on the run (`Finishes.alike`).
-/

namespace GameScript

open Eval

variable {σ α β : Type}

/-! ## Outcomes -/

/-- Outcomes that differ in the place of an error alone, where answers are related. -/
def Corresponds (R : α → α → Prop) : Except RuntimeFault α → Except RuntimeFault α → Prop
  | .ok a, .ok b => R a b
  | .error f, .error g => f.error = g.error
  | _, _ => False

theorem Corresponds.refl (r : Except RuntimeFault α) : Corresponds (· = ·) r r := by cases r <;> rfl

theorem Corresponds.symm {r s : Except RuntimeFault α} (h : Corresponds (· = ·) r s) : Corresponds (· = ·) s r := by
  cases r <;> cases s <;> first | exact Eq.symm h | exact h

theorem Corresponds.trans {r s t : Except RuntimeFault α} (h : Corresponds (· = ·) r s)
    (h' : Corresponds (· = ·) s t) : Corresponds (· = ·) r t := by
  cases r <;> cases s <;> cases t <;> first | exact Eq.trans h h' | exact h.elim | exact h'.elim

/-- Machines that differ in the places that closures keep alone. -/
structure Machine.Alike (m n : Machine σ) : Prop where
  memory : m.memory.Alike n.memory
  depth : m.depth = n.depth
  state : m.state = n.state

theorem Machine.Alike.refl (m : Machine σ) : m.Alike m := ⟨.refl _, rfl, rfl⟩

theorem Machine.Alike.symm {m n : Machine σ} (h : m.Alike n) : n.Alike m :=
  ⟨h.memory.symm, h.depth.symm, h.state.symm⟩

theorem Machine.Alike.trans {m n k : Machine σ} (h : m.Alike n) (h' : n.Alike k) : m.Alike k :=
  ⟨h.memory.trans h'.memory, h.depth.trans h'.depth, h.state.trans h'.state⟩

/-! ## Computations -/

/-- Computations that end alike from machines that are alike. -/
def Eval.Alike (R : α → α → Prop) (ev ev' : Eval σ α) : Prop :=
  ∀ m n, m.Alike n → Corresponds R (ev m).1 (ev' n).1 ∧ (ev m).2.Alike (ev' n).2

section Computations

variable {R : α → α → Prop} {span span' : Span}

theorem Eval.Alike.bind {S : β → β → Prop} {ev ev' : Eval σ α} {f f' : α → Eval σ β} (h : ev.Alike R ev')
    (hf : ∀ a b, R a b → (f a).Alike S (f' b)) : (ev >>= f).Alike S (ev' >>= f') := by
  intro m n hmn
  obtain ⟨hr, hm⟩ := h m n hmn
  rw [Eval.bind_apply, Eval.bind_apply]
  rcases hev : ev m with ⟨_ | a, m'⟩ <;> rcases hev' : ev' n with ⟨_ | b, n'⟩ <;> rw [hev, hev'] at hr hm
  · exact ⟨hr, hm⟩
  · exact hr.elim
  · exact hr.elim
  · exact hf a b hr m' n' hm

theorem Eval.alike_pure {a b : α} (h : R a b) : (pure a : Eval σ α).Alike R (pure b) := fun _ _ hmn => ⟨h, hmn⟩

theorem alike_fail (e : RuntimeError) : (fail span e : Eval σ α).Alike R (fail span' e) := fun _ _ hmn => ⟨rfl, hmn⟩

theorem alike_lift_map {f : α → β} {x y : Except RuntimeError α} (h : x.map f = y.map f) :
    (Eval.lift span x : Eval σ α).Alike (fun a b => f a = f b) (Eval.lift span' y) := by
  rcases x with e | a <;> rcases y with e' | b
  · cases h
    exact alike_fail e
  · cases h
  · cases h
  · exact Eval.alike_pure (Except.ok.inj h)

theorem alike_lift (x : Except RuntimeError α) : (Eval.lift span x : Eval σ α).Alike (· = ·) (Eval.lift span' x) :=
  alike_lift_map (f := id) rfl

theorem alike_memory : (memory : Eval σ Memory).Alike Memory.Alike memory := fun _ _ hmn => ⟨hmn.memory, hmn⟩

theorem alike_setMemory {m n : Memory} (h : m.Alike n) :
    (setMemory m : Eval σ Unit).Alike (· = ·) (setMemory n) := fun _ _ hmn => ⟨rfl, h, hmn.depth, hmn.state⟩

theorem alike_create {make make' : Memory → α × Memory}
    (h : ∀ m n, m.Alike n → (make m).1 = (make' n).1 ∧ (make m).2.Alike (make' n).2) :
    (create make : Eval σ α).Alike (· = ·) (create make') := fun _ _ hmn =>
  ⟨(h _ _ hmn.memory).1, (h _ _ hmn.memory).2, hmn.depth, hmn.state⟩

/-- Looking at memory gives the same where places make no difference to what is looked at. -/
theorem alike_look {look : Memory → Except RuntimeError α} (h : ∀ m : Memory, look m.eraseSpans = look m) :
    (do Eval.lift span (look (← memory)) : Eval σ α).Alike (· = ·) (do Eval.lift span' (look (← memory))) :=
  alike_memory.bind fun m n hmn => by
    rw [hmn.congr h]
    exact alike_lift _

theorem alike_resolve (v : Value) : (resolve span v : Eval σ Value).Alike (· = ·) (resolve span' v) :=
  alike_look fun _ => Memory.resolve_eraseSpans

theorem alike_updateMemory {change : Memory → Except RuntimeError Memory}
    (h : ∀ m : Memory, (change m).map Memory.eraseSpans = change m.eraseSpans) :
    (updateMemory span change : Eval σ Unit).Alike (· = ·) (updateMemory span' change) :=
  alike_memory.bind fun m n hmn =>
    (alike_lift_map (by rw [h, h, hmn.eq] : (change m).map Memory.eraseSpans = (change n).map Memory.eraseSpans)).bind
      fun _ _ => alike_setMemory

theorem alike_write (t : Target) (v : Value) (s : ScopeId) :
    (updateMemory span (t.write v s) : Eval σ Unit).Alike (· = ·) (updateMemory span' (t.write v s)) :=
  alike_updateMemory fun _ => Memory.targetWrite_eraseSpans t

theorem alike_read (t : Target) (s : ScopeId) : (do Eval.lift span (t.read (← memory) s) : Eval σ Value).Alike
    (· = ·) (do Eval.lift span' (t.read (← memory) s)) := alike_look fun _ => Memory.targetRead_eraseSpans t

theorem alike_negate (v : Value) : (negate span v : Eval σ Value).Alike (· = ·) (negate span' v) := by
  cases v with
  | bool b => exact Eval.alike_pure rfl
  | _ => exact alike_fail _

theorem alike_memberName (a : Option Operand) :
    (memberName span a : Eval σ String).Alike (· = ·) (memberName span' (Operand.eraseSlot a)) := by
  match a with
  | none => exact alike_fail _
  | some (.var ⟨name, .use, place⟩) => exact Eval.alike_pure rfl
  | some (.var ⟨name, .declare, place⟩) => exact alike_fail _
  | some (.value _) | some (.object _) | some (.block _) | some (.expression _) | some (.function _ _)
  | some (.call _ _) => exact alike_fail _

theorem alike_referenceTo (key : String) (named : Bool) (parent : Value) :
    (referenceTo span key named parent : Eval σ Reference).Alike (· = ·) (referenceTo span' key named parent) := by
  refine (alike_resolve parent).bind fun v w hvw => ?_
  subst hvw
  cases v with
  | object o => exact Eval.alike_pure rfl
  | _ => exact alike_fail _

theorem alike_stepBy (op : OperatorKind) (new : Bool) (s : ScopeId) (t : Target) :
    (stepBy op new s span (pure t) : Eval σ Value).Alike (· = ·) (stepBy op new s span' (pure t)) := by
  refine (Eval.alike_pure (R := (· = ·)) rfl).bind fun t t' ht => ?_
  subst ht
  cases t with
  | property r => exact alike_fail _
  | _ =>
    refine alike_memory.bind fun m n hmn => ?_
    rw [hmn.targetRead]
    refine (alike_lift _).bind fun v w hvw => ?_
    subst hvw
    cases v with
    | int old =>
      refine (alike_lift _).bind fun new new' hnew => ?_
      subst hnew
      exact (alike_write _ _ _).bind fun _ _ _ => Eval.alike_pure rfl
    | _ => exact alike_fail _

end Computations

/-! ## Courses -/

/-- A task without places. -/
def Task.eraseSpans : {k : Kind} → Task k → Task k
  | _, .statements scope body => .statements scope (Statement.eraseAll body)
  | _, .statement scope s => .statement scope ⟨s.body.eraseSpans, {}⟩
  | _, .block scope s => .block scope s.eraseSpans
  | _, .expression scope e => .expression scope e.eraseSpans
  | _, .operand scope _ a => .operand scope {} a.eraseSpans
  | _, .property scope e => .property scope e.eraseSpans
  | _, .assignment scope e => .assignment scope e.eraseSpans
  | _, .compound scope base e => .compound scope base e.eraseSpans
  | _, .step scope op e => .step scope op e.eraseSpans
  | _, .invoke callee args _ => .invoke callee args {}
  | _, .enter c args _ => .enter c args {}

/-- The scope in which a task is done, unless it is a call. -/
def Task.scope? : {k : Kind} → Task k → Option ScopeId
  | _, .statements scope _ | _, .statement scope _ | _, .block scope _ | _, .expression scope _
  | _, .operand scope _ _ | _, .property scope _ | _, .assignment scope _ | _, .compound scope _ _
  | _, .step scope _ _ => some scope
  | _, .invoke _ _ _ | _, .enter _ _ _ => none

@[simp] theorem Task.eraseSpans_eraseSpans {k : Kind} (t : Task k) : t.eraseSpans.eraseSpans = t.eraseSpans := by
  cases t <;> simp [Task.eraseSpans]

/-- Courses that ask for tasks that differ in places alone, and end alike when those are answered alike. -/
inductive Course.Alike (R : α → α → Prop) : Course σ α → Course σ α → Prop
  | ended {r s : Except RuntimeFault α} {m n : Machine σ} (hr : Corresponds R r s) (hm : m.Alike n) :
      Course.Alike R (.ended r m) (.ended s n)
  | asks {k : Kind} {task task' : Task k} {m n : Machine σ}
      {resume resume' : Except RuntimeFault k.Answer → Machine σ → Course σ α}
      (htask : task.eraseSpans = task'.eraseSpans) (hm : m.Alike n)
      (hrest : ∀ r s m' n', Corresponds (· = ·) r s → m'.Alike n' → Course.Alike R (resume r m') (resume' s n')) :
      Course.Alike R (.asks task m resume) (.asks task' n resume')

theorem Course.Alike.andThen {R : α → α → Prop} {S : β → β → Prop} {c c' : Course σ α}
    {next next' : Except RuntimeFault α → Machine σ → Course σ β} (h : c.Alike R c')
    (hnext : ∀ r s m n, Corresponds R r s → m.Alike n → (next r m).Alike S (next' s n)) :
    (c.andThen next).Alike S (c'.andThen next') := by
  induction h with
  | ended hr hm => exact hnext _ _ _ _ hr hm
  | asks htask hm _ ih => exact .asks htask hm ih

theorem Course.Alike.symm {c c' : Course σ α} (h : c.Alike (· = ·) c') : c'.Alike (· = ·) c := by
  induction h with
  | ended hr hm => exact .ended hr.symm hm.symm
  | asks htask hm _ ih => exact .asks htask.symm hm.symm fun r s m' n' hr hm' => ih s r n' m' hr.symm hm'.symm

theorem Course.Alike.trans {c c' c'' : Course σ α} (h : c.Alike (· = ·) c') (h' : c'.Alike (· = ·) c'') :
    c.Alike (· = ·) c'' := by
  induction h generalizing c'' with
  | ended hr hm =>
    cases h' with
    | ended hr' hm' => exact .ended (hr.trans hr') (hm.trans hm')
  | asks htask hm _ ih =>
    cases h' with
    | asks htask' hm' hrest' =>
      exact .asks (htask.trans htask') (hm.trans hm') fun r s m' n' hr hmn =>
        ih r r m' m' (.refl r) (.refl m') (hrest' r s m' n' hr hmn)

/-- Plans that make courses which are alike of machines that are. -/
def Plan.Alike (R : α → α → Prop) (act act' : Plan σ α) : Prop := ∀ m n, m.Alike n → (act m).Alike R (act' n)

section Plans

variable {R : α → α → Prop}

theorem Eval.Alike.now {ev ev' : Eval σ α} (h : ev.Alike R ev') : (Plan.now ev).Alike R (Plan.now ev') :=
  fun m n hmn => .ended (h m n hmn).1 (h m n hmn).2

theorem Plan.alike_pure {a b : α} (h : R a b) : (pure a : Plan σ α).Alike R (pure b) := fun _ _ hmn => .ended h hmn

theorem Plan.alike_ask {k : Kind} {task task' : Task k} (h : task.eraseSpans = task'.eraseSpans) :
    (Plan.ask task : Plan σ k.Answer).Alike (· = ·) (Plan.ask task') :=
  fun _ _ hmn => .asks h hmn fun _ _ _ _ hr hm => .ended hr hm

theorem Plan.alike_erased {k : Kind} (task : Task k) :
    (Plan.ask task : Plan σ k.Answer).Alike (· = ·) (Plan.ask task.eraseSpans) := alike_ask (by simp)

theorem Plan.Alike.bind {S : β → β → Prop} {act act' : Plan σ α} {f f' : α → Plan σ β} (h : act.Alike R act')
    (hf : ∀ a b, R a b → (f a).Alike S (f' b)) : (act >>= f).Alike S (act' >>= f') := by
  refine fun m n hmn => (h m n hmn).andThen fun r s m' n' hr hm => ?_
  rcases r with f | a <;> rcases s with g | b
  · exact .ended hr hm
  · exact hr.elim
  · exact hr.elim
  · exact hf a b hr m' n' hm

theorem Plan.Alike.holding {act act' : Plan σ α} (h : act.Alike R act') (cells : List Cell) :
    (act.holding cells).Alike R (act'.holding cells) := by
  intro m n hmn
  refine Course.Alike.andThen (h _ _ ⟨hmn.memory.holding cells, hmn.depth, hmn.state⟩) fun r s m' n' hr hm => ?_
  refine .ended hr ⟨?_, hm.depth, hm.state⟩
  rw [hmn.memory.held]
  exact hm.memory.withHeld _

theorem Plan.Alike.deeper {act act' : Plan σ α} (h : act.Alike R act') : act.deeper.Alike R act'.deeper := by
  intro m n hmn
  refine Course.Alike.andThen (h _ _ ⟨hmn.memory, congrArg (· + 1) hmn.depth, hmn.state⟩) fun r s m' n' hr hm => ?_
  exact .ended hr ⟨hm.memory, congrArg (· - 1) hm.depth, hm.state⟩

theorem Plan.Alike.attempt {act act' : Plan σ α} (h : act.Alike R act') :
    act.attempt.Alike (Corresponds R) act'.attempt :=
  fun m n hmn => (h m n hmn).andThen fun _ _ _ _ hr hm => .ended hr hm

end Plans

/-! ## What the functions do -/

section Functions

variable {scope : ScopeId} {span span' : Span}

open Plan

theorem alike_askOperand (a : Operand) : (ask (.operand scope span a) : Plan σ Value).Alike (· = ·)
    (ask (.operand scope span' a.eraseSpans)) := alike_ask (by simp [Task.eraseSpans])

theorem alike_slotValue (a : Option Operand) : (slotValue scope span a : Plan σ Value).Alike (· = ·)
    (slotValue scope span' (Operand.eraseSlot a)) := by
  cases a with
  | none => exact (alike_fail _).now
  | some a =>
    refine (alike_askOperand a).bind fun v w hvw => ?_
    subst hvw
    exact (alike_resolve v).now

theorem alike_parentValue (a : Option Operand) : (parentValue scope span a : Plan σ (Value × Bool)).Alike (· = ·)
    (parentValue scope span' (Operand.eraseSlot a)) := by
  cases a with
  | none => exact (alike_fail _).now
  | some a =>
    have hname : a.eraseSpans.isName = a.isName := by cases a <;> rfl
    refine (alike_askOperand a).bind fun v w hvw => ?_
    subst hvw
    exact Plan.alike_pure (by rw [hname])

theorem alike_target (mayDeclare : Bool) (a : Option Operand) : (target scope span mayDeclare a : Plan σ Target).Alike
    (· = ·) (target scope span' mayDeclare (Operand.eraseSlot a)) := by
  match a with
  | some (.var ⟨name, .use, place⟩) => exact Plan.alike_pure rfl
  | some (.var ⟨name, .declare, place⟩) =>
    cases mayDeclare with
    | true => exact Plan.alike_pure rfl
    | false => exact (alike_fail _).now
  | some (.expression e) =>
    show Plan.Alike _ (if e.operator? = some .child then _ else _ : Plan σ Target)
      (if e.eraseSpans.operator? = some .child then _ else _)
    rw [operator?_eraseSpans]
    split
    · exact (alike_erased (.property scope e)).bind fun r s hrs => Plan.alike_pure (by rw [hrs])
    · exact (alike_fail _).now
  | none | some (.value _) | some (.object _) | some (.block _) | some (.function _ _) | some (.call _ _) =>
    exact (alike_fail _).now

theorem alike_values (before : List Value) (es : List Expression) :
    (values scope before es : Plan σ (List Value)).Alike (· = ·) (values scope before (Expression.eraseAll es)) := by
  induction es generalizing before with
  | nil => exact Plan.alike_pure rfl
  | cons e rest ih =>
    refine (alike_erased (.expression scope e)).bind fun v w hvw => ?_
    subst hvw
    refine (alike_resolve v).now.bind fun v w hvw => ?_
    subst hvw
    exact (ih _).holding _

theorem alike_properties (o : ObjectId) (ps : List Property) : (properties scope o ps : Plan σ Unit).Alike (· = ·)
    (properties scope o (Property.eraseAll ps)) := by
  induction ps with
  | nil => exact Plan.alike_pure rfl
  | cons p rest ih =>
    obtain ⟨key, e⟩ := p
    refine (alike_erased (.expression scope e)).bind fun v w hvw => ?_
    subst hvw
    refine (alike_resolve v).now.bind fun v w hvw => ?_
    subst hvw
    have hset : (do setMemory ((← memory).setProperty o key v) : Eval σ Unit).Alike (· = ·)
        (do setMemory ((← memory).setProperty o key v)) :=
      alike_memory.bind fun m n hmn => alike_setMemory (hmn.setProperty o key v)
    exact hset.now.bind fun _ _ _ => ih

theorem alike_statements (body : List Statement) : (Plan.statements scope body : Plan σ Flow).Alike (· = ·)
    (Plan.statements scope (Statement.eraseAll body)) := by
  induction body with
  | nil => exact Plan.alike_pure rfl
  | cons s rest ih =>
    obtain ⟨e, place⟩ := s
    refine (alike_erased (.statement scope ⟨e, place⟩)).bind fun flow flow' hflow => ?_
    subst hflow
    cases flow with
    | completed => exact ih
    | returning v => exact Plan.alike_pure rfl

theorem alike_block (s : Scope) : (do
    let inner ← now (create (·.newScope (some scope)))
    Plan.holding [.scope inner] (ask (.statements inner s.body)) : Plan σ Flow).Alike (· = ·) (do
    let inner ← now (create (·.newScope (some scope)))
    Plan.holding [.scope inner] (ask (.statements inner s.eraseSpans.body))) := by
  refine (alike_create fun m n hmn => hmn.newScope _).now.bind fun inner inner' hinner => ?_
  subst hinner
  obtain ⟨body, place⟩ := s
  exact (alike_erased (.statements inner body)).holding _

theorem alike_expression (e : Expression) : (Plan.expression scope e : Plan σ Value).Alike (· = ·)
    (Plan.expression scope e.eraseSpans) := by
  unfold Plan.expression
  rw [checkShape_eraseSpans]
  cases e.checkShape with
  | some fault => exact (alike_fail _).now
  | none =>
    obtain ⟨left, op, right, place⟩ := e
    cases op with
    | none =>
      cases left with
      | none => exact (alike_fail _).now
      | some a => exact alike_erased (.operand scope place a)
    | some op =>
      obtain ⟨kind, opPlace⟩ := op
      have hask {k : Kind} (task : Expression → Task k)
          (htask : ∀ e, task e.eraseSpans = (task e).eraseSpans := by intro; rfl) :
          (ask (task ⟨left, some ⟨kind, opPlace⟩, right, place⟩) : Plan σ k.Answer).Alike (· = ·)
            (ask (task (Expression.eraseSpans ⟨left, some ⟨kind, opPlace⟩, right, place⟩))) := by
        rw [htask]
        exact alike_erased _
      simp only [Expression.eraseSpans, Option.map_some, Operator.eraseSpan]
      split
      · exact hask (.compound scope _)
      · cases kind with
        | ret => exact (alike_fail _).now
        | assign => exact hask (.assignment scope)
        | inc => exact hask (.step scope .inc)
        | dec => exact hask (.step scope .dec)
        | child => exact (hask (.property scope)).bind fun r s hrs => Plan.alike_pure (by rw [hrs])
        | not => exact (alike_slotValue right).bind fun v w hvw => hvw ▸ (alike_negate v).now
        | _ =>
          refine (alike_slotValue left).bind fun a a' ha => ?_
          subst ha
          refine ((alike_slotValue right).holding _).bind fun b b' hb => ?_
          subst hb
          exact (alike_lift _).now

theorem alike_operand (a : Operand) : (Plan.operand scope span a : Plan σ Value).Alike (· = ·)
    (Plan.operand scope span' a.eraseSpans) := by
  match a with
  | .value literal => exact Plan.alike_pure rfl
  | .var ⟨name, .declare, place⟩ => exact (alike_fail _).now
  | .var ⟨name, .use, place⟩ => exact (alike_look fun m => Memory.lookup_eraseSpans).now
  | .object ps =>
    refine (alike_create fun m n hmn => hmn.newObject []).now.bind fun o o' ho => ?_
    subst ho
    exact ((alike_properties o ps).holding _).bind fun _ _ _ => Plan.alike_pure rfl
  | .block ⟨body, place⟩ =>
    refine (alike_erased (.block scope ⟨body, place⟩)).bind fun flow flow' hflow => ?_
    subst hflow
    cases flow with
    | completed => exact Plan.alike_pure rfl
    | returning v => exact (alike_fail _).now
  | .expression e => exact alike_erased (.expression scope e)
  | .function parameters body =>
    have hnew (m n : Memory) (hmn : m.Alike n) := hmn.newClosure (f := ⟨parameters, body, scope⟩)
      (g := ⟨parameters, body.eraseSpans, scope⟩) (by simp [Closure.eraseSpans])
    exact (alike_create hnew).now.bind fun c c' hc => Plan.alike_pure (by rw [hc])
  | .call callee args =>
    refine (alike_erased (.expression scope callee)).bind fun f f' hf => ?_
    subst hf
    refine (alike_resolve f).now.bind fun f f' hf => ?_
    subst hf
    refine ((alike_values [] args).holding _).bind fun vs vs' hvs => ?_
    subst hvs
    exact alike_ask (k := .value) rfl

theorem alike_statement (s : Statement) : (Plan.statement scope s : Plan σ Flow).Alike (· = ·)
    (Plan.statement scope ⟨s.body.eraseSpans, {}⟩) := by
  rw [Plan.statement.eq_def]
  split
  · refine (alike_askOperand _).bind fun v w hvw => ?_
    subst hvw
    refine (alike_resolve v).now.bind fun v w hvw => ?_
    exact Plan.alike_pure (by rw [hvw])
  · exact alike_erased (.block scope _)
  · rename_i e place hret hblock
    have hother : (Plan.statement scope ⟨e.eraseSpans, {}⟩ : Plan σ Flow) = do
        let _ ← ask (.expression scope e.eraseSpans)
        return .completed := by
      obtain ⟨left, op, right, span⟩ := e
      refine Plan.statement.eq_3 scope _ _ ?_ ?_
      · intro opPlace value span' h
        rcases left with _ | a <;> rcases op with _ | ⟨kind, opPlace'⟩ <;> rcases right with _ | b <;> cases h
        exact hret _ _ _ rfl
      · intro block span' h
        rcases left with _ | (_ | _ | _ | _ | _ | _ | _) <;> rcases op with _ | op <;> rcases right with _ | b <;>
          cases h
        exact hblock _ _ rfl
    rw [hother]
    exact (alike_erased (.expression scope e)).bind fun _ _ _ => Plan.alike_pure rfl

theorem alike_written (mayDeclare : Bool) (e : Expression) :
    (target scope span mayDeclare e.written : Plan σ Target).Alike (· = ·)
      (target scope span' mayDeclare e.eraseSpans.written) := by
  obtain ⟨left, op, right, place⟩ := e
  cases left with
  | none => exact alike_target mayDeclare right
  | some a => exact alike_target mayDeclare (some a)

theorem alike_assignment (e : Expression) : (Plan.assignment scope e : Plan σ Value).Alike (· = ·)
    (Plan.assignment scope e.eraseSpans) := by
  obtain ⟨left, op, right, place⟩ := e
  refine (alike_slotValue right).bind fun v w hvw => ?_
  subst hvw
  refine (Plan.Alike.holding (R := (· = ·)) ?_ _).bind fun _ _ _ => Plan.alike_pure rfl
  refine (alike_written true _).bind fun t t' ht => ?_
  subst ht
  exact (alike_write t v scope).now

theorem alike_compound (base : OperatorKind) (e : Expression) : (Plan.compound scope base e : Plan σ Value).Alike
    (· = ·) (Plan.compound scope base e.eraseSpans) := by
  obtain ⟨left, op, right, place⟩ := e
  refine (alike_slotValue right).bind fun v w hvw => ?_
  subst hvw
  refine Plan.Alike.holding ?_ _
  refine (alike_written false _).bind fun t t' ht => ?_
  subst ht
  refine (alike_read t scope).now.bind fun current current' hcurrent => ?_
  subst hcurrent
  refine (alike_lift _).now.bind fun updated updated' hupdated => ?_
  subst hupdated
  exact (alike_write t updated scope).now.bind fun _ _ _ => Plan.alike_pure rfl

theorem alike_step (op : OperatorKind) (e : Expression) : (Plan.step scope op e : Plan σ Value).Alike
    (· = ·) (Plan.step scope op e.eraseSpans) := by
  refine (alike_written false e).bind fun t t' ht => ?_
  subst ht
  have hleft : e.eraseSpans.left.isNone = e.left.isNone := by
    obtain ⟨left, _, _, _⟩ := e
    cases left <;> rfl
  rw [hleft]
  exact (alike_stepBy op _ scope t).now

theorem alike_property (e : Expression) : (do
    let key ← now (memberName e.span e.right)
    let (parent, named) ← parentValue scope e.span e.left
    now (referenceTo e.span key named parent) : Plan σ Reference).Alike (· = ·) (do
    let key ← now (memberName e.eraseSpans.span e.eraseSpans.right)
    let (parent, named) ← parentValue scope e.eraseSpans.span e.eraseSpans.left
    now (referenceTo e.eraseSpans.span key named parent)) := by
  obtain ⟨left, op, right, place⟩ := e
  refine (alike_memberName right).now.bind fun key key' hkey => ?_
  subst hkey
  refine (alike_parentValue left).bind fun p p' hp => ?_
  subst hp
  exact (alike_referenceTo key p.2 p.1).now

end Functions

/-! ## Functions of the host -/

/-- What a function of the host does next from memories that are alike. -/
inductive HostStep.Alike : HostStep σ → HostStep σ → Prop
  | finish {result : Except RuntimeError Value} {m n : Memory} {state : σ} (hm : m.Alike n) :
      HostStep.Alike (.finish result m state) (.finish result n state)
  | enter {c : ClosureId} {args kept : List Value} {m n : Memory} {state : σ}
      {resume resume' : Except RuntimeError Value → Memory → σ → HostStep σ} (hm : m.Alike n)
      (hrest : ∀ answer m' n' state', m'.Alike n' →
        HostStep.Alike (resume answer m' state') (resume' answer n' state')) :
      HostStep.Alike (.enter c args kept m state resume) (.enter c args kept n state resume')

/-- What is done with a tree is like what is done with it without places, whatever the host makes of them. -/
theorem alike_tree (host : Host σ) (limit : Nat) {k : Kind} {task : Task k} {s : ScopeId} (h : task.scope? = some s) :
    (task.plan host limit).Alike (· = ·) (task.eraseSpans.plan host limit) := by
  cases task with
  | statements scope body => exact alike_statements body
  | statement scope s => exact alike_statement s
  | block scope s => exact alike_block s
  | expression scope e => exact alike_expression e
  | operand scope span a => exact alike_operand a
  | property scope e => exact alike_property e
  | assignment scope e => exact alike_assignment e
  | compound scope base e => exact alike_compound base e
  | step scope op e => exact alike_step op e
  | invoke _ _ _ | enter _ _ _ => cases h

section Runs

variable {host : Host σ} {limit : Nat}

end Runs

end GameScript
