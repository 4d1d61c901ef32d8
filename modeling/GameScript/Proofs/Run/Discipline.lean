import GameScript.Run.Frame
import GameScript.Proofs.Run.Contract
import GameScript.Proofs.Run.Outcomes
import GameScript.Proofs.Tree.Canonical
import Mathlib.Order.Basic

/-!
# Disciplines

A `Discipline` says what memory, values, scopes and programs are like, and which errors may be raised. What is known of
them is relative to a world, and worlds only grow: what is new in memory may need a larger one. Its laws are about
single operations on memory.

From a discipline follows a contract for all tasks (`Discipline.contract`): a task is allowed where memory, its values
and its program keep to a world, and then its end keeps to a larger one. `Discipline.Keeps` says so of a plan; the rules
of this module say it of the combinators (`keeps_bind` and its sisters) and of the computations that ask for no task
(`keeps_resolve`, `keeps_write` and theirs).
-/

namespace GameScript

open Eval

/-- What a run keeps to. -/
structure Discipline (σ W : Type) [Preorder W] where
  /-- What memory and the state of the host are like. -/
  state : W → Memory → σ → Prop
  /-- What expressions evaluate to. -/
  value : W → Value → Prop
  /-- What is bound to names, put into objects, passed and returned. -/
  stored : W → Value → Prop
  scope : W → ScopeId → Prop
  code : Node → Prop
  fault : RuntimeFault → Prop
  /-- The errors of which functions of the host are told, and with which they may finish. -/
  error : RuntimeError → Prop
  value_mono : ∀ {w w' v}, w ≤ w' → value w v → value w' v
  stored_mono : ∀ {w w' v}, w ≤ w' → stored w v → stored w' v
  scope_mono : ∀ {w w' s}, w ≤ w' → scope w s → scope w' s
  value_of_stored : ∀ {w v}, stored w v → value w v
  stored_of_isScalar : ∀ {w v}, v.IsScalar → stored w v
  value_reference : ∀ {w} {r : Reference}, value w (.reference r) ↔ stored w (.object r.object)
  stored_of_value : ∀ {w v}, value w v → v.type ≠ .reference → stored w v
  state_held : ∀ {w m s} {cells : List Cell}, state w m s → state w { m with held := cells } s
  stored_property : ∀ {w m s o key v}, state w m s → stored w (.object o) → m.property? o key = some v → stored w v
  stored_binding : ∀ {w m s t name v}, state w m s → scope w t → (m.scope t).bindings.get? name = some v → stored w v
  scope_parent : ∀ {w m s t p}, state w m s → scope w t → (m.scope t).parent = some p → scope w p
  scope_closure : ∀ {w m s c}, state w m s → stored w (.closure c) → scope w (m.closure c).scope
  code_closure : ∀ {w m s c}, state w m s → stored w (.closure c) → code (.scope (m.closure c).body)
  state_setProperty : ∀ {w m s o v} {key : String}, state w m s → stored w (.object o) → stored w v →
    state w (m.setProperty o key v) s
  state_bind : ∀ {w m s t v} {name : String}, state w m s → scope w t → stored w v → state w (m.bind t name v) s
  state_newObject : ∀ {w m s}, state w m s →
    ∃ w', w ≤ w' ∧ state w' (m.newObject []).2 s ∧ stored w' (.object (m.newObject []).1)
  state_newScope : ∀ {w m s t}, state w m s → scope w t →
    ∃ w', w ≤ w' ∧ state w' (m.newScope (some t)).2 s ∧ scope w' (m.newScope (some t)).1
  state_newClosure : ∀ {w m s} {f : Closure}, state w m s → scope w f.scope → code (.scope f.body) →
    ∃ w', w ≤ w' ∧ state w' (m.newClosure f).2 s ∧ stored w' (.closure (m.newClosure f).1)
  code_child : ∀ {n n' : Node}, code n → n' ∈ n.children → code n'
  /-- Where improper programs may run, every fault may be raised. -/
  proper_of_code : ∀ {n : Node}, code n → n.Proper ∨ ∀ f, fault f
  fault_of_ordinary : ∀ {e : RuntimeError} {span : Span}, e.Ordinary → fault ⟨e, span⟩
  error_of_fault : ∀ {f}, fault f → error f.error

namespace Discipline

variable {σ W : Type} [Preorder W] (D : Discipline σ W)

/-! ## The contract -/

/-- How a list of statements may end. -/
def flow (w : W) : Flow → Prop
  | .completed => True
  | .returning v => D.stored w v

/-- What may be evaluated: an expression that stands for a value, or a declaration. -/
def Evaluable (e : Expression) : Prop :=
  D.code (.expression e) ∨
    ∃ name nameSpan opSpan a span, e = .binary (.var ⟨name, .declare, nameSpan⟩) ⟨.assign, opSpan⟩ a span ∧
      D.code (.operand a)

/-- Which tasks may be asked for in a world. -/
def Allows (w : W) : {k : Kind} → Task k → Prop
  | _, .statements s body => D.scope w s ∧ ∀ t ∈ body, D.code (.statement t.body)
  | _, .statement s t => D.scope w s ∧ D.code (.statement t.body)
  | _, .block s b => D.scope w s ∧ D.code (.scope b)
  | _, .expression s e => D.scope w s ∧ D.Evaluable e
  | _, .operand s _ a => D.scope w s ∧ D.code (.operand a)
  | _, .property s e => D.scope w s ∧ D.code (.expression e) ∧ e.operator? = some .child
  | _, .assignment s e => D.scope w s ∧ D.Evaluable e ∧ e.operator? = some .assign
  | _, .compound s base e => D.scope w s ∧ D.code (.expression e) ∧ ∃ op ∈ e.op, op.kind.compoundBase = some base
  | _, .step s op e => D.scope w s ∧ D.code (.expression e) ∧ e.operator? = some op ∧ op.arity = .either
  | _, .invoke f args _ => D.stored w f ∧ ∀ v ∈ args, D.stored w v
  | _, .enter c args _ => D.stored w (.closure c) ∧ ∀ v ∈ args, D.stored w v

/-- Which answers a task may have in a world. -/
def Fits (w : W) : {k : Kind} → Task k → k.Answer → Prop
  | .flow, _, flow => D.flow w flow
  | .reference, _, r => D.value w (.reference r)
  | .value, .enter .., v => D.stored w v
  | .value, .invoke (.closure _) .., v => D.stored w v
  | .value, _, v => D.value w v

/-- An end that keeps to a world which has grown from another one: an answer that fits, or a fault that may be
raised. -/
def Ends {α : Type} (w : W) (P : W → α → Prop) (r : Except RuntimeFault α) (m : Machine σ) : Prop :=
  ∃ w', w ≤ w' ∧ D.state w' m.memory m.state ∧
    match r with
    | .ok a => P w' a
    | .error f => D.fault f

/-- Tasks that keep to a world end so that they keep to a larger one. -/
def contract : Contract σ where
  pre task m := ∃ w, D.state w m.memory m.state ∧ D.Allows w task
  post task m r m' := ∀ w, D.state w m.memory m.state → D.Allows w task → D.Ends w (D.Fits · task) r m'

/-- From every machine that keeps to a world, a plan asks only for what is allowed, and ends so that it keeps to a
larger world. -/
def Keeps {α : Type} (w : W) (act : Plan σ α) (P : W → α → Prop) : Prop :=
  ∀ m : Machine σ, D.state w m.memory m.state → (act m).Meets D.contract (D.Ends w P)

/-! ## Functions of the host -/

/-- A function of the host keeps to a world with all that it still does, when what it is told does. -/
def Step : HostStep σ → W → Prop
  | .finish result m s, w =>
    ∃ w', w ≤ w' ∧ D.state w' m s ∧
      match result with
      | .ok v => D.value w' v
      | .error e => D.error e
  | .enter c args _ m s resume, w =>
    ∃ w', w ≤ w' ∧ D.state w' m s ∧ D.stored w' (.closure c) ∧ (∀ v ∈ args, D.stored w' v) ∧
      ∀ answer m' s' w'', w' ≤ w'' → D.state w'' m' s' →
        (match answer with
        | .ok v => D.stored w'' v
        | .error e => D.error e) → Step (resume answer m' s') w''

/-- Every function of a host keeps to a world. -/
def Host (host : GameScript.Host σ) : Prop :=
  ∀ n span args w m s, D.state w m s → (∀ v ∈ args, D.stored w v) → D.Step (host.call n span args m s) w

/-! ## Rules -/

section Rules

variable {D} {α β : Type} {w w' : W} {P : W → α → Prop} {Q : W → β → Prop} {act : Plan σ α}

theorem Ends.mono {r : Except RuntimeFault α} {m : Machine σ} (h : D.Ends w' P r m) (hw : w ≤ w') : D.Ends w P r m := by
  obtain ⟨w'', hle, hrest⟩ := h
  exact ⟨w'', hw.trans hle, hrest⟩

theorem Ends.imp {P' : W → α → Prop} {r : Except RuntimeFault α} {m : Machine σ} (h : D.Ends w P r m)
    (hp : ∀ w', w ≤ w' → ∀ a, P w' a → P' w' a) : D.Ends w P' r m := by
  obtain ⟨w', hle, hm, hr⟩ := h
  refine ⟨w', hle, hm, ?_⟩
  cases r with
  | ok a => exact hp w' hle a hr
  | error f => exact hr

theorem ends_ok {a : α} {m : Machine σ} (hm : D.state w m.memory m.state) (h : P w a) : D.Ends w P (.ok a) m :=
  ⟨w, le_rfl, hm, h⟩

theorem ends_error {f : RuntimeFault} {m : Machine σ} (hm : D.state w m.memory m.state) (h : D.fault f) :
    D.Ends w P (.error f) m :=
  ⟨w, le_rfl, hm, h⟩

theorem Keeps.mono {P' : W → α → Prop} (h : D.Keeps w act P) (hp : ∀ w', w ≤ w' → ∀ a, P w' a → P' w' a) :
    D.Keeps w act P' := by
  intro m hm
  apply (h m hm).mono
  intro r m' hend
  exact hend.imp hp

theorem keeps_pure {a : α} (h : P w a) : D.Keeps w (pure a) P := fun _ hm => ends_ok hm h

theorem keeps_bind {f : α → Plan σ β} (h : D.Keeps w act P) (hf : ∀ w', w ≤ w' → ∀ a, P w' a → D.Keeps w' (f a) Q) :
    D.Keeps w (act >>= f) Q := by
  intro m hm
  apply meets_bind
  apply (h m hm).mono
  rintro r m' ⟨w', hle, hm', hr⟩
  cases r with
  | ok a =>
    apply (hf w' hle a hr m' hm').mono
    intro _ _ hend
    exact hend.mono hle
  | error f => exact ⟨w', hle, hm', hr⟩

theorem keeps_ask {k : Kind} {task : Task k} (h : D.Allows w task) :
    D.Keeps w (Plan.ask task) fun w' a => D.Fits w' task a := by
  intro m hm
  refine meets_ask ⟨w, hm, h⟩ ?_
  intro r m' hpost
  exact hpost w hm h

theorem keeps_holding {cells : List Cell} (h : D.Keeps w act P) : D.Keeps w (act.holding cells) P := by
  intro m hm
  apply meets_holding
  apply (h { m with memory := m.memory.holding cells } (D.state_held hm)).mono
  rintro r m' ⟨w', hle, hm', hr⟩
  exact ⟨w', hle, D.state_held hm', hr⟩

theorem keeps_deeper (h : D.Keeps w act P) : D.Keeps w act.deeper P := by
  intro m hm
  exact meets_deeper (h { m with depth := m.depth + 1 } hm)

theorem keeps_attempt (h : D.Keeps w act P) : D.Keeps w act.attempt fun w' r =>
    match r with
    | .ok a => P w' a
    | .error f => D.fault f := by
  intro m hm
  exact meets_attempt (h m hm)

end Rules

/-! ## Computations that ask for no task -/

section Computations

variable {D} {α β : Type} {w : W} {P : W → α → Prop} {Q : W → β → Prop} {span : Span}

theorem keeps_now_bind {ev : Eval σ α} {f : α → Eval σ β} (h : D.Keeps w (Plan.now ev) P)
    (hf : ∀ w', w ≤ w' → ∀ a, P w' a → D.Keeps w' (Plan.now (f a)) Q) : D.Keeps w (Plan.now (ev >>= f)) Q := by
  intro m hm
  obtain ⟨w', hle, hm', hr⟩ : D.Ends w P (ev m).1 (ev m).2 := h m hm
  show D.Ends w Q ((ev >>= f) m).1 ((ev >>= f) m).2
  rw [Eval.bind_apply]
  rcases hev : ev m with ⟨e | a, m'⟩ <;> rw [hev] at hm' hr
  · exact ⟨w', hle, hm', hr⟩
  · have hend : D.Ends w' Q (f a m').1 (f a m').2 := hf w' hle a hr m' hm'
    exact hend.mono hle

theorem keeps_now_pure {a : α} (h : P w a) : D.Keeps w (Plan.now (pure a)) P := fun _ hm => ends_ok hm h

theorem keeps_fail {e : RuntimeError} (h : D.fault ⟨e, span⟩) : D.Keeps w (Plan.now (fail span e)) P :=
  fun _ hm => ends_error hm h

/-- A computation that improper programs alone come to. -/
theorem keeps_fail_of_code {n : Node} {e : RuntimeError} (hn : D.code n) (h : ¬n.Proper) :
    D.Keeps w (Plan.now (fail span e)) P :=
  keeps_fail ((D.proper_of_code hn).resolve_left h _)

theorem keeps_lift {x : Except RuntimeError α} (hx : Refuses RuntimeError.Operational x) (h : ∀ a, x = .ok a → P w a) :
    D.Keeps w (Plan.now (Eval.lift span x)) P := by
  cases x with
  | ok a => exact keeps_now_pure (h a rfl)
  | error e => exact keeps_fail (D.fault_of_ordinary (hx e rfl).ordinary)

/-- What memory is looked up for. -/
theorem keeps_inspect {f : Memory → Except RuntimeError α} (hf : ∀ m, Refuses RuntimeError.Operational (f m))
    (h : ∀ m s, D.state w m s → ∀ a, f m = .ok a → P w a) :
    D.Keeps w (Plan.now do Eval.lift span (f (← memory))) P := by
  intro m hm
  exact keeps_lift (hf m.memory) (h m.memory m.state hm) m hm

theorem keeps_updateMemory {change : Memory → Except RuntimeError Memory}
    (hc : ∀ m, Refuses RuntimeError.Operational (change m))
    (h : ∀ m s, D.state w m s → ∀ m', change m = .ok m' → D.state w m' s) :
    D.Keeps w (Plan.now (updateMemory span change)) fun _ _ => True := by
  intro m hm
  show D.Ends w _ ((updateMemory span change) m).1 ((updateMemory span change) m).2
  have hstep : updateMemory span change m = (Eval.lift span (change m.memory) >>= setMemory) m := rfl
  rw [hstep, Eval.bind_apply]
  cases hx : change m.memory with
  | ok m' => exact ends_ok (h m.memory m.state hm m' hx) trivial
  | error e => exact ends_error hm (D.fault_of_ordinary (hc m.memory e hx).ordinary)

theorem keeps_create {make : Memory → α × Memory}
    (h : ∀ m s, D.state w m s → ∃ w', w ≤ w' ∧ D.state w' (make m).2 s ∧ P w' (make m).1) :
    D.Keeps w (Plan.now (create make)) P := fun m hm => h m.memory m.state hm

theorem stored_of_resolve {m : Memory} {s : σ} (hm : D.state w m s) {v u : Value} (hv : D.value w v)
    (h : m.resolve v = .ok u) : D.stored w u := by
  cases v with
  | reference r =>
    rw [← Memory.eq_of_read h]
    cases hp : m.property? r.object r.key with
    | none => exact D.stored_of_isScalar trivial
    | some u => exact D.stored_property hm (D.value_reference.1 hv) hp
  | _ =>
    cases h
    exact D.stored_of_value hv (by simp [Value.type])

theorem keeps_resolve {v : Value} (hv : D.value w v) : D.Keeps w (Plan.now (resolve span v)) D.stored :=
  keeps_inspect (fun m => refuses_resolve m v) fun _ _ hm _ => stored_of_resolve hm hv

theorem scope_of_mem_chain {m : Memory} {s : σ} (hm : D.state w m s) {t u : ScopeId} (ht : D.scope w t)
    (hu : u ∈ m.chain t) : D.scope w u := Memory.mem_chain (fun _ ht _ => D.scope_parent hm ht) ht hu

theorem stored_of_lookup {m : Memory} {s : σ} (hm : D.state w m s) {t : ScopeId} {name : String} {v : Value}
    (ht : D.scope w t) (h : m.lookup t name = .ok v) : D.stored w v := by
  unfold Memory.lookup at h
  split at h
  · rename_i u hu
    cases h
    obtain ⟨t', ht', hget⟩ := List.exists_of_findSome?_eq_some hu
    exact D.stored_binding hm (scope_of_mem_chain hm ht ht') hget
  · cases h

theorem keeps_lookup {t : ScopeId} {name : String} (ht : D.scope w t) :
    D.Keeps w (Plan.now do Eval.lift span ((← memory).lookup t name)) D.stored :=
  keeps_inspect (fun m => (refuses_lookup m t name).mono fun _ => .inl) fun _ _ hm _ => stored_of_lookup hm ht

/-! ### Targets -/

/-- What may be written to in a world. -/
def target (D : Discipline σ W) (w : W) : Target → Prop
  | .property r => D.value w (.reference r)
  | _ => True

theorem target_mono {w' : W} {t : Target} (hle : w ≤ w') (ht : D.target w t) : D.target w' t := by
  cases t with
  | property r => exact D.value_mono hle ht
  | _ => trivial

theorem keeps_read {t : Target} {s : ScopeId} (hs : D.scope w s) (ht : D.target w t) :
    D.Keeps w (Plan.now do Eval.lift span (t.read (← memory) s)) D.stored := by
  refine keeps_inspect (fun m => refuses_targetRead m s t) fun m st hm v hv => ?_
  cases t with
  | declare name => cases hv
  | existing name =>
    obtain ⟨u, hu, hv⟩ := exists_of_bind_eq_ok hv
    exact stored_of_resolve hm (D.value_of_stored (stored_of_lookup hm hs hu)) hv
  | property r => exact stored_of_resolve hm ht hv

theorem state_declare {m m' : Memory} {st : σ} (hm : D.state w m st) {s : ScopeId} {name : String} {v : Value}
    (hs : D.scope w s) (hv : D.stored w v) (h : m.declare s name v = .ok m') : D.state w m' st := by
  obtain ⟨-, rfl⟩ := Memory.declare_eq_ok_iff.1 h
  exact D.state_bind hm hs hv

theorem keeps_write {t : Target} {s : ScopeId} {v : Value} (hs : D.scope w s) (ht : D.target w t) (hv : D.stored w v) :
    D.Keeps w (Plan.now (updateMemory span (t.write v s))) fun _ _ => True := by
  refine keeps_updateMemory (fun m => refuses_targetWrite m s v t) fun m st hm m' h => ?_
  cases t with
  | declare name => exact state_declare hm hs hv h
  | existing name =>
    obtain ⟨u, hu, rfl⟩ := Memory.update_eq_ok_iff.1 h
    exact D.state_bind hm (scope_of_mem_chain hm hs (List.mem_of_find?_eq_some hu)) hv
  | property r =>
    rw [← Memory.eq_of_write h]
    exact D.state_setProperty hm (D.value_reference.1 ht) hv

/-! ### Function scopes -/

theorem state_declareAll {s : ScopeId} (hs : D.scope w s) {bindings : List (String × Value)}
    (hb : ∀ b ∈ bindings, D.stored w b.2) {m m' : Memory} {st : σ} (hm : D.state w m st)
    (h : m.declareAll s bindings = .ok m') : D.state w m' st := by
  induction bindings generalizing m with
  | nil =>
    cases h
    exact hm
  | cons b rest ih =>
    obtain ⟨n, hn, hrest⟩ := exists_of_bind_eq_ok h
    exact ih (fun b hb' => hb b (List.mem_cons_of_mem _ hb')) (state_declare hm hs (hb b List.mem_cons_self) hn) hrest

theorem state_newFunctionScope {m m' : Memory} {st : σ} (hm : D.state w m st) {p s : ScopeId} (hp : D.scope w p)
    {parameters : List String} {args : List Value} (hargs : ∀ v ∈ args, D.stored w v)
    (h : m.newFunctionScope p parameters args = .ok (s, m')) : ∃ w', w ≤ w' ∧ D.state w' m' st ∧ D.scope w' s := by
  obtain ⟨w', hle, hm₁, hs⟩ := D.state_newScope hm hp
  unfold Memory.newFunctionScope at h
  split at h
  · obtain ⟨n, hn, he⟩ := exists_of_bind_eq_ok h
    cases he
    have hb : ∀ b ∈ parameters.zip args, D.stored w' b.2 := fun b hb =>
      D.stored_mono hle (hargs b.2 (List.of_mem_zip hb).2)
    exact ⟨w', hle, state_declareAll hs hb hm₁ hn, hs⟩
  · cases h

end Computations

end Discipline

end GameScript
