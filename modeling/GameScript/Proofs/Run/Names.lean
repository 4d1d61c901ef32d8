import GameScript.Proofs.Run.Defensive
import GameScript.Proofs.Run.Pieces

/-!
# Which scopes get new names

A scope stays where it is, with its parent and its depth, and no name that it binds goes away again. It gets new names
where something is declared, and only in the scope whose statements are being run. `Memory.Widens` says what has
happened when some scopes alone may have got new names; which ones these are for a task says `Task.mayDeclare`, and
`meets_naming` is that every task keeps to it.

A program that a text parses to declares in its own statements and nowhere else. So the names of the scope in which it
is run are those from before and then, in order, those of its declarations that completed, and in every other scope
that there was they are the same (`declarations_land_in_their_scope`).
-/

namespace GameScript

open Eval

namespace Memory

/-- The names that a scope binds, in order. -/
def names (m : Memory) (t : ScopeId) : List String := (m.scope t).bindings.keys

/-- What has become of the scopes of a memory when some of them alone may have got new names: they are there still, in
their places, and bind what they bound before. -/
structure Widens (m : Memory) (P : Set ScopeId) (m' : Memory) : Prop where
  made : ∀ {t}, m.HasScope t → m'.HasScope t
  parent : ∀ {t}, m.HasScope t → (m'.scope t).parent = (m.scope t).parent
  depth : ∀ {t}, m.HasScope t → (m'.scope t).depth = (m.scope t).depth
  names : ∀ {t}, m.HasScope t → m.names t <+: m'.names t
  same : ∀ {t}, m.HasScope t → t ∉ P → m'.names t = m.names t

variable {m m' m'' : Memory} {P P' : Set ScopeId} {s t : ScopeId} {name : String} {v : Value}

theorem widens_of_scopes_eq (h : m'.scopes = m.scopes) : m.Widens P m' := by
  have hscope (t : ScopeId) : m'.scope t = m.scope t := by unfold scope; rw [h]
  refine ⟨fun ht => ?_, fun _ => by rw [hscope], fun _ => by rw [hscope], fun _ => ?_, fun _ _ => ?_⟩
  · unfold HasScope
    rwa [h]
  · rw [Memory.names, Memory.names, hscope]
  · rw [Memory.names, Memory.names, hscope]

theorem Widens.refl (m : Memory) (P : Set ScopeId) : m.Widens P m := widens_of_scopes_eq rfl

theorem Widens.holding (h : m.Widens P m') (cells : List Cell) : m.Widens P { m' with held := cells } :=
  ⟨h.made, h.parent, h.depth, h.names, h.same⟩

theorem Widens.mono (h : m.Widens P m') (hP : P ⊆ P') : m.Widens P' m' :=
  ⟨h.made, h.parent, h.depth, h.names, fun hs ht => h.same hs fun hp => ht (hP hp)⟩

/-- What comes second may declare in other scopes as well, if they are new. -/
theorem Widens.trans (h : m.Widens P m') (h' : m'.Widens P' m'') (hP : ∀ t ∈ P', m.HasScope t → t ∈ P) :
    m.Widens P m'' where
  made ht := h'.made (h.made ht)
  parent ht := (h'.parent (h.made ht)).trans (h.parent ht)
  depth ht := (h'.depth (h.made ht)).trans (h.depth ht)
  names ht := (h.names ht).trans (h'.names (h.made ht))
  same ht hp := (h'.same (h.made ht) fun hp' => hp (hP _ hp' ht)).trans (h.same ht hp)

/-! ## Single changes -/

theorem names_bind (h : m.HasScope s) :
    (m.bind s name v).names s = if name ∈ m.names s then m.names s else m.names s ++ [name] := by
  unfold Memory.names
  rw [scope_bind h, Entries.keys_put]

theorem hasLocal_eq_true_iff : m.hasLocal s name = true ↔ name ∈ m.names s := by
  rw [← Decidable.not_iff_not]
  simp only [hasLocal, Entries.has, Memory.names, Bool.not_eq_true, Option.isSome_eq_false_iff,
    Option.isNone_iff_eq_none]
  exact Entries.get?_eq_none_iff

/-- A binding names nothing anew, or does so where that may be. -/
theorem widens_bind (h : m.hasLocal s name = true ∨ s ∈ P) : m.Widens P (m.bind s name v) := by
  refine ⟨hasScope_bind.2, fun _ => parent_bind, fun _ => depth_bind, fun {t} ht => ?_, fun {t} ht hp => ?_⟩
  · by_cases hts : t = s
    · subst hts
      rw [names_bind ht]
      split
      · exact List.prefix_rfl
      · exact List.prefix_append _ _
    · rw [Memory.names, Memory.names, scope_bind_of_ne hts]
  · by_cases hts : t = s
    · subst hts
      rw [names_bind ht, if_pos (hasLocal_eq_true_iff.1 (h.resolve_right hp))]
    · rw [Memory.names, Memory.names, scope_bind_of_ne hts]

theorem widens_newScope {parent : Option ScopeId} : m.Widens P (m.newScope parent).2 := by
  refine ⟨fun ht => ?_, fun ht => ?_, fun ht => ?_, fun ht => ?_, fun ht _ => ?_⟩
  · exact Nat.lt_of_lt_of_le ht (by simp [newScope])
  · rw [scope_newScope_of_hasScope ht]
  · rw [scope_newScope_of_hasScope ht]
  · rw [Memory.names, Memory.names, scope_newScope_of_hasScope ht]
  · rw [Memory.names, Memory.names, scope_newScope_of_hasScope ht]

theorem not_hasScope_newScope (parent : Option ScopeId) : ¬m.HasScope (m.newScope parent).1 := Nat.lt_irrefl _

theorem widens_declare (h : m.declare s name v = .ok m') (hs : s ∈ P) : m.Widens P m' := by
  obtain ⟨-, rfl⟩ := declare_eq_ok_iff.1 h
  exact widens_bind (.inr hs)

theorem widens_update (h : m.update s name v = .ok m') : m.Widens P m' := by
  obtain ⟨t, ht, rfl⟩ := update_eq_ok_iff.1 h
  have hbinds : m.hasLocal t name = true := List.find?_some (p := (m.hasLocal · name)) ht
  exact widens_bind (.inl hbinds)

theorem widens_declareAll {bindings : List (String × Value)} (h : m.declareAll s bindings = .ok m') (hs : s ∈ P) :
    m.Widens P m' := by
  induction bindings generalizing m with
  | nil =>
    cases h
    exact .refl _ P
  | cons b rest ih =>
    obtain ⟨n, hn, hrest⟩ := exists_of_bind_eq_ok h
    exact (widens_declare hn hs).trans (ih hrest) fun _ hp _ => hp

/-- A function scope is new, and so are all names in it. -/
theorem widens_newFunctionScope {p : ScopeId} {parameters : List String} {args : List Value}
    (h : m.newFunctionScope p parameters args = .ok (s, m')) : m.Widens P m' ∧ ¬m.HasScope s := by
  unfold newFunctionScope at h
  split at h
  · obtain ⟨n, hn, hrest⟩ := exists_of_bind_eq_ok h
    cases hrest
    have hbound : (m.newScope (some p)).2.Widens {(m.newScope (some p)).1} m' := widens_declareAll hn rfl
    refine ⟨widens_newScope.trans hbound ?_, not_hasScope_newScope (some p)⟩
    rintro t rfl ht
    exact absurd ht (not_hasScope_newScope _)
  · cases h

/-- What is written to another target than a declaration names nothing anew. -/
theorem widens_write {t : Target} (h : t.write v s m = .ok m') (ht : ∀ name, t = .declare name → s ∈ P) :
    m.Widens P m' := by
  cases t with
  | declare name => exact widens_declare h (ht name rfl)
  | existing name => exact widens_update h
  | property r =>
    obtain rfl := eq_of_write h
    exact widens_of_scopes_eq rfl

end Memory

/-! ## Tasks -/

/-- The name that a statement declares, if it is a declaration. -/
def Expression.declared? : Expression → Option String
  | ⟨some (.var ⟨name, .declare, _⟩), some ⟨.assign, _⟩, some _, _⟩ => some name
  | _ => none

/-- Where a piece of a program that stands for a value may declare names: nowhere, if it is canonical. -/
def Node.declaring (scope : ScopeId) (n : Node) : Set ScopeId := {t | t = scope ∧ ¬n.Canonical}

/-- The scopes in which a task may declare names. A canonical statement does so only where it is a declaration. -/
def Task.mayDeclare : {k : Kind} → Task k → Set ScopeId
  | _, .statements scope _ => {scope}
  | _, .statement scope s => {t | t = scope ∧ ¬((Node.statement s.body).Canonical ∧ s.body.declared? = none)}
  | _, .expression scope e => (Node.expression e).declaring scope
  | _, .operand scope _ a => (Node.operand a).declaring scope
  | _, .property scope e => (Node.expression e).declaring scope
  | _, .assignment scope e => (Node.expression e).declaring scope
  | _, .compound scope _ e => (Node.expression e).declaring scope
  | _, .step scope _ e => (Node.expression e).declaring scope
  | _, _ => ∅

section Pieces

variable {scope : ScopeId} {e : Expression} {a : Operand}

/-- What is inside a piece may declare where the whole may. -/
theorem Node.declaring_child {n c : Node} (h : c ∈ n.children) : c.declaring scope ⊆ n.declaring scope :=
  fun _ ⟨ht, hc⟩ => ⟨ht, fun hn => hc (hn.child h)⟩

theorem declaring_left (h : e.left = some a) : (Node.operand a).declaring scope ⊆ (Node.expression e).declaring scope :=
  Node.declaring_child (by simp [Node.children, h])

theorem declaring_right (h : e.right = some a) :
    (Node.operand a).declaring scope ⊆ (Node.expression e).declaring scope :=
  Node.declaring_child (by simp [Node.children, h])

theorem declaring_written (h : e.written = some a) :
    (Node.operand a).declaring scope ⊆ (Node.expression e).declaring scope := by
  unfold Expression.written at h
  split at h
  · exact declaring_left h
  · exact declaring_right h

/-- A statement that is neither a block nor a `return` nor a declaration is an expression that stands for a value. -/
theorem mem_children_statement (hblock : ∀ b place, e ≠ ⟨some (.block b), none, none, place⟩)
    (hret : ∀ opSpan a place, e ≠ ⟨none, some ⟨.ret, opSpan⟩, some a, place⟩) (h : e.declared? = none) :
    Node.expression e ∈ (Node.statement e).children := by
  simp only [Node.children]
  split
  · exact absurd rfl (hblock _ _)
  · exact absurd rfl (hret _ _ _)
  · cases h
  · exact List.mem_singleton.2 rfl

end Pieces

/-! ## Functions of the host -/

variable {σ α β : Type}

/-- A function of the host that edits no scope in all that it still does: it may put other values into them and make new
ones, but leaves names, parents and depths as they are. -/
def HostStep.KeepsScopes : HostStep σ → Memory → Prop
  | .finish _ m' _, m => m.Widens ∅ m'
  | .enter _ _ _ m' _ resume, m =>
    m.Widens ∅ m' ∧ ∀ answer m'' s, m'.Widens ∅ m'' → (resume answer m'' s).KeepsScopes m''

/-- A host whose functions edit no scopes. -/
def Host.KeepsScopes (host : Host σ) : Prop := ∀ n span args m s, (host.call n span args m s).KeepsScopes m

/-! ## Computations -/

section Computations

variable {P : Set ScopeId} {span : Span}

/-- A computation that declares in some scopes at most. -/
def Eval.Widens (P : Set ScopeId) (ev : Eval σ α) : Prop :=
  ∀ m : Machine σ, m.memory.Widens P (ev m).2.memory

theorem widens_pure (a : α) : (pure a : Eval σ α).Widens P := fun m => .refl m.memory P

theorem widens_fail (e : RuntimeError) : (fail span e : Eval σ α).Widens P := fun m => .refl m.memory P

theorem widens_memory : (memory : Eval σ Memory).Widens P := fun m => .refl m.memory P

theorem widens_lift (x : Except RuntimeError α) : (Eval.lift span x : Eval σ α).Widens P := by
  cases x with
  | ok a => exact widens_pure a
  | error e => exact widens_fail e

theorem Eval.Widens.bind {ev : Eval σ α} {f : α → Eval σ β} (h : ev.Widens P) (hf : ∀ a, (f a).Widens P) :
    (ev >>= f).Widens P := by
  intro m
  rw [Eval.bind_apply]
  have hm := h m
  rcases hev : ev m with ⟨e | a, m'⟩ <;> rw [hev] at hm
  · exact hm
  · exact hm.trans (hf a m') fun _ hp _ => hp

theorem widens_resolve (v : Value) : (resolve span v : Eval σ Value).Widens P :=
  widens_memory.bind fun _ => widens_lift _

theorem widens_negate (v : Value) : (negate span v : Eval σ Value).Widens P := by
  cases v <;> first | exact widens_pure _ | exact widens_fail _

theorem widens_memberName (a : Option Operand) : (memberName span a : Eval σ String).Widens P := by
  unfold memberName
  split
  · exact widens_pure _
  · exact widens_fail _

theorem widens_referenceTo (key : String) (named : Bool) (parent : Value) :
    (referenceTo span key named parent : Eval σ Reference).Widens P := by
  refine (widens_resolve parent).bind fun v => ?_
  cases v <;> first | exact widens_pure _ | exact widens_fail _

theorem widens_updateMemory {change : Memory → Except RuntimeError Memory}
    (h : ∀ m m', change m = .ok m' → m.Widens P m') : (updateMemory span change : Eval σ Unit).Widens P := by
  intro m
  have hstep : updateMemory span change m = (Eval.lift span (change m.memory) >>= setMemory) m := rfl
  rw [hstep, Eval.bind_apply]
  cases hx : change m.memory with
  | ok m' => exact h _ _ hx
  | error e => exact .refl _ P

/-- A write declares where its target does. -/
theorem widens_updateTarget {t : Target} {v : Value} {scope : ScopeId}
    (ht : ∀ name, t = .declare name → scope ∈ P) : (updateMemory span (t.write v scope) : Eval σ Unit).Widens P :=
  widens_updateMemory fun _ _ h => Memory.widens_write h ht

/-- A step declares nothing: what has just been declared has no value to step. -/
theorem widens_stepBy {op : OperatorKind} {new : Bool} {scope : ScopeId} {t : Target} :
    (stepBy op new scope span (pure t) : Eval σ Value).Widens P := by
  refine (widens_pure t).bind fun t => ?_
  cases t with
  | declare name => exact fun m => .refl m.memory P
  | property r => exact widens_fail _
  | existing name =>
    refine widens_memory.bind fun n => (widens_lift _).bind fun v => ?_
    cases v <;> first
      | exact widens_fail _
      | exact (widens_lift _).bind fun _ => (widens_updateTarget fun _ h => by cases h).bind fun _ =>
          widens_pure _

end Computations

/-! ## The contract -/

/-- Tasks that start where no scope of a first memory has got new names but some, and that may declare in these alone:
they declare where they may. -/
def naming (m₀ : Memory) (S : Set ScopeId) : Contract σ where
  pre task m := m₀.Widens S m.memory ∧ task.mayDeclare ⊆ S
  post task m _ m' := m.memory.Widens task.mayDeclare m'.memory

/-- A plan that has tasks done which may declare in `P` at most, declares nowhere else itself and has an answer with
`Q`. -/
def Plan.Declares (m₀ : Memory) (S P : Set ScopeId) (Q : α → Prop) (act : Plan σ α) : Prop :=
  ∀ m, m₀.Widens S m.memory → (act m).Meets (naming m₀ S) fun r m' =>
    m.memory.Widens P m'.memory ∧ ∀ a, r = .ok a → Q a

section Rules

variable {m₀ : Memory} {S P : Set ScopeId} {Q : α → Prop} {Q' : β → Prop} {act : Plan σ α}

theorem Eval.Widens.now {ev : Eval σ α} (h : ev.Widens P) : (Plan.now ev).Declares m₀ S P fun _ => True :=
  fun m _ => ⟨h m, fun _ _ => trivial⟩

theorem Plan.declares_pure {a : α} (h : Q a) : (pure a : Plan σ α).Declares m₀ S P Q := fun _ _ =>
  ⟨.refl _ _, fun _ ha => by cases ha; exact h⟩

/-- A computation that fails has whatever answer. -/
theorem declares_fail {span : Span} {e : RuntimeError} : (Plan.now (fail span e) : Plan σ α).Declares m₀ S P Q :=
  fun _ _ => ⟨.refl _ _, fun _ ha => by cases ha⟩

variable (hP : P ⊆ S)

include hP

theorem Plan.declares_ask {k : Kind} {task : Task k} (h : task.mayDeclare ⊆ P) :
    (Plan.ask task : Plan σ k.Answer).Declares m₀ S P fun _ => True := fun _ hm =>
  meets_ask ⟨hm, h.trans hP⟩ fun _ _ hpost => ⟨hpost.mono h, fun _ _ => trivial⟩

theorem Plan.Declares.bind {f : α → Plan σ β} (h : act.Declares m₀ S P Q)
    (hf : ∀ a, Q a → (f a).Declares m₀ S P Q') : (act >>= f).Declares m₀ S P Q' := by
  refine fun m hm => meets_bind ((h m hm).mono fun r m' ⟨hw, hq⟩ => ?_)
  cases r with
  | ok a =>
    refine (hf a (hq a rfl) m' (hm.trans hw fun _ hp _ => hP hp)).mono fun r' m'' ⟨hw', hq'⟩ => ⟨?_, hq'⟩
    exact hw.trans hw' fun _ hp _ => hp
  | error e => exact ⟨hw, fun _ he => by cases he⟩

omit hP in
theorem Plan.Declares.holding (h : act.Declares m₀ S P Q) (cells : List Cell) :
    (act.holding cells).Declares m₀ S P Q := by
  refine fun m hm => meets_holding ?_
  have hheld : m₀.Widens S (m.memory.holding cells) := hm.holding _
  exact (h { m with memory := m.memory.holding cells } hheld).mono fun r m' ⟨hw, hq⟩ => ⟨⟨hw.made, hw.parent, hw.depth,
    hw.names, hw.same⟩, hq⟩

end Rules

/-! ## What the functions do -/

section Functions

open Plan

variable {m₀ : Memory} {S P : Set ScopeId} {scope : ScopeId} {span : Span}

variable (hP : P ⊆ S)

include hP

theorem declares_askOperand {a : Operand} (ha : (Node.operand a).declaring scope ⊆ P) :
    (ask (.operand scope span a) : Plan σ Value).Declares m₀ S P fun _ => True := declares_ask hP ha

theorem declares_askExpression {e : Expression} (he : (Node.expression e).declaring scope ⊆ P) :
    (ask (.expression scope e) : Plan σ Value).Declares m₀ S P fun _ => True := declares_ask hP he

theorem declares_askProperty {e : Expression} (he : (Node.expression e).declaring scope ⊆ P) :
    (ask (.property scope e) : Plan σ Reference).Declares m₀ S P fun _ => True := declares_ask hP he

theorem declares_askBlock {s : Scope} : (ask (.block scope s) : Plan σ Flow).Declares m₀ S P fun _ => True :=
  declares_ask hP (Set.empty_subset P)

theorem declares_statements (hs : scope ∈ P) (body : List Statement) :
    (Plan.statements scope body : Plan σ Flow).Declares m₀ S P fun _ => True := by
  induction body with
  | nil => exact Plan.declares_pure trivial
  | cons s rest ih =>
    refine (declares_ask hP ?_).bind hP fun flow _ => ?_
    · rintro _ ⟨rfl, -⟩
      exact hs
    · cases flow with
      | completed => exact ih
      | returning v => exact Plan.declares_pure trivial

theorem declares_slotValue {a : Option Operand} (ha : ∀ b, a = some b → (Node.operand b).declaring scope ⊆ P) :
    (slotValue scope span a : Plan σ Value).Declares m₀ S P fun _ => True := by
  cases a with
  | none => exact declares_fail
  | some a => exact (declares_askOperand hP (ha a rfl)).bind hP fun v _ => (widens_resolve v).now

theorem declares_parentValue {a : Option Operand} (ha : ∀ b, a = some b → (Node.operand b).declaring scope ⊆ P) :
    (parentValue scope span a : Plan σ (Value × Bool)).Declares m₀ S P fun _ => True := by
  cases a with
  | none => exact declares_fail
  | some a => exact (declares_askOperand hP (ha a rfl)).bind hP fun _ _ => Plan.declares_pure trivial

/-- A target declares a name only where an operand does that is not canonical. -/
theorem declares_target {mayDeclare : Bool} {a : Option Operand}
    (ha : ∀ b, a = some b → (Node.operand b).declaring scope ⊆ P) :
    (target scope span mayDeclare a : Plan σ Target).Declares m₀ S P fun t =>
      ∀ name, t = .declare name → scope ∈ P := by
  unfold target
  split
  · exact Plan.declares_pure nofun
  · split
    · refine Plan.declares_pure fun _ _ => ha _ rfl ⟨rfl, fun h => ?_⟩
      cases h.proper
    · exact declares_fail
  · rename_i e
    have he : (Node.expression e).declaring scope ⊆ P :=
      (Node.declaring_child (List.mem_singleton.2 rfl)).trans (ha _ rfl)
    split
    · exact (declares_askProperty hP he).bind hP fun _ _ => Plan.declares_pure nofun
    · exact declares_fail
  · exact declares_fail

theorem declares_values {es : List Expression} (hes : ∀ e ∈ es, (Node.expression e).declaring scope ⊆ P)
    (before : List Value) : (values scope before es : Plan σ (List Value)).Declares m₀ S P fun _ => True := by
  induction es generalizing before with
  | nil => exact Plan.declares_pure trivial
  | cons e rest ih =>
    refine (declares_askExpression hP (hes e List.mem_cons_self)).bind hP fun v _ => ?_
    refine (widens_resolve v).now.bind hP fun v _ => ?_
    exact (ih (fun e he => hes e (List.mem_cons_of_mem _ he)) _).holding _

theorem declares_properties {o : ObjectId} {ps : List Property}
    (hps : ∀ p ∈ ps, (Node.expression p.value).declaring scope ⊆ P) :
    (properties scope o ps : Plan σ Unit).Declares m₀ S P fun _ => True := by
  induction ps with
  | nil => exact Plan.declares_pure trivial
  | cons p rest ih =>
    obtain ⟨key, e⟩ := p
    refine (declares_askExpression hP (hps _ List.mem_cons_self)).bind hP fun v _ => ?_
    refine (widens_resolve v).now.bind hP fun v _ => ?_
    have hwrite : (now do setMemory ((← memory).setProperty o key v) : Plan σ Unit).Declares m₀ S P fun _ => True :=
      Eval.Widens.now fun _ => Memory.widens_of_scopes_eq rfl
    exact hwrite.bind hP fun _ _ => ih fun p hp => hps p (List.mem_cons_of_mem _ hp)

theorem declares_expression {e : Expression} (he : (Node.expression e).declaring scope ⊆ P) :
    (Plan.expression scope e : Plan σ Value).Declares m₀ S P fun _ => True := by
  have hleft : (slotValue scope e.span e.left : Plan σ Value).Declares m₀ S P fun _ => True :=
    declares_slotValue hP fun b hb => (declaring_left hb).trans he
  have hright : (slotValue scope e.span e.right : Plan σ Value).Declares m₀ S P fun _ => True :=
    declares_slotValue hP fun b hb => (declaring_right hb).trans he
  unfold Plan.expression
  cases e.checkShape with
  | some fault => exact declares_fail
  | none =>
    dsimp only
    split
    · split
      · rename_i a ha
        exact declares_askOperand hP ((declaring_left ha).trans he)
      · exact declares_fail
    · split
      · exact declares_ask hP he
      · split
        · exact declares_fail
        · exact declares_ask hP he
        · exact declares_ask hP he
        · exact declares_ask hP he
        · exact (declares_askProperty hP he).bind hP fun _ _ => Plan.declares_pure trivial
        · exact hright.bind hP fun v _ => (widens_negate v).now
        · exact hleft.bind hP fun a _ => (hright.holding _).bind hP fun b _ => (widens_lift _).now

theorem declares_operand {a : Operand} (ha : (Node.operand a).declaring scope ⊆ P) :
    (Plan.operand scope span a : Plan σ Value).Declares m₀ S P fun _ => True := by
  unfold Plan.operand
  split
  · exact Plan.declares_pure trivial
  · exact declares_fail
  · exact (widens_memory.bind fun _ => widens_lift _).now
  · rename_i ps
    have hps : ∀ p ∈ ps, (Node.expression p.value).declaring scope ⊆ P := fun p hp =>
      (Node.declaring_child (List.mem_map_of_mem hp)).trans ha
    have hnew : (now (create (·.newObject [])) : Plan σ ObjectId).Declares m₀ S P fun _ => True :=
      Eval.Widens.now fun _ => Memory.widens_of_scopes_eq rfl
    exact hnew.bind hP fun o _ => ((declares_properties hP hps).holding _).bind hP fun _ _ => Plan.declares_pure trivial
  · refine (declares_askBlock hP).bind hP fun flow _ => ?_
    cases flow with
    | completed => exact Plan.declares_pure trivial
    | returning v => exact declares_fail
  · exact declares_askExpression hP ((Node.declaring_child (List.mem_singleton.2 rfl)).trans ha)
  · rename_i parameters body
    have hnew :
        (now (create (·.newClosure ⟨parameters, body, scope⟩)) : Plan σ ClosureId).Declares m₀ S P fun _ => True :=
      Eval.Widens.now fun _ => Memory.widens_of_scopes_eq rfl
    exact hnew.bind hP fun _ _ => Plan.declares_pure trivial
  · rename_i callee es
    have hcallee : (Node.expression callee).declaring scope ⊆ P := (Node.declaring_child List.mem_cons_self).trans ha
    have hes : ∀ e ∈ es, (Node.expression e).declaring scope ⊆ P := fun e he =>
      (Node.declaring_child (List.mem_cons_of_mem _ (List.mem_map_of_mem he))).trans ha
    refine (declares_askExpression hP hcallee).bind hP fun f _ => (widens_resolve f).now.bind hP fun f _ => ?_
    exact ((declares_values hP hes _).holding _).bind hP fun args _ => declares_ask hP (Set.empty_subset P)

theorem declares_statement {s : Statement} (hs : (Task.statement scope s).mayDeclare ⊆ P) :
    (Plan.statement scope s : Plan σ Flow).Declares m₀ S P fun _ => True := by
  -- a canonical statement that declares nothing has canonical pieces, or is a block
  have hchild {n : Node} (hn : s.body.declared? = none → n ∈ (Node.statement s.body).children) :
      n.declaring scope ⊆ P := fun t ⟨ht, hc⟩ => hs ⟨ht, fun ⟨hcan, hnone⟩ => hc (hcan.child (hn hnone))⟩
  unfold Plan.statement
  split
  · refine (declares_askOperand hP (hchild fun _ => List.mem_singleton.2 rfl)).bind hP fun v _ => ?_
    exact (widens_resolve v).now.bind hP fun _ _ => Plan.declares_pure trivial
  · exact declares_ask hP (Set.empty_subset P)
  · rename_i e place hret hblock
    refine (declares_askExpression hP (hchild fun hnone => ?_)).bind hP fun _ _ => Plan.declares_pure trivial
    exact mem_children_statement hblock hret hnone

theorem declares_assignment {e : Expression} (he : (Node.expression e).declaring scope ⊆ P) :
    (Plan.assignment scope e : Plan σ Value).Declares m₀ S P fun _ => True := by
  refine (declares_slotValue hP fun b hb => (declaring_right hb).trans he).bind hP fun v _ => ?_
  have htarget : (target scope e.span true e.written : Plan σ Target).Declares m₀ S P fun t =>
      ∀ name, t = .declare name → scope ∈ P :=
    declares_target hP fun b hb => (declaring_written hb).trans he
  have hwrite : (target scope e.span true e.written >>= fun t =>
      now (updateMemory e.span (t.write v scope)) : Plan σ Unit).Declares m₀ S P fun _ => True :=
    htarget.bind hP fun t ht => (widens_updateTarget ht).now
  exact (hwrite.holding _).bind hP fun _ _ => Plan.declares_pure trivial

theorem declares_compound {base : OperatorKind} {e : Expression} (he : (Node.expression e).declaring scope ⊆ P) :
    (Plan.compound scope base e : Plan σ Value).Declares m₀ S P fun _ => True := by
  refine (declares_slotValue hP fun b hb => (declaring_right hb).trans he).bind hP fun v _ => Plan.Declares.holding ?_ _
  refine (declares_target hP fun b hb => (declaring_written hb).trans he).bind hP fun t ht => ?_
  refine (widens_memory.bind fun _ => widens_lift _).now.bind hP fun current _ => ?_
  refine (widens_lift _).now.bind hP fun updated _ => ?_
  exact (widens_updateTarget ht).now.bind hP fun _ _ => Plan.declares_pure trivial

theorem declares_step {op : OperatorKind} {e : Expression} (he : (Node.expression e).declaring scope ⊆ P) :
    (Plan.step scope op e : Plan σ Value).Declares m₀ S P fun _ => True := by
  exact (declares_target hP fun b hb => (declaring_written hb).trans he).bind hP fun _ _ => widens_stepBy.now

theorem declares_property {e : Expression} (he : (Node.expression e).declaring scope ⊆ P) : (do
    let key ← now (memberName e.span e.right)
    let (parent, named) ← parentValue scope e.span e.left
    now (referenceTo e.span key named parent) : Plan σ Reference).Declares m₀ S P fun _ => True := by
  refine (widens_memberName _).now.bind hP fun key _ => ?_
  refine (declares_parentValue hP fun b hb => (declaring_left hb).trans he).bind hP fun p _ => ?_
  exact (widens_referenceTo key p.2 p.1).now

/-- Statements that are run in a new scope declare in no other one. -/
theorem meets_askNew {m n : Machine σ} (hm : m₀.Widens S m.memory) (hn : m.memory.Widens P n.memory)
    (hnew : ¬m.memory.HasScope scope) (hS : ∀ t, ¬m₀.HasScope t → t ∈ S) (body : List Statement) :
    (ask (.statements scope body) n).Meets (naming m₀ S) fun _ n' => m.memory.Widens P n'.memory := by
  refine meets_ask ⟨hm.trans hn fun _ hp _ => hP hp, ?_⟩ fun _ _ hpost => hn.trans hpost ?_
  · rintro _ rfl
    exact hS _ fun h => hnew (hm.made h)
  · rintro _ rfl h
    exact absurd h hnew

theorem declares_block (hS : ∀ t, ¬m₀.HasScope t → t ∈ S) (s : Scope) : (do
    let inner ← now (create (·.newScope (some scope)))
    Plan.holding [.scope inner] (ask (.statements inner s.body)) : Plan σ Flow).Declares m₀ S P fun _ => True := by
  refine fun m hm => meets_bind (meets_holding ?_)
  have hn : m.memory.Widens P
      ((m.memory.newScope (some scope)).2.holding [.scope (m.memory.newScope (some scope)).1]) :=
    Memory.widens_newScope.holding _
  have hask := meets_askNew hP (n := ⟨_, m.depth, m.state⟩) hm hn
    (Memory.not_hasScope_newScope (some scope)) hS s.body
  exact hask.mono fun _ _ h => ⟨h.holding _, fun _ _ => trivial⟩

theorem declares_enter (hS : ∀ t, ¬m₀.HasScope t → t ∈ S) (limit : Nat) (c : ClosureId) (args : List Value) :
    (Plan.enter limit c args span : Plan σ Value).Declares m₀ S P fun _ => True := by
  refine fun m hm => meets_bind ?_
  show ((if limit ≤ m.depth then _ else _ : Plan σ Value) m).Meets (naming m₀ S) _
  split
  · exact declares_fail m hm
  · refine meets_bind ?_
    cases hx : m.memory.newFunctionScope (m.memory.closure c).scope (m.memory.closure c).parameters args with
    | error e => exact ⟨.refl _ P, fun _ h => by cases h⟩
    | ok r =>
      obtain ⟨hn, hnew⟩ := Memory.widens_newFunctionScope (P := P) hx
      have hask := meets_askNew hP (n := ⟨r.2.holding [.scope r.1], m.depth + 1, m.state⟩) hm (hn.holding _) hnew hS
        (m.memory.closure c).body.body
      refine meets_bind (meets_bind (meets_deeper (meets_holding (hask.mono fun r' m' hr => ?_))))
      cases r' with
      | ok flow => exact ⟨hr.holding _, fun _ _ => trivial⟩
      | error f => exact ⟨hr.holding _, fun _ _ => trivial⟩

/-- What a function of the host asks for declares nothing, nor does the function. -/
theorem meets_naming_hostStep {step : HostStep σ} {m n : Machine σ} {k : Memory} (hm : m₀.Widens S m.memory)
    (hk : m.memory.Widens P k) (h : step.KeepsScopes k) :
    (Plan.hostStep span step n).Meets (naming m₀ S) fun _ n' => m.memory.Widens P n'.memory := by
  induction step generalizing n k with
  | finish result m' s =>
    have hm' : m.memory.Widens P m' := hk.trans h nofun
    have hresult : (Eval.lift span result : Eval σ Value).Widens P := widens_lift result
    exact (hm'.holding n.memory.held).trans (hresult (adopt m' s n).2) fun _ hp _ => hp
  | enter c args kept m' s resume ih =>
    obtain ⟨hstep, hresume⟩ := h
    have hm' : m.memory.Widens P m' := hk.trans hstep nofun
    have hfirst : m₀.Widens S m' := hm.trans hm' fun _ hp _ => hP hp
    refine meets_bind (meets_bind (meets_attempt (meets_holding (meets_ask ⟨?_, Set.empty_subset S⟩ ?_))))
    · exact hfirst.holding _
    · intro answer n' hpost
      have hback : m'.Widens ∅ n'.memory := ⟨hpost.made, hpost.parent, hpost.depth, hpost.names, hpost.same⟩
      exact meets_bind (ih _ _ _ ((hm'.trans hback nofun).holding _) (hresume _ _ _ (hback.holding _)))

end Functions

section Runs

variable {host : Host σ} {limit d : Nat} {m₀ : Memory} {S : Set ScopeId}

/-- Every task declares where it may, and has others done that do so. -/
theorem meets_naming (hhost : host.KeepsScopes) (hS : ∀ t, ¬m₀.HasScope t → t ∈ S) {k : Kind} (task : Task k)
    (m : Machine σ) (hm : m₀.Widens S m.memory) (htask : task.mayDeclare ⊆ S) :
    (task.plan host limit m).Meets (naming m₀ S) fun _ m' => m.memory.Widens task.mayDeclare m'.memory := by
  have hfirst {act : Plan σ k.Answer} (h : act.Declares m₀ S task.mayDeclare fun _ => True) :
      (act m).Meets (naming m₀ S) fun _ m' => m.memory.Widens task.mayDeclare m'.memory :=
    (h m hm).mono fun _ _ hr => hr.1
  cases task with
  | statements scope body => exact hfirst (declares_statements htask rfl body)
  | statement scope s => exact hfirst (declares_statement htask subset_rfl)
  | block scope s => exact hfirst (declares_block htask hS s)
  | expression scope e => exact hfirst (declares_expression htask subset_rfl)
  | operand scope span a => exact hfirst (declares_operand htask subset_rfl)
  | property scope e => exact hfirst (declares_property htask subset_rfl)
  | assignment scope e => exact hfirst (declares_assignment htask subset_rfl)
  | compound scope base e => exact hfirst (declares_compound htask subset_rfl)
  | step scope op e => exact hfirst (declares_step htask subset_rfl)
  | invoke callee args span =>
    cases callee with
    | closure c => exact hfirst ((Plan.declares_ask htask subset_rfl).holding _)
    | native n =>
      exact meets_naming_hostStep htask hm ((Memory.Widens.refl m.memory ∅).holding _) (hhost n span args _ _)
    | _ => exact .refl m.memory ∅
  | enter c args span => exact hfirst (declares_enter htask hS limit c args)

theorem kept_naming (hhost : host.KeepsScopes) (hS : ∀ t, ¬m₀.HasScope t → t ∈ S) (R : Activation σ → Prop) :
    (naming m₀ S : Contract σ).Kept host limit R := fun task m _ hpre => meets_naming hhost hS task m hpre.1 hpre.2

/-- The scopes in which a plan may declare names from a memory on: some of those that are there, and all new ones. -/
def orNew (P : Set ScopeId) (m : Memory) : Set ScopeId := {t | t ∈ P ∨ ¬m.HasScope t}

theorem subset_orNew (P : Set ScopeId) (m : Memory) : P ⊆ orNew P m := fun _ h => .inl h

/-- What realizes a task declares where the task may. -/
theorem Realizes.widens (hhost : host.KeepsScopes) {k : Kind} {task : Task k} {ev : Eval σ k.Answer}
    (h : Realizes host limit d (Plan.ask task) ev) {m : Machine σ} (hm : m.depth = d) :
    m.memory.Widens task.mayDeclare (ev m).2.memory := by
  have hask : (Plan.ask task m).Meets (naming m.memory (orNew task.mayDeclare m.memory)) fun _ m' =>
      m.memory.Widens task.mayDeclare m'.memory :=
    meets_ask ⟨.refl _ _, subset_orNew _ _⟩ fun _ _ hpost => hpost
  exact (hask.runs (kept_naming hhost (fun _ ht => .inr ht) _)).1 _ _ (h m hm).1.finishes

end Runs

/-! ## Programs -/

/-- The statements of a list that complete when they are run in order: one behind them returns or fails, if there is
any. -/
def Statement.completed (calls : Calls σ) (scope : ScopeId) : List Statement → Machine σ → List Statement
  | [], _ => []
  | s :: rest, m =>
    match s.exec calls scope m with
    | (.ok .completed, m') => s :: completed calls scope rest m'
    | _ => []

section Programs

variable {host : Host σ} {limit d : Nat} {scope : ScopeId}

/-- A declaration evaluates its value and then declares the name, or fails. -/
theorem exec_declaration {calls : Calls σ} {name : String} {nameSpan opSpan span place : Span} {a : Operand} :
    Statement.exec calls scope ⟨.binary (.var ⟨name, .declare, nameSpan⟩) ⟨.assign, opSpan⟩ a span, place⟩ = (do
      let v ← (do resolve span (← a.eval calls scope span) : Eval σ Value)
      holding (Value.cells [v]) (updateMemory span ((Target.declare name).write v scope))
      return .completed) := by
  simp only [Expression.binary]
  rw [Statement.exec]
  · rw [Expression.eval.eq_def]
    simp [Expression.checkShape, OperatorKind.arity, Arity.takes, OperatorKind.compoundBase, assign, Operand.evalSlot,
      Operand.slotTarget, Operand.target]
  · simp
  · simp

/-- What a canonical statement is that declares a name. -/
theorem exists_declaration {e : Expression} {name : String} (h : (Node.statement e).Canonical)
    (hdecl : e.declared? = some name) :
    ∃ nameSpan opSpan a span, e = .binary (.var ⟨name, .declare, nameSpan⟩) ⟨.assign, opSpan⟩ a span ∧
      (Node.operand a).Canonical := by
  unfold Expression.declared? at hdecl
  split at hdecl
  · cases hdecl
    exact ⟨_, _, _, _, rfl, h.child (List.mem_singleton.2 rfl)⟩
  · cases hdecl

/-- What is written to a new name is the last of the names then; where the write fails, they stay. -/
theorem names_declaring (cells : List Cell) (span : Span) (name : String) (v : Value) {m : Machine σ}
    (hs : m.memory.HasScope scope) :
    (∃ m', holding cells (updateMemory span ((Target.declare name).write v scope)) m = (.ok (), m') ∧
      m'.memory.names scope = m.memory.names scope ++ [name]) ∨
    ∃ f m', holding cells (updateMemory span ((Target.declare name).write v scope)) m = (.error f, m') ∧
      m'.memory.names scope = m.memory.names scope := by
  have hstep : holding cells (updateMemory span ((Target.declare name).write v scope)) m =
      match (Eval.lift span ((m.memory.holding cells).declare scope name v) >>= setMemory : Eval σ Unit)
        { m with memory := m.memory.holding cells } with
      | (result, n) => (result, { n with memory := { n.memory with held := m.memory.held } }) := rfl
  rw [hstep, Eval.bind_apply]
  cases hx : (m.memory.holding cells).declare scope name v with
  | ok n =>
    obtain ⟨hnew, rfl⟩ := Memory.declare_eq_ok_iff.1 hx
    have hfresh : name ∉ m.memory.names scope := fun h => by
      rw [show (m.memory.holding cells).hasLocal scope name = true from Memory.hasLocal_eq_true_iff.2 h] at hnew
      cases hnew
    have hnames : (m.memory.bind scope name v).names scope = m.memory.names scope ++ [name] := by
      rw [Memory.names_bind hs, if_neg hfresh]
    exact .inl ⟨_, rfl, hnames⟩
  | error e => exact .inr ⟨_, _, rfl, rfl⟩

variable (limit) (hhost : host.KeepsScopes) {m : Machine σ} (hs : m.memory.HasScope scope)

include hhost hs

/-- A declaration that completes adds its name, and one that does not adds nothing. -/
theorem names_exec_declaration {name : String} {nameSpan opSpan span place : Span} {a : Operand}
    (ha : (Node.operand a).Canonical) {s : Statement}
    (hdecl : s = ⟨.binary (.var ⟨name, .declare, nameSpan⟩) ⟨.assign, opSpan⟩ a span, place⟩) :
    (∃ m', s.exec (callsAt host limit m.depth) scope m = (.ok .completed, m') ∧
      m'.memory.names scope = m.memory.names scope ++ [name]) ∨
    ∃ f m', s.exec (callsAt host limit m.depth) scope m = (.error f, m') ∧
      m'.memory.names scope = m.memory.names scope := by
  have hoperand := (realizes_operand (realizesCalls_callsAt host limit m.depth) scope span a).widens hhost (m := m) rfl
  have hvalue : m.memory.Widens ((Task.operand scope span a).mayDeclare)
      ((do resolve span (← a.eval (callsAt host limit m.depth) scope span) : Eval σ Value) m).2.memory := by
    rw [Eval.bind_apply]
    rcases hev : a.eval (callsAt host limit m.depth) scope span m with ⟨f | v, n⟩ <;> rw [hev] at hoperand
    · exact hoperand
    · exact hoperand.trans (widens_resolve v n) fun _ hp _ => hp
  rw [hdecl, exec_declaration, Eval.bind_apply]
  rcases hv : (do resolve span (← a.eval (callsAt host limit m.depth) scope span) : Eval σ Value) m with ⟨f | v, n⟩ <;>
    rw [hv] at hvalue
  all_goals have hsame : n.memory.names scope = m.memory.names scope := hvalue.same hs fun ⟨_, hno⟩ => hno ha
  · exact .inr ⟨f, n, rfl, hsame⟩
  · rw [← hsame]
    dsimp only
    rw [Eval.bind_apply]
    rcases names_declaring (Value.cells [v]) span name v (hvalue.made hs) with
      ⟨n', hn', hnames⟩ | ⟨f, n', hn', hnames⟩ <;> rw [hn']
    · exact .inl ⟨n', rfl, hnames⟩
    · exact .inr ⟨f, n', rfl, hnames⟩

/-- What a statement of a canonical program adds to the names of the scope. -/
theorem names_exec {s : Statement} (hcan : (Node.statement s.body).Canonical) :
    (s.exec (callsAt host limit m.depth) scope m).2.memory.names scope = m.memory.names scope ++
      match (s.exec (callsAt host limit m.depth) scope m).1 with
      | .ok .completed => s.body.declared?.toList
      | _ => [] := by
  cases hdecl : s.body.declared? with
  | none =>
    have hwidens := (realizes_statement (realizesCalls_callsAt host limit m.depth) scope s).widens hhost (m := m) rfl
    rw [hwidens.same hs fun ⟨_, hno⟩ => hno ⟨hcan, hdecl⟩]
    split <;> exact (List.append_nil _).symm
  | some name =>
    obtain ⟨nameSpan, opSpan, a, span, hbody, ha⟩ := exists_declaration hcan hdecl
    have hform : s = ⟨.binary (.var ⟨name, .declare, nameSpan⟩) ⟨.assign, opSpan⟩ a span, s.span⟩ := by
      rw [← hbody]
      cases s
      rfl
    rcases names_exec_declaration limit hhost hs ha hform with ⟨m', hrun, hnames⟩ | ⟨f, m', hrun, hnames⟩ <;>
      rw [hrun, hnames]
    · rfl
    · exact (List.append_nil _).symm

/-- The names that statements add to the scope in which they are run are those of the declarations that complete. -/
theorem names_execAll {body : List Statement} (hcan : ∀ s ∈ body, (Node.statement s.body).Canonical) :
    (Statement.execAll (callsAt host limit m.depth) scope body m).2.memory.names scope = m.memory.names scope ++
      (Statement.completed (callsAt host limit m.depth) scope body m).filterMap fun s => s.body.declared? := by
  induction body generalizing m with
  | nil =>
    rw [Statement.execAll]
    exact (List.append_nil _).symm
  | cons s rest ih =>
    have hrealizes := realizes_statement (realizesCalls_callsAt host limit m.depth) scope s
    have hdepth := (hrealizes m rfl).2
    have hmade := (hrealizes.widens hhost rfl).made hs
    have hnames := names_exec limit hhost hs (hcan s List.mem_cons_self)
    rw [Statement.execAll, Statement.completed, Eval.bind_apply]
    rcases hrun : s.exec (callsAt host limit m.depth) scope m with ⟨f | flow, n⟩ <;> rw [hrun] at hdepth hmade hnames
    · exact hnames
    · cases flow with
      | returning v => exact hnames
      | completed =>
        have hrest := ih hmade fun t ht => hcan t (List.mem_cons_of_mem _ ht)
        rw [show n.depth = m.depth from hdepth] at hrest
        refine hrest.trans ?_
        rw [hnames, List.append_assoc, List.filterMap_cons]
        cases s.body.declared? <;> rfl

omit hhost hs

theorem names_execute {p : Program} {m : Machine σ} (t : ScopeId) :
    (execute host limit scope p m).2.memory.names t =
      (Statement.execAll (callsAt host limit m.depth) scope p.body.body (m.inside scope)).2.memory.names t := by
  obtain ⟨⟨body, span⟩⟩ := p
  have hexec : execute host limit scope ⟨⟨body, span⟩⟩ m = (holding [.scope scope]
      (Scope.exec (callsAt host limit m.depth) scope ⟨body, span⟩) >>= fun flow => pure flow.value) m := rfl
  rw [hexec, Eval.bind_apply, Scope.exec]
  unfold holding
  rcases hrun : Statement.execAll (callsAt host limit m.depth) scope body (m.inside scope) with ⟨f | flow, n⟩ <;>
    rw [show Statement.execAll _ _ _ { m with memory := m.memory.holding [.scope scope] } = _ from hrun] <;> rfl

/-- What becomes of names when a program is run in a scope. -/
structure Program.DeclaresInPlace (host : Host σ) (limit : Nat) (scope : ScopeId) (p : Program) (m : Machine σ) :
    Prop where
  /-- The scope binds what it bound, and then what has been declared by statements of the program itself. -/
  names : (execute host limit scope p m).2.memory.names scope = m.memory.names scope ++
    (Statement.completed (callsAt host limit m.depth) scope p.body.body (m.inside scope)).filterMap fun s =>
      s.body.declared?
  /-- Every other scope has the names that it had, and all are where they were. -/
  scopes : m.memory.Widens {scope} (execute host limit scope p m).2.memory
  /-- So it is at every moment on the way, and from then on until what is done there is done. -/
  meanwhile : ∀ x, (p.plan scope m).Reaches host limit x → m.memory.Widens {scope} x.machine.memory ∧
    ∀ r m', Finishes host limit (x.task.plan host limit x.machine) r m' →
      x.machine.memory.Widens x.task.mayDeclare m'.memory

/-- A program that a text parses to, run in any scope that there is, whether it runs off its end, returns from however
deep a block or fails: the scope binds what it bound before and then, in order, the names of those declarations that are
statements of the program itself and complete. Every other scope that there was has the names that it had, no name goes
away, and all scopes keep their parents and depths. -/
theorem declarations_land_in_their_scope (hhost : host.KeepsScopes) (limit : Nat) {source : List Char} {p : Program}
    (hp : parse source = .ok p) (m : Machine σ) (hs : m.memory.HasScope scope) :
    p.DeclaresInPlace host limit scope m := by
  obtain ⟨tokens, htokens⟩ := exists_parseTokens hp
  have hcan : ∀ s ∈ p.body.body, (Node.statement s.body).Canonical := fun s h =>
    (canonical_of_parseTokens htokens).child (List.mem_map_of_mem h)
  have hS : ∀ t, ¬m.memory.HasScope t → t ∈ orNew {scope} m.memory := fun _ h => .inr h
  have hask : (Plan.ask (.statements scope p.body.body) : Plan σ Flow).Declares m.memory (orNew {scope} m.memory)
      {scope} fun _ => True := Plan.declares_ask (subset_orNew _ _) subset_rfl
  have hplan : (p.plan scope : Plan σ Value).Declares m.memory (orNew {scope} m.memory) {scope} fun _ => True :=
    (hask.holding _).bind (subset_orNew _ _) fun _ _ => Plan.declares_pure trivial
  obtain ⟨hends, htasks⟩ := (hplan m (.refl _ _)).runs (kept_naming hhost hS _)
  have hinto {n : Memory} (h : m.memory.Widens (orNew {scope} m.memory) n) : m.memory.Widens {scope} n :=
    ⟨h.made, h.parent, h.depth, h.names, fun ht hne => h.same ht fun hor => hor.elim hne fun hnot => hnot ht⟩
  refine ⟨?_, (hends _ _ (finishes_execute host limit scope p m)).1, fun x hx => ?_⟩
  · rw [names_execute]
    exact names_execAll limit hhost (m := m.inside scope) hs hcan
  · obtain ⟨hpre, hpost⟩ := htasks x hx
    exact ⟨hinto hpre.1, hpost⟩

end Programs

/-- The program of `let a = 1; { let b = a; } let a = 2;`. -/
def declaringTwice : Program :=
  let first : Expression := .binary (.var ⟨"a", .declare, ⟨4, 5⟩⟩) ⟨.assign, ⟨6, 7⟩⟩ (.value (.int 1)) ⟨0, 9⟩
  let inner : Expression :=
    .binary (.var ⟨"b", .declare, ⟨17, 18⟩⟩) ⟨.assign, ⟨19, 20⟩⟩ (.var ⟨"a", .use, ⟨21, 22⟩⟩) ⟨13, 22⟩
  let block : Expression := .leaf (.block ⟨[⟨inner, ⟨13, 22⟩⟩], ⟨11, 25⟩⟩) ⟨11, 25⟩
  let second : Expression := .binary (.var ⟨"a", .declare, ⟨30, 31⟩⟩) ⟨.assign, ⟨32, 33⟩⟩ (.value (.int 2)) ⟨26, 35⟩
  ⟨⟨[⟨first, ⟨0, 9⟩⟩, ⟨block, ⟨11, 25⟩⟩, ⟨second, ⟨26, 35⟩⟩], ⟨0, 36⟩⟩⟩

/-- The name of the block stays in the block, and a second declaration of a name fails. -/
theorem declarations_land_in_their_scope_twice :
    declaringTwice.DeclaresInPlace idleHost 5 ⟨0⟩ idleMachine ∧
      (execute idleHost 5 ⟨0⟩ declaringTwice idleMachine).1 = .error ⟨.alreadyDefined "a", ⟨26, 35⟩⟩ ∧
      (execute idleHost 5 ⟨0⟩ declaringTwice idleMachine).2.memory.names ⟨0⟩ = ["f", "a"] := by
  have hparse : parse "let a = 1; { let b = a; } let a = 2;".toList = .ok declaringTwice := by cbv
  have hhost : idleHost.KeepsScopes := fun _ _ _ m _ => .refl m ∅
  exact ⟨declarations_land_in_their_scope hhost 5 hparse idleMachine Nat.one_pos, rfl, rfl⟩

end GameScript
