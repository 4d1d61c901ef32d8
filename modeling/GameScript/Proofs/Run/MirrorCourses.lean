import GameScript.Proofs.Run.MirrorChanges
import GameScript.Proofs.Run.Course

/-!
# Courses that mirror each other

What is done at one machine mirrors what is done at another one when, from machines one of which mirrors the other, both
end with the same value or with the same error, at places that correspond (`Tallies`), and leave machines one of which
mirrors the other (`Eval.Mirrors`). Courses mirror each other when they ask for tasks that do, at machines that do, and
go on so (`Course.Mirrors`). A task mirrors another one when it is the same but for blocks around the bodies of
functions, in the innermost scope of the nest that does for the scope of the other one, where the tree declares no
reserved name; or it is the same call (`Task.Mirrors`).

Mirroring is carried from part to part: through a sequence (`Plan.Mirrors.bind`), and while cells are held
(`Plan.Mirrors.holding`).
-/

namespace GameScript

open Eval

variable {σ α β : Type}

/-! ## Machines -/

/-- Machines with memories one of which mirrors the other, and in all else the same. -/
structure Machine.Mirrors (P : Span → Span → Prop) (w : Nesting) (m n : Machine σ) : Prop where
  memory : m.memory.Mirrors P w n.memory
  depth : n.depth = m.depth
  state : n.state = m.state

/-- The same answer twice, which is as it should be, or the same error, at places that correspond. -/
inductive Tallies (P : Span → Span → Prop) (Q : α → Prop) : Except RuntimeFault α → Except RuntimeFault α → Prop
  | ok {a : α} (h : Q a) : Tallies P Q (.ok a) (.ok a)
  | error {e : RuntimeError} {span span' : Span} (h : P span span') : Tallies P Q (.error ⟨e, span⟩) (.error ⟨e, span'⟩)

namespace Tallies

variable {P : Span → Span → Prop} {Q R : α → Prop} {r r' : Except RuntimeFault α}

theorem imp (h : Tallies P Q r r') (hqr : ∀ a, Q a → R a) : Tallies P R r r' := by
  cases h with
  | ok h => exact .ok (hqr _ h)
  | error hspan => exact .error hspan

theorem mapError_eq (h : Tallies P Q r r') : r.mapError RuntimeFault.error = r'.mapError RuntimeFault.error := by
  cases h <;> rfl

theorem toOption_eq (h : Tallies P Q r r') : r.toOption = r'.toOption := by cases h <;> rfl

theorem of_ok (h : Tallies P Q r r') {a : α} (ha : r.mapError RuntimeFault.error = .ok a) : Q a := by
  cases h with
  | ok h =>
    cases ha
    exact h
  | error _ => cases ha

end Tallies

/-! ## Computations -/

/-- Computations that have the same outcome and leave machines that mirror each other, from machines that do. -/
def Eval.Mirrors (P : Span → Span → Prop) (Q : Nesting → α → Prop) (w : Nesting) (ev ev' : Eval σ α) : Prop :=
  ∀ w₁ m n, w ≤ w₁ → m.Mirrors P w₁ n → ∃ w₂, w₁ ≤ w₂ ∧ (ev m).2.Mirrors P w₂ (ev' n).2 ∧
    Tallies P (Q w₂) (ev m).1 (ev' n).1

theorem Value.IsScalar.inside {v : Value} (h : v.IsScalar) (K : Set Cell) : v.Inside K := by
  intro c hc
  cases v <;> first | exact h.elim | cases hc

section Computations

variable {P : Span → Span → Prop} {Q : Nesting → α → Prop} {w : Nesting} {span span' : Span}

theorem Eval.Mirrors.bind {Q' : Nesting → β → Prop} {ev ev' : Eval σ α} {f f' : α → Eval σ β}
    (h : ev.Mirrors P Q w ev') (hf : ∀ w₁ a, w ≤ w₁ → Q w₁ a → (f a).Mirrors P Q' w₁ (f' a)) :
    (ev >>= f).Mirrors P Q' w (ev' >>= f') := by
  intro w₁ m n hle hmn
  obtain ⟨w₂, hle₂, hm, hr⟩ := h w₁ m n hle hmn
  rw [Eval.bind_apply, Eval.bind_apply]
  rcases hev : ev m with ⟨r, m'⟩
  rcases hev' : ev' n with ⟨r', n'⟩
  rw [hev, hev'] at hr hm
  cases hr with
  | ok ha =>
    obtain ⟨w₃, hle₃, hm', hr'⟩ := hf w₂ _ (hle.trans hle₂) ha w₂ m' n' le_rfl hm
    exact ⟨w₃, hle₂.trans hle₃, hm', hr'⟩
  | error hspan => exact ⟨w₂, hle₂, hm, .error hspan⟩

theorem Eval.mirrors_pure {a : α} (h : ∀ w₁, w ≤ w₁ → Q w₁ a) : (pure a : Eval σ α).Mirrors P Q w (pure a) :=
  fun w₁ _ _ hle hmn => ⟨w₁, le_rfl, hmn, .ok (h w₁ hle)⟩

theorem mirrors_fail (hspan : P span span') (e : RuntimeError) :
    (fail span e : Eval σ α).Mirrors P Q w (fail span' e) :=
  fun w₁ _ _ _ hmn => ⟨w₁, le_rfl, hmn, .error hspan⟩

/-- The same answer, or the same error at places that correspond. -/
theorem mirrors_lift (hspan : P span span') (x : Except RuntimeError α) (h : ∀ w₁ a, w ≤ w₁ → x = .ok a → Q w₁ a) :
    (Eval.lift span x : Eval σ α).Mirrors P Q w (Eval.lift span' x) := by
  cases x with
  | ok a => exact Eval.mirrors_pure fun w₁ hle => h w₁ a hle rfl
  | error e => exact mirrors_fail hspan e

/-- A look at memory. -/
theorem mirrors_look (hspan : P span span') {look look' : Memory → Except RuntimeError α}
    (h : ∀ w₁ m n, w ≤ w₁ → Memory.Mirrors P w₁ m n → look' n = look m ∧ ∀ a, look m = .ok a → Q w₁ a) :
    (do Eval.lift span (look (← memory)) : Eval σ α).Mirrors P Q w (do Eval.lift span' (look' (← memory))) := by
  intro w₁ m n hle hmn
  obtain ⟨heq, hq⟩ := h w₁ m.memory n.memory hle hmn.memory
  show ∃ w₂, w₁ ≤ w₂ ∧ (Eval.lift span (look m.memory) m).2.Mirrors P w₂ (Eval.lift span' (look' n.memory) n).2 ∧
    Tallies P (Q w₂) (Eval.lift span (look m.memory) m).1 (Eval.lift span' (look' n.memory) n).1
  rw [heq]
  generalize look m.memory = x at hq
  cases x with
  | ok a => exact ⟨w₁, le_rfl, hmn, .ok (hq a rfl)⟩
  | error e => exact ⟨w₁, le_rfl, hmn, .error hspan⟩

theorem mirrors_updateMemory (hspan : P span span') {change change' : Memory → Except RuntimeError Memory}
    (h : ∀ w₁ m n, w ≤ w₁ → Memory.Mirrors P w₁ m n → Agrees (Memory.Mirrors P w₁) (change m) (change' n)) :
    (updateMemory span change : Eval σ Unit).Mirrors P (fun _ _ => True) w (updateMemory span' change') := by
  intro w₁ m n hle hmn
  have hchange := h w₁ m.memory n.memory hle hmn.memory
  have hstep (span : Span) (change : Memory → Except RuntimeError Memory) (m : Machine σ) :
      updateMemory span change m = (Eval.lift span (change m.memory) >>= setMemory : Eval σ Unit) m := rfl
  rw [hstep, hstep]
  generalize change m.memory = a, change' n.memory = b at hchange
  rcases a with e | k <;> rcases b with e' | l
  · obtain rfl : e = e' := hchange
    exact ⟨w₁, le_rfl, hmn, .error hspan⟩
  · exact hchange.elim
  · exact hchange.elim
  · exact ⟨w₁, le_rfl, ⟨hchange, hmn.depth, hmn.state⟩, .ok trivial⟩

/-- Something new in memory with the same identity on both sides. -/
theorem mirrors_create {make make' : Memory → α × Memory}
    (h : ∀ w₁ m n, w ≤ w₁ → Memory.Mirrors P w₁ m n → (make m).1 = (make' n).1 ∧
      ∃ w₂, w₁ ≤ w₂ ∧ (make m).2.Mirrors P w₂ (make' n).2 ∧ Q w₂ (make m).1) :
    (create make : Eval σ α).Mirrors P Q w (create make') := by
  intro w₁ m n hle hmn
  obtain ⟨heq, w₂, hle₂, hm, hq⟩ := h w₁ m.memory n.memory hle hmn.memory
  refine ⟨w₂, hle₂, ⟨hm, hmn.depth, hmn.state⟩, ?_⟩
  show Tallies P (Q w₂) (.ok (make m.memory).1) (.ok (make' n.memory).1)
  rw [← heq]
  exact .ok hq

/-! ### Operations on values -/

/-- A value that names only what has been made. -/
abbrev Nesting.Fits (w : Nesting) (v : Value) : Prop := v.Inside w.made

variable {s : ScopeId} {v : Value} {u : Target}

theorem mirrors_resolve (hspan : P span span') (hv : v.Inside w.made) :
    (resolve span v : Eval σ Value).Mirrors P Nesting.Fits w (resolve span' v) :=
  mirrors_look hspan fun _ _ _ hle hmn => ⟨hmn.resolve_eq v, fun _ => hmn.inside_resolve (Nesting.inside_mono hle hv)⟩

theorem Target.Fits.mono {w' : Nesting} (hle : w ≤ w') (hs : .scope s ∈ w.made) (hu : u.Fits w s) : u.Fits w' s := by
  cases u with
  | declare name =>
    show name ∉ (w'.nest s).names
    rw [Nesting.nest_eq hle hs]
    exact hu
  | existing name => exact hu
  | property r => exact hle.1 hu

theorem mirrors_read (hspan : P span span') (hs : .scope s ∈ w.made) (hu : u.Fits w s) :
    (do Eval.lift span (u.read (← memory) s) : Eval σ Value).Mirrors P Nesting.Fits w
      (do Eval.lift span' (u.read (← memory) (w.nest s).inner)) := by
  refine mirrors_look hspan fun w₁ m n hle hmn => ?_
  have hmade : m.HasScope s := hmn.hasScope (hle.1 hs)
  rw [← Nesting.nest_eq hle hs]
  exact ⟨hmn.targetRead_eq hmade u, fun _ => hmn.inside_targetRead hmade (hu.mono hle hs)⟩

theorem mirrors_write (hspan : P span span') (hs : .scope s ∈ w.made) (hu : u.Fits w s) (hv : v.Inside w.made) :
    (updateMemory span (u.write v s) : Eval σ Unit).Mirrors P (fun _ _ => True) w
      (updateMemory span' (u.write v (w.nest s).inner)) := by
  refine mirrors_updateMemory hspan fun w₁ m n hle hmn => ?_
  have hmade : m.HasScope s := hmn.hasScope (hle.1 hs)
  rw [← Nesting.nest_eq hle hs]
  exact hmn.targetWrite hmade (hu.mono hle hs) (Nesting.inside_mono hle hv)

theorem mirrors_negate (hspan : P span span') (v : Value) :
    (negate span v : Eval σ Value).Mirrors P Nesting.Fits w (negate span' v) := by
  cases v with
  | bool b => exact Eval.mirrors_pure fun w₁ _ => Value.IsScalar.inside (v := .bool !b) trivial w₁.made
  | _ => exact mirrors_fail hspan _

theorem mirrors_applyBinary (hspan : P span span') (op : OperatorKind) (a b : Value) :
    (Eval.lift span (applyBinary op a b) : Eval σ Value).Mirrors P Nesting.Fits w
      (Eval.lift span' (applyBinary op a b)) :=
  mirrors_lift hspan _ fun w₁ v _ hv => ((plain_applyBinary op a b).2 v hv).inside w₁.made

theorem mirrors_memberName (hspan : P span span') {a b : Option Operand} (h : Option.Rel (Operand.Nests P) a b) :
    (memberName span a : Eval σ String).Mirrors P (fun _ _ => True) w (memberName span' b) := by
  cases h with
  | none => exact mirrors_fail hspan _
  | some h =>
    cases h with
    | @var name role =>
      cases role with
      | use => exact Eval.mirrors_pure fun _ _ => trivial
      | declare => exact mirrors_fail hspan _
    | _ => exact mirrors_fail hspan _

theorem mirrors_referenceTo (hspan : P span span') (key : String) (named : Bool) (hv : v.Inside w.made) :
    (referenceTo span key named v : Eval σ Reference).Mirrors P (fun w r => .object r.object ∈ w.made) w
      (referenceTo span' key named v) := by
  refine (mirrors_resolve hspan hv).bind fun w₁ u _ hu => ?_
  cases u with
  | object o => exact Eval.mirrors_pure fun w₂ hle => hle.1 (hu _ rfl)
  | _ => exact mirrors_fail hspan _

theorem mirrors_stepBy (hspan : P span span') (op : OperatorKind) (new : Bool) (hs : .scope s ∈ w.made)
    (hu : u.Fits w s) : (stepBy op new s span (pure u) : Eval σ Value).Mirrors P Nesting.Fits w
      (stepBy op new (w.nest s).inner span' (pure u)) := by
  refine (Eval.mirrors_pure (Q := fun _ t => t = u) fun _ _ => rfl).bind fun w₁ t hle ht => ?_
  subst ht
  rw [← Nesting.nest_eq hle hs]
  have hs₁ := hle.1 hs
  have hu₁ := hu.mono hle hs
  cases t with
  | property r => exact mirrors_fail hspan _
  | declare name | existing name =>
    show Eval.Mirrors P _ w₁ (memory >>= fun k => Eval.lift span (Target.read k s _) >>= _ : Eval σ Value)
      (memory >>= fun k => Eval.lift span' (Target.read k _ _) >>= _)
    rw [← bind_assoc (m := Eval σ), ← bind_assoc (m := Eval σ)]
    refine (mirrors_read hspan hs₁ hu₁).bind fun w₂ v hle₂ hv => ?_
    cases v with
    | int old =>
      have hscalar (k : Int) : ∀ v, checked op k = .ok v → v.IsScalar := (plain_checked k).2
      refine (mirrors_lift (Q := fun _ v => v.IsScalar) hspan _ fun _ v _ hv => hscalar _ v hv).bind
        fun w₃ v hle₃ hv => ?_
      have hle := hle₂.trans hle₃
      rw [← Nesting.nest_eq hle hs₁]
      refine (mirrors_write hspan (hle.1 hs₁) (hu₁.mono hle hs₁) (hv.inside w₃.made)).bind fun w₄ _ _ _ => ?_
      refine Eval.mirrors_pure fun w₅ _ => ?_
      split
      · exact hv.inside w₅.made
      · exact Value.IsScalar.inside (v := .int old) trivial w₅.made
    | _ => exact mirrors_fail hspan _

end Computations

/-! ## Tasks -/

/-- An answer that names only what has been made. -/
abbrev Kind.Fits : (k : Kind) → Nesting → k.Answer → Prop
  | .flow => fun w f => f.value.Inside w.made
  | .value => fun w v => v.Inside w.made
  | .reference => fun w r => .object r.object ∈ w.made

/-- Names may be declared in the nest of a scope that has been made: none of them is reserved. -/
structure Nesting.Admits (w : Nesting) (s : ScopeId) (names : List String) : Prop where
  made : .scope s ∈ w.made
  free : names.Disjoint (w.nest s).names

/-- Tasks that are the same but for blocks around the bodies of functions, in a scope and in the innermost scope of its
nest, and calls that are the same. -/
inductive Task.Mirrors (P : Span → Span → Prop) (w : Nesting) : {k : Kind} → Task k → Task k → Prop
  | statements {s : ScopeId} {body body' : List Statement} (hs : w.Admits s (Statement.declaresAll body))
      (h : List.Forall₂ (Statement.Nests P) body body') :
      Task.Mirrors P w (.statements s body) (.statements (w.nest s).inner body')
  | statement {s : ScopeId} {x y : Statement} (hs : w.Admits s x.body.declares) (h : x.Nests P y) :
      Task.Mirrors P w (.statement s x) (.statement (w.nest s).inner y)
  | block {s : ScopeId} {body body' : List Statement} {span span' : Span} (hs : .scope s ∈ w.made)
      (h : List.Forall₂ (Statement.Nests P) body body') :
      Task.Mirrors P w (.block s ⟨body, span⟩) (.block (w.nest s).inner ⟨body', span'⟩)
  | expression {s : ScopeId} {e f : Expression} (hs : w.Admits s e.declares) (h : e.Nests P f) :
      Task.Mirrors P w (.expression s e) (.expression (w.nest s).inner f)
  | operand {s : ScopeId} {span span' : Span} {a b : Operand} (hs : w.Admits s a.declares) (h : a.Nests P b)
      (hspan : P span span') : Task.Mirrors P w (.operand s span a) (.operand (w.nest s).inner span' b)
  | property {s : ScopeId} {e f : Expression} (hs : w.Admits s e.declares) (h : e.Nests P f) :
      Task.Mirrors P w (.property s e) (.property (w.nest s).inner f)
  | assignment {s : ScopeId} {e f : Expression} (hs : w.Admits s e.declares) (hop : e.operator? = some .assign)
      (h : e.Nests P f) : Task.Mirrors P w (.assignment s e) (.assignment (w.nest s).inner f)
  | compound {s : ScopeId} {e f : Expression} (base : OperatorKind) (hs : w.Admits s e.declares) (h : e.Nests P f) :
      Task.Mirrors P w (.compound s base e) (.compound (w.nest s).inner base f)
  | step {s : ScopeId} {e f : Expression} (op : OperatorKind) (hs : w.Admits s e.declares) (h : e.Nests P f) :
      Task.Mirrors P w (.step s op e) (.step (w.nest s).inner op f)
  | invoke {callee : Value} {args : List Value} {span span' : Span} (hcallee : callee.Inside w.made)
      (hargs : ∀ v ∈ args, v.Inside w.made) (hspan : P span span') :
      Task.Mirrors P w (.invoke callee args span) (.invoke callee args span')
  | enter {c : ClosureId} {args : List Value} {span span' : Span} (hc : .closure c ∈ w.made)
      (hargs : ∀ v ∈ args, v.Inside w.made) (hspan : P span span') :
      Task.Mirrors P w (.enter c args span) (.enter c args span')

section Tasks

variable {P : Span → Span → Prop} {w w' : Nesting} {s : ScopeId} {names names' : List String} {k : Kind}
  {task task' : Task k}

theorem Nesting.Admits.mono (h : w.Admits s names) (hle : w ≤ w') : w'.Admits s names :=
  ⟨hle.1 h.made, by rw [Nesting.nest_eq hle h.made]; exact h.free⟩

/-- Some of the names may be declared as well. -/
theorem Nesting.Admits.of_subset (h : w.Admits s names) (hsub : names' ⊆ names) : w.Admits s names' :=
  ⟨h.made, fun _ hname => h.free (hsub hname)⟩

theorem Task.Mirrors.mono (h : task.Mirrors P w task') (hle : w ≤ w') : task.Mirrors P w' task' := by
  have hargs {args : List Value} (h : ∀ v ∈ args, v.Inside w.made) : ∀ v ∈ args, v.Inside w'.made :=
    fun v hv => Nesting.inside_mono hle (h v hv)
  cases h with
  | statements hs h =>
    rw [← Nesting.nest_eq hle hs.made]
    exact .statements (hs.mono hle) h
  | statement hs h =>
    rw [← Nesting.nest_eq hle hs.made]
    exact .statement (hs.mono hle) h
  | block hs h =>
    rw [← Nesting.nest_eq hle hs]
    exact .block (hle.1 hs) h
  | expression hs h =>
    rw [← Nesting.nest_eq hle hs.made]
    exact .expression (hs.mono hle) h
  | operand hs h hspan =>
    rw [← Nesting.nest_eq hle hs.made]
    exact .operand (hs.mono hle) h hspan
  | property hs h =>
    rw [← Nesting.nest_eq hle hs.made]
    exact .property (hs.mono hle) h
  | assignment hs hop h =>
    rw [← Nesting.nest_eq hle hs.made]
    exact .assignment (hs.mono hle) hop h
  | compound base hs h =>
    rw [← Nesting.nest_eq hle hs.made]
    exact .compound base (hs.mono hle) h
  | step op hs h =>
    rw [← Nesting.nest_eq hle hs.made]
    exact .step op (hs.mono hle) h
  | invoke hcallee h hspan => exact .invoke (Nesting.inside_mono hle hcallee) (hargs h) hspan
  | enter hc h hspan => exact .enter (hle.1 hc) (hargs h) hspan

end Tasks

/-! ## Courses -/

/-- Courses that ask for tasks that mirror each other, at machines that do, and go on so when those have the same
outcome, till they end with the same one. -/
inductive Course.Mirrors (P : Span → Span → Prop) (Q : Nesting → α → Prop) (w : Nesting) :
    Course σ α → Course σ α → Prop
  | ended {w₁ : Nesting} {r r' : Except RuntimeFault α} {m n : Machine σ} (hle : w ≤ w₁) (hm : m.Mirrors P w₁ n)
      (hr : Tallies P (Q w₁) r r') : Course.Mirrors P Q w (.ended r m) (.ended r' n)
  | asks {w₁ : Nesting} {k : Kind} {task task' : Task k} {m n : Machine σ}
      {resume resume' : Except RuntimeFault k.Answer → Machine σ → Course σ α} (hle : w ≤ w₁) (hm : m.Mirrors P w₁ n)
      (htask : task.Mirrors P w₁ task')
      (hrest : ∀ w₂ r r' m' n', w₁ ≤ w₂ → m'.Mirrors P w₂ n' → Tallies P (k.Fits w₂) r r' →
        Course.Mirrors P Q w (resume r m') (resume' r' n')) :
      Course.Mirrors P Q w (.asks task m resume) (.asks task' n resume')

/-- Plans that make courses that mirror each other at machines that do. -/
def Plan.Mirrors (P : Span → Span → Prop) (Q : Nesting → α → Prop) (w : Nesting) (act act' : Plan σ α) : Prop :=
  ∀ w₁ m n, w ≤ w₁ → m.Mirrors P w₁ n → (act m).Mirrors P Q w₁ (act' n)

section Courses

variable {P : Span → Span → Prop} {Q : Nesting → α → Prop} {Q' : Nesting → β → Prop} {w w' : Nesting}

theorem Course.Mirrors.from {c c' : Course σ α} (h : c.Mirrors P Q w' c') (hle : w ≤ w') : c.Mirrors P Q w c' := by
  induction h with
  | ended hle' hm hr => exact .ended (hle.trans hle') hm hr
  | asks hle' hm htask _ ih => exact .asks (hle.trans hle') hm htask ih

theorem Course.Mirrors.andThen {c c' : Course σ α} {next next' : Except RuntimeFault α → Machine σ → Course σ β}
    (h : c.Mirrors P Q w c') (hnext : ∀ w₁ r r' m n, w ≤ w₁ → m.Mirrors P w₁ n → Tallies P (Q w₁) r r' →
      (next r m).Mirrors P Q' w (next' r' n)) : (c.andThen next).Mirrors P Q' w (c'.andThen next') := by
  induction h with
  | ended hle hm hr => exact hnext _ _ _ _ _ hle hm hr
  | asks hle hm htask _ ih => exact .asks hle hm htask ih

theorem Eval.Mirrors.now {ev ev' : Eval σ α} (h : ev.Mirrors P Q w ev') :
    (Plan.now ev).Mirrors P Q w (Plan.now ev') := by
  intro w₁ m n hle hmn
  obtain ⟨w₂, hle₂, hm, hr⟩ := h w₁ m n hle hmn
  exact .ended hle₂ hm hr

theorem Plan.mirrors_pure {a : α} (h : ∀ w₁, w ≤ w₁ → Q w₁ a) : (pure a : Plan σ α).Mirrors P Q w (pure a) :=
  fun w₁ _ _ hle hmn => .ended le_rfl hmn (.ok (h w₁ hle))

theorem Plan.mirrors_ask {k : Kind} {task task' : Task k} (h : task.Mirrors P w task') :
    (Plan.ask task : Plan σ k.Answer).Mirrors P k.Fits w (Plan.ask task') :=
  fun _ _ _ hle hmn => .asks le_rfl hmn (h.mono hle) fun _ _ _ _ _ hle' hm hr => .ended hle' hm hr

theorem Plan.Mirrors.bind {act act' : Plan σ α} {f f' : α → Plan σ β} (h : act.Mirrors P Q w act')
    (hf : ∀ w₁ a, w ≤ w₁ → Q w₁ a → (f a).Mirrors P Q' w₁ (f' a)) : (act >>= f).Mirrors P Q' w (act' >>= f') := by
  refine fun w₁ m n hle hmn => (h w₁ m n hle hmn).andThen fun w₂ r r' m' n' hle₂ hm hr => ?_
  cases hr with
  | ok ha => exact (hf w₂ _ (hle.trans hle₂) ha w₂ m' n' le_rfl hm).from hle₂
  | error hspan => exact .ended hle₂ hm (.error hspan)

/-- What is done while cells are held that keep the same alive. -/
theorem Plan.Mirrors.holding {act act' : Plan σ α} (h : act.Mirrors P Q w act') {cs ds : List Cell}
    (hcells : w.Held cs ds) : (act.holding cs).Mirrors P Q w (act'.holding ds) := by
  intro w₁ m n hle hmn
  have hheld : Machine.Mirrors P w₁ { m with memory := m.memory.holding cs } { n with memory := n.memory.holding ds } :=
    ⟨hmn.memory.holding (hcells.mono hle), hmn.depth, hmn.state⟩
  refine (h w₁ _ _ hle hheld).andThen fun w₂ r r' m' n' hle₂ hm hr => ?_
  exact .ended hle₂ ⟨hm.memory.heldAs (hmn.memory.held.mono hle₂), hm.depth, hm.state⟩ hr

end Courses

end GameScript
