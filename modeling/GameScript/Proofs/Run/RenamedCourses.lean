import GameScript.Proofs.Run.Course
import GameScript.Proofs.Run.Renamed

/-!
# Courses with other names for variables

What is done with a tree at a machine is done with the renamed tree at the renamed machine: it ends there with the same
answer, or with the error in other words, and leaves the renamed machine (`Eval.Renames`). Courses do so when they ask
for tasks and for renamed ones at machines that correspond, and go on so (`Course.Renames`). A task in a scope where
renamed scripts run may have any tree; anywhere else, its tree is the same with other names (`Task.Renames`).

This is carried from part to part: through a sequence (`Plan.Renames.bind`), and while cells are held
(`Plan.Renames.holding`).
-/

namespace GameScript

open Eval

variable {σ α β : Type}

/-- A machine with other names for variables. -/
def Machine.rename (ρ : Renaming) (m : Machine σ) : Machine σ := { m with memory := m.memory.rename ρ }

/-! ## Computations -/

/-- Computations of which one does at every machine what the other one does at the renamed machine. -/
def Eval.Renames (ρ : Renaming) (Q : Set ScopeId → α → α → Prop) (w : Set ScopeId) (ev ev' : Eval σ α) : Prop :=
  ∀ w₁ m, w ⊆ w₁ → ρ.Suits w₁ m.memory → ∃ w₂, w₁ ⊆ w₂ ∧ ρ.Suits w₂ (ev m).2.memory ∧
    (ev' (m.rename ρ)).2 = (ev m).2.rename ρ ∧
      Reworded (RuntimeFault.rename ρ.name) (Q w₂) (ev m).1 (ev' (m.rename ρ)).1

/-- An answer in which no names stand is the same. -/
abbrev Same (_ : Set ScopeId) (a b : α) : Prop := a = b

section Computations

variable {ρ : Renaming} {Q : Set ScopeId → α → α → Prop} {w : Set ScopeId} {span : Span}

theorem Eval.Renames.bind {Q' : Set ScopeId → β → β → Prop} {ev ev' : Eval σ α} {f f' : α → Eval σ β}
    (h : ev.Renames ρ Q w ev') (hf : ∀ w₁ a b, w ⊆ w₁ → Q w₁ a b → (f a).Renames ρ Q' w₁ (f' b)) :
    (ev >>= f).Renames ρ Q' w (ev' >>= f') := by
  intro w₁ m hle hsuits
  obtain ⟨w₂, hle₂, hsuits₂, hm, hr⟩ := h w₁ m hle hsuits
  rw [Eval.bind_apply, Eval.bind_apply]
  rcases hev : ev m with ⟨r, m'⟩
  rcases hev' : ev' (m.rename ρ) with ⟨r', n'⟩
  rw [hev, hev'] at hr hm
  rw [hev] at hsuits₂
  obtain rfl : n' = m'.rename ρ := hm
  cases hr with
  | @ok a b hab =>
    obtain ⟨w₃, hle₃, hsuits₃, hm', hr'⟩ := hf w₂ a b (hle.trans hle₂) hab w₂ m' subset_rfl hsuits₂
    exact ⟨w₃, hle₂.trans hle₃, hsuits₃, hm', hr'⟩
  | error e => exact ⟨w₂, hle₂, hsuits₂, rfl, .error e⟩

/-- Where the first answer is the same, what comes next has the same one to go on with. -/
theorem Eval.Renames.bind_same {Q' : Set ScopeId → β → β → Prop} {ev ev' : Eval σ α} {f f' : α → Eval σ β}
    (h : ev.Renames ρ Same w ev') (hf : ∀ w₁ a, w ⊆ w₁ → (f a).Renames ρ Q' w₁ (f' a)) :
    (ev >>= f).Renames ρ Q' w (ev' >>= f') := h.bind fun w₁ a _ hle hab => hab ▸ hf w₁ a hle

theorem Eval.renames_pure {a b : α} (h : ∀ w₁, w ⊆ w₁ → Q w₁ a b) : (pure a : Eval σ α).Renames ρ Q w (pure b) :=
  fun w₁ _ hle hsuits => ⟨w₁, subset_rfl, hsuits, rfl, .ok (h w₁ hle)⟩

theorem renames_fail (e : RuntimeError) :
    (fail span e : Eval σ α).Renames ρ Q w (fail span (e.rename ρ.name)) :=
  fun w₁ _ _ hsuits => ⟨w₁, subset_rfl, hsuits, rfl, .error (RuntimeFault.mk e span)⟩

/-- The same answer, or the error in other words. -/
theorem renames_lift {x y : Except RuntimeError α} (h : y = x.mapError (RuntimeError.rename ρ.name)) :
    (Eval.lift span x : Eval σ α).Renames ρ Same w (Eval.lift span y) := by
  subst h
  cases x with
  | ok a => exact Eval.renames_pure fun _ _ => rfl
  | error e => exact renames_fail e

/-- A look at memory. -/
theorem renames_look {look look' : Memory → Except RuntimeError α} (h : ∀ w₁ m, w ⊆ w₁ → ρ.Suits w₁ m →
      look' (m.rename ρ) = (look m).mapError (RuntimeError.rename ρ.name)) :
    (do Eval.lift span (look (← memory)) : Eval σ α).Renames ρ Same w (do Eval.lift span (look' (← memory))) :=
  fun w₁ m hle hsuits => renames_lift (h w₁ m.memory hle hsuits) w₁ m subset_rfl hsuits

/-- A change of memory. -/
theorem renames_updateMemory {change change' : Memory → Except RuntimeError Memory}
    (h : ∀ w₁ m, w ⊆ w₁ → ρ.Suits w₁ m → (∀ n, change m = .ok n → ρ.Suits w₁ n) ∧
      change' (m.rename ρ) = ((change m).map (Memory.rename ρ)).mapError (RuntimeError.rename ρ.name)) :
    (updateMemory span change : Eval σ Unit).Renames ρ Same w (updateMemory span change') := by
  intro w₁ m hle hsuits
  obtain ⟨hkept, heq⟩ := h w₁ m.memory hle hsuits
  have hstep (change : Memory → Except RuntimeError Memory) (m : Machine σ) :
      updateMemory span change m = (Eval.lift span (change m.memory) >>= setMemory : Eval σ Unit) m := rfl
  have hmemory : (m.rename ρ).memory = m.memory.rename ρ := rfl
  rw [hstep, hstep, hmemory, heq]
  cases hchange : change m.memory with
  | ok n => exact ⟨w₁, subset_rfl, hkept n hchange, rfl, .ok rfl⟩
  | error e => exact ⟨w₁, subset_rfl, hsuits, rfl, .error (RuntimeFault.mk e span)⟩

/-- Something new in memory, with the same identity. -/
theorem renames_create {make make' : Memory → α × Memory} (h : ∀ w₁ m, w ⊆ w₁ → ρ.Suits w₁ m →
      make' (m.rename ρ) = ((make m).1, (make m).2.rename ρ) ∧
        ∃ w₂, w₁ ⊆ w₂ ∧ ρ.Suits w₂ (make m).2 ∧ Q w₂ (make m).1 (make m).1) :
    (create make : Eval σ α).Renames ρ Q w (create make') := by
  intro w₁ m hle hsuits
  obtain ⟨heq, w₂, hle₂, hsuits₂, hq⟩ := h w₁ m.memory hle hsuits
  have hrun : (create make' : Eval σ α) (m.rename ρ) =
      (.ok (make m.memory).1, { m with memory := (make m.memory).2.rename ρ }) := by
    unfold create
    rw [show make' (m.rename ρ).memory = _ from heq]
    rfl
  rw [hrun]
  exact ⟨w₂, hle₂, hsuits₂, rfl, .ok hq⟩

/-! ### Operations on values -/

variable {s : ScopeId} {v : Value}

theorem Refuses.mapError_rename {f : String → String} {x : Except RuntimeError α}
    (h : Refuses RuntimeError.Arithmetic x) : x = x.mapError (RuntimeError.rename f) := by
  cases x with
  | ok a => rfl
  | error e => exact congrArg Except.error (h e rfl).rename_eq.symm

theorem renames_resolve (v : Value) : (resolve span v : Eval σ Value).Renames ρ Same w (resolve span v) :=
  renames_look fun _ _ _ _ => Memory.resolve_rename

theorem renames_applyBinary (op : OperatorKind) (a b : Value) :
    (Eval.lift span (applyBinary op a b) : Eval σ Value).Renames ρ Same w (Eval.lift span (applyBinary op a b)) :=
  renames_lift (plain_applyBinary op a b).1.mapError_rename

theorem renames_read {t : Target} (ht : s ∈ w ∨ t.rename ρ.name = t) :
    (do Eval.lift span (t.read (← memory) s) : Eval σ Value).Renames ρ Same w
      (do Eval.lift span ((t.rename ρ.name).read (← memory) s)) :=
  renames_look fun _ _ hle hsuits => Target.read_rename (hsuits.covers (ht.imp_left (hle ·)))

theorem renames_write {t : Target} (ht : s ∈ w ∨ t.rename ρ.name = t) (v : Value) :
    (updateMemory span (t.write v s) : Eval σ Unit).Renames ρ Same w
      (updateMemory span ((t.rename ρ.name).write v s)) :=
  renames_updateMemory fun _ _ hle hsuits =>
    ⟨fun _ hn => hsuits.targetWrite hn, Target.write_rename (hsuits.covers (ht.imp_left (hle ·)))⟩

theorem renames_negate (v : Value) : (negate span v : Eval σ Value).Renames ρ Same w (negate span v) := by
  cases v with
  | bool b => exact Eval.renames_pure fun _ _ => rfl
  | _ => exact renames_fail _

/-- The name after a point is no name of a variable. -/
theorem renames_memberName (a : Option Operand) :
    (memberName span a : Eval σ String).Renames ρ Same w (memberName span a) := by
  unfold memberName
  split
  · exact Eval.renames_pure fun _ _ => rfl
  · exact renames_fail _

theorem renames_referenceTo (key : String) (named : Bool) (v : Value) :
    (referenceTo span key named v : Eval σ Reference).Renames ρ Same w (referenceTo span key named v) := by
  refine (renames_resolve v).bind_same fun w₁ u _ => ?_
  cases u with
  | object o => exact Eval.renames_pure fun _ _ => rfl
  | _ => exact renames_fail _

theorem renames_stepBy (op : OperatorKind) (new : Bool) {t : Target} (ht : s ∈ w ∨ t.rename ρ.name = t) :
    (stepBy op new s span (pure t) : Eval σ Value).Renames ρ Same w
      (stepBy op new s span (pure (t.rename ρ.name))) := by
  have hstart : (pure t : Eval σ Target).Renames ρ (fun _ u u' => u = t ∧ u' = t.rename ρ.name) w
      (pure (t.rename ρ.name)) := Eval.renames_pure fun _ _ => ⟨rfl, rfl⟩
  refine hstart.bind fun w₁ u u' hle hu => ?_
  obtain ⟨rfl, rfl⟩ := hu
  have ht := ht.imp_left (hle ·)
  cases u with
  | property r => exact renames_fail _
  | declare name | existing name =>
    show Eval.Renames ρ _ w₁ (memory >>= fun k => Eval.lift span (Target.read k s _) >>= _ : Eval σ Value)
      (memory >>= fun k => Eval.lift span (Target.read k s _) >>= _)
    rw [← bind_assoc (m := Eval σ), ← bind_assoc (m := Eval σ)]
    refine (renames_read ht).bind_same fun w₂ v hle₂ => ?_
    cases v with
    | int old =>
      refine (renames_lift (plain_checked _).1.mapError_rename).bind_same fun w₃ v hle₃ => ?_
      refine (renames_write (ht.imp_left fun hs => hle₃ (hle₂ hs)) v).bind_same fun w₄ _ _ => ?_
      exact Eval.renames_pure fun _ _ => rfl
    | _ => exact renames_fail _

end Computations

/-! ## Courses -/

/-- A task and the task with the renamed tree, and calls that are the same. The name after a point is no variable, so
the operator says which tasks are possible. -/
inductive Task.Renames (ρ : Renaming) (w : Set ScopeId) : {k : Kind} → Task k → Task k → Prop
  | statements {s : ScopeId} {body : List Statement} (h : s ∈ w ∨ Statement.renameAll ρ.name body = body) :
      Task.Renames ρ w (.statements s body) (.statements s (Statement.renameAll ρ.name body))
  | statement {s : ScopeId} {e : Expression} {place : Span} (h : s ∈ w ∨ e.rename ρ.name = e) :
      Task.Renames ρ w (.statement s ⟨e, place⟩) (.statement s ⟨e.rename ρ.name, place⟩)
  | block {s : ScopeId} {b : Scope} (h : s ∈ w ∨ b.rename ρ.name = b) :
      Task.Renames ρ w (.block s b) (.block s (b.rename ρ.name))
  | expression {s : ScopeId} {e : Expression} (h : s ∈ w ∨ e.rename ρ.name = e) :
      Task.Renames ρ w (.expression s e) (.expression s (e.rename ρ.name))
  | operand {s : ScopeId} {span : Span} {a : Operand} (h : s ∈ w ∨ a.rename ρ.name = a) :
      Task.Renames ρ w (.operand s span a) (.operand s span (a.rename ρ.name))
  | property {s : ScopeId} {e : Expression} (h : s ∈ w ∨ e.rename ρ.name = e) (hop : e.operator? = some .child) :
      Task.Renames ρ w (.property s e) (.property s (e.rename ρ.name))
  | assignment {s : ScopeId} {e : Expression} (h : s ∈ w ∨ e.rename ρ.name = e) (hop : e.operator? ≠ some .child) :
      Task.Renames ρ w (.assignment s e) (.assignment s (e.rename ρ.name))
  | compound {s : ScopeId} {e : Expression} (base : OperatorKind) (h : s ∈ w ∨ e.rename ρ.name = e)
      (hop : e.operator? ≠ some .child) : Task.Renames ρ w (.compound s base e) (.compound s base (e.rename ρ.name))
  | step {s : ScopeId} {e : Expression} (op : OperatorKind) (h : s ∈ w ∨ e.rename ρ.name = e)
      (hop : e.operator? ≠ some .child) : Task.Renames ρ w (.step s op e) (.step s op (e.rename ρ.name))
  | invoke (callee : Value) (args : List Value) (span : Span) :
      Task.Renames ρ w (.invoke callee args span) (.invoke callee args span)
  | enter (c : ClosureId) (args : List Value) (span : Span) : Task.Renames ρ w (.enter c args span) (.enter c args span)

/-- Courses that ask for tasks and for renamed ones, at machines and at renamed ones, and go on so when those have the
same outcome but for names, till they end with the same one but for names. -/
inductive Course.Renames (ρ : Renaming) (Q : Set ScopeId → α → α → Prop) (w : Set ScopeId) :
    Course σ α → Course σ α → Prop
  | ended {w₁ : Set ScopeId} {r r' : Except RuntimeFault α} {m : Machine σ} (hle : w ⊆ w₁) (hm : ρ.Suits w₁ m.memory)
      (hr : Reworded (RuntimeFault.rename ρ.name) (Q w₁) r r') :
      Course.Renames ρ Q w (.ended r m) (.ended r' (m.rename ρ))
  | asks {w₁ : Set ScopeId} {k : Kind} {task task' : Task k} {m : Machine σ}
      {resume resume' : Except RuntimeFault k.Answer → Machine σ → Course σ α} (hle : w ⊆ w₁)
      (hm : ρ.Suits w₁ m.memory) (htask : task.Renames ρ w₁ task')
      (hrest : ∀ w₂ r m', w₁ ⊆ w₂ → ρ.Suits w₂ m'.memory →
        Course.Renames ρ Q w (resume r m') (resume' (r.mapError (RuntimeFault.rename ρ.name)) (m'.rename ρ))) :
      Course.Renames ρ Q w (.asks task m resume) (.asks task' (m.rename ρ) resume')

/-- Plans of which one makes of every machine the course that the other one makes of the renamed machine. -/
def Plan.Renames (ρ : Renaming) (Q : Set ScopeId → α → α → Prop) (w : Set ScopeId) (act act' : Plan σ α) : Prop :=
  ∀ w₁ m, w ⊆ w₁ → ρ.Suits w₁ m.memory → (act m).Renames ρ Q w₁ (act' (m.rename ρ))

section Courses

variable {ρ : Renaming} {Q : Set ScopeId → α → α → Prop} {Q' : Set ScopeId → β → β → Prop} {w w' : Set ScopeId}

theorem Task.Renames.mono {k : Kind} {task task' : Task k} (h : task.Renames ρ w task') (hle : w ⊆ w') :
    task.Renames ρ w' task' := by
  cases h with
  | statements h => exact .statements (h.imp_left (hle ·))
  | statement h => exact .statement (h.imp_left (hle ·))
  | block h => exact .block (h.imp_left (hle ·))
  | expression h => exact .expression (h.imp_left (hle ·))
  | operand h => exact .operand (h.imp_left (hle ·))
  | property h hop => exact .property (h.imp_left (hle ·)) hop
  | assignment h hop => exact .assignment (h.imp_left (hle ·)) hop
  | compound base h hop => exact .compound base (h.imp_left (hle ·)) hop
  | step op h hop => exact .step op (h.imp_left (hle ·)) hop
  | invoke callee args span => exact .invoke callee args span
  | enter c args span => exact .enter c args span

theorem Course.Renames.from {c c' : Course σ α} (h : c.Renames ρ Q w' c') (hle : w ⊆ w') : c.Renames ρ Q w c' := by
  induction h with
  | ended hle' hm hr => exact .ended (hle.trans hle') hm hr
  | asks hle' hm htask _ ih => exact .asks (hle.trans hle') hm htask ih

theorem Course.Renames.andThen {c c' : Course σ α} {next next' : Except RuntimeFault α → Machine σ → Course σ β}
    (h : c.Renames ρ Q w c') (hnext : ∀ w₁ r r' m, w ⊆ w₁ → ρ.Suits w₁ m.memory →
      Reworded (RuntimeFault.rename ρ.name) (Q w₁) r r' → (next r m).Renames ρ Q' w (next' r' (m.rename ρ))) :
    (c.andThen next).Renames ρ Q' w (c'.andThen next') := by
  induction h with
  | ended hle hm hr => exact hnext _ _ _ _ hle hm hr
  | asks hle hm htask _ ih => exact .asks hle hm htask ih

theorem Eval.Renames.now {ev ev' : Eval σ α} (h : ev.Renames ρ Q w ev') :
    (Plan.now ev).Renames ρ Q w (Plan.now ev') := by
  intro w₁ m hle hsuits
  obtain ⟨w₂, hle₂, hsuits₂, hm, hr⟩ := h w₁ m hle hsuits
  show Course.Renames ρ Q w₁ (.ended _ _) (.ended _ _)
  rw [hm]
  exact .ended hle₂ hsuits₂ hr

theorem Plan.renames_pure {a b : α} (h : ∀ w₁, w ⊆ w₁ → Q w₁ a b) : (pure a : Plan σ α).Renames ρ Q w (pure b) :=
  fun w₁ _ hle hsuits => .ended subset_rfl hsuits (.ok (h w₁ hle))

theorem Plan.renames_ask {k : Kind} {task task' : Task k} (h : task.Renames ρ w task') :
    (Plan.ask task : Plan σ k.Answer).Renames ρ Same w (Plan.ask task') :=
  fun _ _ hle hsuits => .asks subset_rfl hsuits (h.mono hle) fun _ _ _ hle' hsuits' =>
    .ended hle' hsuits' (reworded_mapError _ fun _ _ => rfl)

theorem Plan.Renames.bind {act act' : Plan σ α} {f f' : α → Plan σ β} (h : act.Renames ρ Q w act')
    (hf : ∀ w₁ a b, w ⊆ w₁ → Q w₁ a b → (f a).Renames ρ Q' w₁ (f' b)) :
    (act >>= f).Renames ρ Q' w (act' >>= f') := by
  refine fun w₁ m hle hsuits => (h w₁ m hle hsuits).andThen fun w₂ r r' m' hle₂ hsuits₂ hr => ?_
  cases hr with
  | ok hab => exact (hf w₂ _ _ (hle.trans hle₂) hab w₂ m' subset_rfl hsuits₂).from hle₂
  | error e => exact .ended hle₂ hsuits₂ (.error e)

theorem Plan.Renames.bind_same {act act' : Plan σ α} {f f' : α → Plan σ β} (h : act.Renames ρ Same w act')
    (hf : ∀ w₁ a, w ⊆ w₁ → (f a).Renames ρ Q' w₁ (f' a)) : (act >>= f).Renames ρ Q' w (act' >>= f') :=
  h.bind fun w₁ a _ hle hab => hab ▸ hf w₁ a hle

theorem Plan.Renames.holding {act act' : Plan σ α} (h : act.Renames ρ Q w act') (cells : List Cell) :
    (act.holding cells).Renames ρ Q w (act'.holding cells) := by
  intro w₁ m hle hsuits
  refine (h w₁ { m with memory := m.memory.holding cells } hle (hsuits.withHeld _)).andThen
    fun w₂ r r' m' hle₂ hsuits₂ hr => ?_
  exact .ended hle₂ (m := { m' with memory := { m'.memory with held := m.memory.held } }) (hsuits₂.withHeld _) hr

theorem Plan.Renames.deeper {act act' : Plan σ α} (h : act.Renames ρ Q w act') :
    act.deeper.Renames ρ Q w act'.deeper := by
  intro w₁ m hle hsuits
  refine (h w₁ { m with depth := m.depth + 1 } hle hsuits).andThen fun w₂ r r' m' hle₂ hsuits₂ hr => ?_
  exact .ended hle₂ (m := { m' with depth := m'.depth - 1 }) hsuits₂ hr

end Courses

end GameScript
