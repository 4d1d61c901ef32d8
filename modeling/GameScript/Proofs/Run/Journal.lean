import GameScript.Proofs.Run.Contract
import GameScript.Proofs.Run.Deeds

/-!
# Journals of runs

A `Journal` is the course of an evaluation with notes on what is done to objects. The journal of a task says so where
the evaluator makes an object or sets a property: in an object literal and in an assignment, simple or compound; and
where a function of the host has been at work it says what the host gives for its account. Without the notes it is what
the task does (`course_journal`).

`Journal.Ends` follows a journal to its end, through the tasks that it asks for, and leaves a trail: the machines that it
comes by, and what is noted between them, one after another. There is one trail only (`Ends.unique`), and all tasks that
a course reaches are on it (`Ends.mem_of_reaches`).
-/

namespace GameScript

open Eval

/-- What is done, as in a course, and what is noted on the way. -/
inductive Journal (σ : Type) (α : Type) : Type
  | ended (result : Except RuntimeFault α) (machine : Machine σ)
  | asks {k : Kind} (task : Task k) (machine : Machine σ)
      (resume : Except RuntimeFault k.Answer → Machine σ → Journal σ α)
  | notes (deeds : List Deed) (rest : Journal σ α)

variable {σ α β : Type}

namespace Journal

/-- One journal and then, from where it ends, another one. -/
def andThen (next : Except RuntimeFault α → Machine σ → Journal σ β) : Journal σ α → Journal σ β
  | ended result m => next result m
  | asks task m resume => asks task m fun result m => (resume result m).andThen next
  | notes deeds rest => notes deeds (rest.andThen next)

/-- A journal without its notes. -/
def course : Journal σ α → Course σ α
  | ended result m => .ended result m
  | asks task m resume => .asks task m fun result m => (resume result m).course
  | notes _ rest => rest.course

end Journal

/-- A course in which there is nothing to note. -/
def Course.journal : Course σ α → Journal σ α
  | ended result m => .ended result m
  | asks task m resume => .asks task m fun result m => (resume result m).journal

/-- A journal for every machine to start from. -/
def Noted (σ α : Type) := Machine σ → Journal σ α

namespace Noted

instance : Monad (Noted σ) where
  pure a := fun m => .ended (.ok a) m
  bind act f := fun m => (act m).andThen fun
    | .ok a, m => f a m
    | .error e, m => .ended (.error e) m

/-- A plan in which there is nothing to note. -/
def of (act : Plan σ α) : Noted σ α := fun m => (act m).journal

/-- Does a computation that asks for no task, and notes what it has done unless it fails. -/
def noting (deeds : List Deed) (act : Eval σ α) : Noted σ α := fun m =>
  match act m with
  | (.ok a, m) => .notes deeds (.ended (.ok a) m)
  | (.error e, m) => .ended (.error e) m

/-- Has something done while cells are held. -/
def holding (cells : List Cell) (act : Noted σ α) : Noted σ α := fun m =>
  (act { m with memory := m.memory.holding cells }).andThen fun result m' =>
    .ended result { m' with memory := { m'.memory with held := m.memory.held } }

/-- The plan, without notes. -/
def plan (act : Noted σ α) : Plan σ α := fun m => (act m).course

end Noted

/-! ## Journals of tasks -/

/-- How a host accounts for what its functions do: the deeds by which objects have become others. -/
abbrev Account := Array (Entries Value) → Array (Entries Value) → List Deed

/-- What is done to objects when a value is put at a target. -/
def Target.deeds (value : Value) : Target → List Deed
  | property r => [.set r.object r.key value]
  | _ => []

namespace Noted

open Plan

/-- Evaluates the properties of an object literal and writes them one by one. -/
def properties (scope : ScopeId) (o : ObjectId) : List Property → Noted σ Unit
  | [] => return ()
  | ⟨key, e⟩ :: rest => do
    let v ← of (ask (.expression scope e))
    let v ← of (now (resolve e.span v))
    noting [.set o key v] do setMemory ((← memory).setProperty o key v)
    properties scope o rest

/-- The evaluation of an object literal. -/
def literal (scope : ScopeId) (ps : List Property) : Noted σ Value := do
  let o ← noting [.made] (create (·.newObject []))
  holding [.object o] (properties scope o ps)
  return .object o

def assignment (scope : ScopeId) (e : Expression) : Noted σ Value := do
  let v ← of (slotValue scope e.span e.right)
  holding (Value.cells [v]) do
    let t ← of (target scope e.span true e.written)
    noting (t.deeds v) (updateMemory e.span (t.write v scope))
  return v

def compound (scope : ScopeId) (base : OperatorKind) (e : Expression) : Noted σ Value := do
  let v ← of (slotValue scope e.span e.right)
  holding (Value.cells [v]) do
    let t ← of (target scope e.span false e.written)
    let current ← of (now do Eval.lift e.span (t.read (← memory) scope))
    let updated ← of (now (Eval.lift e.span (applyBinary base current v)))
    noting (t.deeds updated) (updateMemory e.span (t.write updated scope))
    return updated

/-- Takes over what a function of the host leaves, and notes what it has done by its account. -/
def adopting (account : Account) (memory : Memory) (state : σ) : Noted σ Unit := fun m =>
  noting (account m.memory.objects memory.objects) (adopt memory state) m

/-- Does what a function of the host asks for, until it is finished. -/
def hostStep (account : Account) (span : Span) : HostStep σ → Noted σ Value
  | .finish result memory state => do
    adopting account memory state
    of (now (Eval.lift span result))
  | .enter closure arguments kept memory state resume => do
    adopting account memory state
    let answer : Except RuntimeFault Value ←
      of (attempt (Plan.holding (.closure closure :: Value.cells kept) (ask (.enter closure arguments {}))))
    let m : Machine σ ← of (now get)
    let memory := m.memory.holding (Value.cells (answer.toOption.toList ++ kept))
    hostStep account span (resume (answer.mapError RuntimeFault.error) memory m.state)

end Noted

/-- What a function of the evaluator does, with notes. -/
def Task.journal (account : Account) (host : Host σ) (limit : Nat) : {k : Kind} → Task k → Noted σ k.Answer
  | _, .operand scope _ (.object ps) => Noted.literal scope ps
  | _, .assignment scope e => Noted.assignment scope e
  | _, .compound scope base e => Noted.compound scope base e
  | _, .invoke (.native n) arguments span => do
    let m : Machine σ ← Noted.of (Plan.now get)
    Noted.hostStep account span (host.call n span arguments (m.memory.holding (Value.cells arguments)) m.state)
  | _, task => Noted.of (task.plan host limit)

/-! ## Without the notes -/

section Courses

variable {account : Account} {host : Host σ} {limit : Nat} {scope : ScopeId}

@[simp] theorem course_andThen (j : Journal σ α) (next : Except RuntimeFault α → Machine σ → Journal σ β) :
    (j.andThen next).course = j.course.andThen fun r m => (next r m).course := by
  induction j with
  | ended r m => rfl
  | asks task m resume ih => exact congrArg (Course.asks task m) (funext fun r => funext fun m => ih r m)
  | notes ds rest ih => exact ih

@[simp] theorem course_journal_self (c : Course σ α) : c.journal.course = c := by
  induction c with
  | ended r m => rfl
  | asks task m resume ih => exact congrArg (Course.asks task m) (funext fun r => funext fun m => ih r m)

namespace Noted

@[simp] theorem plan_pure (a : α) : (pure a : Noted σ α).plan = pure a := rfl

@[simp] theorem plan_of (act : Plan σ α) : (of act).plan = act := funext fun m => course_journal_self (act m)

@[simp] theorem plan_bind (act : Noted σ α) (f : α → Noted σ β) :
    (act >>= f).plan = act.plan >>= fun a => (f a).plan := by
  funext m
  refine (course_andThen _ _).trans (congrArg (fun next => (act m).course.andThen next) ?_)
  funext r m'
  cases r <;> rfl

@[simp] theorem plan_noting (ds : List Deed) (ev : Eval σ α) : (noting ds ev).plan = Plan.now ev := by
  funext m
  unfold plan noting Plan.now
  rcases ev m with ⟨e | a, m'⟩ <;> rfl

@[simp] theorem plan_holding (cells : List Cell) (act : Noted σ α) :
    (holding cells act).plan = act.plan.holding cells := funext fun _ => course_andThen _ _

@[simp] theorem plan_adopting (k : Memory) (state : σ) :
    (adopting account k state).plan = Plan.now (adopt k state) := funext fun m => congrFun (plan_noting _ _) m

@[simp] theorem plan_properties (o : ObjectId) (ps : List Property) :
    (properties scope o ps : Noted σ Unit).plan = Plan.properties scope o ps := by
  induction ps with
  | nil => rfl
  | cons p rest ih =>
    obtain ⟨key, e⟩ := p
    simp only [properties, Plan.properties, plan_bind, plan_of, plan_noting, ih]

theorem plan_hostStep (span : Span) (step : HostStep σ) :
    (hostStep account span step).plan = Plan.hostStep span step := by
  induction step with
  | finish result k state => simp only [hostStep, Plan.hostStep, plan_bind, plan_adopting, plan_of]
  | enter c args kept k state resume ih =>
    simp only [hostStep, Plan.hostStep, plan_bind, plan_adopting, plan_of, ih]

end Noted

/-- The journal of a task without the notes is what the task does. -/
theorem plan_journal {k : Kind} (task : Task k) :
    (task.journal account host limit : Noted σ k.Answer).plan = task.plan host limit := by
  cases task with
  | assignment s e => simp [Task.journal, Task.plan, Noted.assignment, Plan.assignment]
  | compound s base e => simp [Task.journal, Task.plan, Noted.compound, Plan.compound]
  | operand s span a =>
    cases a with
    | object ps => simp [Task.journal, Task.plan, Noted.literal, Plan.operand]
    | _ => exact Noted.plan_of _
  | invoke f args span =>
    cases f with
    | native n => simp [Task.journal, Task.plan, Noted.plan_hostStep]
    | _ => exact Noted.plan_of _
  | _ => exact Noted.plan_of _

theorem course_journal {k : Kind} (task : Task k) (m : Machine σ) :
    (task.journal account host limit m).course = task.plan host limit m := congrFun (plan_journal task) m

end Courses

/-! ## Trails -/

/-- What a run comes by: a moment at which a task is asked for or something has ended, or deeds that are noted. -/
inductive Mark (σ : Type)
  | moment (machine : Machine σ)
  | did (deeds : List Deed)

/-- What is noted, in order. -/
def Mark.deeds : Mark σ → List Deed
  | moment _ => []
  | did ds => ds

/-- All that is noted on a trail, in order. -/
def trailDeeds (trail : List (Mark σ)) : List Deed := trail.flatMap Mark.deeds

/-- A journal ends with a result at a machine, and leaves a trail, with those of the tasks that it asks for in it. -/
inductive Journal.Ends (account : Account) (host : Host σ) (limit : Nat) :
    {α : Type} → Journal σ α → List (Mark σ) → Except RuntimeFault α → Machine σ → Prop
  | ended {α : Type} (result : Except RuntimeFault α) (m : Machine σ) :
    Ends account host limit (.ended result m) [.moment m] result m
  | asks {α : Type} {k : Kind} {task : Task k} {m m' m'' : Machine σ}
      {resume : Except RuntimeFault k.Answer → Machine σ → Journal σ α} {answer : Except RuntimeFault k.Answer}
      {result : Except RuntimeFault α} {trail trail' : List (Mark σ)}
      (hdone : Ends account host limit (task.journal account host limit m) trail answer m')
      (hrest : Ends account host limit (resume answer m') trail' result m'') :
    Ends account host limit (.asks task m resume) (.moment m :: (trail ++ trail')) result m''
  | notes {α : Type} {rest : Journal σ α} {ds : List Deed} {trail : List (Mark σ)} {result : Except RuntimeFault α}
      {m : Machine σ} (hrest : Ends account host limit rest trail result m) :
    Ends account host limit (.notes ds rest) (.did ds :: trail) result m

namespace Journal

section Trails

variable {account : Account} {host : Host σ} {limit : Nat} {j : Journal σ α} {trail trail' : List (Mark σ)}
  {r r' : Except RuntimeFault α} {m m' : Machine σ}

/-- A journal ends in one way only, and leaves one trail. -/
theorem Ends.unique (h : j.Ends account host limit trail r m) (h' : j.Ends account host limit trail' r' m') :
    trail = trail' ∧ r = r' ∧ m = m' := by
  induction h generalizing trail' m' with
  | ended =>
    cases h'
    exact ⟨rfl, rfl, rfl⟩
  | asks _ _ ihdone ihrest =>
    cases h' with
    | asks hdone' hrest' =>
      obtain ⟨rfl, rfl, rfl⟩ := ihdone hdone'
      obtain ⟨rfl, hr, hm⟩ := ihrest hrest'
      exact ⟨rfl, hr, hm⟩
  | notes _ ih =>
    cases h' with
    | notes hrest' =>
      obtain ⟨rfl, hr, hm⟩ := ih hrest'
      exact ⟨rfl, hr, hm⟩

/-- The trail leads to the end. -/
theorem Ends.mem_end (h : j.Ends account host limit trail r m) : .moment m ∈ trail := by
  induction h with
  | ended r m => exact List.mem_singleton_self _
  | asks _ _ _ ih => exact List.mem_cons_of_mem _ (List.mem_append_right _ ih)
  | notes _ ih => exact List.mem_cons_of_mem _ ih

/-- A journal ends as its course does. -/
theorem Ends.finishes (h : j.Ends account host limit trail r m) : Finishes host limit j.course r m := by
  induction h with
  | ended r m => exact .ended r m
  | asks _ _ ihdone ihrest =>
    rw [course_journal] at ihdone
    exact .asks ihdone ihrest
  | notes _ ih => exact ih

/-- Where the course of a journal ends, the journal does. -/
theorem exists_ends (account : Account) {c : Course σ α} (h : Finishes host limit c r m) {j : Journal σ α}
    (hj : j.course = c) : ∃ trail, j.Ends account host limit trail r m := by
  induction h with
  | ended r m =>
    induction j with
    | ended r' m' =>
      cases hj
      exact ⟨_, .ended r m⟩
    | asks => cases hj
    | notes ds rest ih =>
      obtain ⟨trail, hrest⟩ := ih hj
      exact ⟨_, .notes hrest⟩
  | asks _ _ ihdone ihrest =>
    induction j with
    | ended => cases hj
    | asks =>
      cases hj
      obtain ⟨trail, hdone⟩ := ihdone (course_journal _ _)
      obtain ⟨trail', hrest⟩ := ihrest rfl
      exact ⟨_, .asks hdone hrest⟩
    | notes ds rest ih =>
      obtain ⟨trail, hrest⟩ := ih hj
      exact ⟨_, .notes hrest⟩

/-- The trail leads by every task that is asked for, and by all that its own journal comes by. -/
theorem Ends.mem_of_asks (h : j.Ends account host limit trail r m) {x : Activation σ} (hx : Asks host limit j.course x) :
    .moment x.machine ∈ trail ∧ ∃ inner answer n,
      (x.task.journal account host limit x.machine).Ends account host limit inner answer n ∧ inner ⊆ trail := by
  induction h with
  | ended => cases hx
  | asks hdone _ _ ihrest =>
    cases hx with
    | first =>
      refine ⟨List.mem_cons_self, _, _, _, hdone, fun a ha => ?_⟩
      exact List.mem_cons_of_mem _ (List.mem_append_left _ ha)
    | later hdone' hrest' =>
      have hfinishes := hdone.finishes
      rw [course_journal] at hfinishes
      obtain ⟨rfl, rfl⟩ := hfinishes.unique hdone'
      obtain ⟨hmem, inner, answer', n, hinner, hsub⟩ := ihrest hrest'
      refine ⟨List.mem_cons_of_mem _ (List.mem_append_right _ hmem), inner, answer', n, hinner, fun a ha => ?_⟩
      exact List.mem_cons_of_mem _ (List.mem_append_right _ (hsub ha))
  | notes _ ih =>
    obtain ⟨hmem, inner, answer, n, hinner, hsub⟩ := ih hx
    exact ⟨List.mem_cons_of_mem _ hmem, inner, answer, n, hinner, fun a ha => List.mem_cons_of_mem _ (hsub ha)⟩

/-- The trail leads by every task that is reached. -/
theorem Ends.mem_of_reaches (h : j.Ends account host limit trail r m) {x : Activation σ}
    (hx : j.course.Reaches host limit x) : .moment x.machine ∈ trail := by
  obtain ⟨y, hy, hyx⟩ := hx
  induction hyx using Relation.ReflTransGen.head_induction_on generalizing α trail m with
  | refl => exact (h.mem_of_asks hy).1
  | head hactivates _ ih =>
    obtain ⟨-, inner, answer, n, hinner, hsub⟩ := h.mem_of_asks hy
    refine hsub (ih hinner ?_)
    rw [course_journal]
    exact hactivates

end Trails

end Journal

end GameScript
