import GameScript.Proofs.Run.Balance
import GameScript.Proofs.Run.Termination
import Mathlib.Algebra.GroupWithZero.Nat

/-!
# The counter counts the calls under way

At every moment of a run some tasks are under way, each asked for by the one below it (`Course.UnderWay`), and the
calls of script functions among those below the last one are the frames. The counter of the machine is their number,
added to what it was at the start. It never passes the limit; a call is refused exactly where the counter has reached
the limit; and when the host gets its answer, or its fault, the counter is what it was.

A fault is raised by the task that ends with it while none of the tasks that it asked for has (`Raises`), and every
fault is raised somewhere (`Finishes.exists_raises`).

Main statement: all of this for whatever a host does with scripts and their functions (`calls_counted`).
-/

namespace GameScript

variable {σ α : Type}

/-! ## Where a fault comes from -/

section Raises

variable (host : Host σ) (limit : Nat)

/-- A course ends with a fault that is none of the answers to what it asked for. -/
inductive Raises (f : RuntimeFault) : {α : Type} → Course σ α → Prop
  | ended {α : Type} (m : Machine σ) : Raises f (.ended (.error f : Except RuntimeFault α) m)
  | asks {α : Type} {k : Kind} {task : Task k} {m m' : Machine σ}
      {resume : Except RuntimeFault k.Answer → Machine σ → Course σ α} {answer : Except RuntimeFault k.Answer}
      (hdone : Finishes host limit (task.plan host limit m) answer m') (hnew : answer ≠ .error f)
      (hrest : Raises f (resume answer m')) : Raises f (.asks task m resume)

/-- A task at a machine raises a fault. -/
def Activation.Raises (x : Activation σ) (f : RuntimeFault) : Prop :=
  GameScript.Raises host limit f (x.task.plan host limit x.machine)

variable {host limit}

/-- The fault that a course ends with is raised by it, or by a task that it reaches. -/
theorem Finishes.exists_raises {c : Course σ α} {r : Except RuntimeFault α} {m : Machine σ}
    (hrun : Finishes host limit c r m) {f : RuntimeFault} (hr : r = .error f) :
    Raises host limit f c ∨ ∃ x, c.Reaches host limit x ∧ x.Raises host limit f := by
  induction hrun with
  | ended result m =>
    subst hr
    exact .inl (.ended m)
  | @asks α k task m _ _ resume answer _ hdone hrest ihdone ihrest =>
    by_cases hnew : answer = .error f
    · have hfirst : Asks host limit (.asks task m resume) ⟨k, task, m⟩ := .first
      rcases ihdone hnew with htask | ⟨x, ⟨y, hy, hyx⟩, hx⟩
      · exact .inr ⟨_, hfirst.reaches, htask⟩
      · exact .inr ⟨x, ⟨_, hfirst, hyx.head hy⟩, hx⟩
    · rcases ihrest hr with hrest | ⟨x, ⟨y, hy, hyx⟩, hx⟩
      · exact .inl (.asks hdone hnew hrest)
      · exact .inr ⟨x, ⟨y, .later hdone hy, hyx⟩, hx⟩

/-- A course that meets a contract where no task has the fault, and does not end with it, does not raise it. -/
theorem not_raises {C : Contract σ} {f : RuntimeFault} {c : Course σ α} {Q : Except RuntimeFault α → Machine σ → Prop}
    (hC : ∀ {k : Kind} (task : Task k) (m : Machine σ) r m', C.pre task m →
      Finishes host limit (task.plan host limit m) r m' → r ≠ .error f → C.post task m r m')
    (h : c.Meets C Q) (hQ : ∀ m, ¬Q (.error f) m) : ¬Raises host limit f c := by
  intro hraises
  induction hraises with
  | ended m => exact hQ m h
  | asks hdone hnew _ ih => exact ih (h.2 _ _ (hC _ _ _ _ h.1 hdone hnew))

end Raises

/-! ## Tasks under way -/

/-- The tasks that are under way at some moment of a course, the last first: each has been asked for by the next. -/
inductive Course.UnderWay (host : Host σ) (limit : Nat) (c : Course σ α) : List (Activation σ) → Prop
  | first {x : Activation σ} (hx : Asks host limit c x) : c.UnderWay host limit [x]
  | next {x y : Activation σ} {below : List (Activation σ)} (hx : c.UnderWay host limit (x :: below))
      (hy : x.Activates host limit y) : c.UnderWay host limit (y :: x :: below)

/-- How many of some tasks are calls of script functions. -/
def frames (tasks : List (Activation σ)) : Nat := (tasks.map (·.task.frames)).sum

section UnderWay

variable {host : Host σ} {limit : Nat} {c : Course σ α} {x : Activation σ}

theorem Course.Reaches.exists_underWay (h : c.Reaches host limit x) : ∃ below, c.UnderWay host limit (x :: below) := by
  obtain ⟨y, hy, hyx⟩ := h
  induction hyx with
  | refl => exact ⟨[], .first hy⟩
  | @tail z x _ hx ih =>
    obtain ⟨below, hz⟩ := ih
    exact ⟨z :: below, .next hz hx⟩

theorem frames_cons (below : List (Activation σ)) : frames (x :: below) = x.task.frames + frames below := by
  simp [frames]

end UnderWay

/-! ## Runs -/

section Runs

variable {host : Host σ} {limit d : Nat} {c : Course σ α} {Q : Except RuntimeFault α → Machine σ → Prop}

theorem meets_balance_any (host : Host σ) (limit : Nat) {k : Kind} (task : Task k) (m : Machine σ) :
    (task.plan host limit m).Meets (balance (fun _ => True) (m.depth + task.frames)) (Balanced (fun _ => True) m) :=
  meets_balance (fun _ _ _ => trivial) host limit task m (fun _ _ => trivial) fun _ _ _ => trivial

/-- What ends has been left balanced, by induction on the run. -/
theorem Finishes.of_meets_balance {r : Except RuntimeFault α} {m : Machine σ} (hrun : Finishes host limit c r m)
    (h : c.Meets (balance (fun _ => True) d) Q) : Q r m := by
  induction hrun generalizing d with
  | ended => exact h
  | asks _ _ ihdone ihrest => exact ihrest (h.2 _ _ (ihdone (meets_balance_any host limit _ _)))

/-- A task ends with the counter and what is held as they were. -/
theorem Finishes.balanced {k : Kind} {task : Task k} {m m' : Machine σ} {r : Except RuntimeFault k.Answer}
    (hrun : Finishes host limit (task.plan host limit m) r m') : Balanced (fun _ => True) m r m' :=
  hrun.of_meets_balance (meets_balance_any host limit task m)

theorem Asks.depth_eq {x : Activation σ} (hx : Asks host limit c x) (h : c.Meets (balance (fun _ => True) d) Q) :
    x.machine.depth = d := by
  induction hx with
  | first => exact h.1
  | later hdone _ ih => exact ih (h.2 _ _ hdone.balanced)

/-- What one task asks for is asked for at its depth, or one deeper by the call of a script function. -/
theorem Activation.Activates.depth_eq {x y : Activation σ} (h : x.Activates host limit y) :
    y.machine.depth = x.machine.depth + x.task.frames := Asks.depth_eq h (meets_balance_any host limit _ _)

theorem Course.UnderWay.depth_eq (h : c.Meets (balance (fun _ => True) d) Q) {x : Activation σ}
    {below : List (Activation σ)} (hx : c.UnderWay host limit (x :: below)) :
    x.machine.depth = d + frames below := by
  generalize htasks : x :: below = tasks at hx
  induction hx generalizing x below with
  | first hx =>
    cases htasks
    exact hx.depth_eq h
  | @next y z rest hy hz ih =>
    cases htasks
    rw [hz.depth_eq, ih rfl, frames_cons]
    omega

/-- At the limit the call of a script function is refused at once. -/
theorem enter_of_limit_le {f : ClosureId} {args : List Value} {span : Span} {m : Machine σ} (h : limit ≤ m.depth) :
    Plan.enter limit f args span m = .ended (.error ⟨.callDepthExceeded limit, span⟩) m := by
  show (if limit ≤ m.depth then _ else _ : Plan σ Value) m = _
  rw [if_pos h]
  rfl

/-- The call of a script function asks for something only below the limit. -/
theorem Activation.Activates.lt_limit {y : Activation σ} {args : List Value} {f : ClosureId} {span : Span}
    {m : Machine σ} (h : Activation.Activates host limit ⟨_, .enter f args span, m⟩ y) : m.depth < limit := by
  refine Nat.lt_of_not_le fun hfull => ?_
  have hasks : Asks host limit (Plan.enter limit f args span m) y := h
  rw [enter_of_limit_le hfull] at hasks
  cases hasks

theorem Activation.Activates.depth_le {x y : Activation σ} (h : x.Activates host limit y)
    (hx : x.machine.depth ≤ limit) : y.machine.depth ≤ limit := by
  rw [h.depth_eq]
  obtain ⟨k, task, m⟩ := x
  cases task with
  | enter f args span => exact h.lt_limit
  | _ => exact hx

end Runs

/-! ## Refusals -/

section Refusals

variable {host : Host σ} {limit l : Nat} {span : Span} {m : Machine σ}

/-- A course that has its tasks done at a depth, and does not end with a fault, raises it only if they have. -/
theorem not_raises_of_meets {c : Course σ α} {f : RuntimeFault} {d : Nat}
    {Q : Except RuntimeFault α → Machine σ → Prop} (h : c.Meets (balance (· ≠ f) d) Q) (hQ : ∀ m, ¬Q (.error f) m) :
    ¬Raises host limit f c := by
  refine not_raises (fun task m r m' _ hdone hnew => ?_) h hQ
  obtain ⟨hdepth, hheld, -⟩ := hdone.balanced
  exact ⟨hdepth, hheld, fun g hg heq => hnew (heq ▸ hg)⟩

theorem lenient_ne : Lenient (· ≠ ⟨.callDepthExceeded l, span⟩) := by
  rintro e place he ⟨⟩
  exact he l rfl

/-- The call of a script function is refused where the counter has reached the limit, and only there. -/
theorem raises_enter_iff {f : ClosureId} {args : List Value} {place : Span} :
    Raises host limit ⟨.callDepthExceeded l, span⟩ (Plan.enter limit f args place m) ↔
      limit ≤ m.depth ∧ l = limit ∧ span = place := by
  constructor
  · intro h
    refine Decidable.byContradiction fun hnot => ?_
    refine not_raises_of_meets (meets_enter lenient_ne fun hfull heq => hnot ?_) (fun _ hr => hr.fault _ rfl rfl) h
    cases heq
    exact ⟨hfull, rfl, rfl⟩
  · rintro ⟨hfull, rfl, rfl⟩
    rw [enter_of_limit_le hfull]
    exact .ended m

/-- What is neither the call of a script function nor that of a function of the host refuses no call. -/
theorem not_raises_of_frames_eq_zero {k : Kind} {task : Task k} (htask : task.frames = 0) (hhost : ¬task.CallsHost) :
    ¬Raises host limit ⟨.callDepthExceeded l, span⟩ (task.plan host limit m) := by
  refine not_raises_of_meets (meets_balance lenient_ne host limit task m (fun h => absurd h hhost) fun h => ?_)
    fun _ hr => hr.fault _ rfl rfl
  omega

end Refusals

/-! ## Actions -/

section Actions

/-- The counter counts the calls of script functions in an action of the host. -/
structure Action.CountsFrames (host : Host σ) (limit : Nat) (a : Action) (m : Machine σ) : Prop where
  /-- The tasks that are spoken of are those of the action. -/
  course : Finishes host limit (a.plan m) (a.run host limit m).1 (a.run host limit m).2
  /-- Where a task starts, the counter has grown by the frames below it. -/
  asked : ∀ x below, (a.plan m).UnderWay host limit (x :: below) → x.machine.depth = m.depth + frames below
  /-- Where a task ends, with an answer or a fault, it is the same. -/
  done : ∀ x below, (a.plan m).UnderWay host limit (x :: below) → ∀ r m',
    Finishes host limit (x.task.plan host limit x.machine) r m' → m'.depth = m.depth + frames below
  bounded : m.depth ≤ limit → ∀ x, (a.plan m).Reaches host limit x → x.machine.depth ≤ limit
  /-- Apart from functions of the host, who may fail with any error, it is the calls of script functions at the limit
  that raise the fault of a refused call. -/
  refused : ∀ x, (a.plan m).Reaches host limit x → ¬x.task.CallsHost → ∀ l span,
    x.Raises host limit ⟨.callDepthExceeded l, span⟩ ↔
      limit ≤ x.machine.depth ∧ l = limit ∧ ∃ c args, x = ⟨_, .enter c args span, x.machine⟩
  /-- Such a fault has been raised by a task. -/
  raised : ∀ l span, (a.run host limit m).1 = .error ⟨.callDepthExceeded l, span⟩ →
    ∃ x, (a.plan m).Reaches host limit x ∧ x.Raises host limit ⟨.callDepthExceeded l, span⟩
  restored : (a.run host limit m).2.depth = m.depth

variable {host : Host σ} {limit : Nat} {F : RuntimeFault → Prop}

theorem Action.meets_balance (hF : Lenient F) (a : Action) (m : Machine σ) :
    (a.plan m).Meets (balance F m.depth) (Balanced F m) := by
  cases a with
  | execute scope p => exact (steadiness hF).program p m
  | call callee args => exact (steadiness hF).callPlan trivial callee args m

theorem Action.refuses_iff {x : Activation σ} (hhost : ¬x.task.CallsHost) (l : Nat) (span : Span) :
    x.Raises host limit ⟨.callDepthExceeded l, span⟩ ↔
      limit ≤ x.machine.depth ∧ l = limit ∧ ∃ c args, x = ⟨_, .enter c args span, x.machine⟩ := by
  obtain ⟨k, task, m⟩ := x
  by_cases htask : task.frames = 0
  · refine iff_of_false (not_raises_of_frames_eq_zero htask hhost) ?_
    rintro ⟨-, -, c, args, heq⟩
    cases heq
    cases htask
  · cases task with
    | enter c args place =>
      refine raises_enter_iff.trans (and_congr_right fun _ => and_congr_right fun _ => ?_)
      constructor
      · rintro rfl
        exact ⟨c, args, rfl⟩
      · rintro ⟨_, _, heq⟩
        cases heq
        rfl
    | _ => exact absurd rfl htask

/-- Whatever a host does with scripts and their functions, however its own functions call back: the counter counts the
calls of script functions that are under way, it stays within the limit, calls are refused at the limit and only there,
and afterwards it is what it was. -/
theorem calls_counted (host : Host σ) (limit : Nat) (a : Action) (m : Machine σ) : a.CountsFrames host limit m := by
  have hmeets := a.meets_balance (F := fun _ => True) (fun _ _ _ => trivial) m
  have hcourse := a.finishes_run host limit m
  refine ⟨hcourse, fun x below hx => hx.depth_eq hmeets, ?_, ?_, fun x _ hhost => Action.refuses_iff hhost, ?_, ?_⟩
  · intro x below hx r m' hrun
    exact hrun.balanced.depth.trans (hx.depth_eq hmeets)
  · rintro hm x ⟨y, hy, hyx⟩
    induction hyx with
    | refl => exact hy.depth_eq hmeets ▸ hm
    | tail _ hx ih => exact hx.depth_le ih
  · intro l span hr
    refine (hcourse.exists_raises hr).resolve_left ?_
    exact not_raises_of_meets (a.meets_balance lenient_ne m) fun _ hr => hr.fault _ rfl rfl
  · exact (hcourse.of_meets_balance hmeets).depth

end Actions

end GameScript
