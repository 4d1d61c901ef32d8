import GameScript.Proofs.Run.Pieces

/-!
# A higher limit changes nothing

The limit is read where a script function is called, and only there. A run is `Roomy` when every such call on its way
finds the counter below the limit, and then it is a run under every higher limit (`Roomy.mono`), task by task.

That no call is refused is what roominess means (`roomy_iff`): not even a call whose refusal a function of the host
would have swallowed.

Main statement: where no call is refused, a higher limit gives the same answer or the same fault, the same calls of
functions of the host and the same machine (`higher_limit_changes_nothing`).
-/

namespace GameScript

variable {σ α : Type}

section Room

variable {l l' : Nat}

/-- A task that is done at a depth finds room under a limit: it is not the call of a script function, or the counter is
below the limit. -/
def Task.HasRoom (limit d : Nat) {k : Kind} (task : Task k) : Prop := task.frames = 1 → d < limit

theorem Task.HasRoom.mono {k : Kind} {task : Task k} {d : Nat} (h : task.HasRoom l d) (hle : l ≤ l') :
    task.HasRoom l' d := fun hf => Nat.lt_of_lt_of_le (h hf) hle

/-- What a task does is the same under all limits that leave room for it. -/
theorem Task.plan_eq_of_hasRoom (host : Host σ) {k : Kind} {task : Task k} {m : Machine σ}
    (h : task.HasRoom l m.depth) (hle : l ≤ l') : task.plan host l' m = task.plan host l m := by
  cases task with
  | enter c args span =>
    have hroom : m.depth < l := h rfl
    have hlow : ¬l ≤ m.depth := Nat.not_le.2 hroom
    have hhigh : ¬l' ≤ m.depth := Nat.not_le.2 (Nat.lt_of_lt_of_le hroom hle)
    show (if l' ≤ m.depth then _ else _ : Plan σ Value) m = (if l ≤ m.depth then _ else _ : Plan σ Value) m
    rw [if_neg hlow, if_neg hhigh]
  | invoke callee args span => cases callee <;> rfl
  | _ => rfl

end Room

/-! ## Roomy runs -/

section Roomy

/-- A course ends with a result at a machine, and every task on the way finds room under the limit. -/
inductive Roomy (host : Host σ) (limit : Nat) :
    {α : Type} → Course σ α → Except RuntimeFault α → Machine σ → Prop
  | ended {α : Type} (result : Except RuntimeFault α) (m : Machine σ) : Roomy host limit (.ended result m) result m
  | asks {α : Type} {k : Kind} {task : Task k} {m m' m'' : Machine σ}
      {resume : Except RuntimeFault k.Answer → Machine σ → Course σ α} {answer : Except RuntimeFault k.Answer}
      {result : Except RuntimeFault α} (hroom : task.HasRoom limit m.depth)
      (hdone : Roomy host limit (task.plan host limit m) answer m')
      (hrest : Roomy host limit (resume answer m') result m'') : Roomy host limit (.asks task m resume) result m''

variable {host : Host σ} {l l' : Nat} {c : Course σ α} {r : Except RuntimeFault α} {m : Machine σ}
  {x : Activation σ}

theorem Roomy.finishes (h : Roomy host l c r m) : Finishes host l c r m := by
  induction h with
  | ended => exact .ended _ _
  | asks _ _ _ ihdone ihrest => exact .asks ihdone ihrest

/-- A roomy run is a run under every higher limit, by induction on the run. -/
theorem Roomy.mono (h : Roomy host l c r m) (hle : l ≤ l') : Roomy host l' c r m := by
  induction h with
  | ended => exact .ended _ _
  | asks hroom _ _ ihdone ihrest =>
    exact .asks (hroom.mono hle) (Task.plan_eq_of_hasRoom host hroom hle ▸ ihdone) ihrest

/-- What a roomy run asks for finds room, and is done in a roomy run of its own. -/
theorem Roomy.of_asks (h : Roomy host l c r m) (hx : Asks host l c x) :
    x.task.HasRoom l x.machine.depth ∧ ∃ r' m', Roomy host l (x.task.plan host l x.machine) r' m' := by
  induction h with
  | ended => cases hx
  | asks hroom hdone _ _ ih =>
    cases hx with
    | first => exact ⟨hroom, _, _, hdone⟩
    | later hdone' hrest =>
      obtain ⟨rfl, rfl⟩ := hdone.finishes.unique hdone'
      exact ih hrest

theorem Roomy.of_reaches (h : Roomy host l c r m) (hx : c.Reaches host l x) :
    x.task.HasRoom l x.machine.depth ∧ ∃ r' m', Roomy host l (x.task.plan host l x.machine) r' m' := by
  obtain ⟨y, hy, hyx⟩ := hx
  induction hyx with
  | refl => exact h.of_asks hy
  | tail _ hz ih =>
    obtain ⟨-, r', m', hrun⟩ := ih
    exact hrun.of_asks hz

/-- A run is roomy when everything that it reaches finds room. -/
theorem Finishes.roomy (h : Finishes host l c r m)
    (hroom : ∀ x, c.Reaches host l x → x.task.HasRoom l x.machine.depth) :
    Roomy host l c r m := by
  induction h with
  | ended => exact .ended _ _
  | asks hdone _ ihdone ihrest =>
    have hfirst := hroom _ (Asks.reaches .first)
    refine .asks hfirst (ihdone fun x ⟨y, hy, hyx⟩ => ?_) (ihrest fun x ⟨y, hy, hyx⟩ => ?_)
    · exact hroom x ⟨_, .first, hyx.head hy⟩
    · exact hroom x ⟨y, .later hdone hy, hyx⟩

/-- A roomy run asks for the same under every higher limit. -/
theorem Roomy.asks_iff (h : Roomy host l c r m) (hle : l ≤ l') : Asks host l' c x ↔ Asks host l c x := by
  induction h with
  | ended => exact iff_of_false nofun nofun
  | asks hroom hdone _ _ ih =>
    have hplan := Task.plan_eq_of_hasRoom host hroom hle
    have hhigh := (hdone.mono hle).finishes
    constructor
    · intro hx
      cases hx with
      | first => exact .first
      | later hdone' hrest =>
        obtain ⟨rfl, rfl⟩ := hhigh.unique (hplan ▸ hdone')
        exact .later hdone.finishes (ih.1 hrest)
    · intro hx
      cases hx with
      | first => exact .first
      | later hdone' hrest =>
        obtain ⟨rfl, rfl⟩ := hdone.finishes.unique hdone'
        exact .later (hplan ▸ hhigh) (ih.2 hrest)

/-- A roomy run reaches the same under every higher limit. -/
theorem Roomy.reaches_iff (h : Roomy host l c r m) (hle : l ≤ l') : c.Reaches host l' x ↔ c.Reaches host l x := by
  have hstep {y z : Activation σ} (hy : c.Reaches host l y) : y.Activates host l' z ↔ y.Activates host l z := by
    obtain ⟨hroom, r', m', hrun⟩ := h.of_reaches hy
    unfold Activation.Activates
    rw [Task.plan_eq_of_hasRoom host hroom hle]
    exact hrun.asks_iff hle
  constructor
  · rintro ⟨y, hy, hyx⟩
    induction hyx with
    | refl => exact ((h.asks_iff hle).1 hy).reaches
    | tail _ hz ih => exact ih.activates ((hstep ih).1 hz)
  · rintro ⟨y, hy, hyx⟩
    suffices hboth : c.Reaches host l x ∧ c.Reaches host l' x from hboth.2
    induction hyx with
    | refl => exact ⟨hy.reaches, ((h.asks_iff hle).2 hy).reaches⟩
    | tail _ hz ih => exact ⟨ih.1.activates hz, ih.2.activates ((hstep ih.1).2 hz)⟩

/-- A roomy run makes the same calls of functions of the host under every higher limit. -/
theorem Roomy.makesCalls (h : Roomy host l c r m) (hle : l ≤ l') :
    ∃ log, c.MakesCalls host l log ∧ c.MakesCalls host l' log := by
  induction h with
  | ended => exact ⟨[], .ended _ _, .ended _ _⟩
  | asks hroom hdone _ ihdone ihrest =>
    obtain ⟨below, hlow, hhigh⟩ := ihdone
    obtain ⟨rest, hlow', hhigh'⟩ := ihrest
    have hplan := Task.plan_eq_of_hasRoom host hroom hle
    exact ⟨_, .asks hdone.finishes hlow hlow', .asks (hplan ▸ (hdone.mono hle).finishes) (hplan ▸ hhigh) hhigh'⟩

end Roomy

/-! ## Actions -/

section Actions

variable {host : Host σ} {l l' : Nat} {a : Action} {m : Machine σ}

/-- No call of a script function is refused in what a host does, wherever it is made and whatever becomes of the
refusal. -/
def Action.NeverRefuses (host : Host σ) (limit : Nat) (a : Action) (m : Machine σ) : Prop :=
  ∀ x, (a.plan m).Reaches host limit x → ¬x.task.CallsHost → ∀ l span, ¬x.Raises host limit ⟨.callDepthExceeded l, span⟩

/-- No call is refused where the run is roomy, and only there. -/
theorem Action.neverRefuses_iff : a.NeverRefuses host l m ↔ ∃ r m', Roomy host l (a.plan m) r m' := by
  constructor
  · refine fun h => ⟨_, _, (a.finishes_run host l m).roomy fun x hx hframes => ?_⟩
    obtain ⟨k, task, n⟩ := x
    cases task with
    | enter c args span =>
      refine Nat.lt_of_not_le fun hfull => h _ hx id l span ?_
      exact (Action.refuses_iff (x := ⟨_, .enter c args span, n⟩) id l span).2 ⟨hfull, rfl, c, args, rfl⟩
    | _ => cases hframes
  · rintro ⟨r, m', h⟩ x hx hhost limit span hraises
    obtain ⟨hfull, -, c, args, heq⟩ := (Action.refuses_iff hhost limit span).1 hraises
    obtain ⟨hroom, -⟩ := h.of_reaches hx
    rw [heq] at hroom hfull
    exact Nat.not_lt.2 hfull (hroom rfl)

/-- What a host does is the same under two limits: it ends with the same answer or the same fault at the same machine,
with the same calls of its functions, and all tasks on the way are the same. -/
structure Action.SameUnder (host : Host σ) (l l' : Nat) (a : Action) (m : Machine σ) : Prop where
  course : Finishes host l (a.plan m) (a.run host l m).1 (a.run host l m).2
  run : a.run host l' m = a.run host l m
  calls : ∃ log, (a.plan m).MakesCalls host l log ∧ (a.plan m).MakesCalls host l' log
  tasks : ∀ x, (a.plan m).Reaches host l' x ↔ (a.plan m).Reaches host l x

/-- Where no call of a script function is refused, whatever a host does with scripts and their functions is the same
under every higher limit. -/
theorem higher_limit_changes_nothing (hle : l ≤ l') (h : a.NeverRefuses host l m) : a.SameUnder host l l' m := by
  obtain ⟨r, m', hroomy⟩ := Action.neverRefuses_iff.1 h
  obtain ⟨rfl, rfl⟩ := hroomy.finishes.unique (a.finishes_run host l m)
  obtain ⟨hresult, hmachine⟩ := (a.finishes_run host l' m).unique (hroomy.mono hle).finishes
  exact ⟨a.finishes_run host l m, Prod.ext hresult hmachine, hroomy.makesCalls hle, fun x => hroomy.reaches_iff hle⟩

end Actions

/-- A host of one function, which calls its argument and makes `undefined` of a failure. -/
def swallowingHost : Host Unit where
  call _ _ args m _ :=
    match args with
    | [.closure c] => .enter c [] [] m () fun answer m _ => .finish (.ok (answer.toOption.getD .undefined)) m ()
    | _ => .finish (.ok .undefined) m ()

/-- A machine with one scope and in it the function of `function() { return 1; }`. -/
def oneMachine : Machine Unit :=
  let one : Expression := .prefixed ⟨.ret, ⟨13, 19⟩⟩ (.value (.int 1)) ⟨13, 21⟩
  ⟨{ scopes := #[⟨[("f", .closure ⟨0⟩)], none, 0⟩], closures := #[⟨[], ⟨[⟨one, ⟨13, 22⟩⟩], ⟨11, 24⟩⟩, ⟨0⟩⟩] }, 0, ()⟩

/-- One level is enough for the function to call a script function. -/
theorem higher_limit_changes_nothing_swallowing :
    (Action.call (.native ⟨0⟩) [.closure ⟨0⟩]).SameUnder swallowingHost 1 5 oneMachine ∧
      ((Action.call (.native ⟨0⟩) [.closure ⟨0⟩]).run swallowingHost 1 oneMachine).1 = .ok (.int 1) := by
  -- the function of the host, the closure, its statements, the `return` and its operand: only the closure needs room
  have hroomy : ∃ r m', Roomy swallowingHost 1 ((Action.call (.native ⟨0⟩) [.closure ⟨0⟩]).plan oneMachine) r m' :=
    ⟨_, _, .asks nofun (.asks (fun _ => by decide) (.asks nofun (.asks nofun (.asks nofun (.ended _ _) (.ended _ _))
      (.ended _ _)) (.ended _ _)) (.ended _ _)) (.ended _ _)⟩
  exact ⟨higher_limit_changes_nothing (by decide) (Action.neverRefuses_iff.2 hroomy), rfl⟩

/-- Without a level the call is refused, and the function hides it: a higher limit does change something. -/
example : ((Action.call (.native ⟨0⟩) [.closure ⟨0⟩]).run swallowingHost 0 oneMachine).1 = .ok .undefined := rfl

end GameScript
