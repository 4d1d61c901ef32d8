import GameScript.Proofs.Run.Habits
import GameScript.Proofs.Run.Journal
import GameScript.Proofs.Run.Upkeep

/-!
# Journals tally

A journal tallies when the objects at every task that it asks for and where it ends are what its notes make of those at
the start (`Journal.Tallies`). A part of the evaluator that notes nothing does nothing to objects by itself
(`Plan.LeavesObjects`, a habit), and what is noted elsewhere is what is done there, provided that a property is set only
of an object that has been made: that is up to a discipline (`Discipline.tallies_journal`), and for functions of the host
to the account that it gives (`Host.Accounts`).

Main statement: if the journals of all tasks tally, then at every moment of a run objects are what has become of those at
an earlier one by the deeds that are noted in between (`Journal.Tallies.followed`, `Followed.performed_between`).
-/

namespace GameScript

open Eval

variable {σ α β : Type}

/-! ## What does nothing to objects -/

/-- A course that does nothing to objects by itself: they are as they were, or as the last task has left them. -/
def Course.LeavesObjects : Array (Entries Value) → Course σ α → Prop
  | h, ended _ m => m.memory.objects = h
  | h, asks _ m resume => m.memory.objects = h ∧ ∀ answer m', (resume answer m').LeavesObjects m'.memory.objects

/-- A plan that does nothing to objects by itself. -/
def Plan.LeavesObjects (act : Plan σ α) : Prop := ∀ m, (act m).LeavesObjects m.memory.objects

section Leaves

variable {span : Span} {h : Array (Entries Value)}

theorem Course.LeavesObjects.andThen {c : Course σ α} {next : Except RuntimeFault α → Machine σ → Course σ β}
    (hc : c.LeavesObjects h) (hnext : ∀ r m, (next r m).LeavesObjects m.memory.objects) :
    (c.andThen next).LeavesObjects h := by
  induction c generalizing h with
  | ended r m => exact hc ▸ hnext r m
  | asks task m resume ih => exact ⟨hc.1, fun r m' => ih r m' (hc.2 r m')⟩

theorem Plan.leavesObjects_pure (a : α) : (pure a : Plan σ α).LeavesObjects := fun _ => rfl

theorem Plan.LeavesObjects.bind {act : Plan σ β} {f : β → Plan σ α} (h : act.LeavesObjects)
    (hf : ∀ b, (f b).LeavesObjects) : (act >>= f).LeavesObjects := by
  intro m
  refine (h m).andThen fun r m' => ?_
  cases r with
  | ok b => exact hf b m'
  | error e => rfl

theorem Plan.leavesObjects_ask {k : Kind} (task : Task k) : (Plan.ask task : Plan σ k.Answer).LeavesObjects :=
  fun _ => ⟨rfl, fun _ _ => rfl⟩

theorem Plan.LeavesObjects.holding {act : Plan σ α} {cells : List Cell} (h : act.LeavesObjects) :
    (act.holding cells).LeavesObjects := fun m =>
  (h { m with memory := m.memory.holding cells }).andThen fun _ _ => rfl

theorem Plan.LeavesObjects.deeper {act : Plan σ α} (h : act.LeavesObjects) : act.deeper.LeavesObjects := fun m =>
  (h { m with depth := m.depth + 1 }).andThen fun _ _ => rfl

theorem Plan.LeavesObjects.attempt {act : Plan σ α} (h : act.LeavesObjects) : act.attempt.LeavesObjects := fun m =>
  (h m).andThen fun _ _ => rfl

/-- What does nothing to objects. -/
def leavingObjects : Conduct where
  change m n := n.objects = m.objects
  fault _ := True
  place _ := True
  change_refl _ := rfl
  change_trans h h' := h'.trans h
  change_bind _ _ _ _ := rfl
  change_newScope _ _ := rfl
  change_newClosure _ _ := rfl
  fault_of_place _ _ := trivial

/-- The habit of doing nothing to objects. -/
def restraint (σ : Type) : Habit σ where
  toConduct := leavingObjects
  plan := Plan.LeavesObjects
  now h m := (h m).change
  bind := .bind
  ask _ := Plan.leavesObjects_ask _
  holding := .holding

theorem leavesObjects_enter (limit : Nat) (c : ClosureId) (args : List Value) :
    (Plan.enter limit c args span : Plan σ Value).LeavesObjects := by
  intro m
  by_cases hdeep : limit ≤ m.depth
  · show ((if limit ≤ m.depth then _ else _ : Plan σ Value) m).LeavesObjects _
    rw [if_pos hdeep]
    rfl
  · rw [enter_eq hdeep]
    split
    · rename_i t k hnew
      have hbody : (Plan.body (Plan.holding [.scope t]
          (Plan.ask (.statements t (m.memory.closure c).body.body))) : Plan σ Value).LeavesObjects :=
        (Plan.leavesObjects_ask _).holding.deeper.bind fun _ => Plan.leavesObjects_pure _
      exact leavingObjects.change_newFunctionScope hnew ▸ hbody { m with memory := k }
    · rfl

end Leaves

/-! ## Journals that tally -/

/-- Where a journal asks for a task and where it ends, objects are what its notes make of those at the start, or of
those that the last task has left; and it ends as `Q` says when the tasks end as a contract promises. -/
def Journal.Tallies (C : Contract σ) (Q : Except RuntimeFault α → Machine σ → Prop) :
    Array (Entries Value) → Journal σ α → Prop
  | h, ended r m => m.memory.objects = h ∧ Q r m
  | h, asks task m resume => m.memory.objects = h ∧
    ∀ answer m', C.post task m answer m' → (resume answer m').Tallies C Q m'.memory.objects
  | h, notes ds rest => ∃ h', Performed h ds h' ∧ rest.Tallies C Q h'

section Rules

variable {C : Contract σ} {Q : Except RuntimeFault α → Machine σ → Prop} {j : Journal σ α} {h : Array (Entries Value)}
  {m : Machine σ}

theorem Journal.Tallies.mono {Q' : Except RuntimeFault α → Machine σ → Prop} (hj : j.Tallies C Q h)
    (hq : ∀ r m, Q r m → Q' r m) : j.Tallies C Q' h := by
  induction j generalizing h with
  | ended r m => exact ⟨hj.1, hq _ _ hj.2⟩
  | asks task m resume ih => exact ⟨hj.1, fun answer m' ha => ih answer m' (hj.2 answer m' ha)⟩
  | notes ds rest ih =>
    obtain ⟨h', hdone, hrest⟩ := hj
    exact ⟨h', hdone, ih hrest⟩

theorem Journal.Tallies.andThen {next : Except RuntimeFault α → Machine σ → Journal σ β}
    {Q : Except RuntimeFault β → Machine σ → Prop}
    (hj : j.Tallies C (fun r m => (next r m).Tallies C Q m.memory.objects) h) : (j.andThen next).Tallies C Q h := by
  induction j generalizing h with
  | ended r m => exact hj.1 ▸ hj.2
  | asks task m resume ih => exact ⟨hj.1, fun answer m' ha => ih answer m' (hj.2 answer m' ha)⟩
  | notes ds rest ih =>
    obtain ⟨h', hdone, hrest⟩ := hj
    exact ⟨h', hdone, ih hrest⟩

theorem Course.LeavesObjects.tallies {c : Course σ α} (hc : c.LeavesObjects h) (hmeets : c.Meets C Q) :
    c.journal.Tallies C Q h := by
  induction c generalizing h with
  | ended r m => exact ⟨hc, hmeets⟩
  | asks task m resume ih => exact ⟨hc.1, fun answer m' ha => ih answer m' (hc.2 answer m') (hmeets.2 answer m' ha)⟩

/-- A computation that does what is noted. -/
theorem tallies_noting_ok {ev : Eval σ α} {ds : List Deed} {a : α} {m' : Machine σ} (hev : ev m = (.ok a, m'))
    (hdone : Performed h ds m'.memory.objects) (hq : Q (.ok a) m') : (Noted.noting ds ev m).Tallies C Q h := by
  unfold Noted.noting
  rw [hev]
  exact ⟨_, hdone, rfl, hq⟩

/-- One that fails, and does nothing. -/
theorem tallies_noting_error {ev : Eval σ α} {ds : List Deed} {f : RuntimeFault} {m' : Machine σ}
    (hev : ev m = (.error f, m')) (hsame : m'.memory.objects = h) (hq : Q (.error f) m') :
    (Noted.noting ds ev m).Tallies C Q h := by
  unfold Noted.noting
  rw [hev]
  exact ⟨hsame, hq⟩

end Rules

/-! ## Runs -/

/-- What becomes of objects on a trail: they are at every moment what they have become by what is noted until then. -/
inductive Followed : Array (Entries Value) → List (Mark σ) → Array (Entries Value) → Prop
  | done {h : Array (Entries Value)} : Followed h [] h
  | moment {m : Machine σ} {trail : List (Mark σ)} {h' : Array (Entries Value)}
    (hrest : Followed m.memory.objects trail h') : Followed m.memory.objects (.moment m :: trail) h'
  | did {ds : List Deed} {trail : List (Mark σ)} {h h' h'' : Array (Entries Value)} (hdone : Performed h ds h')
    (hrest : Followed h' trail h'') : Followed h (.did ds :: trail) h''

namespace Followed

variable {h h' h'' : Array (Entries Value)} {trail trail' before between after : List (Mark σ)} {k k' : Machine σ}

theorem trans (ht : Followed h trail h') (ht' : Followed h' trail' h'') : Followed h (trail ++ trail') h'' := by
  induction ht with
  | done => exact ht'
  | moment _ ih => exact .moment (ih ht')
  | did hdone _ ih => exact .did hdone (ih ht')

/-- A trail is followed part by part. -/
theorem exists_of_append (ht : Followed h (trail ++ trail') h'') : ∃ h', Followed h trail h' ∧ Followed h' trail' h'' := by
  induction trail generalizing h with
  | nil => exact ⟨h, .done, ht⟩
  | cons _ _ ih =>
    cases ht with
    | moment hrest =>
      obtain ⟨h', hfirst, hsecond⟩ := ih hrest
      exact ⟨h', .moment hfirst, hsecond⟩
    | did hdone hrest =>
      obtain ⟨h', hfirst, hsecond⟩ := ih hrest
      exact ⟨h', .did hdone hfirst, hsecond⟩

/-- All that is noted has been done. -/
theorem performed (ht : Followed h trail h') : Performed h (trailDeeds trail) h' := by
  induction ht with
  | done => exact .done
  | moment _ ih => exact ih
  | did hdone _ ih => exact hdone.trans ih

/-- What is noted before a moment has been done until then. -/
theorem performed_until (ht : Followed h (before ++ .moment k :: after) h') :
    Performed h (trailDeeds before) k.memory.objects ∧ Followed k.memory.objects after h' := by
  obtain ⟨h₁, hfirst, hsecond⟩ := exists_of_append ht
  cases hsecond with
  | moment hrest => exact ⟨hfirst.performed, hrest⟩

/-- What is noted between two moments has been done from one to the other. -/
theorem performed_between (ht : Followed h (before ++ .moment k :: (between ++ .moment k' :: after)) h') :
    Performed k.memory.objects (trailDeeds between) k'.memory.objects := ht.performed_until.2.performed_until.1

end Followed

section Runs

variable {account : Account} {host : Host σ} {limit : Nat} {C : Contract σ} {j : Journal σ α}
  {Q Q' : Except RuntimeFault α → Machine σ → Prop} {h : Array (Entries Value)} {trail : List (Mark σ)}

/-- Where the journal of every task tallies that a contract allows, and the contract is kept, the trail of a journal that
tallies is followed. -/
theorem Journal.Tallies.followed (hkept : C.Kept host limit fun _ => True)
    (htask : ∀ {k : Kind} (task : Task k) (m : Machine σ), C.pre task m →
      (task.journal account host limit m).Tallies C (fun _ _ => True) m.memory.objects)
    {r : Except RuntimeFault α} {m : Machine σ} (hend : j.Ends account host limit trail r m) (hj : j.Tallies C Q h)
    (hmeets : j.course.Meets C Q') : Followed h trail m.memory.objects ∧ Q' r m := by
  induction hend generalizing h with
  | ended r m => exact ⟨hj.1 ▸ .moment .done, hmeets⟩
  | asks hdone hrest ihdone ihrest =>
    obtain ⟨hpre, hnext⟩ := hmeets
    obtain ⟨hfirst, hpost⟩ := ihdone (htask _ _ hpre) (course_journal _ _ ▸ hkept _ _ trivial hpre)
    obtain ⟨hsecond, hq⟩ := ihrest (hj.2 _ _ hpost) (hnext _ _ hpost)
    exact ⟨hj.1 ▸ .moment (hfirst.trans hsecond), hq⟩
  | notes _ ih =>
    obtain ⟨h', hnoted, hrest⟩ := hj
    obtain ⟨hdone, hq⟩ := ih hrest hmeets
    exact ⟨.did hnoted hdone, hq⟩

end Runs

/-! ## Functions of the host -/

/-- Whatever a function of the host does to objects is in its account. -/
def HostStep.Accounts (account : Account) : HostStep σ → Array (Entries Value) → Prop
  | .finish _ m _, h => Performed h (account h m.objects) m.objects
  | .enter _ _ _ m _ resume, h => Performed h (account h m.objects) m.objects ∧
    ∀ answer m' s, (resume answer m' s).Accounts account m'.objects

/-- A host whose functions do nothing to objects but to make them and to set their properties, one after another, as the
host accounts for. -/
def Host.Accounts (account : Account) (host : Host σ) : Prop :=
  ∀ n span args m s, (host.call n span args m s).Accounts account m.objects

/-! ## The tasks -/

/-- An update takes over what the change makes of memory, or does nothing. -/
theorem updateMemory_cases (span : Span) (change : Memory → Except RuntimeError Memory) (m : Machine σ) :
    (∃ n, change m.memory = .ok n ∧ updateMemory span change m = (.ok (), { m with memory := n })) ∨
      ∃ e, updateMemory span change m = (.error e, m) := by
  have hstep : updateMemory span change m = (Eval.lift span (change m.memory) >>= setMemory : Eval σ Unit) m := rfl
  rw [hstep, Eval.bind_apply]
  cases hx : change m.memory with
  | ok n => exact .inl ⟨n, rfl, rfl⟩
  | error e => exact .inr ⟨⟨e, span⟩, rfl⟩

namespace Discipline

section Tasks

variable {W : Type} [Preorder W] {D : Discipline σ W} {w : W} {s : ScopeId} {span : Span} {e : Expression}

/-- From every machine that keeps to a world, a plan with notes tallies, and ends so that it keeps to a larger world. -/
def Tallies (D : Discipline σ W) (w : W) (act : Noted σ α) (P : W → α → Prop) : Prop :=
  ∀ m : Machine σ, D.state w m.memory m.state → (act m).Tallies D.contract (D.Ends w P) m.memory.objects

theorem Keeps.tallies {act : Plan σ α} {P : W → α → Prop} (h : D.Keeps w act P) (hact : act.LeavesObjects) :
    D.Tallies w (Noted.of act) P := fun m hm => (hact m).tallies (h m hm)

theorem tallies_pure {a : α} {P : W → α → Prop} (h : P w a) : D.Tallies w (pure a) P := fun _ hm => ⟨rfl, ends_ok hm h⟩

theorem tallies_bind {act : Noted σ α} {f : α → Noted σ β} {P : W → α → Prop} {Q : W → β → Prop}
    (h : D.Tallies w act P) (hf : ∀ w', w ≤ w' → ∀ a, P w' a → D.Tallies w' (f a) Q) :
    D.Tallies w (act >>= f) Q := by
  intro m hm
  refine Journal.Tallies.andThen ((h m hm).mono ?_)
  rintro r m' ⟨w', hle, hm', hr⟩
  cases r with
  | ok a => exact (hf w' hle a hr m' hm').mono fun _ _ hend => hend.mono hle
  | error f => exact ⟨rfl, w', hle, hm', hr⟩

theorem tallies_holding {act : Noted σ α} {cells : List Cell} {P : W → α → Prop} (h : D.Tallies w act P) :
    D.Tallies w (Noted.holding cells act) P := by
  intro m hm
  refine Journal.Tallies.andThen ((h { m with memory := m.memory.holding cells } (D.state_held hm)).mono ?_)
  rintro r m' ⟨w', hle, hm', hr⟩
  exact ⟨rfl, w', hle, D.state_held hm', hr⟩

variable (hmade : ∀ {w m st o}, D.state w m st → D.stored w (.object o) → m.HasObject o)

include hmade

theorem tallies_write {t : Target} {v : Value} (hs : D.scope w s) (ht : D.target w t) (hv : D.stored w v) :
    D.Tallies w (Noted.noting (t.deeds v) (updateMemory span (t.write v s))) fun _ _ => True := by
  intro m hm
  have hends : D.Ends w (fun _ _ => True) (updateMemory span (t.write v s) m).1 (updateMemory span (t.write v s) m).2 :=
    keeps_write hs ht hv m hm
  rcases updateMemory_cases span (t.write v s) m with ⟨n, hn, hdone⟩ | ⟨e, hdone⟩ <;> rw [hdone] at hends
  · refine tallies_noting_ok hdone ?_ hends
    cases t with
    | property r =>
      rw [← Memory.eq_of_write hn]
      exact .set (hmade hm (D.value_reference.1 ht)) .done
    | _ => exact leavingObjects.change_write (.inr fun r => Target.noConfusion) hn ▸ .done
  · exact tallies_noting_error hdone rfl hends

theorem tallies_properties (hs : D.scope w s) {o : ObjectId} (ho : D.stored w (.object o)) {ps : List Property}
    (hps : ∀ p ∈ ps, D.code (.expression p.value)) :
    D.Tallies w (Noted.properties s o ps) fun _ _ => True := by
  induction ps generalizing w with
  | nil => exact tallies_pure trivial
  | cons p rest ih =>
    obtain ⟨key, e⟩ := p
    refine tallies_bind ((keeps_askExpression hs (hps ⟨key, e⟩ List.mem_cons_self)).tallies
      (Plan.leavesObjects_ask _)) fun w₁ h₁ v hv => ?_
    refine tallies_bind ((keeps_resolve hv).tallies ((restraint σ).resolve trivial v)) fun w₂ h₂ u hu => ?_
    have h₁₂ := h₁.trans h₂
    have ho₂ := D.stored_mono h₁₂ ho
    have hset : D.Tallies w₂ (Noted.noting [.set o key u] do setMemory ((← memory).setProperty o key u))
        fun _ _ => True := fun m hm =>
      tallies_noting_ok rfl (.set (hmade hm ho₂) .done) (keeps_setProperty ho₂ hu m hm)
    refine tallies_bind hset fun w₃ h₃ _ _ => ?_
    exact ih (D.scope_mono (h₁₂.trans h₃) hs) (D.stored_mono h₃ ho₂) fun q hq => hps q (List.mem_cons_of_mem _ hq)

theorem tallies_literal (hs : D.scope w s) {ps : List Property} (hps : ∀ p ∈ ps, D.code (.expression p.value)) :
    D.Tallies w (Noted.literal s ps) fun _ _ => True := by
  have hnew : D.Tallies w (Noted.noting [.made] (create (·.newObject []))) fun w' o => D.stored w' (.object o) :=
    fun m hm => tallies_noting_ok rfl (.made .done) (D.state_newObject hm)
  refine tallies_bind hnew fun w₁ h₁ o ho => ?_
  refine tallies_bind (tallies_holding (tallies_properties hmade (D.scope_mono h₁ hs) ho hps)) fun w₂ h₂ _ _ => ?_
  exact tallies_pure trivial

theorem tallies_assignment (hs : D.scope w s) (he : D.Evaluable e) (hop : e.operator? = some .assign) :
    D.Tallies w (Noted.assignment s e) fun _ _ => True := by
  obtain ⟨hvalue, htarget⟩ := keeps_assigned hs he hop
  refine tallies_bind (hvalue.tallies ((restraint σ).slotValue trivial _)) fun w₁ h₁ v hv => ?_
  have hs₁ : D.scope w₁ s := D.scope_mono h₁ hs
  refine tallies_bind (P := fun _ _ => True) (tallies_holding ?_) fun w₂ h₂ _ _ => tallies_pure trivial
  refine tallies_bind ((htarget hs₁).tallies ((restraint σ).target trivial _ _)) fun w₂ h₂ t ht => ?_
  exact tallies_write hmade (D.scope_mono h₂ hs₁) ht (D.stored_mono h₂ hv)

theorem tallies_compound (hs : D.scope w s) (he : D.code (.expression e)) {base : OperatorKind}
    (hop : ∃ op ∈ e.op, op.kind.compoundBase = some base) :
    D.Tallies w (Noted.compound s base e) fun _ _ => True := by
  obtain ⟨hvalue, htarget⟩ := keeps_compounded hs he hop
  refine tallies_bind (hvalue.tallies ((restraint σ).slotValue trivial _)) fun w₁ h₁ v hv => tallies_holding ?_
  have hs₁ : D.scope w₁ s := D.scope_mono h₁ hs
  refine tallies_bind ((htarget hs₁).tallies ((restraint σ).target trivial _ _)) fun w₂ h₂ t ht => ?_
  have hs₂ : D.scope w₂ s := D.scope_mono h₂ hs₁
  refine tallies_bind ((keeps_read hs₂ ht).tallies ((restraint σ).read trivial t)) fun w₃ h₃ current hcurrent => ?_
  refine tallies_bind (keeps_applyBinary.tallies ((restraint σ).applyBinary trivial base current v))
    fun w₄ h₄ u hu => ?_
  have ht₄ : D.target w₄ t := target_mono (h₃.trans h₄) ht
  exact tallies_bind (tallies_write hmade (D.scope_mono (h₃.trans h₄) hs₂) ht₄ hu) fun w₅ h₅ _ _ => tallies_pure trivial

end Tasks

section Runs

variable {W : Type} [Preorder W] {D : Discipline σ W} {account : Account} {host : GameScript.Host σ} {limit : Nat}

/-- What a function of the host does tallies with its account. -/
theorem tallies_hostStep {span : Span} (step : HostStep σ) :
    ∀ w m, D.Step step w → step.Accounts account m.memory.objects →
      (Noted.hostStep account span step m).Tallies D.contract (fun _ _ => True) m.memory.objects := by
  induction step with
  | finish result mem st =>
    intro w m _ haccount
    refine Journal.Tallies.andThen (tallies_noting_ok rfl haccount ?_)
    cases result <;> exact ⟨rfl, trivial⟩
  | enter c args kept mem st resume ih =>
    rintro w m ⟨w', hle, hm, hc, hargs, hresume⟩ ⟨hdone, haccount⟩
    refine Journal.Tallies.andThen (tallies_noting_ok rfl hdone ?_)
    have henter : D.Keeps w' (Plan.ask (.enter c args {})) D.stored := keeps_askEnter hc hargs
    have hleaves : (Plan.attempt (Plan.holding (.closure c :: Value.cells kept)
        (Plan.ask (.enter c args {}))) : Plan σ _).LeavesObjects := (Plan.leavesObjects_ask _).holding.attempt
    have hm' : D.state w' { mem with held := m.memory.held } st := D.state_held hm
    refine Journal.Tallies.andThen ((hleaves _).tallies
      ((keeps_attempt (keeps_holding henter) ⟨_, m.depth, st⟩ hm').mono ?_))
    rintro r m₁ ⟨w₁, h₁, hm₁, hr⟩
    cases r with
    | error f => exact ⟨rfl, trivial⟩
    | ok answer =>
      refine ih _ _ _ w₁ m₁ (hresume _ _ _ w₁ h₁ (D.state_held hm₁) ?_) (haccount _ _ _)
      cases answer with
      | ok v => exact hr
      | error f => exact D.error_of_fault hr

/-- The journal of every task tallies that a discipline allows, if what is stored has been made. -/
theorem tallies_journal (hmade : ∀ {w m st o}, D.state w m st → D.stored w (.object o) → m.HasObject o)
    (hhost : D.Host host) (haccount : host.Accounts account) (hkept : D.contract.Kept host limit fun _ => True)
    {k : Kind} (task : Task k) (m : Machine σ) (hpre : D.contract.pre task m) :
    (task.journal account host limit m).Tallies D.contract (fun _ _ => True) m.memory.objects := by
  have hplain (h : (task.plan host limit).LeavesObjects) :
      (Noted.of (task.plan host limit) m).Tallies D.contract (fun _ _ => True) m.memory.objects :=
    ((h m).tallies (hkept task m trivial hpre)).mono fun _ _ _ => trivial
  let H : Habit σ := restraint σ
  obtain ⟨w, hm, hallows⟩ := hpre
  cases task with
  | statements s body => exact hplain (H.statements body)
  | statement s t => exact hplain (H.statement trivial)
  | block s b => exact hplain (H.block b)
  | expression s e => exact hplain (H.expression trivial)
  | operand s span a =>
    have hother (ha : ∀ ps, a ≠ .object ps) : (Noted.of (Plan.operand s span a) m).Tallies D.contract
        (fun _ _ => True) m.memory.objects := hplain (H.operand trivial (placed_of_forall fun _ => trivial) (.inr ha))
    cases a with
    | object ps =>
      have hps : ∀ p ∈ ps, D.code (.expression p.value) := fun p hp => D.code_child hallows.2 (List.mem_map_of_mem hp)
      exact (tallies_literal hmade hallows.1 hps m hm).mono fun _ _ _ => trivial
    | _ => exact hother nofun
  | property s e => exact hplain (H.property trivial)
  | assignment s e => exact (tallies_assignment hmade hallows.1 hallows.2.1 hallows.2.2 m hm).mono fun _ _ _ => trivial
  | compound s base e => exact (tallies_compound hmade hallows.1 hallows.2.1 hallows.2.2 m hm).mono fun _ _ _ => trivial
  | step s op e => exact hplain (H.step trivial op)
  | invoke f args span =>
    cases f with
    | native n =>
      exact tallies_hostStep _ w m (hhost n span args w _ _ (D.state_held hm) hallows.2) (haccount n span args _ _)
    | closure c => exact hplain (Plan.leavesObjects_ask _).holding
    | _ => exact hplain (H.fail trivial (by simp))
  | enter c args span => exact hplain (leavesObjects_enter limit c args)

end Runs

end Discipline

end GameScript
