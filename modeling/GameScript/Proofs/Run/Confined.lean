import GameScript.Proofs.Run.Lifetimes
import GameScript.Proofs.Run.Sound
import GameScript.Proofs.Run.Upkeep

/-!
# Calls write only what they reach

A set of cells that is closed in memory is a region. What starts with values from a region reads and writes within it
and within what is new; so the region grows, but by new cells alone, and every cell outside of it is as it was
(`Memory.Outgrows`). The regions of a run are the worlds of a discipline (`confinedTo`), which is kept when functions of
the host keep to it (`Host.Confined`).

Main statement: a call leaves every scope and every object as it was that is reached neither from what is called nor
from an argument, nor from what the host keeps for its own functions (`calls_write_what_they_reach`).
-/

namespace GameScript

namespace Memory

/-- The scopes and objects outside of a set of cells are there still, and as they were. -/
structure Spares (m : Memory) (K : Set Cell) (m' : Memory) : Prop where
  object : ∀ o, m.HasObject o → .object o ∉ K → m'.HasObject o ∧ m'.properties o = m.properties o
  scope : ∀ s, m.HasScope s → .scope s ∉ K → m'.HasScope s ∧ m'.scope s = m.scope s

/-- What has become of memory and a set of cells when nothing but the set was written to and nothing was added to it
but new cells. -/
structure Outgrows (m : Memory) (K : Set Cell) (m' : Memory) (K' : Set Cell) : Prop where
  grows : K ⊆ K'
  made : m.made ⊆ m'.made
  new : ∀ c ∈ K', c ∈ m.made → c ∈ K
  properties : ∀ o, .object o ∈ m.made → .object o ∉ K → m'.properties o = m.properties o
  scope : ∀ s, .scope s ∈ m.made → .scope s ∉ K → m'.scope s = m.scope s

variable {m m' m'' : Memory} {K K' K'' : Set Cell} {c : Cell}

theorem Outgrows.refl (m : Memory) (K : Set Cell) : m.Outgrows K m K :=
  ⟨subset_rfl, subset_rfl, fun _ h _ => h, fun _ _ _ => rfl, fun _ _ _ => rfl⟩

theorem Outgrows.not_mem (h : m.Outgrows K m' K') (hc : c ∈ m.made) (hK : c ∉ K) : c ∉ K' :=
  fun hc' => hK (h.new c hc' hc)

theorem Outgrows.trans (h : m.Outgrows K m' K') (h' : m'.Outgrows K' m'' K'') : m.Outgrows K m'' K'' where
  grows := h.grows.trans h'.grows
  made := h.made.trans h'.made
  new c hc hmade := h.new c (h'.new c hc (h.made hmade)) hmade
  properties o ho hK := (h'.properties o (h.made ho) (h.not_mem ho hK)).trans (h.properties o ho hK)
  scope s hs hK := (h'.scope s (h.made hs) (h.not_mem hs hK)).trans (h.scope s hs hK)

theorem Outgrows.spares (h : m.Outgrows K m' K') : m.Spares K m' :=
  ⟨fun o ho hK => ⟨h.made (a := .object o) ho, h.properties o ho hK⟩,
    fun s hs hK => ⟨h.made (a := .scope s) hs, h.scope s hs hK⟩⟩

/-! ## Single changes -/

theorem Outgrows.setProperty {o : ObjectId} {key : String} {v : Value} (ho : .object o ∈ K) :
    m.Outgrows K (m.setProperty o key v) K where
  grows := subset_rfl
  made := made_setProperty.ge
  new _ h _ := h
  properties _ _ hp := properties_setProperty_of_ne fun he => hp (he ▸ ho)
  scope _ _ _ := rfl

theorem Outgrows.bind {s : ScopeId} {name : String} {v : Value} (hs : .scope s ∈ K) :
    m.Outgrows K (m.bind s name v) K where
  grows := subset_rfl
  made := made_bind.ge
  new _ h _ := h
  properties _ _ _ := rfl
  scope _ _ ht := scope_bind_of_ne fun he => ht (he ▸ hs)

/-- A cell that has not been made yet may be added. -/
theorem mem_of_mem_insert (hc : c ∉ m.made) : ∀ d ∈ insert c K, d ∈ m.made → d ∈ K := by
  rintro d (rfl | hd) hmade
  · exact absurd hmade hc
  · exact hd

theorem Outgrows.newObject : m.Outgrows K (m.newObject []).2 (insert (.object (m.newObject []).1) K) where
  grows := Set.subset_insert _ _
  made := made_newObject ▸ Set.subset_insert _ _
  new := mem_of_mem_insert (Nat.lt_irrefl _)
  properties _ ho _ := properties_newObject_of_hasObject ho
  scope _ _ _ := rfl

theorem Outgrows.newScope {parent : Option ScopeId} :
    m.Outgrows K (m.newScope parent).2 (insert (.scope (m.newScope parent).1) K) where
  grows := Set.subset_insert _ _
  made := made_newScope ▸ Set.subset_insert _ _
  new := mem_of_mem_insert (Nat.lt_irrefl _)
  properties _ _ _ := rfl
  scope _ hs _ := scope_newScope_of_hasScope hs

theorem Outgrows.newClosure {f : Closure} :
    m.Outgrows K (m.newClosure f).2 (insert (.closure (m.newClosure f).1) K) where
  grows := Set.subset_insert _ _
  made := made_newClosure ▸ Set.subset_insert _ _
  new := mem_of_mem_insert (Nat.lt_irrefl _)
  properties _ _ _ := rfl
  scope _ _ _ := rfl

end Memory

/-! ## What functions of the host may do -/

variable {σ : Type}

/-- A closed set of cells in which the values are that the host keeps for its own functions. -/
structure Region (own : σ → List Value) (K : Set Cell) (m : Memory) (s : σ) : Prop where
  closed : m.Closed K
  own : ∀ v ∈ own s, v.Inside K

/-- A function of the host that is confined to a region of memory in all that it still does: it writes within the region
and to what is new, and passes nothing else on, and so it does in whatever the region has grown into when the closure
that it calls is done. -/
def HostStep.Confined (own : σ → List Value) : HostStep σ → Memory → Set Cell → Prop
  | .finish result m' s, m, K =>
    ∃ K', m.Outgrows K m' K' ∧ Region own K' m' s ∧ ∀ v, result = .ok v → v.Inside K'
  | .enter c args _ m' s resume, m, K =>
    ∃ K', m.Outgrows K m' K' ∧ Region own K' m' s ∧ .closure c ∈ K' ∧ (∀ v ∈ args, v.Inside K') ∧
      ∀ answer m'' s' K'', m'.Outgrows K' m'' K'' → Region own K'' m'' s' → (∀ v, answer = .ok v → v.Inside K'') →
        (resume answer m'' s').Confined own m'' K''

/-- A host whose functions are confined to every region in which their arguments are. -/
def Host.Confined (own : σ → List Value) (host : Host σ) : Prop :=
  ∀ n span args K m s, Region own K m s → (∀ v ∈ args, v.Inside K) → (host.call n span args m s).Confined own m K

/-! ## The discipline -/

section Discipline

/-- A memory and a region of it. -/
structure Territory where
  memory : Memory
  region : Set Cell

instance : Preorder Territory where
  le w w' := w.memory.Outgrows w.region w'.memory w'.region
  le_refl w := .refl w.memory w.region
  le_trans _ _ _ := .trans

/-- Memory is what a territory becomes by writes to its region, which is still one and has not grown. -/
structure Territory.Holds (own : σ → List Value) (w : Territory) (m : Memory) (s : σ) : Prop extends
    Region own w.region m s where
  outgrows : w.memory.Outgrows w.region m w.region

variable {own : σ → List Value}

/-- Where every fault may come up, nothing needs to be proper. -/
theorem proper_or_any_fault {n : Node} (_ : True) : n.Proper ∨ ∀ _ : RuntimeFault, True := .inr fun _ => trivial

/-- Nothing is read or written outside of a territory, and nothing is added to it that is not new. -/
def confinement (own : σ → List Value) : Discipline σ Territory where
  state w m s := w.Holds own m s
  value w v := v.Inside w.region
  stored w v := v.Inside w.region
  scope w s := .scope s ∈ w.region
  code _ := True
  fault _ := True
  error _ := True
  value_mono hle h d hd := hle.grows (h d hd)
  stored_mono hle h d hd := hle.grows (h d hd)
  scope_mono hle h := hle.grows h
  value_of_stored h := h
  stored_of_isScalar {_ v} h d hd := by cases v <;> first | exact h.elim | cases hd
  value_reference := Iff.rfl
  stored_of_value h _ := h
  state_held h := ⟨⟨h.closed, h.own⟩, ⟨h.outgrows.grows, h.outgrows.made, h.outgrows.new, h.outgrows.properties,
    h.outgrows.scope⟩⟩
  stored_property h ho hv := h.closed.inside_property (ho _ rfl) hv
  stored_binding h hs hv := h.closed.inside_binding hs hv
  scope_parent h hs hp := h.closed.parent hs hp
  scope_closure h hc := h.closed.scope (hc _ rfl)
  code_closure _ _ := trivial
  state_setProperty h ho hv := ⟨⟨h.closed.setProperty hv, h.own⟩, h.outgrows.trans (.setProperty (ho _ rfl))⟩
  state_bind h hs hv := ⟨⟨h.closed.bind hv, h.own⟩, h.outgrows.trans (.bind hs)⟩
  state_newObject h := by
    refine ⟨⟨_, _⟩, h.outgrows.trans .newObject, ⟨⟨h.closed.newObject, ?_⟩, .refl _ _⟩, ?_⟩
    · exact fun v hv d hd => .inr (h.own v hv d hd)
    · rintro d ⟨⟩
      exact .inl rfl
  state_newScope h hs := by
    refine ⟨⟨_, _⟩, h.outgrows.trans .newScope, ⟨⟨h.closed.newScope hs, ?_⟩, .refl _ _⟩, .inl rfl⟩
    exact fun v hv d hd => .inr (h.own v hv d hd)
  state_newClosure h hf _ := by
    refine ⟨⟨_, _⟩, h.outgrows.trans .newClosure, ⟨⟨h.closed.newClosure hf, ?_⟩, .refl _ _⟩, ?_⟩
    · exact fun v hv d hd => .inr (h.own v hv d hd)
    · rintro d ⟨⟩
      exact .inl rfl
  code_child _ _ := trivial
  proper_of_code := @proper_or_any_fault
  fault_of_ordinary _ := trivial
  error_of_fault _ := trivial

theorem step_of_confined {step : HostStep σ} {m : Memory} {w : Territory} (h : step.Confined own m w.region)
    (hm : w.memory.Outgrows w.region m w.region) : (confinement own).Step step w := by
  induction step generalizing m w with
  | finish result m' s =>
    obtain ⟨K', hstep, hregion, hr⟩ := h
    refine ⟨⟨m', K'⟩, hm.trans hstep, ⟨hregion, .refl _ _⟩, ?_⟩
    cases result with
    | ok v => exact hr v rfl
    | error e => trivial
  | enter f args kept m' s resume ih =>
    obtain ⟨K', hstep, hregion, hf, hargs, hresume⟩ := h
    have hclosure : (Value.closure f).Inside K' := by
      rintro d ⟨⟩
      exact hf
    refine ⟨⟨m', K'⟩, hm.trans hstep, ⟨hregion, .refl _ _⟩, hclosure, hargs, ?_⟩
    intro answer m'' s' w'' hle hm'' ha
    have hback : m'.Outgrows K' m'' w''.region := Memory.Outgrows.trans hle hm''.outgrows
    refine ih _ _ _ (hresume answer m'' s' w''.region hback hm''.toRegion ?_) hm''.outgrows
    rintro v rfl
    exact ha

theorem kept_confinement {host : Host σ} (h : host.Confined own) (limit : Nat) (R : Activation σ → Prop) :
    (confinement own).contract.Kept host limit R :=
  Discipline.kept (fun n span args w m s hm hargs => step_of_confined (h n span args w.region m s hm.toRegion hargs)
    hm.outgrows) (fun _ _ _ _ _ _ _ => trivial) fun _ _ _ _ _ _ _ => trivial

end Discipline

/-! ## Calls -/

section Calls

/-- The cells that a call can reach: from what is called, the arguments and what the host keeps. -/
def callReach (own : σ → List Value) (callee : Value) (arguments : List Value) (m : Machine σ) : Set Cell :=
  m.memory.reached {c | ∃ v ∈ callee :: arguments ++ own m.state, v.lead? = some c}

variable {own : σ → List Value} {host : Host σ} {callee : Value} {args : List Value} {m : Machine σ}

theorem inside_callReach {v : Value} (hv : v ∈ callee :: args ++ own m.state) :
    v.Inside (callReach own callee args m) := fun _ hc => Memory.subset_reached _ ⟨v, hv, hc⟩

/-- What starts in the reach of a call spares all cells outside of it. -/
theorem spares_of_keeps (hhost : host.Confined own) {limit : Nat} {act : Plan σ Value}
    {P : Territory → Value → Prop}
    (h : (confinement own).Keeps ⟨m.memory, callReach own callee args m⟩ act P) {r : Except RuntimeFault Value}
    {m' : Machine σ} (hrun : Finishes host limit (act m) r m') :
    m.memory.Spares (callReach own callee args m) m'.memory := by
  have hregion : Region own (callReach own callee args m) m.memory m.state :=
    ⟨Memory.closed_reached _, fun v hv => inside_callReach (by simp [hv])⟩
  obtain ⟨w', hle, hm', -⟩ := ((h m ⟨hregion, .refl _ _⟩).runs (kept_confinement hhost limit _)).1 _ _ hrun
  exact (Memory.Outgrows.trans hle hm'.outgrows).spares

/-- A call leaves every scope and every object as it was that can be reached neither from what is called nor from an
argument nor from what the host keeps for its own functions, whether the call has an answer or fails. So does a call
that a script makes, wherever it makes it, and a call that the host makes. -/
theorem calls_write_what_they_reach (hhost : host.Confined own) (limit : Nat) (m : Machine σ) (callee : Value)
    (args : List Value) :
    (∀ span, m.memory.Spares (callReach own callee args m)
      ((callsAt host limit m.depth).invoke callee args span m).2.memory) ∧
      m.memory.Spares (callReach own callee args m) (callValue host limit callee args m).2.memory := by
  have hcallee : callee.Inside (callReach own callee args m) := inside_callReach (by simp)
  have hargs : ∀ v ∈ args, v.Inside (callReach own callee args m) := fun v hv => inside_callReach (by simp [hv])
  refine ⟨fun span => ?_, ?_⟩
  · have hrealizes : Realizes host limit m.depth (Plan.ask (.invoke callee args span)) _ :=
      realizes_invoke (realizesCalls_callsAt host limit m.depth) callee args
    exact spares_of_keeps hhost (Discipline.keeps_askInvoke hcallee hargs) (hrealizes m rfl).1.finishes
  · exact spares_of_keeps hhost (Discipline.keeps_callPlan hcallee hargs) (finishes_callValue host limit callee args m)

end Calls

/-- A host of one function, which marks the object that it is given. -/
def markingHost : Host Unit where
  call _ _ args m _ :=
    match args with
    | [.object o] => .finish (.ok .undefined) (m.setProperty o "marked" (.bool true)) ()
    | _ => .finish (.ok .undefined) m ()

theorem confined_markingHost : markingHost.Confined fun _ => [] := by
  intro n span args K m s hregion hargs
  have hnothing : ∀ v, (.ok .undefined : Except RuntimeError Value) = .ok v → v.Inside K := by
    rintro v ⟨⟩ c ⟨⟩
  unfold markingHost
  dsimp only
  split
  · rename_i o
    have ho : .object o ∈ K := hargs (.object o) List.mem_cons_self _ rfl
    exact ⟨K, .setProperty ho, ⟨hregion.closed.setProperty (by rintro c ⟨⟩), nofun⟩, hnothing⟩
  · exact ⟨K, .refl m K, hregion, hnothing⟩

/-- A machine with the function of `function(o) { f(o); }`, where `f` marks objects, and with a scope beside it that
holds an object of its own. -/
def markingMachine : Machine Unit :=
  let argument : Expression := .leaf (.var ⟨"o", .use, ⟨16, 17⟩⟩) ⟨16, 17⟩
  let call : Operand := .call (.leaf (.var ⟨"f", .use, ⟨14, 15⟩⟩) ⟨14, 15⟩) [argument]
  { memory :=
      { objects := #[[], [("a", .int 1)]]
        scopes := #[⟨[("f", .native ⟨0⟩)], none, 0⟩, ⟨[("own", .object ⟨1⟩)], some ⟨0⟩, 1⟩]
        closures := #[⟨["o"], ⟨[⟨.leaf call ⟨14, 18⟩, ⟨14, 19⟩⟩], ⟨12, 21⟩⟩, ⟨0⟩⟩] }
    depth := 1
    state := () }

/-- The function marks its argument, but neither the scope beside it nor the object in there. -/
theorem calls_write_what_they_reach_marking :
    (callValue markingHost 5 (.closure ⟨0⟩) [.object ⟨0⟩] markingMachine).2.memory.properties ⟨0⟩ =
        [("marked", .bool true)] ∧
      (callValue markingHost 5 (.closure ⟨0⟩) [.object ⟨0⟩] markingMachine).2.memory.scope ⟨1⟩ =
        markingMachine.memory.scope ⟨1⟩ ∧
      (callValue markingHost 5 (.closure ⟨0⟩) [.object ⟨0⟩] markingMachine).2.memory.properties ⟨1⟩ =
        markingMachine.memory.properties ⟨1⟩ := by
  have hspares := (calls_write_what_they_reach confined_markingHost 5 markingMachine (.closure ⟨0⟩) [.object ⟨0⟩]).2
  have hreach : callReach (fun _ => []) (.closure ⟨0⟩) [.object ⟨0⟩] markingMachine ⊆
      {.closure ⟨0⟩, .scope ⟨0⟩, .object ⟨0⟩} := by
    refine Memory.reached_subset ?_ ?_
    · rintro _ (rfl | rfl | rfl) d hd
      · exact .inr (.inl (Memory.mem_leads_closure.1 hd))
      · cases hd
      · cases hd
    · rintro c ⟨v, hv, hc⟩
      rcases List.mem_cons.1 hv with rfl | hv
      · cases hc
        exact .inl rfl
      · obtain rfl := List.mem_singleton.1 hv
        cases hc
        exact .inr (.inr rfl)
  have hscope : Cell.scope ⟨1⟩ ∉ callReach (fun _ => []) (.closure ⟨0⟩) [.object ⟨0⟩] markingMachine :=
    fun h => absurd (hreach h) (by simp)
  have hobject : Cell.object ⟨1⟩ ∉ callReach (fun _ => []) (.closure ⟨0⟩) [.object ⟨0⟩] markingMachine :=
    fun h => absurd (hreach h) (by simp)
  exact ⟨by cbv, (hspares.scope ⟨1⟩ (Nat.lt_succ_self 1) hscope).2,
    (hspares.object ⟨1⟩ (Nat.lt_succ_self 1) hobject).2⟩

end GameScript
