import GameScript.Proofs.Run.Confined
import GameScript.Proofs.Run.Tallies

/-!
# Territories that have been made

A territory is settled when all its cells have been made. A run that starts in one stays in settled ones (`settlement`,
a discipline), when functions of the host do (`Host.Settled`): what it reaches is what there is, and what is new comes
on top. So a cell that has just been made and given to nobody is outside of what everybody else reaches.
-/

namespace GameScript

variable {σ : Type}

/-- A territory all of whose cells have been made. -/
structure Territory.Settled (own : σ → List Value) (w : Territory) (m : Memory) (s : σ) : Prop extends
    w.Holds own m s where
  made : w.region ⊆ m.made

/-- A function of the host that is confined to a region of memory, as in `HostStep.Confined`, where all cells of the
region have been made. -/
def HostStep.Settled (own : σ → List Value) : HostStep σ → Memory → Set Cell → Prop
  | .finish result m' s, m, K =>
    ∃ K', m.Outgrows K m' K' ∧ Region own K' m' s ∧ K' ⊆ m'.made ∧ ∀ v, result = .ok v → v.Inside K'
  | .enter c args _ m' s resume, m, K =>
    ∃ K', m.Outgrows K m' K' ∧ Region own K' m' s ∧ K' ⊆ m'.made ∧ .closure c ∈ K' ∧ (∀ v ∈ args, v.Inside K') ∧
      ∀ answer m'' s' K'', m'.Outgrows K' m'' K'' → Region own K'' m'' s' → K'' ⊆ m''.made →
        (∀ v, answer = .ok v → v.Inside K'') → (resume answer m'' s').Settled own m'' K''

/-- A host whose functions write only what can be reached from what they are given and from what the host keeps, and what
they make themselves, and pass nothing else on. -/
def Host.Settled (own : σ → List Value) (host : Host σ) : Prop :=
  ∀ n span args K m s, Region own K m s → K ⊆ m.made → (∀ v ∈ args, v.Inside K) →
    (host.call n span args m s).Settled own m K

/-- What a scope leads to, and what the host keeps, lies in a settled territory. -/
def Machine.Settled (own : σ → List Value) (scope : ScopeId) (m : Machine σ) : Prop :=
  ∃ K, Region own K m.memory m.state ∧ K ⊆ m.memory.made ∧ .scope scope ∈ K

section Settlement

variable {own : σ → List Value} {w : Territory} {m : Memory} {s : σ}

theorem Region.settled {K : Set Cell} (h : Region own K m s) (hmade : K ⊆ m.made) :
    Territory.Settled own ⟨m, K⟩ m s := ⟨⟨h, .refl m K⟩, hmade⟩

/-- Nothing is read or written outside of a settled territory, and nothing is added to it that is not new. -/
def settlement (own : σ → List Value) : Discipline σ Territory where
  state w m s := w.Settled own m s
  value w v := v.Inside w.region
  stored w v := v.Inside w.region
  scope w s := .scope s ∈ w.region
  code _ := True
  fault _ := True
  error _ := True
  value_mono := (confinement own).value_mono
  stored_mono := (confinement own).stored_mono
  scope_mono := (confinement own).scope_mono
  value_of_stored h := h
  stored_of_isScalar := (confinement own).stored_of_isScalar
  value_reference := (confinement own).value_reference
  stored_of_value h _ := h
  state_held h := ⟨(confinement own).state_held h.toHolds, h.made⟩
  stored_property h := (confinement own).stored_property h.toHolds
  stored_binding h := (confinement own).stored_binding h.toHolds
  scope_parent h := (confinement own).scope_parent h.toHolds
  scope_closure h hc := h.closed.scope (hc _ rfl)
  code_closure _ _ := trivial
  state_setProperty h ho hv := ⟨(confinement own).state_setProperty h.toHolds ho hv, h.made.trans Memory.made_setProperty.ge⟩
  state_bind h hs hv := ⟨(confinement own).state_bind h.toHolds hs hv, h.made.trans Memory.made_bind.ge⟩
  state_newObject h := by
    refine ⟨⟨_, _⟩, h.outgrows.trans .newObject, Region.settled ⟨h.closed.newObject, ?_⟩ ?_, ?_⟩
    · exact fun v hv d hd => .inr (h.own v hv d hd)
    · exact Memory.made_newObject ▸ Set.insert_subset_insert h.made
    · rintro d ⟨⟩
      exact .inl rfl
  state_newScope h hs := by
    refine ⟨⟨_, _⟩, h.outgrows.trans .newScope, Region.settled ⟨h.closed.newScope hs, ?_⟩ ?_, .inl rfl⟩
    · exact fun v hv d hd => .inr (h.own v hv d hd)
    · exact Memory.made_newScope ▸ Set.insert_subset_insert h.made
  state_newClosure h hf _ := by
    refine ⟨⟨_, _⟩, h.outgrows.trans .newClosure, Region.settled ⟨h.closed.newClosure hf, ?_⟩ ?_, ?_⟩
    · exact fun v hv d hd => .inr (h.own v hv d hd)
    · exact Memory.made_newClosure ▸ Set.insert_subset_insert h.made
    · rintro d ⟨⟩
      exact .inl rfl
  code_child _ _ := trivial
  proper_of_code := @proper_or_any_fault
  fault_of_ordinary _ := trivial
  error_of_fault _ := trivial

theorem step_of_settled {step : HostStep σ} (h : step.Settled own m w.region)
    (hm : w.memory.Outgrows w.region m w.region) : (settlement own).Step step w := by
  induction step generalizing m w with
  | finish result m' s =>
    obtain ⟨K', hstep, hregion, hmade, hr⟩ := h
    refine ⟨⟨m', K'⟩, hm.trans hstep, hregion.settled hmade, ?_⟩
    cases result with
    | ok v => exact hr v rfl
    | error e => trivial
  | enter f args kept m' s resume ih =>
    obtain ⟨K', hstep, hregion, hmade, hf, hargs, hresume⟩ := h
    have hclosure : (Value.closure f).Inside K' := by
      rintro d ⟨⟩
      exact hf
    refine ⟨⟨m', K'⟩, hm.trans hstep, hregion.settled hmade, hclosure, hargs, ?_⟩
    intro answer m'' s' w'' hle hm'' ha
    have hback : m'.Outgrows K' m'' w''.region := Memory.Outgrows.trans hle hm''.outgrows
    refine ih _ _ _ (hresume answer m'' s' w''.region hback hm''.toRegion hm''.made ?_) hm''.outgrows
    rintro v rfl
    exact ha

theorem host_settlement {host : Host σ} (h : host.Settled own) : (settlement own).Host host :=
  fun n span args w m s hm hargs => step_of_settled (h n span args w.region m s hm.toRegion hm.made hargs) hm.outgrows

theorem kept_settlement {host : Host σ} (h : host.Settled own) (limit : Nat) (R : Activation σ → Prop) :
    (settlement own).contract.Kept host limit R :=
  Discipline.kept (host_settlement h) (fun _ _ _ _ _ _ _ => trivial) fun _ _ _ _ _ _ _ => trivial

/-- An object that is reached has been made. -/
theorem hasObject_of_settled {o : ObjectId} (h : w.Settled own m s) (ho : (Value.object o).Inside w.region) :
    m.HasObject o := h.made (ho (.object o) rfl)

end Settlement

end GameScript
