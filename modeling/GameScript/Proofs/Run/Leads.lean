import GameScript.Run.Frame
import Mathlib.Data.Set.Insert
import Mathlib.Logic.Relation

/-!
# What cells lead to

A value leads to the cell that it names: an object, a closure, or the object of a reference, be that anchored or not. A
cell leads to what its properties or bindings lead to, a scope also to its parent and a closure to the scope it was
written in. A set of cells is `Closed` when its members lead to members only; the cells that are reached from some are
the smallest closed set around them.

Main statements: what each operation on memory adds to the leads (`mem_leads_setProperty`, `mem_leads_newScope` and
their sisters), and that so closed sets stay closed, with what is new in memory added to them (`Closed.setProperty`,
`Closed.newScope` and theirs).
-/

namespace GameScript

/-- The cell that a value leads to. -/
def Value.lead? : Value → Option Cell
  | .object o => some (.object o)
  | .closure c => some (.closure c)
  | .reference r => some (.object r.object)
  | _ => none

/-- A value leads into a set of cells, or nowhere. -/
def Value.Inside (K : Set Cell) (v : Value) : Prop := ∀ c, v.lead? = some c → c ∈ K

section Inside

variable {K K' : Set Cell} {v : Value} {r : Reference} {s : ScopeId}

theorem Value.Inside.mono (hle : K ≤ K') (h : v.Inside K) : v.Inside K' := fun c hc => hle (h c hc)

theorem scope_mem_mono (hle : K ≤ K') (h : .scope s ∈ K) : .scope s ∈ K' := hle h

/-- A reference leads to where its object does. -/
theorem Value.inside_reference : (Value.reference r).Inside K ↔ (Value.object r.object).Inside K := Iff.rfl

end Inside

namespace Memory

/-- The cells that a cell leads to. -/
def leads (m : Memory) : Cell → List Cell
  | .object o => (m.properties o).filterMap fun p => p.2.lead?
  | .scope s => ((m.scope s).parent.map Cell.scope).toList ++ (m.scope s).bindings.filterMap fun b => b.2.lead?
  | .closure c => [.scope (m.closure c).scope]

/-- The cells that are reached from some, by way of what each leads to. -/
def reached (m : Memory) (start : Set Cell) : Set Cell :=
  {d | ∃ c ∈ start, Relation.ReflTransGen (fun c d => d ∈ m.leads c) c d}

/-- A set of cells whose members lead to members only. -/
def Closed (m : Memory) (K : Set Cell) : Prop := ∀ c ∈ K, ∀ d ∈ m.leads c, d ∈ K

variable {m : Memory} {K : Set Cell} {c d : Cell}

theorem subset_reached (start : Set Cell) : start ⊆ m.reached start := fun c hc => ⟨c, hc, .refl⟩

theorem closed_reached (start : Set Cell) : m.Closed (m.reached start) := by
  rintro c ⟨b, hb, hc⟩ d hd
  exact ⟨b, hb, hc.tail hd⟩

theorem reached_subset {start : Set Cell} (h : m.Closed K) (hs : start ⊆ K) : m.reached start ⊆ K := by
  rintro d ⟨c, hc, hd⟩
  induction hd with
  | refl => exact hs hc
  | tail _ hstep ih => exact h _ ih _ hstep

/-! ## Leads of members -/

theorem mem_leads_object {o : ObjectId} : d ∈ m.leads (.object o) ↔ ∃ p ∈ m.properties o, p.2.lead? = some d := by
  simp [leads]

theorem mem_leads_scope {s : ScopeId} : d ∈ m.leads (.scope s) ↔
    (∃ p, (m.scope s).parent = some p ∧ .scope p = d) ∨ ∃ b ∈ (m.scope s).bindings, b.2.lead? = some d := by
  simp [leads, Option.map_eq_some_iff]

theorem mem_leads_closure {f : ClosureId} : d ∈ m.leads (.closure f) ↔ d = .scope (m.closure f).scope := by
  simp [leads]

theorem Closed.inside_property (h : m.Closed K) {o : ObjectId} (ho : .object o ∈ K) {key : String} {v : Value}
    (hv : m.property? o key = some v) : v.Inside K := by
  intro d hd
  apply h _ ho
  rw [mem_leads_object]
  exact ⟨_, Entries.mem_of_get? hv, hd⟩

theorem Closed.inside_binding (h : m.Closed K) {s : ScopeId} (hs : .scope s ∈ K) {name : String} {v : Value}
    (hv : (m.scope s).bindings.get? name = some v) : v.Inside K := by
  intro d hd
  apply h _ hs
  rw [mem_leads_scope]
  exact .inr ⟨_, Entries.mem_of_get? hv, hd⟩

theorem Closed.parent (h : m.Closed K) {s p : ScopeId} (hs : .scope s ∈ K) (hp : (m.scope s).parent = some p) :
    .scope p ∈ K := by
  apply h _ hs
  rw [mem_leads_scope]
  exact .inl ⟨p, hp, rfl⟩

theorem Closed.scope (h : m.Closed K) {f : ClosureId} (hf : .closure f ∈ K) : .scope (m.closure f).scope ∈ K :=
  h _ hf _ (mem_leads_closure.2 rfl)

/-! ## Changes of memory -/

section Changes

variable {o : ObjectId} {s : ScopeId} {key name : String} {v : Value} {f : Closure} {parent : Option ScopeId}

theorem mem_leads_setProperty (h : d ∈ (m.setProperty o key v).leads c) :
    d ∈ m.leads c ∨ c = .object o ∧ v.lead? = some d := by
  cases c with
  | object p =>
    obtain ⟨e, he, hd⟩ := mem_leads_object.1 h
    rcases mem_properties_setProperty he with he | ⟨rfl, rfl⟩
    · exact .inl (mem_leads_object.2 ⟨e, he, hd⟩)
    · exact .inr ⟨rfl, hd⟩
  | _ => exact .inl h

theorem mem_leads_bind (h : d ∈ (m.bind s name v).leads c) : d ∈ m.leads c ∨ c = .scope s ∧ v.lead? = some d := by
  cases c with
  | scope t =>
    rcases mem_leads_scope.1 h with ⟨p, hp, rfl⟩ | ⟨e, he, hd⟩
    · exact .inl (mem_leads_scope.2 (.inl ⟨p, parent_bind ▸ hp, rfl⟩))
    · rcases mem_bindings_bind he with he | ⟨rfl, rfl⟩
      · exact .inl (mem_leads_scope.2 (.inr ⟨e, he, hd⟩))
      · exact .inr ⟨rfl, hd⟩
  | _ => exact .inl h

theorem mem_leads_newObject (h : d ∈ (m.newObject []).2.leads c) : d ∈ m.leads c := by
  cases c with
  | object p =>
    obtain ⟨e, he, hd⟩ := mem_leads_object.1 h
    by_cases hp : p = (m.newObject []).1
    · rw [hp, properties_newObject] at he
      cases he
    · rw [properties_newObject_of_ne hp] at he
      exact mem_leads_object.2 ⟨e, he, hd⟩
  | _ => exact h

theorem mem_leads_newScope (h : d ∈ (m.newScope parent).2.leads c) :
    d ∈ m.leads c ∨ c = .scope (m.newScope parent).1 ∧ ∃ p, parent = some p ∧ d = .scope p := by
  cases c with
  | scope t =>
    by_cases ht : t = (m.newScope parent).1
    · subst ht
      have hd := mem_leads_scope.1 h
      rw [scope_newScope] at hd
      rcases hd with ⟨p, hp, rfl⟩ | ⟨e, he, -⟩
      · exact .inr ⟨rfl, p, hp, rfl⟩
      · cases he
    · rw [mem_leads_scope, scope_newScope_of_ne ht] at h
      exact .inl (mem_leads_scope.2 h)
  | _ => exact .inl h

theorem mem_leads_newClosure (h : d ∈ (m.newClosure f).2.leads c) :
    d ∈ m.leads c ∨ c = .closure (m.newClosure f).1 ∧ d = .scope f.scope := by
  cases c with
  | closure g =>
    have hd := mem_leads_closure.1 h
    by_cases hg : g = (m.newClosure f).1
    · subst hg
      rw [closure_newClosure] at hd
      exact .inr ⟨rfl, hd⟩
    · rw [closure_newClosure_of_ne hg] at hd
      exact .inl (mem_leads_closure.2 hd)
  | _ => exact .inl h

theorem Closed.setProperty (h : m.Closed K) (hv : v.Inside K) : (m.setProperty o key v).Closed K := by
  intro c hc d hd
  rcases mem_leads_setProperty hd with hd | ⟨-, hd⟩
  · exact h c hc d hd
  · exact hv d hd

theorem Closed.bind (h : m.Closed K) (hv : v.Inside K) : (m.bind s name v).Closed K := by
  intro c hc d hd
  rcases mem_leads_bind hd with hd | ⟨-, hd⟩
  · exact h c hc d hd
  · exact hv d hd

theorem Closed.newObject (h : m.Closed K) : (m.newObject []).2.Closed (insert (.object (m.newObject []).1) K) := by
  rintro c (rfl | hc) d hd
  · obtain ⟨e, he, -⟩ := mem_leads_object.1 hd
    rw [properties_newObject] at he
    cases he
  · exact .inr (h c hc d (mem_leads_newObject hd))

theorem Closed.newScope {p : ScopeId} (h : m.Closed K) (hp : .scope p ∈ K) :
    (m.newScope (some p)).2.Closed (insert (.scope (m.newScope (some p)).1) K) := by
  rintro c (rfl | hc) d hd
  · rcases mem_leads_scope.1 hd with ⟨q, hq, rfl⟩ | ⟨e, he, -⟩
    · rw [scope_newScope] at hq
      cases hq
      exact .inr hp
    · rw [scope_newScope] at he
      cases he
  · rcases mem_leads_newScope hd with hd | ⟨-, q, hq, rfl⟩
    · exact .inr (h c hc d hd)
    · cases hq
      exact .inr hp

theorem Closed.newClosure (h : m.Closed K) (hf : .scope f.scope ∈ K) :
    (m.newClosure f).2.Closed (insert (.closure (m.newClosure f).1) K) := by
  rintro c (rfl | hc) d hd
  · rw [mem_leads_closure, closure_newClosure] at hd
    exact .inr (hd ▸ hf)
  · rcases mem_leads_newClosure hd with hd | ⟨-, rfl⟩
    · exact .inr (h c hc d hd)
    · exact .inr hf

end Changes

end Memory

end GameScript
