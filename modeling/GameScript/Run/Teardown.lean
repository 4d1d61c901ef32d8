import GameScript.Run.Liveness

/-!
# Teardown

Cells that hold each other in a ring are never let go by counting. A host that is done with a scope tears it down: the
scope and everything that it owns is emptied, and so every ring is broken.

A `Teardown` works off two lists, the scopes to visit and the values to look at; values are looked at while no scope is
left to visit. A cell is emptied when it is first come across, so what it led to is known from then on by the lists
alone. Every round makes the cells that have not been emptied fewer, or else what is left to do (`nearer_step?`).
-/

namespace GameScript

namespace Memory

/-- Empties an object or a scope. A closure stays as it is. -/
def clear (m : Memory) : Cell → Memory
  | .object o => { m with objects := m.objects.modify o.index fun _ => [] }
  | .scope s => { m with scopes := m.scopes.modify s.index fun c => { c with bindings := [] } }
  | .closure _ => m

/-- The values that are stored in a cell. -/
def stored (m : Memory) : Cell → List Value
  | .object o => (m.properties o).map Prod.snd
  | .scope s => (m.scope s).bindings.map Prod.snd
  | .closure _ => []

theorem cells_clear (m : Memory) (c : Cell) : (m.clear c).cells = m.cells := by
  cases c <;> simp [clear, cells]

end Memory

/-- A teardown under way: memory, what has been emptied, the scopes to visit and the values to look at. -/
structure Teardown where
  memory : Memory
  seen : Std.HashSet Cell := ∅
  scopes : List ScopeId
  pending : List Value := []

namespace Teardown

/-- The teardown of a scope, before the first round. -/
def start (m : Memory) (s : ScopeId) : Teardown := { memory := m, scopes := [s] }

/-- Empties a cell. What was stored in it is to be looked at next, the last of it first. -/
def drain (t : Teardown) (c : Cell) : Teardown :=
  { t with
    memory := t.memory.clear c
    seen := t.seen.insert c
    pending := (t.memory.stored c).reverse ++ t.pending }

/-- Goes on to one more scope. -/
def push (t : Teardown) (s : ScopeId) : Teardown := { t with scopes := s :: t.scopes }

/-- Goes to the parent of a scope, if there is one. -/
def pushParent (t : Teardown) (s : ScopeId) : Teardown :=
  match (t.memory.scope s).parent with
  | none => t
  | some p => t.push p

/-- Visits a scope: it is emptied and its parent is to be visited, unless that has been done. -/
def visitScope (t : Teardown) (s : ScopeId) : Teardown :=
  if t.seen.contains (.scope s) then t else (t.drain (.scope s)).pushParent s

/-- Looks at a value: an object is emptied unless that has been done, an anchored reference stands for its object, and
of a closure the scope is to be visited. -/
def visitValue (t : Teardown) : Value → Teardown
  | .object o => if t.seen.contains (.object o) then t else t.drain (.object o)
  | .reference r => if r.anchored then { t with pending := .object r.object :: t.pending } else t
  | .closure c => t.push (t.memory.closure c).scope
  | _ => t

/-- One round, until nothing is left to do. -/
def step? (t : Teardown) : Option Teardown :=
  match t.scopes, t.pending with
  | s :: scopes, _ => some ({ t with scopes := scopes }.visitScope s)
  | [], v :: pending => some ({ t with pending := pending }.visitValue v)
  | [], [] => none

/-! ## Rounds come to an end -/

/-- How many cells have not been emptied. -/
def remaining (t : Teardown) : Nat := t.memory.cells.countP fun c => !t.seen.contains c

/-- How many rounds a value may take, not counting what is stored in a cell that it leads to. -/
def rounds : Value → Nat
  | .reference _ | .closure _ => 2
  | _ => 1

/-- How many rounds the lists may take, not counting what is stored in a cell that they lead to. -/
def workload (t : Teardown) : Nat := t.scopes.length + t.pending.foldr (fun v n => rounds v + n) 0

/-- A teardown is nearer to its end than another one: a cell less is left, or as many and there is less work. -/
def Nearer (t t' : Teardown) : Prop :=
  t.remaining < t'.remaining ∨ t.remaining = t'.remaining ∧ t.workload < t'.workload

theorem countP_insert_lt {c : Cell} {seen : Std.HashSet Cell} (hc : seen.contains c = false) {cs : List Cell}
    (h : c ∈ cs) : cs.countP (fun d => !(seen.insert c).contains d) < cs.countP (fun d => !seen.contains d) := by
  induction cs with
  | nil => cases h
  | cons d cs ih =>
    have hle : cs.countP (fun d => !(seen.insert c).contains d) ≤ cs.countP (fun d => !seen.contains d) := by
      apply List.countP_mono_left
      intro d _
      simp
    rw [List.countP_cons, List.countP_cons]
    by_cases hd : d = c
    · have hnew : (seen.insert c).contains d = true := by simp [hd]
      have hold : seen.contains d = false := by rw [hd, hc]
      simp only [hnew, hold, Bool.not_true, Bool.not_false, Bool.false_eq_true, if_true, if_false]
      omega
    · have hmem : c ∈ cs := by simpa [Ne.symm hd] using h
      have hlt := ih hmem
      have hsame : (seen.insert c).contains d = seen.contains d := by simp [Ne.symm hd]
      rw [hsame]
      omega

theorem countP_insert_of_not_mem {c : Cell} {seen : Std.HashSet Cell} {cs : List Cell} (h : c ∉ cs) :
    cs.countP (fun d => !(seen.insert c).contains d) = cs.countP (fun d => !seen.contains d) := by
  apply List.countP_congr
  intro d hd
  have hne : c ≠ d := fun he => h (he ▸ hd)
  simp [hne]

theorem scope_eq_default {m : Memory} {s : ScopeId} (h : .scope s ∉ m.cells) : m.scope s = default := by
  have hs : m.scopes.size ≤ s.index := by
    apply Nat.le_of_not_lt
    intro hlt
    apply h
    simp [Memory.cells]
    exact ⟨s.index, hlt, rfl⟩
  simp [Memory.scope, Array.getD_eq_getD_getElem?, Array.getElem?_eq_none hs]

theorem properties_eq_nil {m : Memory} {o : ObjectId} (h : .object o ∉ m.cells) : m.properties o = [] := by
  have ho : m.objects.size ≤ o.index := by
    apply Nat.le_of_not_lt
    intro hlt
    apply h
    simp [Memory.cells]
    exact ⟨o.index, hlt, rfl⟩
  simp [Memory.properties, Array.getD_eq_getD_getElem?, Array.getElem?_eq_none ho]

/-- Nothing is stored in a cell that has not been made. -/
theorem stored_eq_nil {m : Memory} {c : Cell} (h : c ∉ m.cells) : m.stored c = [] := by
  cases c with
  | object o => simp [Memory.stored, properties_eq_nil h]
  | scope s =>
    rw [Memory.stored, scope_eq_default h]
    rfl
  | closure f => rfl

/-- Emptying a cell leaves a cell less, or it has not been made and nothing comes of it. -/
theorem remaining_drain (t : Teardown) {c : Cell} (hc : t.seen.contains c = false) :
    (t.drain c).remaining < t.remaining ∨
      c ∉ t.memory.cells ∧ (t.drain c).remaining = t.remaining ∧ (t.drain c).pending = t.pending := by
  have hcells : (t.drain c).memory.cells = t.memory.cells := Memory.cells_clear t.memory c
  unfold remaining
  rw [hcells]
  by_cases hmem : c ∈ t.memory.cells
  · left
    exact countP_insert_lt hc hmem
  · right
    refine ⟨hmem, countP_insert_of_not_mem hmem, ?_⟩
    simp [drain, stored_eq_nil hmem]

theorem remaining_pushParent (t : Teardown) (s : ScopeId) : (t.pushParent s).remaining = t.remaining := by
  unfold pushParent
  split <;> rfl

theorem nearer_visitScope (t : Teardown) (s : ScopeId) :
    (t.visitScope s).remaining < t.remaining ∨ (t.visitScope s).remaining = t.remaining ∧
      (t.visitScope s).workload = t.workload := by
  unfold visitScope
  split
  · right
    exact ⟨rfl, rfl⟩
  · rename_i hseen
    rw [remaining_pushParent]
    rcases remaining_drain t (Bool.eq_false_iff.2 hseen) with hlt | ⟨hnew, hsame, hpending⟩
    · left
      exact hlt
    · right
      have hscope : (t.drain (.scope s)).memory.scope s = default := by
        apply scope_eq_default
        show _ ∉ (t.memory.clear (.scope s)).cells
        rwa [Memory.cells_clear]
      have hnone : (t.drain (.scope s)).pushParent s = t.drain (.scope s) := by
        unfold pushParent
        rw [hscope]
        rfl
      rw [hnone]
      refine ⟨hsame, ?_⟩
      unfold workload
      rw [hpending]
      rfl

theorem nearer_visitValue (t : Teardown) (v : Value) :
    (t.visitValue v).remaining < t.remaining ∨ (t.visitValue v).remaining = t.remaining ∧
      (t.visitValue v).workload < t.workload + rounds v := by
  cases v with
  | object o =>
    unfold visitValue
    dsimp only
    split
    · right
      exact ⟨rfl, Nat.lt_succ_self _⟩
    · rename_i hseen
      rcases remaining_drain t (Bool.eq_false_iff.2 hseen) with hlt | ⟨-, hsame, hpending⟩
      · left
        exact hlt
      · right
        refine ⟨hsame, ?_⟩
        unfold workload
        rw [hpending]
        exact Nat.lt_succ_self _
  | reference r =>
    right
    unfold visitValue
    dsimp only
    split
    · refine ⟨rfl, ?_⟩
      simp [workload, rounds]
      omega
    · refine ⟨rfl, ?_⟩
      simp [rounds]
  | closure c =>
    right
    refine ⟨rfl, ?_⟩
    simp [visitValue, push, workload, rounds]
    omega
  | _ =>
    right
    exact ⟨rfl, Nat.lt_succ_self _⟩

/-- Every round comes nearer to the end. -/
theorem nearer_step? {t t' : Teardown} (h : t.step? = some t') : t'.Nearer t := by
  unfold step? at h
  split at h
  · rename_i s scopes hscopes
    cases h
    rcases nearer_visitScope { t with scopes := scopes } s with hlt | ⟨hsame, hwork⟩
    · left
      exact hlt
    · right
      refine ⟨hsame, ?_⟩
      rw [hwork]
      simp [workload, hscopes]
  · rename_i v pending hscopes hpending
    cases h
    rcases nearer_visitValue { t with pending := pending } v with hlt | ⟨hsame, hwork⟩
    · left
      exact hlt
    · right
      refine ⟨hsame, Nat.lt_of_lt_of_le hwork ?_⟩
      simp [workload, hscopes, hpending]
      omega
  · cases h

/-- Round after round, until nothing is left to do. -/
def run (t : Teardown) : Memory :=
  match _ : t.step? with
  | none => t.memory
  | some t' => t'.run
termination_by (t.remaining, t.workload)
decreasing_by
  rename_i hstep
  rcases nearer_step? hstep with hlt | ⟨hsame, hlt⟩
  · exact .left _ _ hlt
  · rw [hsame]
    exact .right _ hlt

end Teardown

/-- Empties every scope and object that a scope owns, itself included. -/
def Memory.teardown (m : Memory) (s : ScopeId) : Memory := (Teardown.start m s).run

end GameScript
