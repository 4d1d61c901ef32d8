import GameScript.Proofs.Run.Lifetimes
import GameScript.Proofs.Run.Outcomes
import GameScript.Proofs.Tree.Renamed
import Mathlib.Data.List.Find
import Mathlib.Logic.Embedding.Basic

/-!
# Memory with other names for variables

A `Renaming` gives variables other names, one-to-one, and says which scopes it changes; a scope that it does not change
keeps the names that it binds. A renamed memory has the same objects, the same values in its scopes and the same cells
alive (`isAlive_rename`); its closures have other names for their parameters and in their bodies.

What is done with a name in a memory is done with its other name in the renamed one, provided that every scope in which
the name is looked for is changed, or that the other name is the same name (`lookup_rename`, `declare_rename`,
`update_rename`). A renaming `Suits` a memory in which scripts run that are renamed, each in scopes around which all are
changed, and scripts of whose names none is: then this is so for every name that a script looks for.
-/

namespace GameScript

variable {α β γ δ ε : Type} {f : String → String}

/-! ## Errors -/

/-- An error with other names for variables. Names of properties stay as they are. -/
def RuntimeError.rename (f : String → String) : RuntimeError → RuntimeError
  | .undefinedVariable name => .undefinedVariable (f name)
  | .alreadyDefined name => .alreadyDefined (f name)
  | .malformedExpression (.declarationAsValue name) => .malformedExpression (.declarationAsValue (f name))
  | e => e

/-- An error at a place with other names for variables. -/
def RuntimeFault.rename (f : String → String) (x : RuntimeFault) : RuntimeFault := ⟨x.error.rename f, x.span⟩

theorem RuntimeError.Arithmetic.rename_eq {e : RuntimeError} (h : e.Arithmetic) : e.rename f = e := by
  cases e <;> first | rfl | exact h.elim

/-- Answers that are related, or an error and the same one in other words. -/
inductive Reworded (g : ε → ε) (Q : α → β → Prop) : Except ε α → Except ε β → Prop
  | ok {a : α} {b : β} (h : Q a b) : Reworded g Q (.ok a) (.ok b)
  | error (e : ε) : Reworded g Q (.error e) (.error (g e))

/-- The same answer, or the error in other words. -/
theorem reworded_mapError (g : ε → ε) {Q : α → α → Prop} {x : Except ε α} (h : ∀ a, x = .ok a → Q a a) :
    Reworded g Q x (x.mapError g) := by
  cases x with
  | ok a => exact .ok (h a rfl)
  | error e => exact .error e

theorem Reworded.eq_mapError {g : ε → ε} {x y : Except ε α} (h : Reworded g (· = ·) x y) : y = x.mapError g := by
  cases h with
  | ok h => rw [← h]; rfl
  | error e => rfl

/-! ## Cells -/

/-- Entries with other names. -/
def Entries.rename (f : String → String) (es : Entries α) : Entries α := es.map fun e => (f e.1, e.2)

section Entries

variable {es : Entries α}

@[simp] theorem Entries.map_snd_rename : (es.rename f).map Prod.snd = es.map Prod.snd := by simp [Entries.rename]

theorem Entries.get?_rename (hf : f.Injective) (es : Entries α) (key : String) :
    (es.rename f).get? (f key) = es.get? key := by
  induction es with
  | nil => rfl
  | cons e es ih =>
    obtain ⟨k, v⟩ := e
    show Entries.get? ((f k, v) :: Entries.rename f es) (f key) = _
    rw [Entries.get?_cons, Entries.get?_cons, ih]
    simp only [hf.eq_iff]

theorem Entries.put_rename (hf : f.Injective) (es : Entries α) (key : String) (value : α) :
    (es.rename f).put (f key) value = (es.put key value).rename f := by
  induction es with
  | nil => rfl
  | cons e es ih =>
    obtain ⟨k, v⟩ := e
    show Entries.put ((f k, v) :: Entries.rename f es) (f key) value = _
    unfold Entries.put
    simp only [hf.eq_iff]
    split
    · rfl
    · rw [ih]
      rfl

end Entries

/-- A scope with other names for what it binds. -/
def ScopeCell.rename (f : String → String) (c : ScopeCell) : ScopeCell := { c with bindings := c.bindings.rename f }

/-- A closure with other names for its parameters and for the variables of its body. -/
def Closure.rename (f : String → String) (c : Closure) : Closure :=
  { c with parameters := c.parameters.map f, body := c.body.rename f }

/-- Other names for variables, one-to-one, and the scopes whose names are changed. -/
structure Renaming where
  name : String ↪ String
  changes : ScopeId → Bool

/-- A scope with the names that it has then. -/
def Renaming.cell (ρ : Renaming) (s : ScopeId) (c : ScopeCell) : ScopeCell :=
  if ρ.changes s then c.rename ρ.name else c

section Cell

variable (ρ : Renaming) (s : ScopeId) (c : ScopeCell)

@[simp] theorem Renaming.parent_cell : (ρ.cell s c).parent = c.parent := by
  unfold cell
  split <;> rfl

@[simp] theorem Renaming.depth_cell : (ρ.cell s c).depth = c.depth := by
  unfold cell
  split <;> rfl

@[simp] theorem Renaming.values_cell : (ρ.cell s c).bindings.map Prod.snd = c.bindings.map Prod.snd := by
  unfold cell
  split
  · exact Entries.map_snd_rename
  · rfl

theorem Renaming.cell_empty (parent : Option ScopeId) (depth : Nat) :
    ρ.cell s ⟨[], parent, depth⟩ = ⟨[], parent, depth⟩ := by
  unfold cell
  split <;> rfl

variable {ρ s c} {name : String} (h : ρ.changes s = true ∨ ρ.name name = name)

include h

theorem Renaming.get?_cell : (ρ.cell s c).bindings.get? (ρ.name name) = c.bindings.get? name := by
  unfold cell
  split
  · exact Entries.get?_rename ρ.name.injective _ _
  · rename_i hs
    rw [h.resolve_left hs]

theorem Renaming.put_cell (value : Value) : ρ.cell s { c with bindings := c.bindings.put name value } =
    { ρ.cell s c with bindings := (ρ.cell s c).bindings.put (ρ.name name) value } := by
  unfold cell
  split
  · exact congrArg (fun es => { c with bindings := es }) (Entries.put_rename ρ.name.injective _ _ _).symm
  · rename_i hs
    rw [h.resolve_left hs]

end Cell

/-! ## Memory -/

namespace Memory

/-- Memory with other names for variables. -/
def rename (ρ : Renaming) (m : Memory) : Memory :=
  { m with scopes := m.scopes.mapIdx fun i c => ρ.cell ⟨i⟩ c, closures := m.closures.map (Closure.rename ρ.name) }

variable {ρ : Renaming} {m : Memory} {s : ScopeId} {name : String} {v : Value} {r : Reference}

theorem scope_rename (s : ScopeId) : (m.rename ρ).scope s = ρ.cell s (m.scope s) := by
  simp only [scope, rename, Array.getD_eq_getD_getElem?, Array.getElem?_mapIdx]
  cases m.scopes[s.index]? with
  | some c => rfl
  | none => exact (ρ.cell_empty s none 0).symm

theorem closure_rename (c : ClosureId) : (m.rename ρ).closure c = (m.closure c).rename ρ.name := by
  simp only [closure, rename, Array.getD_eq_getD_getElem?, Array.getElem?_map]
  cases m.closures[c.index]? <;> rfl

/-! ### What is seen -/

theorem holds_rename : (m.rename ρ).holds = m.holds := by
  funext c
  cases c with
  | object o => rfl
  | scope s => simp only [holds, scope_rename, Renaming.parent_cell, Renaming.values_cell]
  | closure c =>
    simp only [holds, closure_rename]
    rfl

theorem isAlive_rename : (m.rename ρ).isAlive = m.isAlive :=
  isAlive_congr holds_rename rfl (by simp [cells, rename])

theorem target_rename : (m.rename ρ).target r = (m.target r).mapError (RuntimeError.rename ρ.name) := by
  rw [target, isAlive_rename, target]
  split <;> rfl

theorem read_rename : (m.rename ρ).read r = (m.read r).mapError (RuntimeError.rename ρ.name) := by
  rw [read, target_rename, read]
  cases m.target r <;> rfl

theorem resolve_rename : (m.rename ρ).resolve v = (m.resolve v).mapError (RuntimeError.rename ρ.name) := by
  cases v with
  | reference r => exact read_rename
  | _ => rfl

theorem chain_rename : (m.rename ρ).chain s = m.chain s := by
  have hparent (t : ScopeId) : ((m.rename ρ).scope t).parent = (m.scope t).parent := by
    rw [scope_rename, Renaming.parent_cell]
  rw [chain, chainUpTo_congr hparent, scope_rename, Renaming.depth_cell, chain]

section Names

variable (h : ∀ t ∈ m.chain s, ρ.changes t = true ∨ ρ.name name = name)

include h

theorem lookup_rename :
    (m.rename ρ).lookup s (ρ.name name) = (m.lookup s name).mapError (RuntimeError.rename ρ.name) := by
  have hfind : ((m.chain s).findSome? fun t => ((m.rename ρ).scope t).bindings.get? (ρ.name name)) =
      (m.chain s).findSome? fun t => (m.scope t).bindings.get? name := by
    generalize m.chain s = ts at h
    induction ts with
    | nil => rfl
    | cons t ts ih =>
      rw [List.findSome?_cons, List.findSome?_cons, ih fun u hu => h u (List.mem_cons_of_mem _ hu), scope_rename,
        Renaming.get?_cell (h t List.mem_cons_self)]
  unfold lookup
  rw [chain_rename, hfind]
  split <;> rfl

theorem binder?_rename : (m.rename ρ).binder? s (ρ.name name) = m.binder? s name := by
  rw [binder?, chain_rename, binder?]
  refine List.find?_congr fun t ht => ?_
  rw [hasLocal, scope_rename, Entries.has, Renaming.get?_cell (h t ht)]
  rfl

end Names

/-! ### What is changed -/

theorem newObject_rename (es : Entries Value) :
    (m.rename ρ).newObject es = ((m.newObject es).1, (m.newObject es).2.rename ρ) := rfl

theorem newClosure_rename (c : Closure) :
    (m.rename ρ).newClosure (c.rename ρ.name) = ((m.newClosure c).1, (m.newClosure c).2.rename ρ) := by
  simp [newClosure, rename]

theorem newScope_rename (parent : Option ScopeId) :
    (m.rename ρ).newScope parent = ((m.newScope parent).1, (m.newScope parent).2.rename ρ) := by
  have hdepth : (m.rename ρ).depthUnder parent = m.depthUnder parent := by
    cases parent with
    | none => rfl
    | some p => rw [depthUnder, scope_rename, Renaming.depth_cell, depthUnder]
  simp only [newScope, hdepth]
  simp [rename, Array.mapIdx_push, Renaming.cell_empty]

theorem bind_rename (h : ρ.changes s = true ∨ ρ.name name = name) :
    (m.rename ρ).bind s (ρ.name name) v = (m.bind s name v).rename ρ := by
  have hscopes : (m.scopes.mapIdx fun i c => ρ.cell ⟨i⟩ c).modify s.index
        (fun c => { c with bindings := c.bindings.put (ρ.name name) v }) =
      (m.scopes.modify s.index fun c => { c with bindings := c.bindings.put name v }).mapIdx
        fun i c => ρ.cell ⟨i⟩ c := by
    refine Array.ext_getElem? fun i => ?_
    simp only [Array.getElem?_modify, Array.getElem?_mapIdx]
    by_cases hi : s.index = i
    · subst hi
      simp only [if_true, Option.map_map]
      exact congrArg (Option.map · _) (funext fun c => (Renaming.put_cell h v).symm)
    · simp only [if_neg hi]
  simp only [bind, rename, hscopes]

theorem write_rename : (m.rename ρ).write r v =
    ((m.write r v).map (rename ρ)).mapError (RuntimeError.rename ρ.name) := by
  rw [write, target_rename, write]
  cases m.target r <;> rfl

theorem declare_rename (h : ρ.changes s = true ∨ ρ.name name = name) : (m.rename ρ).declare s (ρ.name name) v =
    ((m.declare s name v).map (rename ρ)).mapError (RuntimeError.rename ρ.name) := by
  have hlocal : (m.rename ρ).hasLocal s (ρ.name name) = m.hasLocal s name := by
    rw [hasLocal, scope_rename, Entries.has, Renaming.get?_cell h]
    rfl
  unfold declare
  rw [hlocal, bind_rename h]
  split <;> rfl

theorem update_rename (h : ∀ t ∈ m.chain s, ρ.changes t = true ∨ ρ.name name = name) :
    (m.rename ρ).update s (ρ.name name) v =
      ((m.update s name v).map (rename ρ)).mapError (RuntimeError.rename ρ.name) := by
  unfold update
  rw [binder?_rename h]
  cases hb : m.binder? s name with
  | none => rfl
  | some t =>
    dsimp only
    rw [bind_rename (h t (List.mem_of_find?_eq_some hb))]
    rfl

/-- Bindings with other names, in a scope whose names are changed. -/
theorem declareAll_rename (hs : ρ.changes s = true) (bindings : Entries Value) (m : Memory) :
    (m.rename ρ).declareAll s (bindings.rename ρ.name) =
      ((m.declareAll s bindings).map (rename ρ)).mapError (RuntimeError.rename ρ.name) := by
  induction bindings generalizing m with
  | nil => rfl
  | cons b rest ih =>
    obtain ⟨name, value⟩ := b
    show ((m.rename ρ).declare s (ρ.name name) value >>= fun n => n.declareAll s (Entries.rename ρ.name rest)) =
      ((m.declare s name value >>= fun n => n.declareAll s rest).map (rename ρ)).mapError _
    rw [declare_rename (.inl hs)]
    cases m.declare s name value with
    | ok n => exact ih n
    | error e => rfl

theorem newFunctionScope_rename {p : ScopeId} (hnew : ρ.changes (m.newScope (some p)).1 = true)
    (parameters : List String) (arguments : List Value) :
    (m.rename ρ).newFunctionScope p (parameters.map ρ.name) arguments =
      ((m.newFunctionScope p parameters arguments).map fun r => (r.1, r.2.rename ρ)).mapError
        (RuntimeError.rename ρ.name) := by
  unfold newFunctionScope
  rw [List.length_map]
  split
  · have hzip : (parameters.map ρ.name).zip arguments = Entries.rename ρ.name (parameters.zip arguments) := by
      rw [List.zip_map_left]
      rfl
    have hdeclared := declareAll_rename hnew (parameters.zip arguments) (m.newScope (some p)).2
    have hnewScope := newScope_rename (ρ := ρ) (m := m) (some p)
    generalize (m.rename ρ).newScope (some p) = inner' at hnewScope
    subst hnewScope
    dsimp only
    rw [hzip, hdeclared]
    cases (m.newScope (some p)).2.declareAll (m.newScope (some p)).1 (parameters.zip arguments) <;> rfl
  · rfl

end Memory

/-! ## Targets -/

/-- A target with other names for variables. -/
def Target.rename (f : String → String) : Target → Target
  | declare name => declare (f name)
  | existing name => existing (f name)
  | property r => property r

/-- Each scope around the scope of a target is changed, or else the target is the same with other names. -/
def Renaming.Covers (ρ : Renaming) (m : Memory) (s : ScopeId) (t : Target) : Prop :=
  ∀ u ∈ m.chain s, ρ.changes u = true ∨ t.rename ρ.name = t

section Targets

variable {ρ : Renaming} {m : Memory} {s : ScopeId} {t : Target} {v : Value}

theorem Target.read_rename (h : ρ.Covers m s t) :
    (t.rename ρ.name).read (m.rename ρ) s = (t.read m s).mapError (RuntimeError.rename ρ.name) := by
  cases t with
  | declare name => rfl
  | property r => exact Memory.read_rename
  | existing name =>
    show ((m.rename ρ).lookup s (ρ.name name) >>= (m.rename ρ).resolve) = (m.lookup s name >>= m.resolve).mapError _
    rw [Memory.lookup_rename fun u hu => (h u hu).imp_right Target.existing.inj]
    cases m.lookup s name with
    | ok v => exact Memory.resolve_rename
    | error e => rfl

theorem Target.write_rename (h : ρ.Covers m s t) : (t.rename ρ.name).write v s (m.rename ρ) =
    ((t.write v s m).map (Memory.rename ρ)).mapError (RuntimeError.rename ρ.name) := by
  cases t with
  | declare name =>
    obtain ⟨rest, hchain⟩ := m.chain_eq_cons s
    exact Memory.declare_rename ((h s (hchain ▸ List.mem_cons_self)).imp_right Target.declare.inj)
  | existing name => exact Memory.update_rename fun u hu => (h u hu).imp_right Target.existing.inj
  | property r => exact Memory.write_rename

end Targets

/-! ## Where scripts run that are renamed -/

/-- Scripts that are renamed run in some scopes: those and the scopes around them are changed, and so is every scope
that is not yet made. A closure was written in one of these scopes, or it is the same with other names. -/
structure Renaming.Suits (ρ : Renaming) (w : Set ScopeId) (m : Memory) : Prop where
  new : ∀ s, ¬m.HasScope s → ρ.changes s = true
  changes : ∀ s ∈ w, ρ.changes s = true
  made : ∀ s ∈ w, m.HasScope s
  parent : ∀ s ∈ w, ∀ p, (m.scope s).parent = some p → p ∈ w
  closure : ∀ c, (m.closure c).scope ∈ w ∨ (m.closure c).rename ρ.name = m.closure c

namespace Renaming.Suits

variable {ρ : Renaming} {w : Set ScopeId} {m n : Memory} {s : ScopeId} {name : String} {v : Value}

/-- What is looked for in a scope where renamed scripts run is looked for in scopes that are changed alone. -/
theorem changes_of_mem_chain (h : ρ.Suits w m) (hs : s ∈ w) : ∀ t ∈ m.chain s, ρ.changes t = true := fun t ht =>
  h.changes t (Memory.mem_chain (P := (· ∈ w)) h.parent hs ht)

theorem covers (h : ρ.Suits w m) {t : Target} (ht : s ∈ w ∨ t.rename ρ.name = t) : ρ.Covers m s t := fun u hu =>
  ht.imp_left fun hs => h.changes_of_mem_chain hs u hu

/-- Where no scope and no closure is made and none is changed but for what a scope binds. -/
theorem congr (h : ρ.Suits w m) (hmade : ∀ s, n.HasScope s ↔ m.HasScope s)
    (hparent : ∀ s, (n.scope s).parent = (m.scope s).parent) (hclosure : ∀ c, n.closure c = m.closure c) :
    ρ.Suits w n where
  new s hs := h.new s fun hm => hs ((hmade s).2 hm)
  changes := h.changes
  made s hs := (hmade s).2 (h.made s hs)
  parent s hs p hp := h.parent s hs p ((hparent s).symm.trans hp)
  closure c := by
    rw [hclosure]
    exact h.closure c

theorem withHeld (h : ρ.Suits w m) (held : List Cell) : ρ.Suits w { m with held := held } :=
  h.congr (fun _ => Iff.rfl) (fun _ => rfl) fun _ => rfl

theorem setProperty (h : ρ.Suits w m) (o : ObjectId) (key : String) : ρ.Suits w (m.setProperty o key v) :=
  h.congr (fun _ => Iff.rfl) (fun _ => rfl) fun _ => rfl

theorem newObject (h : ρ.Suits w m) (es : Entries Value) : ρ.Suits w (m.newObject es).2 :=
  h.congr (fun _ => Iff.rfl) (fun _ => rfl) fun _ => rfl

theorem bind (h : ρ.Suits w m) : ρ.Suits w (m.bind s name v) :=
  h.congr (fun _ => Memory.hasScope_bind) (fun _ => Memory.parent_bind) fun _ => rfl

theorem targetWrite (h : ρ.Suits w m) {t : Target} (hn : t.write v s m = .ok n) : ρ.Suits w n := by
  cases t with
  | declare name =>
    obtain ⟨-, rfl⟩ := Memory.declare_eq_ok_iff.1 hn
    exact h.bind
  | existing name =>
    obtain ⟨t, -, rfl⟩ := Memory.update_eq_ok_iff.1 hn
    exact h.bind
  | property r =>
    rw [← Memory.eq_of_write hn]
    exact h.setProperty _ _

theorem declareAll (h : ρ.Suits w m) {bindings : List (String × Value)} (hn : m.declareAll s bindings = .ok n) :
    ρ.Suits w n := by
  induction bindings generalizing m with
  | nil =>
    cases hn
    exact h
  | cons b rest ih =>
    obtain ⟨k, hk, hn⟩ := exists_of_bind_eq_ok hn
    exact ih (h.targetWrite (t := .declare b.1) hk) hn

theorem newClosure (h : ρ.Suits w m) {c : Closure} (hc : c.scope ∈ w ∨ c.rename ρ.name = c) :
    ρ.Suits w (m.newClosure c).2 where
  new := h.new
  changes := h.changes
  made := h.made
  parent := h.parent
  closure d := by
    by_cases hd : d = (m.newClosure c).1
    · rw [hd, Memory.closure_newClosure]
      exact hc
    · rw [Memory.closure_newClosure_of_ne hd]
      exact h.closure d

theorem changes_newScope (h : ρ.Suits w m) (parent : Option ScopeId) : ρ.changes (m.newScope parent).1 = true :=
  h.new _ (Nat.lt_irrefl _)

/-- A new scope is one where renamed scripts run if the scope around it is. -/
theorem newScope (h : ρ.Suits w m) (p : ScopeId) : ∃ w', w ⊆ w' ∧ ρ.Suits w' (m.newScope (some p)).2 ∧
    (p ∈ w → (m.newScope (some p)).1 ∈ w') := by
  have hgrown (t : ScopeId) (ht : m.HasScope t) : (m.newScope (some p)).2.HasScope t :=
    Nat.lt_of_lt_of_le ht (by simp [Memory.newScope])
  have hself : (m.newScope (some p)).2.HasScope (m.newScope (some p)).1 := by simp [Memory.newScope, Memory.HasScope]
  have hold (t : ScopeId) (ht : t ∈ w) : (m.newScope (some p)).2.scope t = m.scope t :=
    Memory.scope_newScope_of_hasScope (h.made t ht)
  have hunmade (t : ScopeId) (ht : ¬(m.newScope (some p)).2.HasScope t) : ρ.changes t = true :=
    h.new t fun hm => ht (hgrown t hm)
  by_cases hp : p ∈ w
  · refine ⟨insert (m.newScope (some p)).1 w, Set.subset_insert _ _, ⟨hunmade, ?_, ?_, ?_, ?_⟩, fun _ => .inl rfl⟩
    · rintro t (rfl | ht)
      · exact h.changes_newScope _
      · exact h.changes t ht
    · rintro t (rfl | ht)
      · exact hself
      · exact hgrown t (h.made t ht)
    · rintro t (rfl | ht) q hq
      · rw [Memory.scope_newScope] at hq
        exact .inr (Option.some.inj hq ▸ hp)
      · rw [hold t ht] at hq
        exact .inr (h.parent t ht q hq)
    · exact fun c => (h.closure c).imp_left .inr
  · refine ⟨w, subset_rfl, ⟨hunmade, h.changes, fun t ht => hgrown t (h.made t ht), fun t ht q hq => ?_, h.closure⟩,
      fun h => absurd h hp⟩
    rw [hold t ht] at hq
    exact h.parent t ht q hq

theorem newFunctionScope (h : ρ.Suits w m) {p : ScopeId} {parameters : List String} {arguments : List Value}
    (hn : m.newFunctionScope p parameters arguments = .ok (s, n)) :
    ∃ w', w ⊆ w' ∧ ρ.Suits w' n ∧ (p ∈ w → s ∈ w') := by
  unfold Memory.newFunctionScope at hn
  split at hn
  · obtain ⟨k, hk, hn⟩ := exists_of_bind_eq_ok hn
    cases hn
    obtain ⟨w', hle, hnew, hin⟩ := h.newScope p
    exact ⟨w', hle, hnew.declareAll hk, hin⟩
  · cases hn

end Renaming.Suits

end GameScript
