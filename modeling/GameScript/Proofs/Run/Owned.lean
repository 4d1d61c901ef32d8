import GameScript.Proofs.Run.Lifetimes
import GameScript.Run.Teardown

/-!
# What a teardown empties

A scope owns the cells that are reached from it by way of what each holds: its parent, what it and they bind, the
properties of objects, the scopes of closures, and the objects of anchored references. A reference that is not anchored
owns nothing.

A teardown empties cells while it follows them, so it goes by what was in them when it came to them. The invariant
relates it to the memory that it started from (`Teardown.Invariant`): what has been emptied is owned and was as it was
at the start until then, what is on the lists is owned, and all that an emptied cell held is known, that is, emptied or
on a list. Every round keeps it (`Invariant.step`), and when nothing is left to do what is known has been emptied.

Main statement: a teardown comes to an end, what the scope owned is empty then and nothing else is changed, and a second
teardown does nothing (`teardown_empties_what_is_owned`).
-/

namespace GameScript

namespace Memory

/-- The cells that a scope owns, itself included. -/
def owned (m : Memory) (s : ScopeId) : Set Cell := {c | Relation.ReflTransGen (fun c d => d ∈ m.holds c) (.scope s) c}

/-- What has become of a memory of which some objects and scopes have been emptied, and nothing else has been
changed. -/
structure Cleared (m : Memory) (K : Set Cell) (m' : Memory) : Prop where
  properties_of_mem : ∀ o, .object o ∈ K → m'.properties o = []
  properties_of_not_mem : ∀ o, .object o ∉ K → m'.properties o = m.properties o
  scope_of_mem : ∀ s, .scope s ∈ K → m'.scope s = { m.scope s with bindings := [] }
  scope_of_not_mem : ∀ s, .scope s ∉ K → m'.scope s = m.scope s
  closures : m'.closures = m.closures
  held : m'.held = m.held
  objectCount : m'.objects.size = m.objects.size
  scopeCount : m'.scopes.size = m.scopes.size

variable {m m' m'' : Memory} {K : Set Cell} {c d : Cell} {o p : ObjectId} {s t : ScopeId}

/-! ## Emptying a cell -/

theorem properties_clear : (m.clear (.object o)).properties o = [] := by
  simp only [clear, properties, Array.getD_eq_getD_getElem?, Array.getElem?_modify]
  cases m.objects[o.index]? <;> simp

theorem properties_clear_of_ne (h : c ≠ .object p) : (m.clear c).properties p = m.properties p := by
  cases c with
  | object o =>
    have hi : o.index ≠ p.index := by
      intro he
      apply h
      rw [show o = p from congrArg ObjectId.mk he]
    simp [clear, properties, Array.getD_eq_getD_getElem?, Array.getElem?_modify, hi]
  | _ => rfl

theorem scope_clear : (m.clear (.scope s)).scope s = { m.scope s with bindings := [] } := by
  simp only [clear, scope, Array.getD_eq_getD_getElem?, Array.getElem?_modify]
  cases m.scopes[s.index]? <;> simp
  rfl

theorem scope_clear_of_ne (h : c ≠ .scope t) : (m.clear c).scope t = m.scope t := by
  cases c with
  | scope s =>
    have hi : s.index ≠ t.index := by
      intro he
      apply h
      rw [show s = t from congrArg ScopeId.mk he]
    simp [clear, scope, Array.getD_eq_getD_getElem?, Array.getElem?_modify, hi]
  | _ => rfl

theorem closures_clear : (m.clear c).closures = m.closures := by cases c <;> rfl

theorem held_clear : (m.clear c).held = m.held := by cases c <;> rfl

theorem Cleared.refl (m : Memory) : m.Cleared ∅ m :=
  ⟨fun _ => False.elim, fun _ _ => rfl, fun _ => False.elim, fun _ _ => rfl, rfl, rfl, rfl, rfl⟩

/-- One more cell is emptied. -/
theorem Cleared.clear (h : m.Cleared K m') (c : Cell) : m.Cleared (insert c K) (m'.clear c) where
  properties_of_mem o ho := by
    by_cases hc : c = .object o
    · rw [hc]
      exact properties_clear
    · rw [properties_clear_of_ne hc]
      exact h.properties_of_mem o (ho.resolve_left (Ne.symm hc))
  properties_of_not_mem o ho := by
    have hc : c ≠ .object o := fun he => ho (.inl he.symm)
    rw [properties_clear_of_ne hc]
    exact h.properties_of_not_mem o fun hK => ho (.inr hK)
  scope_of_mem s hs := by
    by_cases hc : c = .scope s
    · rw [hc, scope_clear]
      by_cases hK : .scope s ∈ K
      · rw [h.scope_of_mem s hK]
      · rw [h.scope_of_not_mem s hK]
    · rw [scope_clear_of_ne hc]
      exact h.scope_of_mem s (hs.resolve_left (Ne.symm hc))
  scope_of_not_mem s hs := by
    have hc : c ≠ .scope s := fun he => hs (.inl he.symm)
    rw [scope_clear_of_ne hc]
    exact h.scope_of_not_mem s fun hK => hs (.inr hK)
  closures := by rw [closures_clear, h.closures]
  held := by rw [held_clear, h.held]
  objectCount := by
    rw [← h.objectCount]
    cases c <;> simp [Memory.clear]
  scopeCount := by
    rw [← h.scopeCount]
    cases c <;> simp [Memory.clear]

theorem Cleared.closure_eq (h : m.Cleared K m') (f : ClosureId) : m'.closure f = m.closure f := by
  unfold closure
  rw [h.closures]

theorem Cleared.parent_eq (h : m.Cleared K m') (s : ScopeId) : (m'.scope s).parent = (m.scope s).parent := by
  by_cases hs : .scope s ∈ K
  · rw [h.scope_of_mem s hs]
  · rw [h.scope_of_not_mem s hs]

/-- What is stored in a cell that has not been emptied is what was stored in it. -/
theorem Cleared.stored_eq (h : m.Cleared K m') (hc : c ∉ K) : m'.stored c = m.stored c := by
  cases c with
  | object o => rw [stored, stored, h.properties_of_not_mem o hc]
  | scope s => rw [stored, stored, h.scope_of_not_mem s hc]
  | closure f => rfl

/-- A cell holds no more than it did. -/
theorem Cleared.mem_holds (h : m.Cleared K m') (hd : d ∈ m'.holds c) : d ∈ m.holds c := by
  cases c with
  | object o =>
    by_cases ho : .object o ∈ K
    · rw [holds, h.properties_of_mem o ho] at hd
      cases hd
    · rwa [holds, h.properties_of_not_mem o ho] at hd
  | scope s =>
    by_cases hs : .scope s ∈ K
    · rw [holds, h.scope_of_mem s hs] at hd
      apply List.mem_append_left
      simpa [Value.cells] using hd
    · rwa [holds, h.scope_of_not_mem s hs] at hd
  | closure f =>
    rw [holds, h.closure_eq f] at hd
    exact hd

/-- A scope owns no more than it did. -/
theorem Cleared.owned_subset (h : m.Cleared K m') (s : ScopeId) : m'.owned s ⊆ m.owned s := by
  intro c hc
  induction hc with
  | refl => exact .refl
  | tail _ hd ih => exact .tail ih (h.mem_holds hd)

theorem eq_of_scope_eq (hsize : m.scopes.size = m'.scopes.size) (h : ∀ s, m.scope s = m'.scope s) :
    m.scopes = m'.scopes := by
  apply Array.ext hsize
  intro i hi hi'
  simpa [scope, Array.getD_eq_getD_getElem?, hi, hi'] using h ⟨i⟩

theorem eq_of_properties_eq (hsize : m.objects.size = m'.objects.size) (h : ∀ o, m.properties o = m'.properties o) :
    m.objects = m'.objects := by
  apply Array.ext hsize
  intro i hi hi'
  simpa [properties, Array.getD_eq_getD_getElem?, hi, hi'] using h ⟨i⟩

/-- Emptying what is empty changes nothing. -/
theorem Cleared.eq_self (h : m.Cleared K m') (hobjects : ∀ o, .object o ∈ K → m.properties o = [])
    (hscopes : ∀ s, .scope s ∈ K → (m.scope s).bindings = []) : m' = m := by
  have hobject : m'.objects = m.objects := by
    apply eq_of_properties_eq h.objectCount
    intro o
    by_cases ho : .object o ∈ K
    · rw [h.properties_of_mem o ho, hobjects o ho]
    · exact h.properties_of_not_mem o ho
  have hscope : m'.scopes = m.scopes := by
    apply eq_of_scope_eq h.scopeCount
    intro s
    by_cases hs : .scope s ∈ K
    · rw [h.scope_of_mem s hs, ← hscopes s hs]
    · exact h.scope_of_not_mem s hs
  cases m
  cases m'
  simp only [Memory.mk.injEq]
  exact ⟨hobject, hscope, h.closures, h.held⟩

end Memory

/-! ## The invariant -/

namespace Teardown

/-- What a teardown knows of: a cell that has been emptied or is on a list; a closure is known when its scope is. -/
def Knows (m : Memory) (t : Teardown) : Cell → Prop
  | .object o => .object o ∈ t.seen ∨ .object o ∈ Value.cells t.pending
  | .scope s => .scope s ∈ t.seen ∨ s ∈ t.scopes
  | .closure f =>
    .closure f ∈ Value.cells t.pending ∨ .scope (m.closure f).scope ∈ t.seen ∨ (m.closure f).scope ∈ t.scopes

/-- How a teardown of a scope stands to the memory that it started from. -/
structure Invariant (m : Memory) (s : ScopeId) (t : Teardown) : Prop where
  cleared : m.Cleared {c | c ∈ t.seen} t.memory
  seen : ∀ c ∈ t.seen, c ∈ m.owned s
  scopes : ∀ u ∈ t.scopes, .scope u ∈ m.owned s
  pending : ∀ c ∈ Value.cells t.pending, c ∈ m.owned s
  root : t.Knows m (.scope s)
  known : ∀ c ∈ t.seen, ∀ d ∈ m.holds c, t.Knows m d

variable {m : Memory} {s u : ScopeId} {t t' : Teardown} {c d : Cell}

theorem knows_of_mem_seen (h : c ∈ t.seen) (hc : ∀ f, c ≠ .closure f) : t.Knows m c := by
  cases c with
  | object o => exact .inl h
  | scope u => exact .inl h
  | closure f => exact absurd rfl (hc f)

theorem knows_of_mem_pending (h : c ∈ Value.cells t.pending) : t.Knows m c := by
  cases c with
  | object o => exact .inr h
  | closure f => exact .inl h
  | scope u =>
    -- no value keeps a scope alive by itself
    obtain ⟨v, -, hv⟩ := List.mem_filterMap.1 h
    cases v with
    | reference r =>
      simp only [Value.cell?] at hv
      split at hv <;> cases hv
    | _ => cases hv

/-- What is known stays known while the lists are worked off. -/
theorem Knows.mono (h : t.Knows m d) (hseen : ∀ c ∈ t.seen, c ∈ t'.seen)
    (hscopes : ∀ u ∈ t.scopes, t'.Knows m (.scope u)) (hpending : ∀ c ∈ Value.cells t.pending, t'.Knows m c) :
    t'.Knows m d := by
  cases d with
  | object o =>
    rcases h with h | h
    · exact .inl (hseen _ h)
    · exact hpending _ h
  | scope u =>
    rcases h with h | h
    · exact .inl (hseen _ h)
    · exact hscopes u h
  | closure f =>
    rcases h with h | h | h
    · exact hpending _ h
    · exact .inr (.inl (hseen _ h))
    · exact .inr (hscopes _ h)

/-- A round keeps the invariant where what it empties is owned and what that held is known, and what was on the lists is
known still. -/
theorem Invariant.advance (h : t.Invariant m s) (hcleared : m.Cleared {c | c ∈ t'.seen} t'.memory)
    (hold : ∀ c ∈ t.seen, c ∈ t'.seen)
    (hnew : ∀ c ∈ t'.seen, c ∉ t.seen → c ∈ m.owned s ∧ ∀ d ∈ m.holds c, t'.Knows m d)
    (hscopes : ∀ u ∈ t'.scopes, .scope u ∈ m.owned s) (hpending : ∀ c ∈ Value.cells t'.pending, c ∈ m.owned s)
    (hscopes' : ∀ u ∈ t.scopes, t'.Knows m (.scope u))
    (hpending' : ∀ c ∈ Value.cells t.pending, t'.Knows m c) : t'.Invariant m s where
  cleared := hcleared
  seen c hc := by
    by_cases hmem : c ∈ t.seen
    · exact h.seen c hmem
    · exact (hnew c hc hmem).1
  scopes := hscopes
  pending := hpending
  root := h.root.mono hold hscopes' hpending'
  known c hc d hd := by
    by_cases hmem : c ∈ t.seen
    · exact (h.known c hmem d hd).mono hold hscopes' hpending'
    · exact (hnew c hc hmem).2 d hd

/-- The lists may be changed while nothing is emptied. -/
theorem Invariant.relist {scopes : List ScopeId} {pending : List Value} (h : t.Invariant m s)
    (hscopes : ∀ u ∈ scopes, .scope u ∈ m.owned s) (hpending : ∀ c ∈ Value.cells pending, c ∈ m.owned s)
    (hscopes' : ∀ u ∈ t.scopes, Knows m ⟨t.memory, t.seen, scopes, pending⟩ (.scope u))
    (hpending' : ∀ c ∈ Value.cells t.pending, Knows m ⟨t.memory, t.seen, scopes, pending⟩ c) :
    Invariant m s ⟨t.memory, t.seen, scopes, pending⟩ :=
  h.advance h.cleared (fun _ => id) (fun _ hc hmem => absurd hc hmem) hscopes hpending hscopes' hpending'

/-! ## One round -/

theorem cells_cons (v : Value) (vs : List Value) : Value.cells (v :: vs) = v.cell?.toList ++ Value.cells vs := by
  cases hv : v.cell? <;> simp [Value.cells, hv]

theorem mem_cells_append {vs ws : List Value} :
    c ∈ Value.cells (vs.reverse ++ ws) ↔ c ∈ Value.cells vs ∨ c ∈ Value.cells ws := by
  simp [Value.cells]

theorem pushParent_eq (t : Teardown) (s : ScopeId) :
    t.pushParent s = { t with scopes := (t.memory.scope s).parent.toList ++ t.scopes } := by
  unfold pushParent
  cases (t.memory.scope s).parent <;> rfl

theorem cleared_drain (h : t.Invariant m s) (c : Cell) :
    m.Cleared {d | d ∈ t.seen.insert c} (t.memory.clear c) := by
  have hseen : {d | d ∈ t.seen.insert c} = insert c {d | d ∈ t.seen} := by
    ext d
    simp only [Set.mem_ofPred_eq, Std.HashSet.mem_insert, Set.mem_insert_iff, beq_iff_eq]
    exact or_congr_left eq_comm
  rw [hseen]
  exact h.cleared.clear c

/-- What is stored in a cell that has not been emptied is held by it from the start. -/
theorem mem_holds_of_mem_stored (h : t.Invariant m s) (hc : c ∉ t.seen)
    (hd : d ∈ Value.cells (t.memory.stored c)) : d ∈ m.holds c := by
  rw [h.cleared.stored_eq hc] at hd
  cases c with
  | object o => exact hd
  | scope u => exact List.mem_append_right _ hd
  | closure f => cases hd

/-- A cell that is owned may be emptied, if the scopes to visit get its parent where it is a scope. -/
theorem Invariant.drain {scopes : List ScopeId} {pending : List Value} (h : t.Invariant m s) (hnew : c ∉ t.seen)
    (hc : ∀ f, c ≠ .closure f) (howned : c ∈ m.owned s) (hscopes : ∀ u ∈ scopes, .scope u ∈ m.owned s)
    (hpending : ∀ d ∈ Value.cells pending, d ∈ m.owned s)
    (hscopes' : ∀ u ∈ t.scopes, u ∈ scopes ∨ c = .scope u)
    (hpending' : ∀ d ∈ Value.cells t.pending, d ∈ Value.cells pending ∨ c = d)
    (hparent : ∀ u p, c = .scope u → (m.scope u).parent = some p → p ∈ scopes) :
    Invariant m s ⟨t.memory.clear c, t.seen.insert c, scopes, (t.memory.stored c).reverse ++ pending⟩ := by
  refine h.advance (cleared_drain h c) ?_ ?_ hscopes ?_ ?_ ?_
  · intro d hd
    exact Std.HashSet.mem_insert.2 (.inr hd)
  · intro d hd hmem
    obtain rfl : c = d := eq_of_beq ((Std.HashSet.mem_insert.1 hd).resolve_right hmem)
    refine ⟨howned, fun e he => ?_⟩
    have hstored (he : e ∈ Value.cells (m.stored c)) :
        e ∈ Value.cells ((t.memory.stored c).reverse ++ pending) := by
      rw [mem_cells_append, h.cleared.stored_eq hnew]
      exact .inl he
    cases c with
    | object o => exact knows_of_mem_pending (hstored he)
    | closure f => exact absurd rfl (hc f)
    | scope u =>
      rcases List.mem_append.1 he with he | he
      · obtain ⟨p, hp, rfl⟩ : ∃ p, (m.scope u).parent = some p ∧ Cell.scope p = e := by
          simpa [Option.map_eq_some_iff] using he
        exact .inr (hparent u p rfl hp)
      · exact knows_of_mem_pending (hstored he)
  · intro d hd
    rcases mem_cells_append.1 hd with hd | hd
    · exact howned.tail (mem_holds_of_mem_stored h hnew hd)
    · exact hpending d hd
  · intro u hu
    rcases hscopes' u hu with hu | rfl
    · exact .inr hu
    · exact .inl Std.HashSet.mem_insert_self
  · intro d hd
    rcases hpending' d hd with hd | rfl
    · exact knows_of_mem_pending (mem_cells_append.2 (.inr hd))
    · exact knows_of_mem_seen Std.HashSet.mem_insert_self hc

theorem Invariant.visitScope {rest : List ScopeId} (h : t.Invariant m s) (hscopes : t.scopes = u :: rest) :
    ({ t with scopes := rest }.visitScope u).Invariant m s := by
  have howned : .scope u ∈ m.owned s := h.scopes u (by simp [hscopes])
  have hrest : ∀ v ∈ rest, .scope v ∈ m.owned s := fun v hv => h.scopes v (by simp [hscopes, hv])
  have hcases : ∀ v ∈ t.scopes, v ∈ rest ∨ u = v := by
    intro v hv
    rw [hscopes] at hv
    exact (List.mem_cons.1 hv).symm.imp_right Eq.symm
  unfold Teardown.visitScope
  split
  · rename_i hseen
    refine h.relist hrest h.pending ?_ ?_
    · intro v hv
      rcases hcases v hv with hv | rfl
      · exact .inr hv
      · exact .inl (Std.HashSet.contains_iff_mem.1 hseen)
    · exact fun c hc => knows_of_mem_pending hc
  · rename_i hseen
    have hnew : .scope u ∉ t.seen := fun hmem => hseen (Std.HashSet.contains_iff_mem.2 hmem)
    have hparent : ((t.memory.clear (.scope u)).scope u).parent = (m.scope u).parent := by
      rw [Memory.scope_clear]
      exact h.cleared.parent_eq u
    rw [pushParent_eq]
    simp only [Teardown.drain, hparent]
    refine h.drain hnew (fun f hf => by cases hf) howned ?_ h.pending ?_ (fun d hd => .inl hd) ?_
    · intro v hv
      rcases List.mem_append.1 hv with hv | hv
      · refine howned.tail (List.mem_append_left _ ?_)
        simpa using hv
      · exact hrest v hv
    · intro v hv
      rcases hcases v hv with hv | rfl
      · exact .inl (List.mem_append_right _ hv)
      · exact .inr rfl
    · rintro v p ⟨⟩ hp
      simp [hp]

section Values

variable {v : Value} {rest : List Value}

theorem mem_cells_pending_iff (hpending : t.pending = v :: rest) :
    c ∈ Value.cells t.pending ↔ v.cell? = some c ∨ c ∈ Value.cells rest := by
  rw [hpending, cells_cons]
  simp [Option.mem_toList]

theorem Invariant.mem_owned_of_mem_rest (h : t.Invariant m s) (hpending : t.pending = v :: rest) :
    ∀ c ∈ Value.cells rest, c ∈ m.owned s :=
  fun c hc => h.pending c ((mem_cells_pending_iff hpending).2 (.inr hc))

/-- A value is dropped when the cell that it leads to is known without it. -/
theorem Invariant.drop (h : t.Invariant m s) (hpending : t.pending = v :: rest)
    (hv : ∀ c, v.cell? = some c → Knows m { t with pending := rest } c) :
    Invariant m s { t with pending := rest } := by
  refine h.relist h.scopes (h.mem_owned_of_mem_rest hpending) (fun _ hu => .inr hu) ?_
  intro c hc
  rcases (mem_cells_pending_iff hpending).1 hc with hc | hc
  · exact hv c hc
  · exact knows_of_mem_pending hc

theorem Invariant.visitObject {o : ObjectId} (h : t.Invariant m s) (hpending : t.pending = .object o :: rest) :
    ({ t with pending := rest }.visitValue (.object o)).Invariant m s := by
  have howned : .object o ∈ m.owned s := h.pending _ ((mem_cells_pending_iff hpending).2 (.inl rfl))
  unfold Teardown.visitValue
  dsimp only
  split
  · rename_i hseen
    apply h.drop hpending
    rintro c ⟨⟩
    exact .inl (Std.HashSet.contains_iff_mem.1 hseen)
  · rename_i hseen
    have hnew : .object o ∉ t.seen := fun hmem => hseen (Std.HashSet.contains_iff_mem.2 hmem)
    refine h.drain hnew nofun howned h.scopes (h.mem_owned_of_mem_rest hpending) (fun _ hu => .inl hu) ?_ nofun
    intro c hc
    rcases (mem_cells_pending_iff hpending).1 hc with hc | hc
    · exact .inr (Option.some.inj hc)
    · exact .inl hc

theorem Invariant.visitReference {r : Reference} (h : t.Invariant m s) (hpending : t.pending = .reference r :: rest) :
    ({ t with pending := rest }.visitValue (.reference r)).Invariant m s := by
  unfold Teardown.visitValue
  dsimp only
  split
  · rename_i hanchored
    have hcell : (Value.reference r).cell? = some (.object r.object) := if_pos hanchored
    have hsame : ∀ c, c ∈ Value.cells (.object r.object :: rest) ↔ c ∈ Value.cells t.pending := by
      intro c
      rw [mem_cells_pending_iff hpending, hcell, cells_cons]
      simp [Value.cell?, eq_comm]
    refine h.relist h.scopes ?_ (fun _ hu => .inr hu) ?_
    · exact fun c hc => h.pending c ((hsame c).1 hc)
    · exact fun c hc => knows_of_mem_pending ((hsame c).2 hc)
  · rename_i hanchored
    have hcell : (Value.reference r).cell? = none := if_neg hanchored
    exact h.drop hpending fun c hc => by simp [hcell] at hc

theorem Invariant.visitClosure {f : ClosureId} (h : t.Invariant m s) (hscopes : t.scopes = [])
    (hpending : t.pending = .closure f :: rest) :
    ({ t with pending := rest }.visitValue (.closure f)).Invariant m s := by
  have howned : .closure f ∈ m.owned s := h.pending _ ((mem_cells_pending_iff hpending).2 (.inl rfl))
  have hscope : (t.memory.closure f).scope = (m.closure f).scope := congrArg Closure.scope (h.cleared.closure_eq f)
  simp only [Teardown.visitValue, push, hscope]
  refine h.relist ?_ (h.mem_owned_of_mem_rest hpending) (by simp [hscopes]) ?_
  · intro u hu
    simp only [hscopes, List.mem_singleton] at hu
    rw [hu]
    exact howned.tail (List.mem_singleton.2 rfl)
  · intro c hc
    rcases (mem_cells_pending_iff hpending).1 hc with hc | hc
    · obtain rfl : .closure f = c := Option.some.inj hc
      exact .inr (.inr List.mem_cons_self)
    · exact knows_of_mem_pending hc

theorem Invariant.visitValue (h : t.Invariant m s) (hscopes : t.scopes = []) (hpending : t.pending = v :: rest) :
    ({ t with pending := rest }.visitValue v).Invariant m s := by
  cases v with
  | object o => exact h.visitObject hpending
  | reference r => exact h.visitReference hpending
  | closure f => exact h.visitClosure hscopes hpending
  | _ => exact h.drop hpending fun c hc => by cases hc

end Values

/-- Every round keeps the invariant. -/
theorem Invariant.step (h : t.Invariant m s) (hstep : t.step? = some t') : t'.Invariant m s := by
  unfold step? at hstep
  split at hstep
  · rename_i hscopes
    cases hstep
    exact h.visitScope hscopes
  · rename_i hscopes hpending
    cases hstep
    exact h.visitValue hscopes hpending
  · cases hstep

theorem invariant_start (m : Memory) (s : ScopeId) : (start m s).Invariant m s where
  cleared := by
    have hnone : {c | c ∈ (start m s).seen} = ∅ := by
      ext c
      simp [start]
    rw [hnone]
    exact .refl m
  seen c hc := absurd hc Std.HashSet.not_mem_empty
  scopes u hu := by
    obtain rfl := List.mem_singleton.1 hu
    exact .refl
  pending c hc := nomatch hc
  root := .inr List.mem_cons_self
  known c hc := absurd hc Std.HashSet.not_mem_empty

/-! ## The whole teardown -/

/-- One round is done. -/
def Round (t t' : Teardown) : Prop := t.step? = some t'

/-- Round after round a teardown comes to where nothing is left to do. -/
theorem exists_end (t : Teardown) : ∃ t', Relation.ReflTransGen Round t t' ∧ t'.step? = none ∧ t'.memory = t.run := by
  fun_induction run t with
  | case1 t hnone => exact ⟨t, .refl, hnone, rfl⟩
  | case2 t t' hstep ih =>
    obtain ⟨e, hrun, hend, hmemory⟩ := ih
    exact ⟨e, .head hstep hrun, hend, hmemory⟩

theorem Invariant.rounds (h : t.Invariant m s) (hrun : Relation.ReflTransGen Round t t') : t'.Invariant m s := by
  induction hrun with
  | refl => exact h
  | tail _ hstep ih => exact ih.step hstep

theorem done_of_step?_eq_none (hend : t.step? = none) : t.scopes = [] ∧ t.pending = [] := by
  unfold step? at hend
  split at hend <;> simp_all

/-- When nothing is left to do all that the scope owns is known. -/
theorem Invariant.knows_owned (h : t.Invariant m s) (hend : t.step? = none) : ∀ c ∈ m.owned s, t.Knows m c := by
  obtain ⟨hscopes, hpending⟩ := done_of_step?_eq_none hend
  intro c hc
  induction hc with
  | refl => exact h.root
  | @tail c d _ hd ih =>
    cases c with
    | closure f =>
      -- a closure is known by its scope
      obtain rfl := List.mem_singleton.1 hd
      rcases ih with ih | ih
      · simp [hpending, Value.cells] at ih
      · exact ih
    | object o =>
      rcases ih with ih | ih
      · exact h.known _ ih d hd
      · simp [hpending, Value.cells] at ih
    | scope u =>
      rcases ih with ih | ih
      · exact h.known _ ih d hd
      · simp [hscopes] at ih

/-- When nothing is left to do what the scope owns has been emptied. -/
theorem Invariant.cleared_owned (h : t.Invariant m s) (hend : t.step? = none) : m.Cleared (m.owned s) t.memory := by
  obtain ⟨hscopes, hpending⟩ := done_of_step?_eq_none hend
  have hknown := h.knows_owned hend
  have hobject : ∀ o, .object o ∈ m.owned s ↔ .object o ∈ t.seen := by
    intro o
    refine ⟨fun ho => ?_, h.seen _⟩
    simpa [Knows, hpending, Value.cells] using hknown _ ho
  have hscope : ∀ u, .scope u ∈ m.owned s ↔ .scope u ∈ t.seen := by
    intro u
    refine ⟨fun hu => ?_, h.seen _⟩
    simpa [Knows, hscopes] using hknown _ hu
  exact {
    properties_of_mem := fun o ho => h.cleared.properties_of_mem o ((hobject o).1 ho)
    properties_of_not_mem := fun o ho => h.cleared.properties_of_not_mem o fun hc => ho ((hobject o).2 hc)
    scope_of_mem := fun u hu => h.cleared.scope_of_mem u ((hscope u).1 hu)
    scope_of_not_mem := fun u hu => h.cleared.scope_of_not_mem u fun hc => hu ((hscope u).2 hc)
    closures := h.cleared.closures
    held := h.cleared.held
    objectCount := h.cleared.objectCount
    scopeCount := h.cleared.scopeCount }

end Teardown

open Teardown

theorem cleared_teardown (m : Memory) (s : ScopeId) : m.Cleared (m.owned s) (m.teardown s) := by
  obtain ⟨t, hrun, hend, hmemory⟩ := exists_end (start m s)
  rw [Memory.teardown, ← hmemory]
  exact ((invariant_start m s).rounds hrun).cleared_owned hend

/-- **A teardown empties exactly what is owned.** The teardown of a scope comes to an end. Then every scope and object
that is reached from it, by parents, bindings, properties, the scopes of closures and the objects of anchored
references, has no bindings and no properties, everything else is as it was, and a second teardown changes nothing. -/
theorem teardown_empties_what_is_owned (m : Memory) (s : ScopeId) :
    (∃ t, Relation.ReflTransGen Round (start m s) t ∧ t.step? = none ∧ t.memory = m.teardown s) ∧
      m.Cleared (m.owned s) (m.teardown s) ∧ (m.teardown s).teardown s = m.teardown s := by
  refine ⟨exists_end (start m s), cleared_teardown m s, ?_⟩
  have hfirst := cleared_teardown m s
  have hsecond := cleared_teardown (m.teardown s) s
  apply hsecond.eq_self
  · intro o ho
    exact hfirst.properties_of_mem o (hfirst.owned_subset s ho)
  · intro u hu
    rw [hfirst.scope_of_mem u (hfirst.owned_subset s hu)]

end GameScript
