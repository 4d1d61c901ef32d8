import GameScript.Run.Memory

/-!
# What a change of memory leaves as it was

Each operation on memory changes one cell. The lemmas of this module say what is read from that cell afterwards, and
that every other cell, and of a scope everything but its bindings, is as before.

Main statements: a written property is read back (`property?_setProperty`), a bound name is looked up
(`lookup_bind`), chains of scopes never change (`chain_bind`, `chain_newScope`), and a scope is as deep as its chain
is long (`length_chain`).
-/

namespace GameScript.Memory

variable {m : Memory}

/-- Whether an object has been made. -/
def HasObject (m : Memory) (o : ObjectId) : Prop := o.index < m.objects.size

/-- Whether a scope has been made. -/
def HasScope (m : Memory) (s : ScopeId) : Prop := s.index < m.scopes.size

/-- Whether a closure has been made. -/
def HasClosure (m : Memory) (c : ClosureId) : Prop := c.index < m.closures.size

/-! ## Objects -/

section Objects

variable {o p : ObjectId} {key : String} {value : Value}

theorem properties_setProperty (h : m.HasObject o) :
    (m.setProperty o key value).properties o = (m.properties o).put key value := by
  have ho : m.objects[o.index]? = some m.objects[o.index] := Array.getElem?_eq_getElem h
  simp [properties, setProperty, Array.getD_eq_getD_getElem?, Array.getElem?_modify, ho]

theorem properties_setProperty_of_ne (h : p ≠ o) : (m.setProperty o key value).properties p = m.properties p := by
  have hi : o.index ≠ p.index := fun he => h (by cases o; cases p; cases he; rfl)
  simp [properties, setProperty, Array.getD_eq_getD_getElem?, Array.getElem?_modify, hi]

theorem properties_setProperty_of_not_hasObject (h : ¬m.HasObject o) :
    (m.setProperty o key value).properties p = m.properties p := by
  have ho : m.objects[o.index]? = none := Array.getElem?_eq_none (Nat.le_of_not_lt h)
  by_cases hi : o.index = p.index
  · simp [properties, setProperty, Array.getD_eq_getD_getElem?, Array.getElem?_modify, ← hi, ho]
  · simp [properties, setProperty, Array.getD_eq_getD_getElem?, Array.getElem?_modify, hi]

theorem property?_setProperty (h : m.HasObject o) (k : String) :
    (m.setProperty o key value).property? o k = if k = key then some value else m.property? o k := by
  rw [property?, properties_setProperty h, Entries.get?_put, property?]

theorem property?_setProperty_of_ne (h : p ≠ o) (k : String) :
    (m.setProperty o key value).property? p k = m.property? p k := by
  rw [property?, properties_setProperty_of_ne h, property?]

@[simp] theorem scope_setProperty (s : ScopeId) : (m.setProperty o key value).scope s = m.scope s := rfl

@[simp] theorem closure_setProperty (c : ClosureId) : (m.setProperty o key value).closure c = m.closure c := rfl

theorem hasObject_setProperty : (m.setProperty o key value).HasObject p ↔ m.HasObject p := by
  simp [HasObject, setProperty]

variable {es : Entries Value}

theorem properties_newObject : (m.newObject es).2.properties (m.newObject es).1 = es := by
  simp [properties, newObject, Array.getD_eq_getD_getElem?]

theorem properties_newObject_of_ne (h : p ≠ (m.newObject es).1) :
    (m.newObject es).2.properties p = m.properties p := by
  have hp : p.index ≠ m.objects.size := fun he => h (by cases p; cases he; rfl)
  simp [properties, newObject, Array.getD_eq_getD_getElem?, Array.getElem?_push, hp]

theorem properties_newObject_of_hasObject (h : m.HasObject p) : (m.newObject es).2.properties p = m.properties p :=
  properties_newObject_of_ne fun he => Nat.lt_irrefl _ (he ▸ h : m.HasObject (m.newObject es).1)

theorem mem_properties_setProperty {e : String × Value} (h : e ∈ (m.setProperty o key value).properties p) :
    e ∈ m.properties p ∨ p = o ∧ e = (key, value) := by
  by_cases hp : p = o
  · subst hp
    by_cases ho : m.HasObject p
    · rw [properties_setProperty ho] at h
      exact (Entries.mem_of_mem_put h).imp_right fun he => ⟨rfl, he⟩
    · rw [properties_setProperty_of_not_hasObject ho] at h
      exact .inl h
  · rw [properties_setProperty_of_ne hp] at h
    exact .inl h

@[simp] theorem scope_newObject (s : ScopeId) : (m.newObject es).2.scope s = m.scope s := rfl

@[simp] theorem closure_newObject (c : ClosureId) : (m.newObject es).2.closure c = m.closure c := rfl

end Objects

/-! ## Closures -/

theorem closure_newClosure {f : Closure} : (m.newClosure f).2.closure (m.newClosure f).1 = f := by
  simp [closure, newClosure, Array.getD_eq_getD_getElem?]

theorem closure_newClosure_of_ne {f : Closure} {c : ClosureId} (h : c ≠ (m.newClosure f).1) :
    (m.newClosure f).2.closure c = m.closure c := by
  have hc : c.index ≠ m.closures.size := fun he => h (by cases c; cases he; rfl)
  simp [closure, newClosure, Array.getD_eq_getD_getElem?, Array.getElem?_push, hc]

theorem closure_newClosure_of_hasClosure {f : Closure} {c : ClosureId} (h : m.HasClosure c) :
    (m.newClosure f).2.closure c = m.closure c :=
  closure_newClosure_of_ne fun he => Nat.lt_irrefl _ (he ▸ h : m.HasClosure (m.newClosure f).1)

@[simp] theorem scope_newClosure {f : Closure} (s : ScopeId) : (m.newClosure f).2.scope s = m.scope s := rfl

@[simp] theorem properties_newClosure {f : Closure} (o : ObjectId) :
    (m.newClosure f).2.properties o = m.properties o := rfl

/-! ## Scopes -/

section Scopes

variable {s t : ScopeId} {name : String} {value : Value}

theorem scope_bind (h : m.HasScope s) :
    (m.bind s name value).scope s = { m.scope s with bindings := (m.scope s).bindings.put name value } := by
  have hs : m.scopes[s.index]? = some m.scopes[s.index] := Array.getElem?_eq_getElem h
  simp [scope, bind, Array.getD_eq_getD_getElem?, Array.getElem?_modify, hs]

theorem scope_bind_of_ne (h : t ≠ s) : (m.bind s name value).scope t = m.scope t := by
  have hi : s.index ≠ t.index := fun he => h (by cases s; cases t; cases he; rfl)
  simp [scope, bind, Array.getD_eq_getD_getElem?, Array.getElem?_modify, hi]

theorem scope_bind_of_not_hasScope (h : ¬m.HasScope s) : (m.bind s name value).scope t = m.scope t := by
  have hs : m.scopes[s.index]? = none := Array.getElem?_eq_none (Nat.le_of_not_lt h)
  by_cases hi : s.index = t.index
  · simp [scope, bind, Array.getD_eq_getD_getElem?, Array.getElem?_modify, ← hi, hs]
  · simp [scope, bind, Array.getD_eq_getD_getElem?, Array.getElem?_modify, hi]

theorem parent_bind : ((m.bind s name value).scope t).parent = (m.scope t).parent := by
  by_cases h : m.HasScope s
  · by_cases ht : t = s
    · rw [ht, scope_bind h]
    · rw [scope_bind_of_ne ht]
  · rw [scope_bind_of_not_hasScope h]

theorem depth_bind : ((m.bind s name value).scope t).depth = (m.scope t).depth := by
  by_cases h : m.HasScope s
  · by_cases ht : t = s
    · rw [ht, scope_bind h]
    · rw [scope_bind_of_ne ht]
  · rw [scope_bind_of_not_hasScope h]

theorem mem_bindings_bind {e : String × Value} (h : e ∈ ((m.bind s name value).scope t).bindings) :
    e ∈ (m.scope t).bindings ∨ t = s ∧ e = (name, value) := by
  by_cases ht : t = s
  · subst ht
    by_cases hs : m.HasScope t
    · rw [scope_bind hs] at h
      exact (Entries.mem_of_mem_put h).imp_right fun he => ⟨rfl, he⟩
    · rw [scope_bind_of_not_hasScope hs] at h
      exact .inl h
  · rw [scope_bind_of_ne ht] at h
    exact .inl h

@[simp] theorem properties_bind (o : ObjectId) : (m.bind s name value).properties o = m.properties o := rfl

@[simp] theorem closure_bind (c : ClosureId) : (m.bind s name value).closure c = m.closure c := rfl

theorem hasScope_bind : (m.bind s name value).HasScope t ↔ m.HasScope t := by simp [HasScope, bind]

variable {parent : Option ScopeId}

theorem scope_newScope :
    (m.newScope parent).2.scope (m.newScope parent).1 = ⟨[], parent, m.depthUnder parent⟩ := by
  simp [scope, newScope, Array.getD_eq_getD_getElem?]

theorem scope_newScope_of_ne (h : t ≠ (m.newScope parent).1) : (m.newScope parent).2.scope t = m.scope t := by
  have ht : t.index ≠ m.scopes.size := fun he => h (by cases t; cases he; rfl)
  simp [scope, newScope, Array.getD_eq_getD_getElem?, Array.getElem?_push, ht]

theorem scope_newScope_of_hasScope (h : m.HasScope t) : (m.newScope parent).2.scope t = m.scope t :=
  scope_newScope_of_ne fun he => Nat.lt_irrefl _ (he ▸ h : m.HasScope (m.newScope parent).1)

@[simp] theorem properties_newScope (o : ObjectId) : (m.newScope parent).2.properties o = m.properties o := rfl

@[simp] theorem closure_newScope (c : ClosureId) : (m.newScope parent).2.closure c = m.closure c := rfl

end Scopes

/-! ## Chains -/

section Chains

variable {s t : ScopeId} {name : String} {value : Value}

theorem chainUpTo_congr {n : Memory} (h : ∀ t, (n.scope t).parent = (m.scope t).parent) (bound : Nat) (s : ScopeId) :
    n.chainUpTo bound s = m.chainUpTo bound s := by
  induction bound generalizing s with
  | zero => rfl
  | succ bound ih =>
    simp only [chainUpTo, h]
    split
    · rfl
    · rw [ih]

theorem chain_bind : (m.bind s name value).chain t = m.chain t := by
  rw [chain, depth_bind, chainUpTo_congr (fun _ => parent_bind), chain]

theorem chain_eq_cons (m : Memory) (s : ScopeId) : ∃ rest, m.chain s = s :: rest := by
  unfold chain chainUpTo
  split
  · exact ⟨[], rfl⟩
  · exact ⟨_, rfl⟩

/-- The parent of a scope was made before it, and is one less deep; a root has depth 0. -/
structure Rooted (m : Memory) (s : ScopeId) : Prop where
  made : m.HasScope s
  depth_of_none : (m.scope s).parent = none → (m.scope s).depth = 0
  depth_of_some : ∀ p, (m.scope s).parent = some p → (m.scope s).depth = (m.scope p).depth + 1
  lt_of_some : ∀ p, (m.scope s).parent = some p → p.index < s.index

/-- A memory all of whose scopes are rooted. -/
def WellRooted (m : Memory) : Prop := ∀ s, m.HasScope s → m.Rooted s

theorem WellRooted.hasScope_parent (h : m.WellRooted) (hs : m.HasScope s) {p : ScopeId}
    (hp : (m.scope s).parent = some p) : m.HasScope p :=
  Nat.lt_trans ((h s hs).lt_of_some p hp) hs

theorem length_chain (h : m.WellRooted) (hs : m.HasScope s) : (m.chain s).length = (m.scope s).depth + 1 := by
  suffices key : ∀ n, ∀ s, m.HasScope s → (m.scope s).depth = n → (m.chainUpTo (n + 1) s).length = n + 1 from
    key _ s hs rfl
  intro n
  induction n with
  | zero =>
    intro s hs hd
    match hp : (m.scope s).parent with
    | none => simp [chainUpTo, hp]
    | some p =>
      have := (h s hs).depth_of_some p hp
      omega
  | succ n ih =>
    intro s hs hd
    match hp : (m.scope s).parent with
    | none =>
      have := (h s hs).depth_of_none hp
      omega
    | some p =>
      have hdp := (h s hs).depth_of_some p hp
      rw [chainUpTo, hp]
      simp [ih p (h.hasScope_parent hs hp) (by omega)]

theorem mem_chainUpTo {P : ScopeId → Prop} (h : ∀ s, P s → ∀ p, (m.scope s).parent = some p → P p) (bound : Nat)
    (hs : P s) (ht : t ∈ m.chainUpTo bound s) : P t := by
  induction bound generalizing s with
  | zero => exact absurd ht (List.not_mem_nil)
  | succ bound ih =>
    unfold chainUpTo at ht
    match hp : (m.scope s).parent with
    | none =>
      rw [hp] at ht
      obtain rfl := List.mem_singleton.1 ht
      exact hs
    | some p =>
      rw [hp] at ht
      rcases List.mem_cons.1 ht with rfl | ht
      · exact hs
      · exact ih (h s hs p hp) ht

/-- What the parent of a scope has when the scope does, all of its chain has. -/
theorem mem_chain {P : ScopeId → Prop} (h : ∀ s, P s → ∀ p, (m.scope s).parent = some p → P p) (hs : P s)
    (ht : t ∈ m.chain s) : P t := mem_chainUpTo h _ hs ht

theorem mem_chain_hasScope (h : m.WellRooted) (hs : m.HasScope s) (ht : t ∈ m.chain s) : m.HasScope t :=
  mem_chain (fun _ hs _ hp => h.hasScope_parent hs hp) hs ht

/-- The chain of a scope goes on with that of its parent. -/
theorem chain_eq (h : m.WellRooted) (hs : m.HasScope s) : m.chain s = s :: (m.scope s).parent.elim [] m.chain := by
  unfold chain
  rw [chainUpTo]
  cases hp : (m.scope s).parent with
  | none => rfl
  | some p =>
    rw [(h s hs).depth_of_some p hp]
    rfl

variable {parent : Option ScopeId}

theorem chainUpTo_newScope (h : m.WellRooted) (bound : Nat) (hs : m.HasScope s) :
    (m.newScope parent).2.chainUpTo bound s = m.chainUpTo bound s := by
  induction bound generalizing s with
  | zero => rfl
  | succ bound ih =>
    unfold chainUpTo
    rw [scope_newScope_of_hasScope hs]
    match hp : (m.scope s).parent with
    | none => rfl
    | some p => simp only [ih (h.hasScope_parent hs hp)]

theorem chain_newScope (h : m.WellRooted) (hs : m.HasScope s) : (m.newScope parent).2.chain s = m.chain s := by
  rw [chain, scope_newScope_of_hasScope hs, chainUpTo_newScope h _ hs, chain]

theorem wellRooted_empty : ({} : Memory).WellRooted := fun _ hs => absurd hs (Nat.not_lt_zero _)

theorem wellRooted_bind (h : m.WellRooted) : (m.bind s name value).WellRooted := fun t ht =>
  have hr := h t (hasScope_bind.1 ht)
  { made := ht
    depth_of_none := by rw [parent_bind, depth_bind]; exact hr.depth_of_none
    depth_of_some := fun p => by rw [parent_bind, depth_bind, depth_bind]; exact hr.depth_of_some p
    lt_of_some := fun p => by rw [parent_bind]; exact hr.lt_of_some p }

theorem wellRooted_newScope (h : m.WellRooted) (hp : ∀ p, parent = some p → m.HasScope p) :
    (m.newScope parent).2.WellRooted := by
  intro t ht
  have hsize : (m.newScope parent).2.scopes.size = m.scopes.size + 1 := by simp [newScope]
  by_cases hm : m.HasScope t
  · have hr := h t hm
    refine ⟨ht, ?_, fun p => ?_, fun p => ?_⟩
    · rw [scope_newScope_of_hasScope hm]
      exact hr.depth_of_none
    · rw [scope_newScope_of_hasScope hm]
      intro he
      rw [scope_newScope_of_hasScope (h.hasScope_parent hm he)]
      exact hr.depth_of_some p he
    · rw [scope_newScope_of_hasScope hm]
      exact hr.lt_of_some p
  · have hi : t.index = m.scopes.size := by
      have h1 : t.index < m.scopes.size + 1 := hsize ▸ ht
      have h2 : ¬t.index < m.scopes.size := hm
      omega
    have he : t = (m.newScope parent).1 := by
      cases t
      exact congrArg ScopeId.mk hi
    rw [he]
    refine ⟨he ▸ ht, ?_, fun p => ?_, fun p => ?_⟩ <;> rw [scope_newScope]
    · rintro rfl
      rfl
    · rintro rfl
      rw [scope_newScope_of_hasScope (hp p rfl), depthUnder]
    · rintro rfl
      exact hp p rfl

end Chains

/-! ## Names -/

section Names

variable {s t : ScopeId} {name other : String} {value : Value}

theorem hasLocal_bind (h : m.HasScope s) :
    (m.bind s name value).hasLocal s other = (decide (other = name) || m.hasLocal s other) := by
  rw [hasLocal, scope_bind h]
  simp only [Entries.has, Entries.get?_put, hasLocal]
  split <;> rename_i ho <;> simp [ho]

theorem lookup_bind (h : m.HasScope s) : (m.bind s name value).lookup s name = .ok value := by
  obtain ⟨rest, hc⟩ := chain_eq_cons m s
  simp [lookup, chain_bind, hc, scope_bind h, Entries.get?_put]

theorem lookup_bind_of_ne (h : other ≠ name) : (m.bind s name value).lookup t other = m.lookup t other := by
  have hb : ∀ u, ((m.bind s name value).scope u).bindings.get? other = (m.scope u).bindings.get? other := fun u => by
    by_cases hs : m.HasScope s
    · by_cases hu : u = s
      · rw [hu, scope_bind hs]
        simp [Entries.get?_put, h]
      · rw [scope_bind_of_ne hu]
    · rw [scope_bind_of_not_hasScope hs]
  rw [lookup, chain_bind, funext hb, lookup]

theorem declare_eq_ok_iff {n : Memory} :
    m.declare s name value = .ok n ↔ m.hasLocal s name = false ∧ n = m.bind s name value := by
  unfold declare
  split <;> rename_i h <;> simp [h, eq_comm]

theorem update_eq_ok_iff {n : Memory} :
    m.update s name value = .ok n ↔ ∃ t, m.binder? s name = some t ∧ n = m.bind t name value := by
  unfold update
  split <;> rename_i h <;> simp [h, eq_comm]

end Names

end GameScript.Memory
