import GameScript.Proofs.Run.Nests

/-!
# Nearest bindings and bound parameters

A name that is looked for from a scope is found where the nearest scope around it binds it (`Nearest`), and that is
what reading and updating go by (`lookup_eq`, `update_eq`). To update or to declare a name writes one binding of one
scope (`Rebound`). A scope made for a call binds the parameters to the arguments at their positions (`Entered`) when no
parameter is there twice (`exists_entered`); of repeated parameters the first that stands earlier is refused
(`newFunctionScope_of_mem`). However far this comes, the scopes that were there are as they were (`scope_of_begun`).
-/

namespace GameScript

variable {s t : ScopeId} {name : String} {value v : Value}

/-- A scope with an index up to `k` is the one with that index, or has a lower one. -/
theorem ScopeId.eq_or_lt {k : Nat} (h : s.index < k + 1) : s = ⟨k⟩ ∨ s.index < k := by
  rcases Nat.lt_succ_iff_lt_or_eq.1 h with hlt | he
  · exact .inr hlt
  · exact .inl (by cases s; cases he; rfl)

namespace Entries

theorem keys_zip {names : List String} {values : List Value} (h : names.length = values.length) :
    keys (names.zip values) = names := List.map_fst_zip h.le

/-- A name among distinct ones is given the value at its position. -/
theorem get?_zip {names : List String} {values : List Value} (hn : names.Nodup) (h : names.length = values.length)
    {i : Nat} (hi : names[i]? = some name) : get? (names.zip values) name = values[i]? := by
  induction names generalizing values i with
  | nil => cases hi
  | cons k names ih =>
    obtain _ | ⟨v, values⟩ := values
    · cases h
    obtain ⟨hk, hn⟩ := List.nodup_cons.1 hn
    rw [List.zip_cons_cons, get?_cons]
    cases i with
    | zero =>
      cases hi
      rw [if_pos rfl, List.getElem?_cons_zero]
    | succ i =>
      rw [List.getElem?_cons_succ] at hi ⊢
      rw [if_neg fun he : name = k => hk (he ▸ List.mem_of_getElem? hi)]
      exact ih hn (Nat.succ.inj h) hi

end Entries

namespace Memory

variable {m n : Memory}

/-! ## Nearest bindings -/

/-- What a scope itself binds a name to. -/
def binding? (m : Memory) (s : ScopeId) (name : String) : Option Value := (m.scope s).bindings.get? name

/-- The nearest binding of a name, from a scope on outwards, is in this scope and has this value. -/
inductive Nearest (m : Memory) (name : String) : ScopeId → ScopeId → Value → Prop
  | here {s : ScopeId} {v : Value} : m.binding? s name = some v → Nearest m name s s v
  | around {s p t : ScopeId} {v : Value} :
    m.binding? s name = none → (m.scope s).parent = some p → Nearest m name p t v → Nearest m name s t v

/-- The scopes around a scope, from the inside. -/
inductive Around (m : Memory) : ScopeId → List ScopeId → Prop
  | root {s : ScopeId} : (m.scope s).parent = none → Around m s []
  | inside {s p : ScopeId} {ps : List ScopeId} : (m.scope s).parent = some p → Around m p ps → Around m s (p :: ps)

/-- The nearest scope that binds a name, and what it binds it to. -/
def nearest? (m : Memory) (name : String) (s : ScopeId) : Option (ScopeId × Value) :=
  (m.chain s).findSome? fun t => (m.binding? t name).map (t, ·)

/-- A name that a scope does not bind is looked for around it. -/
theorem nearest?_eq (h : m.WellRooted) (hs : m.HasScope s) :
    m.nearest? name s =
      match m.binding? s name with
      | some v => some (s, v)
      | none => (m.scope s).parent.bind (m.nearest? name) := by
  rw [nearest?, chain_eq h hs, List.findSome?_cons]
  cases m.binding? s name with
  | some v => rfl
  | none => cases (m.scope s).parent <;> rfl

theorem lookup_eq : m.lookup s name =
    match m.nearest? name s with
    | some (_, v) => .ok v
    | none => .error (.undefinedVariable name) := by
  have hvalue : ((m.chain s).findSome? fun t => (m.scope t).bindings.get? name) = (m.nearest? name s).map Prod.snd := by
    rw [nearest?, List.map_findSome?]
    congr 1
    funext t
    simp [binding?]
  rw [lookup, hvalue]
  cases m.nearest? name s <;> rfl

theorem update_eq : m.update s name value =
    match m.nearest? name s with
    | some (t, _) => .ok (m.bind t name value)
    | none => .error (.undefinedVariable name) := by
  have hscope : m.binder? s name = (m.nearest? name s).map Prod.fst := by
    rw [nearest?, List.map_findSome?, binder?, List.find?_eq_findSome?_guard]
    congr 1
    funext t
    rw [Option.guard, hasLocal, Entries.has, Function.comp_apply, binding?]
    cases (m.scope t).bindings.get? name <;> rfl
  rw [update, hscope]
  cases m.nearest? name s <;> rfl

theorem Nearest.nearest?_eq_some (h : m.WellRooted) (hs : m.HasScope s) (hv : m.Nearest name s t v) :
    m.nearest? name s = some (t, v) := by
  induction hv with
  | here hv => rw [nearest?_eq h hs, hv]
  | around hnone hp _ ih => rw [nearest?_eq h hs, hnone, hp, Option.bind_some, ih (h.hasScope_parent hs hp)]

theorem nearest_of_nearest?_eq_some (h : m.WellRooted) (hs : m.HasScope s) (hv : m.nearest? name s = some (t, v)) :
    m.Nearest name s t v := by
  revert hv
  refine h.induction (fun s hs ih hv => ?_) hs
  rw [nearest?_eq h hs] at hv
  cases hb : m.binding? s name with
  | some w =>
    rw [hb] at hv
    cases hv
    exact .here hb
  | none =>
    rw [hb] at hv
    obtain ⟨p, hp, hv⟩ := Option.bind_eq_some_iff.1 hv
    exact .around hb hp ((ih p hp).2 hv)

theorem nearest?_eq_none (h : m.WellRooted) (hs : m.HasScope s) (hnone : ∀ t v, ¬m.Nearest name s t v) :
    m.nearest? name s = none :=
  Option.eq_none_iff_forall_ne_some.2 fun r hr => hnone r.1 r.2 (nearest_of_nearest?_eq_some h hs hr)

theorem Nearest.hasScope (h : m.WellRooted) (hs : m.HasScope s) (hv : m.Nearest name s t v) : m.HasScope t := by
  induction hv with
  | here _ => exact hs
  | around _ hp _ ih => exact ih (h.hasScope_parent hs hp)

/-- There are as many scopes around a scope as it is deep. -/
theorem exists_around (h : m.WellRooted) (hs : m.HasScope s) :
    ∃ ps, m.Around s ps ∧ (m.scope s).depth = ps.length := by
  refine h.induction (fun s hs ih => ?_) hs
  cases hp : (m.scope s).parent with
  | none => exact ⟨[], .root hp, (h s hs).depth_of_none hp⟩
  | some p =>
    obtain ⟨ps, hps, hdepth⟩ := (ih p hp).2
    exact ⟨p :: ps, .inside hp hps, by rw [(h s hs).depth_of_some p hp, hdepth, List.length_cons]⟩

/-! ## One binding written -/

/-- One binding of one scope has been written, and everything else of scopes is as it was. -/
structure Rebound (m : Memory) (s : ScopeId) (name : String) (value : Value) (n : Memory) : Prop where
  hasScope : ∀ t, n.HasScope t ↔ m.HasScope t
  parent : ∀ t, (n.scope t).parent = (m.scope t).parent
  depth : ∀ t, (n.scope t).depth = (m.scope t).depth
  binding : n.binding? s name = some value
  others : ∀ t other, t ≠ s ∨ other ≠ name → n.binding? t other = m.binding? t other

theorem rebound_bind (hs : m.HasScope s) : m.Rebound s name value (m.bind s name value) where
  hasScope _ := hasScope_bind
  parent _ := parent_bind
  depth _ := depth_bind
  binding := by rw [binding?, scope_bind hs, Entries.get?_put, if_pos rfl]
  others t other hne := by
    by_cases ht : t = s
    · rw [binding?, ht, scope_bind hs, Entries.get?_put, if_neg (hne.resolve_left fun h => h ht), binding?]
    · rw [binding?, scope_bind_of_ne ht, binding?]

/-! ## Many names declared -/

theorem declare_of_notMem (h : name ∉ (m.scope s).bindings.keys) : m.declare s name value = .ok (m.bind s name value) :=
  declare_eq_ok_iff.2 ⟨by rw [hasLocal, Entries.has, Entries.get?_eq_none_iff.2 h]; rfl, rfl⟩

theorem declare_of_mem (h : name ∈ (m.scope s).bindings.keys) :
    m.declare s name value = .error (.alreadyDefined name) := by
  have hlocal : m.hasLocal s name = true := by
    rw [hasLocal, Entries.has, Option.isSome_iff_ne_none]
    exact fun hnone => Entries.get?_eq_none_iff.1 hnone h
  rw [declare, if_pos hlocal]

theorem scope_bind_of_notMem (hs : m.HasScope s) (h : name ∉ (m.scope s).bindings.keys) (value : Value) :
    (m.bind s name value).scope s =
      { m.scope s with bindings := (m.scope s).bindings ++ [(name, value)] } := by
  rw [scope_bind hs, ← List.append_nil (m.scope s).bindings, Entries.put_append_of_not_mem h]
  simp [Entries.put]

/-- What binding names in a scope keeps, declaring them keeps. -/
theorem of_declareAll {P : Memory → Prop} (hbind : ∀ k name value, P k → P (k.bind s name value))
    {bindings : Entries Value} (hn : m.declareAll s bindings = .ok n) (h : P m) : P n := by
  induction bindings generalizing m with
  | nil =>
    cases hn
    exact h
  | cons e bindings ih =>
    obtain ⟨k, hk, hn⟩ := exists_of_bind_eq_ok hn
    obtain ⟨-, rfl⟩ := declare_eq_ok_iff.1 hk
    exact ih hn (hbind _ _ _ h)

theorem scope_declareAll_of_ne (ht : t ≠ s) {bindings : Entries Value} (hn : m.declareAll s bindings = .ok n) :
    n.scope t = m.scope t :=
  of_declareAll (P := fun k => k.scope t = m.scope t) (fun _ _ _ h => (scope_bind_of_ne ht).trans h) hn rfl

theorem size_declareAll {bindings : Entries Value} (hn : m.declareAll s bindings = .ok n) :
    n.scopes.size = m.scopes.size :=
  of_declareAll (P := fun k => k.scopes.size = m.scopes.size) (fun _ _ _ h => by rwa [bind, Array.size_modify]) hn rfl

/-- Distinct names that a scope does not bind are added to its bindings. -/
theorem declareAll_of_nodup (hs : m.HasScope s) {bindings : Entries Value}
    (hn : ((m.scope s).bindings.keys ++ bindings.keys).Nodup) :
    ∃ n, m.declareAll s bindings = .ok n ∧
      n.scope s = { m.scope s with bindings := (m.scope s).bindings ++ bindings } := by
  induction bindings generalizing m with
  | nil => exact ⟨m, rfl, by rw [List.append_nil]⟩
  | cons e bindings ih =>
    obtain ⟨name, value⟩ := e
    have hfree : name ∉ (m.scope s).bindings.keys := fun hmem =>
      (List.nodup_append.1 hn).2.2 name hmem name List.mem_cons_self rfl
    have hscope := scope_bind_of_notMem hs hfree value
    have hn' : (((m.bind s name value).scope s).bindings.keys ++ Entries.keys bindings).Nodup := by
      rw [hscope, Entries.keys_append, List.append_assoc]
      exact hn
    obtain ⟨n, hok, hscope'⟩ := ih (hasScope_bind.2 hs) hn'
    refine ⟨n, ?_, ?_⟩
    · rw [declareAll, declare_of_notMem hfree]
      exact hok
    · rw [hscope', hscope, List.append_assoc, List.singleton_append]

/-- Names are declared up to the first that is there already. -/
theorem declareAll_of_mem (hs : m.HasScope s) {bindings : Entries Value} {before after : List String}
    (hkeys : bindings.keys = before ++ name :: after) (hn : ((m.scope s).bindings.keys ++ before).Nodup)
    (hmem : name ∈ (m.scope s).bindings.keys ++ before) :
    m.declareAll s bindings = .error (.alreadyDefined name) := by
  induction before generalizing m bindings with
  | nil =>
    obtain _ | ⟨⟨k, w⟩, bindings⟩ := bindings
    · cases hkeys
    obtain ⟨rfl, -⟩ := List.cons.inj hkeys
    rw [List.append_nil] at hmem
    rw [declareAll, declare_of_mem hmem]
    rfl
  | cons k before ih =>
    obtain _ | ⟨⟨l, w⟩, bindings⟩ := bindings
    · cases hkeys
    obtain ⟨rfl, hrest⟩ : l = k ∧ Entries.keys bindings = before ++ name :: after := List.cons.inj hkeys
    have hfree : l ∉ (m.scope s).bindings.keys := fun hmem =>
      (List.nodup_append.1 hn).2.2 l hmem l List.mem_cons_self rfl
    have hbound : ((m.bind s l w).scope s).bindings.keys ++ before = (m.scope s).bindings.keys ++ l :: before := by
      rw [scope_bind_of_notMem hs hfree, Entries.keys_append, List.append_assoc]
      rfl
    rw [declareAll, declare_of_notMem hfree]
    exact ih (hasScope_bind.2 hs) hrest (hbound ▸ hn) (hbound ▸ hmem)

/-! ## Scopes for calls -/

section FunctionScopes

variable {parameters : List String} {arguments : List Value}

/-- A scope has been made in another one. It binds parameters to the arguments at their positions and nothing else, and
all other scopes are as they were. -/
structure Entered (m : Memory) (s : ScopeId) (parameters : List String) (arguments : List Value) (t : ScopeId)
    (n : Memory) : Prop where
  fresh : ¬m.HasScope t
  hasScope : ∀ u, n.HasScope u ↔ m.HasScope u ∨ u = t
  parent : (n.scope t).parent = some s
  argument : ∀ (i : Nat) name, parameters[i]? = some name → n.binding? t name = arguments[i]?
  only : ∀ name, name ∉ parameters → n.binding? t name = none
  others : ∀ u, m.HasScope u → n.scope u = m.scope u

theorem newFunctionScope_of_length_eq (hlength : parameters.length = arguments.length) :
    m.newFunctionScope s parameters arguments =
      ((m.newScope (some s)).2.declareAll (m.newScope (some s)).1 (parameters.zip arguments)).map
        ((m.newScope (some s)).1, ·) := by
  rw [newFunctionScope, if_pos hlength]
  rfl

theorem hasScope_made {parent : Option ScopeId} : (m.newScope parent).2.HasScope (m.newScope parent).1 := by
  simp [HasScope, newScope]

/-- However many names are declared in a new scope, those that were there are as they were. -/
theorem scope_of_begun {parent : Option ScopeId} {bindings : Entries Value} (ht : m.HasScope t)
    (hn : (m.newScope parent).2.declareAll (m.newScope parent).1 bindings = .ok n) : n.scope t = m.scope t := by
  have hne : t ≠ (m.newScope parent).1 := fun he => not_hasScope_newScope parent (he ▸ ht)
  rw [scope_declareAll_of_ne hne hn, scope_newScope_of_hasScope ht]

/-- Distinct parameters are what a new scope in the given one binds. -/
theorem newFunctionScope_of_nodup (hn : parameters.Nodup) (hlength : parameters.length = arguments.length) :
    ∃ n, m.newFunctionScope s parameters arguments = .ok ((m.newScope (some s)).1, n) ∧
      n.scopes.size = m.scopes.size + 1 ∧
      n.scope (m.newScope (some s)).1 = ⟨parameters.zip arguments, some s, m.depthUnder (some s)⟩ ∧
      ∀ t, m.HasScope t → n.scope t = m.scope t := by
  have hn' : (((m.newScope (some s)).2.scope (m.newScope (some s)).1).bindings.keys ++
      Entries.keys (parameters.zip arguments)).Nodup := by
    rw [scope_newScope, Entries.keys_zip hlength]
    exact hn
  obtain ⟨n, hok, hscope⟩ := declareAll_of_nodup hasScope_made hn'
  refine ⟨n, ?_, ?_, ?_, fun t ht => scope_of_begun ht hok⟩
  · rw [newFunctionScope_of_length_eq hlength, hok]
    rfl
  · rw [size_declareAll hok, newScope, Array.size_push]
  · rw [hscope, scope_newScope, List.nil_append]

theorem exists_entered (hn : parameters.Nodup) (hlength : parameters.length = arguments.length) :
    ∃ t n, m.newFunctionScope s parameters arguments = .ok (t, n) ∧ m.Entered s parameters arguments t n := by
  obtain ⟨n, hok, hsize, hscope, hothers⟩ := newFunctionScope_of_nodup (m := m) (s := s) hn hlength
  refine ⟨(m.newScope (some s)).1, n, hok, ?_⟩
  exact {
    fresh := not_hasScope_newScope _
    hasScope := fun u => by
      rw [HasScope, hsize]
      refine ⟨fun hu => (ScopeId.eq_or_lt hu).symm, ?_⟩
      rintro (hu | rfl)
      · exact Nat.lt_succ_of_lt hu
      · exact Nat.lt_succ_self _
    parent := by rw [hscope]
    argument := fun i name hi => by rw [binding?, hscope, Entries.get?_zip hn hlength hi]
    only := fun name hname => by
      rw [binding?, hscope]
      exact Entries.get?_eq_none_iff.2 (by rwa [Entries.keys_zip hlength])
    others := hothers }

/-- Of repeated parameters the first that stands earlier is refused. -/
theorem newFunctionScope_of_mem {before after : List String} (hn : before.Nodup) (hmem : name ∈ before)
    (hlength : (before ++ name :: after).length = arguments.length) :
    m.newFunctionScope s (before ++ name :: after) arguments = .error (.alreadyDefined name) := by
  have hnone : ((m.newScope (some s)).2.scope (m.newScope (some s)).1).bindings.keys ++ before = before := by
    rw [scope_newScope]
    rfl
  rw [newFunctionScope_of_length_eq hlength, declareAll_of_mem hasScope_made (Entries.keys_zip hlength)]
  · rfl
  · rwa [hnone]
  · rwa [hnone]

theorem wellRooted_newFunctionScope (h : m.WellRooted) (hs : m.HasScope s)
    (hn : m.newFunctionScope s parameters arguments = .ok (t, n)) : n.WellRooted := by
  have hchild : (m.newScope (some s)).2.WellRooted := wellRooted_newScope h fun p hp => Option.some.inj hp ▸ hs
  unfold newFunctionScope at hn
  split at hn
  · obtain ⟨k, hk, hn⟩ := exists_of_bind_eq_ok hn
    cases hn
    exact of_declareAll (fun _ _ _ => wellRooted_bind) hk hchild
  · cases hn

end FunctionScopes

end Memory

end GameScript
