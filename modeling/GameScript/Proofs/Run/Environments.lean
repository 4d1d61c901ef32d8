import GameScript.Proofs.Run.Bindings
import Mathlib.Data.Finmap

/-!
# Scopes as nested environments

A host makes scopes and asks for names in them, in any order and on any of the scopes that it has (`ScopeCall`). The
same can be asked of an `Environment`, where a scope is a finite map and the scope around it. The scopes of a memory
are such an environment (`Memory.environment`): a call has the same answer on both and leaves both corresponding
(`Memory.answer_environment`), and so it goes for any calls, one after another (`Memory.answers_environment`).

What calls do is said without the reference as well (`Memory.Scoping`): a name is read and overwritten at its nearest
binding, it is created in one scope alone, parameters are bound to the arguments at their positions, what fails leaves
everything as it was, and a scope is as deep as there are scopes around it.
-/

namespace GameScript

variable {s : ScopeId} {name : String} {value : Value}

/-! ## Calls and answers -/

/-- What a host asks of scopes. -/
inductive ScopeCall
  | root
  | push (s : ScopeId)
  | pop (s : ScopeId)
  | create (s : ScopeId) (name : String) (value : Value)
  | update (s : ScopeId) (name : String) (value : Value)
  | get (s : ScopeId) (name : String)
  | hasLocal (s : ScopeId) (name : String)
  | functionScope (s : ScopeId) (parameters : List String) (arguments : List Value)
  | depth (s : ScopeId)

/-- The scope that a call is made on. -/
def ScopeCall.scope? : ScopeCall → Option ScopeId
  | root => none
  | push s | pop s | create s _ _ | update s _ _ | get s _ | hasLocal s _ | functionScope s _ _ | depth s => some s

/-- What a call answers. -/
inductive ScopeAnswer
  | made (s : ScopeId)
  | around (parent : Option ScopeId)
  | done
  | value (v : Value)
  | truth (b : Bool)
  | count (n : Nat)
  | failed (e : RuntimeError)

/-- The answers to calls made one after another, and what is there after them. -/
def answers {σ : Type} (answer : σ → ScopeCall → ScopeAnswer × σ) : σ → List ScopeCall → List ScopeAnswer × σ
  | st, [] => ([], st)
  | st, call :: calls =>
    ((answer st call).1 :: (answers answer (answer st call).2 calls).1, (answers answer (answer st call).2 calls).2)

namespace Memory

variable {m n : Memory}

/-- What came out, or the failure. A call that fails hands no memory back, so the one there was goes on. -/
def orFailed (m : Memory) : Except RuntimeError (ScopeAnswer × Memory) → ScopeAnswer × Memory
  | .ok r => r
  | .error e => (.failed e, m)

/-- What a call answers, and the memory after it. -/
def answer (m : Memory) : ScopeCall → ScopeAnswer × Memory
  | .root => (m.newScope none).map .made id
  | .push s => (m.newScope (some s)).map .made id
  | .pop s => (.around (m.scope s).parent, m)
  | .create s name value => m.orFailed ((m.declare s name value).map (.done, ·))
  | .update s name value => m.orFailed ((m.update s name value).map (.done, ·))
  | .get s name => m.orFailed ((m.lookup s name).map (.value ·, m))
  | .hasLocal s name => (.truth (m.hasLocal s name), m)
  | .functionScope s parameters arguments =>
    m.orFailed ((m.newFunctionScope s parameters arguments).map (·.map .made id))
  | .depth s => (.count (m.scope s).depth, m)

/-- Each call is made on a scope that has been made by then. -/
def MadeInTurn : Memory → List ScopeCall → Prop
  | _, [] => True
  | m, call :: calls => (∀ s ∈ call.scope?, m.HasScope s) ∧ MadeInTurn (m.answer call).2 calls

instance decidableHasScope (m : Memory) (s : ScopeId) : Decidable (m.HasScope s) :=
  inferInstanceAs (Decidable (s.index < m.scopes.size))

instance decidableMadeInTurn : (m : Memory) → (calls : List ScopeCall) → Decidable (m.MadeInTurn calls)
  | _, [] => .isTrue trivial
  | m, call :: calls =>
    have := decidableMadeInTurn (m.answer call).2 calls
    inferInstanceAs (Decidable ((∀ s ∈ call.scope?, m.HasScope s) ∧ MadeInTurn (m.answer call).2 calls))

end Memory

/-! ## The reference -/

/-- A scope of the reference: what it binds, and the scope around it. -/
structure Layer where
  bindings : Finmap fun _ : String => Value
  parent : Option ScopeId

/-- Scopes, the newest first. The index of a scope is the number of those made before it; the scope around it is one of
them. -/
abbrev Environment := List Layer

/-- The first name that stands earlier, in the list or among names before it. -/
def repeatedAfter? (earlier : List String) : List String → Option String
  | [] => none
  | name :: rest => if name ∈ earlier then some name else repeatedAfter? (earlier ++ [name]) rest

/-- The finite map of entries. -/
def Entries.toFinmap (es : Entries Value) : Finmap fun _ : String => Value :=
  (es.map fun e => (⟨e.1, e.2⟩ : (_ : String) × Value)).toFinmap

namespace Environment

/-- The layer of a scope. -/
def layer? : Environment → ScopeId → Option Layer
  | [], _ => none
  | l :: older, s => if s.index = older.length then some l else layer? older s

/-- What a scope itself binds a name to. -/
def binding? (env : Environment) (s : ScopeId) (name : String) : Option Value :=
  (env.layer? s).bind (·.bindings.lookup name)

/-- The nearest scope that binds a name, and what it binds it to. -/
def nearest? (name : String) : Environment → ScopeId → Option (ScopeId × Value)
  | [], _ => none
  | l :: older, s =>
    if s.index = older.length then
      match l.bindings.lookup name with
      | some v => some (s, v)
      | none => l.parent.bind (nearest? name older)
    else nearest? name older s

/-- How many scopes are around a scope. -/
def depth : Environment → ScopeId → Nat
  | [], _ => 0
  | l :: older, s =>
    if s.index = older.length then l.parent.elim 0 (depth older · + 1) else depth older s

/-- Binds a name in one scope. -/
def bind (s : ScopeId) (name : String) (value : Value) : Environment → Environment
  | [] => []
  | l :: older =>
    if s.index = older.length then ⟨l.bindings.insert name value, l.parent⟩ :: older else l :: bind s name value older

/-- A new scope. -/
def extend (env : Environment) (bindings : Finmap fun _ : String => Value) (parent : Option ScopeId) :
    ScopeAnswer × Environment :=
  (.made ⟨env.length⟩, ⟨bindings, parent⟩ :: env)

/-- What a call answers, and the environment after it. -/
def answer (env : Environment) : ScopeCall → ScopeAnswer × Environment
  | .root => env.extend ∅ none
  | .push s => env.extend ∅ (some s)
  | .pop s => (.around ((env.layer? s).bind Layer.parent), env)
  | .create s name value =>
    if (env.binding? s name).isSome then (.failed (.alreadyDefined name), env) else (.done, env.bind s name value)
  | .update s name value =>
    match env.nearest? name s with
    | some (t, _) => (.done, env.bind t name value)
    | none => (.failed (.undefinedVariable name), env)
  | .get s name =>
    match env.nearest? name s with
    | some (_, v) => (.value v, env)
    | none => (.failed (.undefinedVariable name), env)
  | .hasLocal s name => (.truth (env.binding? s name).isSome, env)
  | .functionScope s parameters arguments =>
    if parameters.length = arguments.length then
      match repeatedAfter? [] parameters with
      | some name => (.failed (.alreadyDefined name), env)
      | none => env.extend (Entries.toFinmap (parameters.zip arguments)) (some s)
    else (.failed (.arityMismatch parameters.length arguments.length), env)
  | .depth s => (.count (env.depth s), env)

end Environment

/-! ## Finite maps of entries -/

namespace Entries

variable {es : Entries Value}

theorem lookup_toFinmap (es : Entries Value) (name : String) : es.toFinmap.lookup name = es.get? name := by
  rw [toFinmap, Finmap.dlookup_list_toFinmap]
  induction es with
  | nil => rfl
  | cons e es ih =>
    obtain ⟨k, v⟩ := e
    rw [get?_cons, List.map_cons]
    by_cases h : name = k
    · subst h
      simp
    · rw [List.dlookup_cons_ne _ _ h, ih, if_neg h]

theorem toFinmap_put (es : Entries Value) (name : String) (value : Value) :
    (es.put name value).toFinmap = es.toFinmap.insert name value := by
  refine Finmap.ext_lookup fun other => ?_
  rw [lookup_toFinmap, get?_put]
  by_cases h : other = name
  · rw [if_pos h, h, Finmap.lookup_insert]
  · rw [if_neg h, Finmap.lookup_insert_of_ne _ h, lookup_toFinmap]

end Entries

/-! ## Repeated names -/

theorem nodup_of_repeatedAfter?_eq_none {earlier names : List String} (hn : earlier.Nodup)
    (h : repeatedAfter? earlier names = none) : (earlier ++ names).Nodup := by
  induction names generalizing earlier with
  | nil => rwa [List.append_nil]
  | cons k names ih =>
    rw [repeatedAfter?] at h
    split at h
    · cases h
    · rename_i hk
      rw [List.append_cons]
      exact ih (List.concat_eq_append ▸ hn.concat hk) h

theorem exists_of_repeatedAfter?_eq_some {earlier names : List String} (hn : earlier.Nodup)
    (h : repeatedAfter? earlier names = some name) :
    ∃ before after, names = before ++ name :: after ∧ (earlier ++ before).Nodup ∧ name ∈ earlier ++ before := by
  induction names generalizing earlier with
  | nil => cases h
  | cons k names ih =>
    rw [repeatedAfter?] at h
    split at h
    · rename_i hk
      cases h
      exact ⟨[], names, rfl, by rwa [List.append_nil], by rwa [List.append_nil]⟩
    · rename_i hk
      obtain ⟨before, after, rfl, hbefore, hmem⟩ := ih (List.concat_eq_append ▸ hn.concat hk) h
      rw [← List.append_cons] at hbefore hmem
      exact ⟨k :: before, after, rfl, hbefore, hmem⟩

namespace Memory

variable {m n : Memory}

/-! ## The environment of a memory -/

/-- The layer of a scope. -/
def layer (m : Memory) (s : ScopeId) : Layer := ⟨(m.scope s).bindings.toFinmap, (m.scope s).parent⟩

/-- The layers of the scopes with lower indices, the newest first. -/
def layersBelow (m : Memory) : Nat → Environment
  | 0 => []
  | k + 1 => m.layer ⟨k⟩ :: m.layersBelow k

/-- The scopes of a memory. -/
def environment (m : Memory) : Environment := m.layersBelow m.scopes.size

@[simp] theorem length_layersBelow (m : Memory) (k : Nat) : (m.layersBelow k).length = k := by
  induction k with
  | zero => rfl
  | succ k ih => rw [layersBelow, List.length_cons, ih]

theorem layersBelow_congr {k : Nat} (h : ∀ s : ScopeId, s.index < k → n.layer s = m.layer s) :
    n.layersBelow k = m.layersBelow k := by
  induction k with
  | zero => rfl
  | succ k ih => rw [layersBelow, layersBelow, h ⟨k⟩ k.lt_succ_self, ih fun s hs => h s (hs.trans k.lt_succ_self)]

theorem layer?_environment (hs : m.HasScope s) : m.environment.layer? s = some (m.layer s) := by
  suffices key : ∀ k, s.index < k → (m.layersBelow k).layer? s = some (m.layer s) from key _ hs
  intro k
  induction k with
  | zero => exact fun hlt => absurd hlt (Nat.not_lt_zero _)
  | succ k ih =>
    intro hlt
    rw [layersBelow, Environment.layer?, length_layersBelow]
    rcases ScopeId.eq_or_lt hlt with rfl | hlt
    · rw [if_pos rfl]
    · rw [if_neg hlt.ne, ih hlt]

theorem binding?_environment (hs : m.HasScope s) : m.environment.binding? s name = m.binding? s name := by
  rw [Environment.binding?, layer?_environment hs, Option.bind_some, layer, Entries.lookup_toFinmap, binding?]

theorem nearest?_environment (h : m.WellRooted) (hs : m.HasScope s) :
    m.environment.nearest? name s = m.nearest? name s := by
  suffices key : ∀ k ≤ m.scopes.size, ∀ s : ScopeId, s.index < k →
      (m.layersBelow k).nearest? name s = m.nearest? name s from key _ le_rfl s hs
  intro k
  induction k with
  | zero => exact fun _ s hlt => absurd hlt (Nat.not_lt_zero _)
  | succ k ih =>
    intro hk s hlt
    have holder := ih (Nat.le_of_succ_le hk)
    rw [layersBelow, Environment.nearest?, length_layersBelow]
    rcases ScopeId.eq_or_lt hlt with rfl | hlt
    · have hmade : m.HasScope ⟨k⟩ := hk
      rw [if_pos rfl, nearest?_eq h hmade, layer, Entries.lookup_toFinmap, ← binding?]
      cases m.binding? ⟨k⟩ name with
      | some v => rfl
      | none =>
        cases hp : (m.scope ⟨k⟩).parent with
        | none => rfl
        | some p => exact holder p ((h _ hmade).lt_of_some p hp)
    · rw [if_neg hlt.ne, holder s hlt]

theorem depth_environment (h : m.WellRooted) (hs : m.HasScope s) : m.environment.depth s = (m.scope s).depth := by
  suffices key : ∀ k ≤ m.scopes.size, ∀ s : ScopeId, s.index < k →
      (m.layersBelow k).depth s = (m.scope s).depth from key _ le_rfl s hs
  intro k
  induction k with
  | zero => exact fun _ s hlt => absurd hlt (Nat.not_lt_zero _)
  | succ k ih =>
    intro hk s hlt
    have holder := ih (Nat.le_of_succ_le hk)
    rw [layersBelow, Environment.depth, length_layersBelow]
    rcases ScopeId.eq_or_lt hlt with rfl | hlt
    · have hr := h ⟨k⟩ hk
      rw [if_pos rfl, layer]
      cases hp : (m.scope ⟨k⟩).parent with
      | none => rw [Option.elim_none, hr.depth_of_none hp]
      | some p => rw [Option.elim_some, hr.depth_of_some p hp, holder p (hr.lt_of_some p hp)]
    · rw [if_neg hlt.ne, holder s hlt]

theorem environment_bind (hs : m.HasScope s) :
    (m.bind s name value).environment = m.environment.bind s name value := by
  suffices key : ∀ k, s.index < k → (m.bind s name value).layersBelow k = (m.layersBelow k).bind s name value by
    rw [environment, bind, Array.size_modify]
    exact key _ hs
  intro k
  induction k with
  | zero => exact fun hlt => absurd hlt (Nat.not_lt_zero _)
  | succ k ih =>
    intro hlt
    rw [layersBelow, layersBelow, Environment.bind, length_layersBelow]
    rcases ScopeId.eq_or_lt hlt with rfl | hlt
    · have holder : (m.bind ⟨k⟩ name value).layersBelow k = m.layersBelow k := layersBelow_congr fun t ht => by
        rw [layer, scope_bind_of_ne fun he : t = ⟨k⟩ => ht.ne (congrArg ScopeId.index he), layer]
      rw [if_pos rfl, holder, layer, scope_bind hs, Entries.toFinmap_put, layer]
    · have hne : (⟨k⟩ : ScopeId) ≠ s := fun he => hlt.ne (congrArg ScopeId.index he).symm
      rw [if_neg hlt.ne, ih hlt, layer, scope_bind_of_ne hne, layer]

/-- One scope more is one layer more. -/
theorem environment_of_size_eq_succ (hsize : n.scopes.size = m.scopes.size + 1)
    (hothers : ∀ t, m.HasScope t → n.scope t = m.scope t) :
    n.environment = n.layer ⟨m.scopes.size⟩ :: m.environment := by
  rw [environment, hsize, layersBelow, environment, layersBelow_congr fun t ht => ?_]
  rw [layer, layer, hothers t ht]

theorem environment_newScope {parent : Option ScopeId} :
    (m.newScope parent).2.environment = ⟨∅, parent⟩ :: m.environment := by
  have hlayer : (m.newScope parent).2.layer (m.newScope parent).1 = ⟨∅, parent⟩ := by
    rw [layer, scope_newScope]
    rfl
  have hsize : (m.newScope parent).2.scopes.size = m.scopes.size + 1 := Array.size_push _
  exact (environment_of_size_eq_succ hsize fun t => scope_newScope_of_hasScope).trans
    (congrArg (· :: m.environment) hlayer)

/-! ## Step by step -/

theorem extend_environment {bindings : Finmap fun _ : String => Value} {parent : Option ScopeId} :
    m.environment.extend bindings parent = (.made (m.newScope parent).1, ⟨bindings, parent⟩ :: m.environment) := by
  rw [Environment.extend, environment, length_layersBelow, newScope]

theorem functionScope_environment (parameters : List String) (arguments : List Value) :
    m.environment.answer (.functionScope s parameters arguments) =
      ((m.answer (.functionScope s parameters arguments)).1,
        (m.answer (.functionScope s parameters arguments)).2.environment) := by
  rw [Environment.answer, answer]
  by_cases hlength : parameters.length = arguments.length
  · rw [if_pos hlength]
    cases hrepeated : repeatedAfter? [] parameters with
    | none =>
      have hn : parameters.Nodup := nodup_of_repeatedAfter?_eq_none List.nodup_nil hrepeated
      obtain ⟨n, hok, hsize, hscope, hothers⟩ := newFunctionScope_of_nodup hn hlength
      have hlayer : n.layer (m.newScope (some s)).1 = ⟨Entries.toFinmap (parameters.zip arguments), some s⟩ := by
        rw [layer, hscope]
      rw [hok]
      refine extend_environment.trans (congrArg (Prod.mk _) ?_)
      exact ((environment_of_size_eq_succ hsize hothers).trans (congrArg (· :: m.environment) hlayer)).symm
    | some name =>
      obtain ⟨before, after, rfl, hn, hmem⟩ := exists_of_repeatedAfter?_eq_some List.nodup_nil hrepeated
      have hrefused : m.newFunctionScope s (before ++ name :: after) arguments = .error (.alreadyDefined name) :=
        newFunctionScope_of_mem hn hmem hlength
      rw [hrefused]
      rfl
  · rw [if_neg hlength, newFunctionScope, if_neg hlength]
    rfl

/-- The environment of a memory answers each call as the memory does, and goes on being its environment. -/
theorem answer_environment (h : m.WellRooted) {call : ScopeCall} (hcall : ∀ s ∈ call.scope?, m.HasScope s) :
    m.environment.answer call = ((m.answer call).1, (m.answer call).2.environment) := by
  cases call with
  | root => exact extend_environment.trans (congrArg (Prod.mk _) environment_newScope.symm)
  | push s => exact extend_environment.trans (congrArg (Prod.mk _) environment_newScope.symm)
  | pop s => rw [Environment.answer, layer?_environment (hcall s rfl), answer, Option.bind_some, layer]
  | create s name value =>
    have hs := hcall s rfl
    rw [Environment.answer, binding?_environment hs, answer, declare, hasLocal, Entries.has, binding?]
    split
    · rfl
    · exact congrArg (Prod.mk _) (environment_bind hs).symm
  | update s name value =>
    have hs := hcall s rfl
    rw [Environment.answer, nearest?_environment h hs, answer, update_eq]
    cases hv : m.nearest? name s with
    | none => rfl
    | some r =>
      have ht := (nearest_of_nearest?_eq_some h hs hv).hasScope h hs
      exact congrArg (Prod.mk _) (environment_bind ht).symm
  | get s name =>
    rw [Environment.answer, nearest?_environment h (hcall s rfl), answer, lookup_eq]
    cases m.nearest? name s <;> rfl
  | hasLocal s name =>
    rw [Environment.answer, binding?_environment (hcall s rfl), answer, hasLocal, Entries.has, binding?]
  | functionScope s parameters arguments => exact functionScope_environment parameters arguments
  | depth s => rw [Environment.answer, depth_environment h (hcall s rfl), answer]

/-- After each call the scope around each scope is there. -/
theorem wellRooted_answer (h : m.WellRooted) {call : ScopeCall} (hcall : ∀ s ∈ call.scope?, m.HasScope s) :
    (m.answer call).2.WellRooted := by
  cases call with
  | root => exact wellRooted_newScope h fun p hp => nomatch hp
  | push s => exact wellRooted_newScope h fun p hp => Option.some.inj hp ▸ hcall s rfl
  | pop | hasLocal | depth => exact h
  | create s name value =>
    rw [answer, declare]
    split
    · exact h
    · exact wellRooted_bind h
  | update s name value =>
    rw [answer, update]
    split
    · exact wellRooted_bind h
    · exact h
  | get s name =>
    rw [answer, lookup]
    split <;> exact h
  | functionScope s parameters arguments =>
    rw [answer]
    cases hn : m.newFunctionScope s parameters arguments with
    | error e => exact h
    | ok r => exact wellRooted_newFunctionScope h (hcall s rfl) hn

/-- The environment of a memory answers calls as the memory does, one after another. -/
theorem answers_environment (h : m.WellRooted) {calls : List ScopeCall} (hcalls : m.MadeInTurn calls) :
    answers Environment.answer m.environment calls =
        ((answers answer m calls).1, (answers answer m calls).2.environment) ∧
      (answers answer m calls).2.WellRooted := by
  induction calls generalizing m with
  | nil => exact ⟨rfl, h⟩
  | cons call calls ih =>
    obtain ⟨hcall, hcalls⟩ := hcalls
    obtain ⟨hrest, hrooted⟩ := ih (wellRooted_answer h hcall) hcalls
    refine ⟨?_, hrooted⟩
    rw [answers, answer_environment h hcall, hrest, answers]

/-! ## What calls do -/

/-- What calls on the scopes of a memory answer and do. -/
structure Scoping (m : Memory) : Prop where
  get {s t : ScopeId} {name : String} {v : Value} : m.HasScope s → m.Nearest name s t v →
    m.answer (.get s name) = (.value v, m)
  get_unbound {s : ScopeId} {name : String} : m.HasScope s → (∀ t v, ¬m.Nearest name s t v) →
    m.answer (.get s name) = (.failed (.undefinedVariable name), m)
  update {s t : ScopeId} {name : String} {v : Value} (value : Value) : m.HasScope s → m.Nearest name s t v →
    ∃ n, m.answer (.update s name value) = (.done, n) ∧ m.Rebound t name value n
  update_unbound {s : ScopeId} {name : String} (value : Value) : m.HasScope s → (∀ t v, ¬m.Nearest name s t v) →
    m.answer (.update s name value) = (.failed (.undefinedVariable name), m)
  create {s : ScopeId} {name : String} (value : Value) : m.HasScope s → m.binding? s name = none →
    ∃ n, m.answer (.create s name value) = (.done, n) ∧ m.Rebound s name value n
  create_bound {s : ScopeId} {name : String} {v : Value} (value : Value) : m.HasScope s →
    m.binding? s name = some v → m.answer (.create s name value) = (.failed (.alreadyDefined name), m)
  functionScope {s : ScopeId} {parameters : List String} {arguments : List Value} : m.HasScope s →
    parameters.Nodup → parameters.length = arguments.length →
    ∃ t n, m.answer (.functionScope s parameters arguments) = (.made t, n) ∧ m.Entered s parameters arguments t n
  functionScope_arity {s : ScopeId} {parameters : List String} {arguments : List Value} : m.HasScope s →
    parameters.length ≠ arguments.length →
    m.answer (.functionScope s parameters arguments) =
      (.failed (.arityMismatch parameters.length arguments.length), m)
  functionScope_repeated {s : ScopeId} {before after : List String} {name : String} {arguments : List Value} :
    m.HasScope s → before.Nodup → name ∈ before → (before ++ name :: after).length = arguments.length →
    m.answer (.functionScope s (before ++ name :: after) arguments) = (.failed (.alreadyDefined name), m)
  /-- However far the making of a scope for a call comes before a parameter is refused. -/
  functionScope_begun {s u : ScopeId} {bindings : Entries Value} {n : Memory} : m.HasScope u →
    (m.newScope (some s)).2.declareAll (m.newScope (some s)).1 bindings = .ok n → n.scope u = m.scope u
  failed {call : ScopeCall} {e : RuntimeError} : (m.answer call).1 = .failed e → (m.answer call).2 = m
  depth {s : ScopeId} : m.HasScope s → ∃ ps, m.Around s ps ∧ m.answer (.depth s) = (.count ps.length, m)

theorem orFailed_of_failed {α : Type} {x : Except RuntimeError α} {f : α → ScopeAnswer × Memory} {e : RuntimeError}
    (hf : ∀ a, (f a).1 ≠ .failed e) (h : (m.orFailed (x.map f)).1 = .failed e) : (m.orFailed (x.map f)).2 = m := by
  cases x with
  | ok a => exact absurd h (hf a)
  | error e => rfl

/-- A call that fails leaves the memory that there was. -/
theorem answer_of_failed {call : ScopeCall} {e : RuntimeError} (h : (m.answer call).1 = .failed e) :
    (m.answer call).2 = m := by
  cases call with
  | root | push => cases h
  | pop | hasLocal | depth => rfl
  | create | update | get | functionScope => exact orFailed_of_failed (fun _ => ScopeAnswer.noConfusion) h

theorem scoping (h : m.WellRooted) : m.Scoping where
  get hs hv := by rw [answer, lookup_eq, hv.nearest?_eq_some h hs]; rfl
  get_unbound hs hnone := by rw [answer, lookup_eq, nearest?_eq_none h hs hnone]; rfl
  update value hs hv :=
    ⟨_, by rw [answer, update_eq, hv.nearest?_eq_some h hs]; rfl, rebound_bind (hv.hasScope h hs)⟩
  update_unbound value hs hnone := by rw [answer, update_eq, nearest?_eq_none h hs hnone]; rfl
  create value hs hnone :=
    ⟨_, by rw [answer, declare_of_notMem (Entries.get?_eq_none_iff.1 hnone)]; rfl, rebound_bind hs⟩
  create_bound value hs hv := by
    rw [answer, declare_of_mem (List.mem_map_of_mem (Entries.mem_of_get? hv))]
    rfl
  functionScope _ hn hlength := by
    obtain ⟨t, n, hok, hentered⟩ := exists_entered hn hlength
    exact ⟨t, n, by rw [answer, hok]; rfl, hentered⟩
  functionScope_arity _ hlength := by
    rw [answer, newFunctionScope, if_neg hlength]
    rfl
  functionScope_repeated _ hn hmem hlength := by
    rw [answer, newFunctionScope_of_mem hn hmem hlength]
    rfl
  functionScope_begun hu hn := scope_of_begun hu hn
  failed := answer_of_failed
  depth hs := by
    obtain ⟨ps, hps, hdepth⟩ := exists_around h hs
    exact ⟨ps, hps, by rw [answer, hdepth]⟩

/-- **Scopes are nested environments.** Whatever calls are made, on whatever scopes there are by then, the answers are
those of finite maps each with a fixed scope around it, and each call keeps to the rules of scoping. -/
theorem scopes_are_nested_environments {calls : List ScopeCall} (h : MadeInTurn {} calls) :
    (answers answer {} calls).1 = (answers Environment.answer [] calls).1 ∧
      (answers answer {} calls).2.environment = (answers Environment.answer [] calls).2 ∧
      (answers answer {} calls).2.Scoping := by
  obtain ⟨hanswers, hrooted⟩ := answers_environment wellRooted_empty h
  have hempty : ({} : Memory).environment = [] := rfl
  rw [hempty] at hanswers
  exact ⟨by rw [hanswers], by rw [hanswers], scoping hrooted⟩

/-- A root, two scopes in it of which the first shadows a name of the root, and a function scope in the first. -/
def siblingCalls : List ScopeCall :=
  [.root, .create ⟨0⟩ "x" (.bool true), .push ⟨0⟩, .push ⟨0⟩, .create ⟨1⟩ "x" (.string "own"),
    .update ⟨2⟩ "x" .undefined, .functionScope ⟨1⟩ ["y"] [.bool false], .get ⟨3⟩ "x", .get ⟨3⟩ "y", .get ⟨2⟩ "x",
    .get ⟨2⟩ "y", .create ⟨1⟩ "x" .undefined, .depth ⟨3⟩]

theorem scopes_are_nested_environments_siblings :
    MadeInTurn {} siblingCalls ∧
      (answers answer {} siblingCalls).1 =
        [.made ⟨0⟩, .done, .made ⟨1⟩, .made ⟨2⟩, .done, .done, .made ⟨3⟩, .value (.string "own"), .value (.bool false),
          .value .undefined, .failed (.undefinedVariable "y"), .failed (.alreadyDefined "x"), .count 2] ∧
      (answers Environment.answer [] siblingCalls).1 = (answers answer {} siblingCalls).1 ∧
      (answers answer {} siblingCalls).2.Scoping := by
  have hmade : MadeInTurn {} siblingCalls := by decide
  obtain ⟨hanswers, -, hscoping⟩ := scopes_are_nested_environments hmade
  exact ⟨hmade, rfl, hanswers.symm, hscoping⟩

/-- With as many arguments as parameters, a repeated parameter is refused for being there already and not for a number
of arguments. -/
theorem repeated_parameter_is_not_an_arity_mismatch :
    ¬∀ (calls : List ScopeCall) (s : ScopeId) (parameters : List String) (arguments : List Value),
      MadeInTurn {} calls → (answers answer {} calls).2.HasScope s →
      ¬(parameters.Nodup ∧ parameters.length = arguments.length) →
      ((answers answer {} calls).2.answer (.functionScope s parameters arguments)).1 =
        .failed (.arityMismatch parameters.length arguments.length) := by
  intro h
  have hroot := h [.root] ⟨0⟩ ["x", "x"] [.int 1, .int 2] (by decide) (by decide) (by decide)
  cases hroot

end Memory

end GameScript
