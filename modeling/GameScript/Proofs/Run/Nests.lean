import GameScript.Proofs.Run.Names

/-!
# Scopes that do for one

Statements that stand in blocks are run in the innermost of several scopes, each in the next one, where the same
statements without the blocks are run in one. Such scopes are a `Nest`. They do for the one when their bindings, joined
from the outermost inwards, are those of the one, each name is bound in one of them alone, and the parent of the
outermost does for the parent of the one (`Memory.Spreads`). Then the chain of the innermost goes through the nest and
on from there (`Spreads.chain_eq`), a name is found in the nest when the one binds it (`Spreads.findSome?_eq`), and it
may be bound where it is bound already, or in the innermost scope unless it is reserved for those around
(`Spreads.bind`).

To go into one more block makes a nest one deeper (`Spreads.deepen`).
-/

namespace GameScript

/-- Scopes each in the next one: the innermost, those around it from the inside, and the names that may be bound in
those around. -/
structure Nest where
  inner : ScopeId
  outer : List ScopeId
  names : List String

namespace Nest

/-- The scopes of a nest, from the inside. -/
def scopes (b : Nest) : List ScopeId := b.inner :: b.outer

/-- A scope alone. -/
def single (t : ScopeId) : Nest := ⟨t, [], []⟩

/-- A nest and one more scope in its innermost one. -/
def deepen (b : Nest) (t : ScopeId) : Nest := ⟨t, b.scopes, b.names⟩

end Nest

/-! ## Entries side by side -/

namespace Entries

variable {α : Type} {es fs : Entries α} {key : String} {value : α}

theorem keys_append : keys (es ++ fs) = keys es ++ keys fs := List.map_append

theorem get?_append : get? (es ++ fs) key = (get? es key).or (get? fs key) := by
  induction es with
  | nil => rfl
  | cons e es ih =>
    obtain ⟨k, v⟩ := e
    rw [List.cons_append, get?_cons, get?_cons, ih]
    split <;> rfl

theorem put_append_of_mem (h : key ∈ keys es) : put (es ++ fs) key value = put es key value ++ fs := by
  induction es with
  | nil => cases h
  | cons e es ih =>
    obtain ⟨k, v⟩ := e
    by_cases hk : k = key
    · simp [put, hk]
    · have hrest : key ∈ keys es := (List.mem_cons.1 h).resolve_left fun he => hk he.symm
      simp [put, hk, ih hrest]

theorem put_append_of_not_mem (h : key ∉ keys es) : put (es ++ fs) key value = es ++ put fs key value := by
  induction es with
  | nil => rfl
  | cons e es ih =>
    obtain ⟨k, v⟩ := e
    have hk : k ≠ key := fun he => h (he ▸ List.mem_cons_self)
    have hrest : key ∉ keys es := fun hmem => h (List.mem_cons_of_mem _ hmem)
    simp [put, hk, ih hrest]

end Entries

namespace Memory

variable {m m' : Memory} {s t u : ScopeId} {ts : List ScopeId} {q : Option ScopeId} {name : String} {v : Value}

/-! ## Chains -/

/-- What follows for a scope from its parent holds of all scopes. -/
@[elab_as_elim] theorem WellRooted.induction {motive : ScopeId → Prop} (h : m.WellRooted)
    (step : ∀ s, m.HasScope s → (∀ p, (m.scope s).parent = some p → m.HasScope p ∧ motive p) → motive s)
    (hs : m.HasScope s) : motive s := by
  obtain ⟨i⟩ := s
  induction i using Nat.strong_induction_on with
  | _ i ih =>
    refine step _ hs fun p hp => ?_
    have hp' := h.hasScope_parent hs hp
    exact ⟨hp', ih p.index ((h _ hs).lt_of_some p hp) hp'⟩

/-- The bindings of scopes, of the last first. -/
def joined (m : Memory) : List ScopeId → Entries Value
  | [] => []
  | t :: ts => m.joined ts ++ (m.scope t).bindings

/-- Each scope is in the next one, and the last one in another. -/
def Strung (m : Memory) (q : Option ScopeId) : List ScopeId → Prop
  | [] => True
  | t :: ts => (m.scope t).parent = ts.head?.or q ∧ m.Strung q ts

theorem Strung.chain_eq (h : m.WellRooted) (hts : ∀ u ∈ t :: ts, m.HasScope u) (hstrung : m.Strung q (t :: ts)) :
    m.chain t = t :: ts ++ q.elim [] m.chain := by
  induction ts generalizing t with
  | nil => rw [Memory.chain_eq h (hts t List.mem_cons_self), hstrung.1]; rfl
  | cons u ts ih =>
    rw [Memory.chain_eq h (hts t List.mem_cons_self), hstrung.1]
    exact congrArg (t :: ·) (ih (fun u hu => hts u (List.mem_cons_of_mem _ hu)) hstrung.2)

/-- Every scope but the first is the parent of one. -/
theorem Strung.exists_child (h : m.Strung q (t :: ts)) (hu : u ∈ ts) : ∃ v ∈ t :: ts, (m.scope v).parent = some u := by
  induction ts generalizing t with
  | nil => cases hu
  | cons w ts ih =>
    rcases List.mem_cons.1 hu with rfl | hu
    · exact ⟨t, List.mem_cons_self, h.1⟩
    · obtain ⟨v, hv, hp⟩ := ih h.2 hu
      exact ⟨v, List.mem_cons_of_mem _ hv, hp⟩

/-- The other scope is the parent of the last one. -/
theorem Strung.exists_last (h : m.Strung q (t :: ts)) : ∃ v ∈ t :: ts, (m.scope v).parent = q := by
  induction ts generalizing t with
  | nil => exact ⟨t, List.mem_cons_self, h.1⟩
  | cons w ts ih =>
    obtain ⟨v, hv, hp⟩ := ih h.2
    exact ⟨v, List.mem_cons_of_mem _ hv, hp⟩

/-- A parent is among the scopes, or it is the other one. -/
theorem Strung.parent_mem (h : m.Strung q ts) (ht : t ∈ ts) (hu : (m.scope t).parent = some u) :
    u ∈ ts ∨ q = some u := by
  induction ts with
  | nil => cases ht
  | cons w ts ih =>
    rcases List.mem_cons.1 ht with rfl | ht
    · rw [h.1] at hu
      cases ts with
      | nil => exact .inr hu
      | cons x ts =>
        cases hu
        exact .inl (List.mem_cons_of_mem _ List.mem_cons_self)
    · exact (ih h.2 ht).imp_left (List.mem_cons_of_mem _)

theorem Strung.congr (h : m.Strung q ts) (hts : ∀ t ∈ ts, (m'.scope t).parent = (m.scope t).parent) :
    m'.Strung q ts := by
  induction ts with
  | nil => trivial
  | cons t ts ih =>
    refine ⟨?_, ih h.2 fun u hu => hts u (List.mem_cons_of_mem _ hu)⟩
    rw [hts t List.mem_cons_self]
    exact h.1

/-! ## Joined bindings -/

theorem joined_congr (h : ∀ t ∈ ts, m'.scope t = m.scope t) : m'.joined ts = m.joined ts := by
  induction ts with
  | nil => rfl
  | cons t ts ih =>
    rw [joined, joined, h t List.mem_cons_self, ih fun u hu => h u (List.mem_cons_of_mem _ hu)]

theorem mem_joined {e : String × Value} : e ∈ m.joined ts ↔ ∃ t ∈ ts, e ∈ (m.scope t).bindings := by
  induction ts with
  | nil => simp [joined]
  | cons t ts ih => simp [joined, ih, or_comm]

theorem mem_keys_joined : name ∈ (m.joined ts).keys ↔ ∃ t ∈ ts, name ∈ m.names t := by
  induction ts with
  | nil => simp [joined, Entries.keys]
  | cons t ts ih => simp [joined, Entries.keys_append, ih, or_comm, names]

/-- A name is found among scopes that bind different names as it is in their joined bindings. -/
theorem findSome?_joined (h : ts.Pairwise fun t u => (m.names t).Disjoint (m.names u)) :
    (ts.findSome? fun t => (m.scope t).bindings.get? name) = (m.joined ts).get? name := by
  induction ts with
  | nil => rfl
  | cons t ts ih =>
    obtain ⟨ht, hts⟩ := List.pairwise_cons.1 h
    rw [List.findSome?_cons, joined, Entries.get?_append, ih hts]
    by_cases hname : name ∈ m.names t
    · have hnone : (m.joined ts).get? name = none := by
        rw [Entries.get?_eq_none_iff, mem_keys_joined]
        rintro ⟨u, hu, hmem⟩
        exact ht u hu hname hmem
      rw [hnone]
      cases (m.scope t).bindings.get? name <;> rfl
    · rw [Entries.get?_eq_none_iff.2 hname]
      cases (m.joined ts).get? name <;> rfl

/-- What is put where a name is bound, or behind all other bindings, is put into the joined bindings. -/
theorem joined_bind (hnodup : (t :: ts).Nodup) (hmade : ∀ u ∈ t :: ts, m.HasScope u)
    (hapart : (t :: ts).Pairwise fun t u => (m.names t).Disjoint (m.names u)) (hu : u ∈ t :: ts)
    (hname : name ∈ m.names u ∨ u = t ∧ name ∉ (m.joined ts).keys) :
    (m.bind u name v).joined (t :: ts) = (m.joined (t :: ts)).put name v := by
  induction ts generalizing t with
  | nil =>
    obtain rfl := List.mem_singleton.1 hu
    simp [joined, scope_bind (hmade u hu)]
  | cons w ts ih =>
    obtain ⟨htail, hnodup'⟩ := List.nodup_cons.1 hnodup
    obtain ⟨ht, hapart'⟩ := List.pairwise_cons.1 hapart
    show (m.bind u name v).joined (w :: ts) ++ ((m.bind u name v).scope t).bindings =
      Entries.put (m.joined (w :: ts) ++ (m.scope t).bindings) name v
    by_cases hut : u = t
    · subst hut
      have hfree : name ∉ (m.joined (w :: ts)).keys := by
        rcases hname with hname | ⟨-, hfree⟩
        · rw [mem_keys_joined]
          rintro ⟨x, hx, hmem⟩
          exact ht x hx hname hmem
        · exact hfree
      have hrest : (m.bind u name v).joined (w :: ts) = m.joined (w :: ts) :=
        joined_congr fun x hx => scope_bind_of_ne fun he => htail (he ▸ hx)
      rw [hrest, scope_bind (hmade u hu), Entries.put_append_of_not_mem hfree]
    · have hu' : u ∈ w :: ts := (List.mem_cons.1 hu).resolve_left hut
      have hbound : name ∈ m.names u := hname.resolve_right fun h => hut h.1
      have hmem : name ∈ (m.joined (w :: ts)).keys := mem_keys_joined.2 ⟨u, hu', hbound⟩
      rw [ih hnodup' (fun x hx => hmade x (List.mem_cons_of_mem _ hx)) hapart' hu' (.inl hbound),
        scope_bind_of_ne fun he => hut he.symm, Entries.put_append_of_mem hmem]

/-! ## Nests -/

/-- The scopes of a nest do for a scope with some bindings and a parent for which another scope does. -/
structure Spreads (m : Memory) (b : Nest) (es : Entries Value) (q : Option ScopeId) : Prop where
  made : ∀ t ∈ b.scopes, m.HasScope t
  nodup : b.scopes.Nodup
  apart : b.scopes.Pairwise fun t u => (m.names t).Disjoint (m.names u)
  joined : m.joined b.scopes = es
  outer : ∀ name ∈ (m.joined b.outer).keys, name ∈ b.names
  strung : m.Strung q b.scopes

namespace Spreads

variable {b : Nest} {es : Entries Value}

theorem chain_eq (h : m.Spreads b es q) (hroot : m.WellRooted) : m.chain b.inner = b.scopes ++ q.elim [] m.chain :=
  Strung.chain_eq hroot h.made h.strung

theorem findSome?_eq (h : m.Spreads b es q) (name : String) :
    (b.scopes.findSome? fun t => (m.scope t).bindings.get? name) = es.get? name := by
  rw [findSome?_joined h.apart, h.joined]

/-- The one binds a name when one of the nest does. -/
theorem mem_keys_iff (h : m.Spreads b es q) : name ∈ es.keys ↔ ∃ t ∈ b.scopes, name ∈ m.names t := by
  rw [← h.joined, mem_keys_joined]

/-- A name that is not reserved for the scopes around is bound by the one when it is bound by the innermost. -/
theorem mem_names_inner_iff (h : m.Spreads b es q) (hname : name ∉ b.names) :
    name ∈ m.names b.inner ↔ name ∈ es.keys := by
  rw [h.mem_keys_iff]
  constructor
  · exact fun hmem => ⟨b.inner, List.mem_cons_self, hmem⟩
  · rintro ⟨t, ht, hmem⟩
    rcases List.mem_cons.1 ht with rfl | ht
    · exact hmem
    · exact absurd (h.outer name (mem_keys_joined.2 ⟨t, ht, hmem⟩)) hname

theorem congr (h : m.Spreads b es q) (hb : ∀ t ∈ b.scopes, m'.HasScope t ∧ m'.scope t = m.scope t) :
    m'.Spreads b es q where
  made t ht := (hb t ht).1
  nodup := h.nodup
  apart := h.apart.imp_of_mem fun ht hu hdisjoint => by
    rwa [Memory.names, Memory.names, (hb _ ht).2, (hb _ hu).2]
  joined := (joined_congr fun t ht => (hb t ht).2).trans h.joined
  outer := by
    rw [joined_congr fun t ht => (hb t (List.mem_cons_of_mem _ ht)).2]
    exact h.outer
  strung := h.strung.congr fun t ht => by rw [(hb t ht).2]

/-- A name may be bound anew where it is bound, or in the innermost scope if it is not reserved. -/
theorem bind (h : m.Spreads b es q) (hu : u ∈ b.scopes) (hname : name ∈ m.names u ∨ u = b.inner ∧ name ∉ b.names) :
    (m.bind u name v).Spreads b (es.put name v) q := by
  have hnames (t : ScopeId) (ht : t ≠ u) : (m.bind u name v).names t = m.names t := by
    rw [Memory.names, Memory.names, scope_bind_of_ne ht]
  have hfree (hu : u = b.inner) (hnew : name ∉ b.names) : name ∉ (m.joined b.outer).keys :=
    fun hmem => hnew (h.outer name hmem)
  -- what is new in a scope is not in the others
  have hnew (other : String) (hother : other ∈ (m.bind u name v).names u) (t : ScopeId) (ht : t ∈ b.scopes)
      (hne : t ≠ u) (hmem : other ∈ m.names t) : other ∈ m.names u := by
    rw [names_bind (h.made u hu)] at hother
    split at hother
    · exact hother
    · rename_i hunbound
      rcases List.mem_append.1 hother with hother | hother
      · exact hother
      · obtain rfl := List.mem_singleton.1 hother
        obtain ⟨rfl, hreserved⟩ := hname.resolve_left hunbound
        exact absurd (mem_keys_joined.2 ⟨t, (List.mem_cons.1 ht).resolve_left hne, hmem⟩) (hfree rfl hreserved)
  refine ⟨fun t ht => hasScope_bind.2 (h.made t ht), h.nodup, ?_, ?_, ?_, h.strung.congr fun _ _ => parent_bind⟩
  · have hpairs := List.Pairwise.and h.nodup h.apart
    refine hpairs.imp_of_mem fun {t w} ht hw hpair other hother hother' => ?_
    obtain ⟨hne, hdisjoint⟩ := hpair
    by_cases htu : t = u
    · subst htu
      rw [hnames w hne.symm] at hother'
      exact hdisjoint (hnew other hother w hw hne.symm hother') hother'
    · rw [hnames t htu] at hother
      by_cases hwu : w = u
      · subst hwu
        exact hdisjoint hother (hnew other hother' t ht htu hother)
      · rw [hnames w hwu] at hother'
        exact hdisjoint hother hother'
  · rw [← h.joined]
    exact joined_bind h.nodup h.made h.apart hu (hname.imp_right fun h => ⟨h.1, hfree h.1 h.2⟩)
  · intro other hother
    obtain ⟨t, ht, hmem⟩ := mem_keys_joined.1 hother
    by_cases htu : t = u
    · subst htu
      have hne : t ≠ b.inner := fun he => (List.nodup_cons.1 h.nodup).1 (he ▸ ht)
      have hbound : name ∈ m.names t := hname.resolve_right fun h => hne h.1
      rw [names_bind (h.made t hu), if_pos hbound] at hmem
      exact h.outer other (mem_keys_joined.2 ⟨t, ht, hmem⟩)
    · rw [hnames t htu] at hmem
      exact h.outer other (mem_keys_joined.2 ⟨t, ht, hmem⟩)

theorem single (ht : m.HasScope t) (hp : (m.scope t).parent = q) : m.Spreads (.single t) (m.scope t).bindings q where
  made u hu := by
    obtain rfl := List.mem_singleton.1 hu
    exact ht
  nodup := List.nodup_singleton t
  apart := List.pairwise_singleton _ t
  joined := List.nil_append _
  outer _ hname := by cases hname
  strung := ⟨hp, trivial⟩

/-- A new scope in the innermost one makes a nest one deeper, if the names in it are reserved. -/
theorem deepen (h : m.Spreads b es q) (hes : ∀ name ∈ es.keys, name ∈ b.names) :
    (m.newScope (some b.inner)).2.Spreads (b.deepen (m.newScope (some b.inner)).1) es q := by
  have hold : (m.newScope (some b.inner)).2.Spreads b es q := h.congr fun t ht =>
    ⟨Nat.lt_of_lt_of_le (h.made t ht) (by simp [newScope]), scope_newScope_of_hasScope (h.made t ht)⟩
  have hscope : (m.newScope (some b.inner)).2.scope (m.newScope (some b.inner)).1 = ⟨[], some b.inner, _⟩ :=
    scope_newScope
  generalize ht : (m.newScope (some b.inner)).1 = t at hscope
  have hnew : t ∉ b.scopes := fun hmem => not_hasScope_newScope (some b.inner) (ht ▸ h.made t hmem)
  refine ⟨?_, List.nodup_cons.2 ⟨hnew, h.nodup⟩, ?_, ?_, ?_, ?_, hold.strung⟩
  · refine List.forall_mem_cons.2 ⟨?_, hold.made⟩
    subst ht
    simp [Nest.deepen, HasScope, newScope]
  · refine List.pairwise_cons.2 ⟨fun u _ other hother => ?_, hold.apart⟩
    rw [Memory.names, show (b.deepen t).inner = t from rfl, hscope] at hother
    cases hother
  · show (m.newScope (some b.inner)).2.joined b.scopes ++ ((m.newScope (some b.inner)).2.scope t).bindings = es
    rw [hscope, List.append_nil, hold.joined]
  · show ∀ name ∈ ((m.newScope (some b.inner)).2.joined b.scopes).keys, name ∈ b.names
    rw [hold.joined]
    exact hes
  · exact congrArg ScopeCell.parent hscope

end Spreads

end Memory

end GameScript
