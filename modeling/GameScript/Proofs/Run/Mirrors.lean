import GameScript.Proofs.Run.Nests
import GameScript.Proofs.Run.Paired
import GameScript.Proofs.Tree.Nested

/-!
# Memories in which nests do for scopes

One memory mirrors another one when it has the same objects, when for every scope of the other one it has a nest that
does for it, and no scopes besides, and when its closures are the same but for blocks around their bodies, in the
innermost scopes of the nests (`Memory.Mirrors`). A `Nesting` is the world of such a pair: the cells that have been made
and the nest of every scope. It grows by what is new.

No value names a scope, so values are the same on both sides.

Main statement: objects are alive together (`Mirrors.isAlive_eq`). What keeps a scope alive keeps its nest alive, and
what keeps a scope of a nest alive keeps the scope alive for which the nest does.
-/

namespace GameScript

/-! ## Worlds -/

/-- The cells that have been made, and the nest that does for each scope. -/
structure Nesting where
  made : Set Cell
  nest : ScopeId → Nest

namespace Nesting

instance : Preorder Nesting where
  le w w' := w.made ⊆ w'.made ∧ ∀ s, .scope s ∈ w.made → w'.nest s = w.nest s
  le_refl _ := ⟨subset_rfl, fun _ _ => rfl⟩
  le_trans _ _ _ h h' := ⟨h.1.trans h'.1, fun s hs => (h'.2 s (h.1 hs)).trans (h.2 s hs)⟩

variable {w w' : Nesting} {cs ds cs' ds' : List Cell} {s : ScopeId} {c : Cell}

theorem nest_eq (h : w ≤ w') (hs : .scope s ∈ w.made) : w'.nest s = w.nest s := h.2 s hs

theorem inside_mono {v : Value} (h : w ≤ w') (hv : v.Inside w.made) : v.Inside w'.made := fun c hc => h.1 (hv c hc)

/-- A world with one more object or closure. -/
def add (w : Nesting) (c : Cell) : Nesting := ⟨insert c w.made, w.nest⟩

theorem le_add (w : Nesting) (c : Cell) : w ≤ w.add c := ⟨Set.subset_insert _ _, fun _ _ => rfl⟩

/-- A world with one more scope. -/
def extend (w : Nesting) (s : ScopeId) (b : Nest) : Nesting := ⟨insert (.scope s) w.made, Function.update w.nest s b⟩

@[simp] theorem nest_extend_self (w : Nesting) (s : ScopeId) (b : Nest) : (w.extend s b).nest s = b := by
  simp [extend]

theorem nest_extend_of_ne (w : Nesting) (b : Nest) {t : ScopeId} (h : t ≠ s) : (w.extend s b).nest t = w.nest t := by
  simp [extend, h]

theorem le_extend (w : Nesting) (b : Nest) (hs : .scope s ∉ w.made) : w ≤ w.extend s b := by
  refine ⟨Set.subset_insert _ _, fun t ht => w.nest_extend_of_ne b ?_⟩
  rintro rfl
  exact hs ht

/-- Cells of the one memory and cells of the other that keep the same alive: the same objects and closures, and for each
scope the innermost of its nest and perhaps others of it. -/
structure Held (w : Nesting) (cs ds : List Cell) : Prop where
  made : ∀ c ∈ cs, c ∈ w.made
  scope : ∀ s, .scope s ∈ cs → .scope (w.nest s).inner ∈ ds
  nest : ∀ t, .scope t ∈ ds → ∃ s, .scope s ∈ cs ∧ t ∈ (w.nest s).scopes
  other : ∀ c, (∀ s, c ≠ .scope s) → (c ∈ cs ↔ c ∈ ds)

theorem Held.mono (h : w.Held cs ds) (hle : w ≤ w') : w'.Held cs ds where
  made c hc := hle.1 (h.made c hc)
  scope s hs := nest_eq hle (h.made _ hs) ▸ h.scope s hs
  nest t ht := by
    obtain ⟨s, hs, hmem⟩ := h.nest t ht
    exact ⟨s, hs, (nest_eq hle (h.made _ hs)).symm ▸ hmem⟩
  other := h.other

theorem Held.append (h : w.Held cs ds) (h' : w.Held cs' ds') : w.Held (cs ++ cs') (ds ++ ds') where
  made c hc := (List.mem_append.1 hc).elim (h.made c) (h'.made c)
  scope s hs := List.mem_append.2 ((List.mem_append.1 hs).imp (h.scope s) (h'.scope s))
  nest t ht := by
    rcases List.mem_append.1 ht with ht | ht
    · obtain ⟨s, hs, hmem⟩ := h.nest t ht
      exact ⟨s, List.mem_append_left _ hs, hmem⟩
    · obtain ⟨s, hs, hmem⟩ := h'.nest t ht
      exact ⟨s, List.mem_append_right _ hs, hmem⟩
  other c hc := by rw [List.mem_append, List.mem_append, h.other c hc, h'.other c hc]

/-- A scope, and the innermost of its nest with any others of it. -/
theorem held_scope (hs : .scope s ∈ w.made) (ts : List ScopeId) (hinner : (w.nest s).inner ∈ ts)
    (hts : ∀ t ∈ ts, t ∈ (w.nest s).scopes) : w.Held [.scope s] (ts.map .scope) where
  made c hc := List.mem_singleton.1 hc ▸ hs
  scope t ht := by
    cases List.mem_singleton.1 ht
    exact List.mem_map_of_mem hinner
  nest t ht := by
    obtain ⟨u, hu, he⟩ := List.mem_map.1 ht
    cases he
    exact ⟨s, List.mem_singleton_self _, hts t hu⟩
  other c hc := by
    refine iff_of_false (fun hmem => hc s (List.mem_singleton.1 hmem)) fun hmem => ?_
    obtain ⟨t, -, rfl⟩ := List.mem_map.1 hmem
    exact hc t rfl

end Nesting

theorem Value.cell?_ne_scope {v : Value} {s : ScopeId} : v.cell? ≠ some (.scope s) := by
  cases v with
  | reference r =>
    unfold Value.cell?
    dsimp only
    split <;> exact nofun
  | _ => exact nofun

/-- Cells that are kept alive by the same values. -/
theorem Nesting.held_cells {w : Nesting} {vs : List Value} (h : ∀ v ∈ vs, v.Inside w.made) :
    w.Held (Value.cells vs) (Value.cells vs) := by
  have hnone (s : ScopeId) : .scope s ∉ Value.cells vs := fun hmem => by
    obtain ⟨v, -, hv⟩ := List.mem_filterMap.1 hmem
    exact Value.cell?_ne_scope hv
  refine ⟨fun c hc => ?_, fun s hs => absurd hs (hnone s), fun t ht => absurd ht (hnone t), fun _ _ => Iff.rfl⟩
  obtain ⟨v, hv, hc⟩ := List.mem_filterMap.1 hc
  exact h v hv c (Value.lead?_of_cell? hc)

theorem Nesting.held_cell {w : Nesting} {v : Value} (h : v.Inside w.made) :
    w.Held (Value.cells [v]) (Value.cells [v]) :=
  held_cells fun _ hu => List.mem_singleton.1 hu ▸ h

/-- Closures that are the same but for blocks around their bodies, the second one in the innermost scope of the nest. -/
structure Closure.Nests (P : Span → Span → Prop) (w : Nesting) (f g : Closure) : Prop where
  function : (Operand.function f.parameters f.body).Nests P (.function g.parameters g.body)
  scope : g.scope = (w.nest f.scope).inner

/-- The second memory has the objects of the first one, a nest for each of its scopes and no scopes besides, and its
closures with blocks around their bodies. -/
structure Memory.Mirrors (P : Span → Span → Prop) (w : Nesting) (m n : Memory) : Prop where
  intactLeft : m.Intact
  intactRight : n.Intact
  rootedLeft : m.WellRooted
  rootedRight : n.WellRooted
  made : w.made = m.made
  objects : n.objects = m.objects
  closures : n.closures.size = m.closures.size
  closure : ∀ c, m.HasClosure c → (m.closure c).Nests P w (n.closure c)
  spreads : ∀ s, m.HasScope s →
    n.Spreads (w.nest s) (m.scope s).bindings ((m.scope s).parent.map fun p => (w.nest p).inner)
  onto : ∀ t, n.HasScope t → ∃ s, m.HasScope s ∧ t ∈ (w.nest s).scopes
  apart : ∀ {s s' t}, m.HasScope s → m.HasScope s' → t ∈ (w.nest s).scopes → t ∈ (w.nest s').scopes → s = s'
  held : w.Held m.held n.held

namespace Memory

variable {P : Span → Span → Prop} {w w' : Nesting} {m n m' n' : Memory} {s t u : ScopeId} {o : ObjectId}
  {key name : String} {v : Value} {c : Cell}

/-! ## What is held -/

theorem scope_mem_holds : .scope t ∈ m.holds c ↔
    (∃ u, c = .scope u ∧ (m.scope u).parent = some t) ∨ ∃ f, c = .closure f ∧ (m.closure f).scope = t := by
  have hvalues (vs : List Value) : .scope t ∉ Value.cells vs := fun hmem => by
    obtain ⟨v, -, hv⟩ := List.mem_filterMap.1 hmem
    exact Value.cell?_ne_scope hv
  cases c with
  | object o => simp [holds, hvalues]
  | scope u => simp [holds, hvalues]
  | closure f => simp [holds, eq_comm]

/-- What is no scope is held by an object in a property, or by a scope in a binding. -/
theorem mem_holds_of_ne (hc : ∀ s, c ≠ .scope s) {d : Cell} : c ∈ m.holds d ↔
    (∃ o, d = .object o ∧ ∃ p ∈ m.properties o, p.2.cell? = some c) ∨
      ∃ s, d = .scope s ∧ ∃ b ∈ (m.scope s).bindings, b.2.cell? = some c := by
  cases d with
  | object o => simp [holds, Value.cells]
  | scope u =>
    have hparent : c ∉ ((m.scope u).parent.map Cell.scope).toList := fun hmem => by
      cases hp : (m.scope u).parent with
      | none => simp [hp] at hmem
      | some p => exact hc p (by simpa [hp] using hmem)
    simp [holds, Value.cells, hparent]
  | closure f => simp [holds, hc (m.closure f).scope]

/-! ## What is on both sides -/

namespace Mirrors

variable (h : m.Mirrors P w n)

include h

theorem properties_eq (o : ObjectId) : n.properties o = m.properties o := by rw [properties, properties, h.objects]

/-- What is no scope has been made on both sides. -/
theorem mem_made_iff (hc : ∀ s, c ≠ .scope s) : c ∈ n.made ↔ c ∈ m.made := by
  cases c with
  | object o =>
    show o.index < n.objects.size ↔ o.index < m.objects.size
    rw [h.objects]
  | scope s => exact absurd rfl (hc s)
  | closure f =>
    show f.index < n.closures.size ↔ f.index < m.closures.size
    rw [h.closures]

theorem hasScope (hs : .scope s ∈ w.made) : m.HasScope s := by
  rw [h.made] at hs
  exact hs

theorem hasScope_inner (hs : m.HasScope s) : n.HasScope (w.nest s).inner := (h.spreads s hs).made _ List.mem_cons_self

theorem hasClosure_iff {f : ClosureId} : n.HasClosure f ↔ m.HasClosure f := by rw [HasClosure, h.closures, HasClosure]

/-- The nest of a parent has the parent of the outermost scope. -/
theorem parent_cases (hs : m.HasScope s) (ht : t ∈ (w.nest s).scopes) (hu : (n.scope t).parent = some u) :
    u ∈ (w.nest s).scopes ∨ ∃ p, (m.scope s).parent = some p ∧ u = (w.nest p).inner := by
  refine ((h.spreads s hs).strung.parent_mem ht hu).imp_right fun hq => ?_
  obtain ⟨p, hp, rfl⟩ := Option.map_eq_some_iff.1 hq
  exact ⟨p, hp, rfl⟩

/-! ## Objects that are alive together -/

/-- The cells that do for living ones keep each other alive. -/
theorem supported_right : n.Supported
    {d | m.isAlive d = true ∧ (∀ s, d ≠ .scope s) ∨
      ∃ s, m.isAlive (.scope s) = true ∧ ∃ t ∈ (w.nest s).scopes, d = .scope t} := by
  have hbinds {s : ScopeId} (hs : m.HasScope s) {b : String × Value} (hb : b ∈ (m.scope s).bindings) :
      ∃ t ∈ (w.nest s).scopes, b ∈ (n.scope t).bindings := by
    rw [← (h.spreads s hs).joined] at hb
    exact mem_joined.1 hb
  rintro d (⟨halive, hd⟩ | ⟨s, halive, t, ht, rfl⟩)
  · refine ⟨(h.mem_made_iff hd).2 (h.intactLeft.mem_made_of_isAlive halive), ?_⟩
    refine (h.intactLeft.isAlive_iff.1 halive).imp (h.held.other d hd).1 fun ⟨e, he, hde⟩ => ?_
    rcases (mem_holds_of_ne hd).1 hde with ⟨o, rfl, p, hp, hcell⟩ | ⟨s, rfl, b, hb, hcell⟩
    · refine ⟨.object o, .inl ⟨he, nofun⟩, (mem_holds_of_ne hd).2 (.inl ⟨o, rfl, p, ?_, hcell⟩)⟩
      rwa [h.properties_eq]
    · obtain ⟨t, ht, hbt⟩ := hbinds (h.intactLeft.mem_made_of_isAlive he) hb
      exact ⟨.scope t, .inr ⟨s, he, t, ht, rfl⟩, (mem_holds_of_ne hd).2 (.inr ⟨t, rfl, b, hbt, hcell⟩)⟩
  · have hs : m.HasScope s := h.intactLeft.mem_made_of_isAlive halive
    have hspreads := h.spreads s hs
    refine ⟨hspreads.made t ht, ?_⟩
    rcases List.mem_cons.1 ht with rfl | houter
    · refine (h.intactLeft.isAlive_iff.1 halive).imp (h.held.scope s) fun ⟨e, he, hse⟩ => ?_
      rcases scope_mem_holds.1 hse with ⟨u, rfl, hp⟩ | ⟨f, rfl, hf⟩
      · -- the outermost scope of a nest is in the innermost one of the next
        have hu : m.HasScope u := h.intactLeft.mem_made_of_isAlive he
        obtain ⟨x, hx, hpx⟩ := (h.spreads u hu).strung.exists_last
        rw [hp] at hpx
        exact ⟨.scope x, .inr ⟨u, he, x, hx, rfl⟩, scope_mem_holds.2 (.inl ⟨x, rfl, hpx⟩)⟩
      · have hscope := (h.closure f (h.intactLeft.mem_made_of_isAlive he)).scope
        exact ⟨.closure f, .inl ⟨he, nofun⟩, scope_mem_holds.2 (.inr ⟨f, rfl, hf ▸ hscope⟩)⟩
    · obtain ⟨x, hx, hp⟩ := hspreads.strung.exists_child houter
      exact .inr ⟨.scope x, .inr ⟨s, halive, x, hx, rfl⟩, scope_mem_holds.2 (.inl ⟨x, rfl, hp⟩)⟩

/-- What a living scope does for is held, or kept alive by what something living does for. From the scope the way goes
inwards through its nest, and each next scope was made later. -/
theorem exists_holder (hs : m.HasScope s) (ht : t ∈ (w.nest s).scopes) (halive : n.isAlive (.scope t) = true) :
    .scope s ∈ m.held ∨ (∃ f, n.isAlive (.closure f) = true ∧ .scope s ∈ m.holds (.closure f)) ∨
      ∃ s', m.HasScope s' ∧ .scope s ∈ m.holds (.scope s') ∧
        ∃ u ∈ (w.nest s').scopes, n.isAlive (.scope u) = true := by
  induction hk : n.scopes.size - t.index using Nat.strong_induction_on generalizing t with
  | _ k ih =>
    rcases h.intactRight.isAlive_iff.1 halive with hheld | ⟨e, he, hte⟩
    · obtain ⟨s', hs', hmem⟩ := h.held.nest t hheld
      have hmade : m.HasScope s' := h.intactLeft.held _ hs'
      exact .inl (h.apart hmade hs hmem ht ▸ hs')
    rcases scope_mem_holds.1 hte with ⟨u, rfl, hp⟩ | ⟨f, rfl, hf⟩
    · have hu : n.HasScope u := h.intactRight.mem_made_of_isAlive he
      obtain ⟨s', hs', hmem⟩ := h.onto u hu
      by_cases hsame : s' = s
      · subst hsame
        have hlt : t.index < u.index := (h.rootedRight u hu).lt_of_some t hp
        have hbound : u.index < n.scopes.size := hu
        exact ih _ (by omega) hmem he rfl
      · rcases h.parent_cases hs' hmem hp with hparent | ⟨p, hpp, rfl⟩
        · exact absurd (h.apart hs' hs hparent ht) hsame
        · obtain rfl := h.apart (h.rootedLeft.hasScope_parent hs' hpp) hs List.mem_cons_self ht
          exact .inr (.inr ⟨s', hs', scope_mem_holds.2 (.inl ⟨s', rfl, hpp⟩), u, hmem, he⟩)
    · have hmade : m.HasClosure f := h.hasClosure_iff.1 (h.intactRight.mem_made_of_isAlive he)
      have hscope : (m.closure f).scope = s := by
        refine h.apart (h.intactLeft.closed.scope hmade) hs ?_ ht
        rw [← hf, (h.closure f hmade).scope]
        exact List.mem_cons_self
      exact .inr (.inl ⟨f, he, scope_mem_holds.2 (.inr ⟨f, rfl, hscope⟩)⟩)

/-- The cells that living ones do for keep each other alive. -/
theorem supported_left : m.Supported
    {c | n.isAlive c = true ∧ (∀ s, c ≠ .scope s) ∨
      ∃ s, m.HasScope s ∧ (∃ t ∈ (w.nest s).scopes, n.isAlive (.scope t) = true) ∧ c = .scope s} := by
  rintro c (⟨halive, hc⟩ | ⟨s, hs, ⟨t, ht, halive⟩, rfl⟩)
  · refine ⟨(h.mem_made_iff hc).1 (h.intactRight.mem_made_of_isAlive halive), ?_⟩
    refine (h.intactRight.isAlive_iff.1 halive).imp (h.held.other c hc).2 fun ⟨e, he, hce⟩ => ?_
    rcases (mem_holds_of_ne hc).1 hce with ⟨o, rfl, p, hp, hcell⟩ | ⟨t, rfl, b, hb, hcell⟩
    · refine ⟨.object o, .inl ⟨he, nofun⟩, (mem_holds_of_ne hc).2 (.inl ⟨o, rfl, p, ?_, hcell⟩)⟩
      rwa [← h.properties_eq]
    · obtain ⟨s, hs, ht⟩ := h.onto t (h.intactRight.mem_made_of_isAlive he)
      refine ⟨.scope s, .inr ⟨s, hs, ⟨t, ht, he⟩, rfl⟩, (mem_holds_of_ne hc).2 (.inr ⟨s, rfl, b, ?_, hcell⟩)⟩
      rw [← (h.spreads s hs).joined]
      exact mem_joined.2 ⟨t, ht, hb⟩
  · refine ⟨hs, ?_⟩
    rcases h.exists_holder hs ht halive with hheld | ⟨f, hf, hholds⟩ | ⟨s', hs', hholds, hu⟩
    · exact .inl hheld
    · exact .inr ⟨.closure f, .inl ⟨hf, nofun⟩, hholds⟩
    · exact .inr ⟨.scope s', .inr ⟨s', hs', hu, rfl⟩, hholds⟩

/-- Objects are alive together. -/
theorem isAlive_eq (o : ObjectId) : n.isAlive (.object o) = m.isAlive (.object o) := by
  rw [Bool.eq_iff_iff]
  constructor
  · exact fun halive => h.supported_left.isAlive (.inl ⟨halive, nofun⟩)
  · exact fun halive => h.supported_right.isAlive (.inl ⟨halive, nofun⟩)

end Mirrors

end Memory

end GameScript
