import GameScript.Proofs.Run.Mirrors

/-!
# The same done in a memory and in its mirror

Where one memory mirrors another and the same is done in both, what is looked up or read is the same
(`Mirrors.targetRead_eq`), and what is written or made leaves memories one of which mirrors the other
(`Mirrors.targetWrite`, `Mirrors.newObject`, `Mirrors.newClosure`). A name is bound in the scope of the nest that binds
it already, and a new one in the innermost scope, unless it is reserved.

A new scope on one side may be a new nest on the other one, made by going into blocks (`Mirrors.opens`,
`Enters.intoBlocks`).
-/

namespace GameScript

/-- A target that may be written to in both: no reserved name is declared, and an object has been made. -/
def Target.Fits (w : Nesting) (s : ScopeId) : Target → Prop
  | .declare name => name ∉ (w.nest s).names
  | .existing _ => True
  | .property r => .object r.object ∈ w.made

namespace Memory

variable {P : Span → Span → Prop} {w w' : Nesting} {m n m' n' : Memory} {s t u : ScopeId} {o : ObjectId}
  {key name : String} {v : Value} {c : Cell}

theorem Changed.intact (h : m.Changed c m') (hm : m.Intact) : m'.Intact :=
  ⟨h.made ▸ h.closed, fun d hd => h.made ▸ hm.held d (h.held ▸ hd)⟩

theorem Added.intact (h : m.Added c m') (hm : m.Intact) : m'.Intact :=
  ⟨h.made ▸ h.closed, fun d hd => h.made ▸ .inr (hm.held d (h.held ▸ hd))⟩

theorem Intact.holding (h : m.Intact) {cs : List Cell} (hcs : ∀ c ∈ cs, c ∈ m.made) : (m.holding cs).Intact :=
  ⟨h.closed, fun c hc => (List.mem_append.1 hc).elim (hcs c) (h.held c)⟩

namespace Mirrors

section Lookups

variable (h : m.Mirrors P w n)

include h

/-! ## What is read -/

theorem inside_left (hv : v.Inside w.made) : v.Inside m.made := h.made ▸ hv

theorem inside_right (hv : v.Inside w.made) : v.Inside n.made := by
  intro c hc
  have hne (s : ScopeId) : c ≠ .scope s := by
    rintro rfl
    cases v <;> cases hc
  exact (h.mem_made_iff hne).2 (h.inside_left hv c hc)

theorem findSome?_eq (name : String) (hs : m.HasScope s) :
    ((n.chain (w.nest s).inner).findSome? fun t => (n.scope t).bindings.get? name) =
      (m.chain s).findSome? fun t => (m.scope t).bindings.get? name := by
  refine h.rootedLeft.induction (fun s hs ih => ?_) hs
  have hspreads := h.spreads s hs
  rw [hspreads.chain_eq h.rootedRight, chain_eq h.rootedLeft hs, List.findSome?_append, hspreads.findSome?_eq,
    List.findSome?_cons]
  cases (m.scope s).bindings.get? name with
  | some v => rfl
  | none =>
    cases hp : (m.scope s).parent with
    | none => rfl
    | some p => exact (ih p hp).2

theorem lookup_eq (name : String) (hs : m.HasScope s) : n.lookup (w.nest s).inner name = m.lookup s name := by
  rw [lookup, lookup, h.findSome?_eq name hs]

/-- The nearest scope that binds a name is in the nest of the nearest one. -/
theorem binder?_rel (name : String) (hs : m.HasScope s) :
    Option.Rel (fun s t => m.HasScope s ∧ t ∈ (w.nest s).scopes ∧ name ∈ n.names t) (m.binder? s name)
      (n.binder? (w.nest s).inner name) := by
  unfold binder?
  refine h.rootedLeft.induction (fun s hs ih => ?_) hs
  have hspreads := h.spreads s hs
  have hlocal : m.hasLocal s name = true ↔ ∃ t ∈ (w.nest s).scopes, n.hasLocal t name = true := by
    simp only [hasLocal_eq_true_iff]
    exact hspreads.mem_keys_iff
  rw [hspreads.chain_eq h.rootedRight, chain_eq h.rootedLeft hs, List.find?_append, List.find?_cons]
  cases hfound : m.hasLocal s name with
  | true =>
    obtain ⟨t, ht, hbinds⟩ := hlocal.1 hfound
    cases hfind : (w.nest s).scopes.find? (n.hasLocal · name) with
    | none => exact absurd hbinds (List.find?_eq_none.1 hfind t ht)
    | some u =>
      have hu : n.hasLocal u name = true := List.find?_some (p := (n.hasLocal · name)) hfind
      exact .some ⟨hs, List.mem_of_find?_eq_some hfind, hasLocal_eq_true_iff.1 hu⟩
  | false =>
    have hnone : (w.nest s).scopes.find? (n.hasLocal · name) = none := by
      refine List.find?_eq_none.2 fun t ht hbinds => ?_
      rw [hlocal.2 ⟨t, ht, hbinds⟩] at hfound
      cases hfound
    rw [hnone]
    cases hp : (m.scope s).parent with
    | none => exact .none
    | some p => exact (ih p hp).2

theorem inside_lookup (hs : m.HasScope s) (hv : m.lookup s name = .ok v) : v.Inside w.made := by
  rw [h.made]
  unfold lookup at hv
  split at hv
  · rename_i u hu
    cases hv
    obtain ⟨t, ht, hb⟩ := List.exists_of_findSome?_eq_some hu
    exact h.intactLeft.closed.inside_binding (mem_chain_hasScope h.rootedLeft hs ht) hb
  · cases hv

theorem target_eq (r : Reference) : n.target r = m.target r := by rw [target, target, h.isAlive_eq]

theorem read_eq (r : Reference) : n.read r = m.read r := by
  simp only [read, h.target_eq, property?, h.properties_eq]

theorem resolve_eq (v : Value) : n.resolve v = m.resolve v := by
  cases v with
  | reference r => exact h.read_eq r
  | _ => rfl

theorem inside_read {r : Reference} (hr : .object r.object ∈ w.made) (hv : m.read r = .ok v) : v.Inside w.made := by
  have hread := eq_of_read hv
  rw [h.made] at hr ⊢
  cases hp : m.property? r.object r.key with
  | none =>
    rw [hp] at hread
    subst hread
    rintro c ⟨⟩
  | some u =>
    rw [hp] at hread
    subst hread
    exact h.intactLeft.closed.inside_property hr hp

theorem inside_resolve {u : Value} (hv : v.Inside w.made) (hu : m.resolve v = .ok u) : u.Inside w.made := by
  cases v with
  | reference r => exact h.inside_read (hv _ rfl) hu
  | _ =>
    cases hu
    exact hv

theorem targetRead_eq (hs : m.HasScope s) (u : Target) : u.read n (w.nest s).inner = u.read m s := by
  cases u with
  | declare name => rfl
  | existing name =>
    show n.lookup (w.nest s).inner name >>= n.resolve = m.lookup s name >>= m.resolve
    rw [h.lookup_eq name hs, funext h.resolve_eq]
  | property r => exact h.read_eq r

theorem inside_targetRead (hs : m.HasScope s) {u : Target} (hu : u.Fits w s) (hv : u.read m s = .ok v) :
    v.Inside w.made := by
  cases u with
  | declare name => cases hv
  | existing name =>
    obtain ⟨x, hx, hresolve⟩ := exists_of_bind_eq_ok hv
    exact h.inside_resolve (h.inside_lookup hs hx) hresolve
  | property r => exact h.inside_read hu hv

end Lookups

section Changes

variable (h : m.Mirrors P w n)

include h

/-! ## What is written -/

omit h in
theorem wellRooted_contents (h : m.WellRooted) {objects : Array (Entries Value)} {closures : Array Closure} :
    WellRooted { m with objects := objects, closures := closures } := fun s hs =>
  have hrooted := h s hs
  ⟨hs, hrooted.depth_of_none, hrooted.depth_of_some, hrooted.lt_of_some⟩

/-- Objects and closures may be others, the same on both sides. -/
theorem contents {objects : Array (Entries Value)} {closures closures' : Array Closure} (hnest : w'.nest = w.nest)
    (hle : w.made ⊆ w'.made) (hmade : w'.made = Memory.made { m with objects := objects, closures := closures })
    (hleft : Intact { m with objects := objects, closures := closures })
    (hright : Intact { n with objects := objects, closures := closures' }) (hsize : closures'.size = closures.size)
    (hclosure : ∀ c : ClosureId, c.index < closures.size →
      (closures.getD c.index default).Nests P w' (closures'.getD c.index default)) :
    Mirrors P w' { m with objects := objects, closures := closures }
      { n with objects := objects, closures := closures' } where
  intactLeft := hleft
  intactRight := hright
  rootedLeft := wellRooted_contents h.rootedLeft
  rootedRight := wellRooted_contents h.rootedRight
  made := hmade
  objects := rfl
  closures := hsize
  closure := hclosure
  spreads s hs := by
    rw [hnest]
    exact (h.spreads s hs).congr fun t ht => ⟨(h.spreads s hs).made t ht, rfl⟩
  onto t ht := by
    rw [hnest]
    exact h.onto t ht
  apart hs hs' ht ht' := by
    rw [hnest] at ht ht'
    exact h.apart hs hs' ht ht'
  held := h.held.mono ⟨hle, fun _ _ => by rw [hnest]⟩

theorem setProperty (hv : v.Inside w.made) : (m.setProperty o key v).Mirrors P w (n.setProperty o key v) := by
  have hleft : m.Changed (.object o) (m.setProperty o key v) := changed_setProperty h.intactLeft (h.inside_left hv)
  have hright : n.Changed (.object o) (n.setProperty o key v) := changed_setProperty h.intactRight (h.inside_right hv)
  have hintact := hright.intact h.intactRight
  unfold Memory.setProperty at hintact ⊢
  rw [h.objects] at hintact ⊢
  exact h.contents rfl subset_rfl (h.made.trans hleft.made.symm) (hleft.intact h.intactLeft) hintact h.closures
    h.closure

theorem newObject : (m.newObject []).1 = (n.newObject []).1 ∧
    (m.newObject []).2.Mirrors P (w.add (.object (m.newObject []).1)) (n.newObject []).2 := by
  have hleft := added_newObject h.intactLeft
  have hright := added_newObject h.intactRight
  have hintact := hright.intact h.intactRight
  have hmade : (w.add (.object (m.newObject []).1)).made = (m.newObject []).2.made := by
    rw [hleft.made, Nesting.add, h.made]
  unfold Memory.newObject at hintact hmade ⊢
  rw [h.objects] at hintact ⊢
  exact ⟨rfl, h.contents rfl (Set.subset_insert _ _) hmade (hleft.intact h.intactLeft) hintact h.closures
    fun c hc => ⟨(h.closure c hc).function, (h.closure c hc).scope⟩⟩

theorem newClosure {f g : Closure} (hfg : f.Nests P w g) (hf : m.HasScope f.scope) :
    (m.newClosure f).1 = (n.newClosure g).1 ∧
      (m.newClosure f).2.Mirrors P (w.add (.closure (m.newClosure f).1)) (n.newClosure g).2 := by
  have hg : n.HasScope g.scope := hfg.scope ▸ h.hasScope_inner hf
  have hleft := added_newClosure (f := f) h.intactLeft hf
  have hright := (added_newClosure (f := g) h.intactRight hg).intact h.intactRight
  have hmade : (w.add (.closure (m.newClosure f).1)).made = (m.newClosure f).2.made := by
    rw [hleft.made, Nesting.add, h.made]
  refine ⟨congrArg ClosureId.mk h.closures.symm, ?_⟩
  unfold Memory.newClosure at hright hmade ⊢
  rw [h.objects] at hright ⊢
  refine h.contents rfl (Set.subset_insert _ _) hmade (hleft.intact h.intactLeft) hright ?_ fun c hc => ?_
  · rw [Array.size_push, Array.size_push, h.closures]
  · rw [Array.size_push] at hc
    by_cases hnew : c.index = m.closures.size
    · simp only [Array.getD_eq_getD_getElem?, Array.getElem?_push, hnew, h.closures]
      exact ⟨hfg.function, hfg.scope⟩
    · have hold := h.closure c (by show c.index < m.closures.size; omega)
      simp only [Memory.closure, Array.getD_eq_getD_getElem?] at hold
      simp only [Array.getD_eq_getD_getElem?, Array.getElem?_push, hnew, h.closures]
      exact ⟨hold.function, hold.scope⟩

/-- A name may be bound anew in the scope of a nest that binds it, or in the innermost one if it is not reserved. -/
theorem bind (hs : m.HasScope s) (hu : u ∈ (w.nest s).scopes)
    (hname : name ∈ n.names u ∨ u = (w.nest s).inner ∧ name ∉ (w.nest s).names) (hv : v.Inside w.made) :
    (m.bind s name v).Mirrors P w (n.bind u name v) where
  intactLeft := (changed_bind h.intactLeft (h.inside_left hv)).intact h.intactLeft
  intactRight := (changed_bind h.intactRight (h.inside_right hv)).intact h.intactRight
  rootedLeft := wellRooted_bind h.rootedLeft
  rootedRight := wellRooted_bind h.rootedRight
  made := h.made.trans made_bind.symm
  objects := h.objects
  closures := h.closures
  closure := h.closure
  spreads t ht := by
    have hmade : m.HasScope t := hasScope_bind.1 ht
    rw [parent_bind]
    by_cases hts : t = s
    · subst hts
      rw [scope_bind hmade]
      exact (h.spreads t hmade).bind hu hname
    · rw [scope_bind_of_ne hts]
      refine (h.spreads t hmade).congr fun x hx => ⟨hasScope_bind.2 ((h.spreads t hmade).made x hx), ?_⟩
      refine scope_bind_of_ne ?_
      rintro rfl
      exact hts (h.apart hmade hs hx hu)
  onto t ht := by
    obtain ⟨x, hx, hmem⟩ := h.onto t (hasScope_bind.1 ht)
    exact ⟨x, hasScope_bind.2 hx, hmem⟩
  apart ht ht' := h.apart (hasScope_bind.1 ht) (hasScope_bind.1 ht')
  held := h.held

theorem declare (hs : m.HasScope s) (hname : name ∉ (w.nest s).names) (hv : v.Inside w.made) :
    Agrees (Mirrors P w) (m.declare s name v) (n.declare (w.nest s).inner name v) := by
  have hlocal : n.hasLocal (w.nest s).inner name = m.hasLocal s name := by
    rw [Bool.eq_iff_iff, hasLocal_eq_true_iff, hasLocal_eq_true_iff]
    exact (h.spreads s hs).mem_names_inner_iff hname
  unfold Memory.declare
  rw [hlocal]
  split
  · exact rfl
  · exact h.bind hs List.mem_cons_self (.inr ⟨rfl, hname⟩) hv

theorem update (name : String) (hs : m.HasScope s) (hv : v.Inside w.made) :
    Agrees (Mirrors P w) (m.update s name v) (n.update (w.nest s).inner name v) := by
  have hbinder := h.binder?_rel name hs
  unfold Memory.update
  generalize m.binder? s name = b, n.binder? (w.nest s).inner name = b' at hbinder
  cases hbinder with
  | none => exact rfl
  | some hb => exact h.bind hb.1 hb.2.1 (.inl hb.2.2) hv

theorem write (r : Reference) (hv : v.Inside w.made) : Agrees (Mirrors P w) (m.write r v) (n.write r v) := by
  unfold Memory.write
  rw [h.target_eq]
  cases m.target r with
  | error e => exact rfl
  | ok o => exact h.setProperty hv

theorem targetWrite (hs : m.HasScope s) {u : Target} (hu : u.Fits w s) (hv : v.Inside w.made) :
    Agrees (Mirrors P w) (u.write v s m) (u.write v (w.nest s).inner n) := by
  cases u with
  | declare name => exact h.declare hs hu hv
  | existing name => exact h.update name hs hv
  | property r => exact h.write r hv

/-! ## What is held -/

/-- Other cells may be held on both sides, if they keep the same alive. -/
theorem heldAs {cs ds : List Cell} (hheld : w.Held cs ds) :
    Mirrors P w { m with held := cs } { n with held := ds } where
  intactLeft := ⟨h.intactLeft.closed, fun c hc => h.made ▸ hheld.made c hc⟩
  intactRight := by
    refine ⟨h.intactRight.closed, fun d hd => ?_⟩
    by_cases hscope : ∃ t, d = .scope t
    · obtain ⟨t, rfl⟩ := hscope
      obtain ⟨s, hs, ht⟩ := hheld.nest t hd
      have hmade : .scope s ∈ m.made := h.made ▸ hheld.made _ hs
      exact (h.spreads s hmade).made t ht
    · have hne (t : ScopeId) (he : d = .scope t) : False := hscope ⟨t, he⟩
      exact (h.mem_made_iff hne).2 (h.made ▸ hheld.made _ ((hheld.other _ hne).2 hd))
  rootedLeft s hs := ⟨hs, (h.rootedLeft s hs).depth_of_none, (h.rootedLeft s hs).depth_of_some,
    (h.rootedLeft s hs).lt_of_some⟩
  rootedRight t ht := ⟨ht, (h.rootedRight t ht).depth_of_none, (h.rootedRight t ht).depth_of_some,
    (h.rootedRight t ht).lt_of_some⟩
  made := h.made
  objects := h.objects
  closures := h.closures
  closure := h.closure
  spreads s hs := (h.spreads s hs).congr fun t ht => ⟨(h.spreads s hs).made t ht, rfl⟩
  onto := h.onto
  apart := h.apart
  held := hheld

theorem holding {cs ds : List Cell} (hheld : w.Held cs ds) : (m.holding cs).Mirrors P w (n.holding ds) :=
  h.heldAs (hheld.append h.held)

end Changes

end Mirrors

/-! ## New scopes -/

/-- The scopes of a nest are new, and do for a scope with some bindings and a parent; all else is as it was, but for
what is held. -/
structure Enters (m : Memory) (b : Nest) (es : Entries Value) (q : Option ScopeId) (m' : Memory) : Prop where
  intact : m'.Intact
  rooted : m'.WellRooted
  objects : m'.objects = m.objects
  closures : m'.closures = m.closures
  made : ∀ u, m'.HasScope u ↔ u ∈ b.scopes ∨ m.HasScope u
  new : ∀ u ∈ b.scopes, ¬m.HasScope u
  scope : ∀ u, m.HasScope u → m'.scope u = m.scope u
  spreads : m'.Spreads b es q

theorem hasScope_newScope {parent : Option ScopeId} :
    (m.newScope parent).2.HasScope t ↔ t = (m.newScope parent).1 ∨ m.HasScope t := by
  have hsize : (m.newScope parent).2.scopes.size = m.scopes.size + 1 := Array.size_push _
  obtain ⟨i⟩ := t
  show i < (m.newScope parent).2.scopes.size ↔ (⟨i⟩ : ScopeId) = ⟨m.scopes.size⟩ ∨ i < m.scopes.size
  rw [hsize, ScopeId.mk.injEq]
  omega

/-- A new scope in another one. -/
theorem enters_newScope {p : ScopeId} (hm : m.Intact) (hroot : m.WellRooted) (hp : m.HasScope p) :
    m.Enters (.single (m.newScope (some p)).1) [] (some p) (m.newScope (some p)).2 where
  intact := (added_newScope hm hp).intact hm
  rooted := wellRooted_newScope hroot fun q hq => Option.some.inj hq ▸ hp
  objects := rfl
  closures := rfl
  made u := by rw [hasScope_newScope, Nest.scopes, Nest.single, List.mem_singleton]
  new u hu := List.mem_singleton.1 hu ▸ not_hasScope_newScope (some p)
  scope u hu := scope_newScope_of_hasScope hu
  spreads := by
    have hscope : (m.newScope (some p)).2.scope (m.newScope (some p)).1 = ⟨[], some p, _⟩ := scope_newScope
    have hmade : (m.newScope (some p)).2.HasScope (m.newScope (some p)).1 := hasScope_newScope.2 (.inl rfl)
    have hspreads := Spreads.single hmade (congrArg ScopeCell.parent hscope)
    rwa [hscope] at hspreads

namespace Enters

variable {b : Nest} {es : Entries Value} {q : Option ScopeId}

/-- A name may be bound in the new scope. -/
theorem bind (h : m.Enters (.single t) es q m') (hv : v.Inside m'.made) :
    m.Enters (.single t) (es.put name v) q (m'.bind t name v) where
  intact := (changed_bind h.intact hv).intact h.intact
  rooted := wellRooted_bind h.rooted
  objects := h.objects
  closures := h.closures
  made u := hasScope_bind.trans (h.made u)
  new := h.new
  scope u hu := by
    rw [scope_bind_of_ne, h.scope u hu]
    rintro rfl
    exact h.new u List.mem_cons_self hu
  spreads := h.spreads.bind List.mem_cons_self (.inr ⟨rfl, List.not_mem_nil⟩)

theorem heldAs (h : m.Enters b es q m') {cs : List Cell} (hcs : ∀ c ∈ cs, c ∈ m'.made) :
    m.Enters b es q { m' with held := cs } where
  intact := ⟨h.intact.closed, hcs⟩
  rooted s hs := ⟨hs, (h.rooted s hs).depth_of_none, (h.rooted s hs).depth_of_some, (h.rooted s hs).lt_of_some⟩
  objects := h.objects
  closures := h.closures
  made := h.made
  new := h.new
  scope := h.scope
  spreads := h.spreads.congr fun t ht => ⟨h.spreads.made t ht, rfl⟩

/-- One more scope may be made in the innermost one, if all names in there are reserved. -/
theorem deepen (h : m.Enters b es q m') (hes : ∀ name ∈ es.keys, name ∈ b.names) :
    m.Enters (b.deepen (m'.newScope (some b.inner)).1) es q (m'.newScope (some b.inner)).2 where
  intact := (added_newScope h.intact (h.spreads.made _ List.mem_cons_self)).intact h.intact
  rooted := wellRooted_newScope h.rooted fun p hp => Option.some.inj hp ▸ h.spreads.made _ List.mem_cons_self
  objects := h.objects
  closures := h.closures
  made u := by
    rw [hasScope_newScope, h.made]
    show _ ↔ u ∈ (m'.newScope (some b.inner)).1 :: b.scopes ∨ m.HasScope u
    rw [List.mem_cons, or_assoc]
  new u hu := by
    rcases List.mem_cons.1 hu with rfl | hu
    · exact fun hmade => not_hasScope_newScope (some b.inner) ((h.made _).2 (.inr hmade))
    · exact h.new u hu
  scope u hu := (scope_newScope_of_hasScope ((h.made u).2 (.inr hu))).trans (h.scope u hu)
  spreads := h.spreads.deepen hes

/-- What has been made is the new scopes and what had been made before. -/
theorem mem_made_iff (h : m.Enters b es q m') : c ∈ m'.made ↔ (∃ u ∈ b.scopes, .scope u = c) ∨ c ∈ m.made := by
  cases c with
  | object o =>
    show o.index < m'.objects.size ↔ _
    rw [h.objects]
    simp [Memory.made, Has, HasObject]
  | scope u =>
    show m'.HasScope u ↔ _
    rw [h.made]
    simp [Memory.made, Has]
  | closure f =>
    show f.index < m'.closures.size ↔ _
    rw [h.closures]
    simp [Memory.made, Has, HasClosure]

theorem made_subset (h : m.Enters b es q m') : m.made ⊆ m'.made := fun _ hc => h.mem_made_iff.2 (.inr hc)

theorem hasLocal_eq (h : m.Enters (.single t) es q m') (name : String) : m'.hasLocal t name = es.has name := by
  have hjoined : (m'.scope t).bindings = es := h.spreads.joined
  rw [hasLocal, hjoined]

end Enters

/-- Goes into `k` blocks, one in the other, from the innermost scope of a nest, and holds their scopes. -/
def intoBlocks (m : Memory) (b : Nest) : Nat → Nest × Memory
  | 0 => (b, m)
  | k + 1 =>
    ((m.newScope (some b.inner)).2.holding [.scope (m.newScope (some b.inner)).1]).intoBlocks
      (b.deepen (m.newScope (some b.inner)).1) k

/-- Of a new nest the innermost scope is held, perhaps with others of it, and besides it what was held before. -/
def HoldsNew (m : Memory) (b : Nest) (cs : List Cell) : Prop :=
  ∃ ts : List ScopeId, m.held = ts.map .scope ++ cs ∧ b.inner ∈ ts ∧ ∀ t ∈ ts, t ∈ b.scopes

/-- To go into blocks from a new scope makes a new nest, which does for the scope like the scope itself. -/
theorem Enters.intoBlocks {b : Nest} {es : Entries Value} {q : Option ScopeId} {cs : List Cell} (k : Nat)
    (h : m.Enters b es q m') (hes : k ≠ 0 → ∀ name ∈ es.keys, name ∈ b.names) (hheld : m'.HoldsNew b cs) :
    m.Enters (m'.intoBlocks b k).1 es q (m'.intoBlocks b k).2 ∧ (m'.intoBlocks b k).1.names = b.names ∧
      (m'.intoBlocks b k).2.HoldsNew (m'.intoBlocks b k).1 cs := by
  induction k generalizing m' b with
  | zero => exact ⟨h, rfl, hheld⟩
  | succ k ih =>
    obtain ⟨ts, hts, -, hmem⟩ := hheld
    have hdeeper := h.deepen (hes (Nat.succ_ne_zero k))
    have hintact : ((m'.newScope (some b.inner)).2.holding [.scope (m'.newScope (some b.inner)).1]).Intact :=
      hdeeper.intact.holding fun c hc => List.mem_singleton.1 hc ▸ hdeeper.spreads.made _ List.mem_cons_self
    refine ih (b := b.deepen _) (hdeeper.heldAs hintact.held) (fun _ => hes (Nat.succ_ne_zero k)) ?_
    refine ⟨(m'.newScope (some b.inner)).1 :: ts, ?_, List.mem_cons_self, ?_⟩
    · show _ :: m'.held = _
      rw [hts]
      rfl
    · exact fun t ht => (List.mem_cons.1 ht).elim (fun he => he ▸ List.mem_cons_self)
        fun ht => List.mem_cons_of_mem _ (hmem t ht)

/-- Names are declared in a new scope on one side as they are on the other one. -/
theorem Enters.declareAll {es : Entries Value} {q q' : Option ScopeId} (hm : m.Enters (.single s) es q m')
    (hn : n.Enters (.single t) es q' n') (parameters : List String) (hes : ∀ name ∈ es.keys, name ∈ parameters)
    {bs : List (String × Value)}
    (hbs : ∀ b ∈ bs, b.1 ∈ parameters ∧ b.2.Inside m.made ∧ b.2.Inside n.made) :
    Agrees (fun k l => ∃ fs : Entries Value, (∀ name ∈ fs.keys, name ∈ parameters) ∧
      m.Enters (.single s) fs q k ∧ n.Enters (.single t) fs q' l ∧ k.held = m'.held ∧ l.held = n'.held)
      (m'.declareAll s bs) (n'.declareAll t bs) := by
  induction bs generalizing es m' n' with
  | nil => exact ⟨es, hes, hm, hn, rfl, rfl⟩
  | cons b rest ih =>
    obtain ⟨name, v⟩ := b
    obtain ⟨⟨hname, hleft, hright⟩, hrest⟩ := List.forall_mem_cons.1 hbs
    unfold Memory.declareAll Memory.declare
    rw [hm.hasLocal_eq, hn.hasLocal_eq]
    split
    · exact rfl
    · refine ih (hm.bind fun c hc => hm.made_subset (hleft c hc)) (hn.bind fun c hc => hn.made_subset (hright c hc))
        (fun other hother => ?_) hrest
      rw [Entries.keys_put] at hother
      split at hother
      · exact hes other hother
      · rcases List.mem_append.1 hother with hother | hother
        · exact hes other hother
        · exact List.mem_singleton.1 hother ▸ hname

namespace Mirrors

variable (h : m.Mirrors P w n)

include h

/-- The scope of a call is made on one side as it is on the other one, or it is not for the same reason. -/
theorem newFunctionScope (hs : m.HasScope s) (parameters : List String) {args : List Value}
    (hargs : ∀ v ∈ args, v.Inside w.made) :
    Agrees (fun a b => ∃ es : Entries Value, (∀ name ∈ es.keys, name ∈ parameters) ∧
      m.Enters (.single a.1) es (some s) a.2 ∧ n.Enters (.single b.1) es (some (w.nest s).inner) b.2 ∧
        a.2.held = m.held ∧ b.2.held = n.held)
      (m.newFunctionScope s parameters args) (n.newFunctionScope (w.nest s).inner parameters args) := by
  unfold Memory.newFunctionScope
  split
  · have hleft := enters_newScope h.intactLeft h.rootedLeft hs
    have hright := enters_newScope h.intactRight h.rootedRight (h.hasScope_inner hs)
    refine (hleft.declareAll hright parameters (fun _ hname => by cases hname)
      fun b hb => ?_).bind fun k l hkl => hkl
    have hmem := List.of_mem_zip hb
    exact ⟨hmem.1, h.inside_left (hargs _ hmem.2), h.inside_right (hargs _ hmem.2)⟩
  · exact rfl

omit h in
theorem nest_extend_of_new (hnew : ¬m.HasScope s) (b : Nest) (ht : m.HasScope t) : (w.extend s b).nest t = w.nest t :=
  w.nest_extend_of_ne b fun he => hnew (he ▸ ht)

/-- Scopes of different scopes' nests are different still when one more nest is new. -/
theorem apart_extend {b : Nest} {x : ScopeId} (hnew : ¬m.HasScope s) (hb : ∀ x ∈ b.scopes, ¬n.HasScope x)
    (ht : t = s ∨ m.HasScope t) (hu : u = s ∨ m.HasScope u) (hx : x ∈ ((w.extend s b).nest t).scopes)
    (hx' : x ∈ ((w.extend s b).nest u).scopes) : t = u := by
  have hfresh {v : ScopeId} (hv : m.HasScope v) (hmem : x ∈ b.scopes) (hmem' : x ∈ (w.nest v).scopes) : False :=
    hb x hmem ((h.spreads v hv).made x hmem')
  rcases ht with rfl | ht <;> rcases hu with rfl | hu
  · rfl
  · rw [Nesting.nest_extend_self] at hx
    rw [nest_extend_of_new hnew b hu] at hx'
    exact (hfresh hu hx hx').elim
  · rw [nest_extend_of_new hnew b ht] at hx
    rw [Nesting.nest_extend_self] at hx'
    exact (hfresh ht hx' hx).elim
  · rw [nest_extend_of_new hnew b ht] at hx
    rw [nest_extend_of_new hnew b hu] at hx'
    exact h.apart ht hu hx hx'

/-- A new nest may do for a new scope. -/
theorem opens {b : Nest} {es : Entries Value} {parent : Option ScopeId} (hm : m.Enters (.single s) es parent m')
    (hn : n.Enters b es (parent.map fun p => (w.nest p).inner) n') (hparent : ∀ p, parent = some p → m.HasScope p)
    (hheld : (w.extend s b).Held m'.held n'.held) : m'.Mirrors P (w.extend s b) n' := by
  have hnew : ¬m.HasScope s := hm.new s List.mem_cons_self
  have hold {t : ScopeId} (ht : m.HasScope t) : (w.extend s b).nest t = w.nest t := nest_extend_of_new hnew b ht
  have hcases {t : ScopeId} (ht : m'.HasScope t) : t = s ∨ m.HasScope t :=
    ((hm.made t).1 ht).imp_left List.mem_singleton.1
  have hnest {p : Option ScopeId} (hp : ∀ u, p = some u → m.HasScope u) :
      (p.map fun u => ((w.extend s b).nest u).inner) = p.map fun u => (w.nest u).inner :=
    Option.map_congr fun u hu => by rw [hold (hp u hu)]
  exact
    { intactLeft := hm.intact
      intactRight := hn.intact
      rootedLeft := hm.rooted
      rootedRight := hn.rooted
      made := by
        ext c
        rw [hm.mem_made_iff, Nesting.extend, h.made]
        simp [Nest.scopes, Nest.single, eq_comm]
      objects := by rw [hm.objects, hn.objects, h.objects]
      closures := by rw [hm.closures, hn.closures, h.closures]
      closure := fun f hf => by
        have hf' : m.HasClosure f := by rwa [HasClosure, ← hm.closures]
        have hclosure := h.closure f hf'
        rw [Memory.closure, Memory.closure, hm.closures, hn.closures]
        refine ⟨hclosure.function, hclosure.scope.trans ?_⟩
        exact congrArg Nest.inner (hold (h.intactLeft.closed.scope (f := f) hf')).symm
      spreads := fun t ht => by
        rcases hcases ht with rfl | ht
        · have hbindings : (m'.scope t).bindings = es := hm.spreads.joined
          have hp : (m'.scope t).parent = parent := hm.spreads.strung.1
          rw [Nesting.nest_extend_self, hbindings, hp, hnest hparent]
          exact hn.spreads
        · have hspreads := h.spreads t ht
          rw [hold ht, hm.scope t ht, hnest fun p hp => h.rootedLeft.hasScope_parent ht hp]
          exact hspreads.congr fun x hx =>
            ⟨(hn.made x).2 (.inr (hspreads.made x hx)), hn.scope x (hspreads.made x hx)⟩
      onto := fun x hx => by
        rcases (hn.made x).1 hx with hmem | hx
        · exact ⟨s, hm.spreads.made s List.mem_cons_self, by rwa [Nesting.nest_extend_self]⟩
        · obtain ⟨t, ht, hmem⟩ := h.onto x hx
          exact ⟨t, (hm.made t).2 (.inr ht), by rwa [hold ht]⟩
      apart := fun ht hu => h.apart_extend hnew hn.new (hcases ht) (hcases hu)
      held := hheld }

end Mirrors

end Memory

end GameScript
