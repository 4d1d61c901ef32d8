import GameScript.Proofs.Run.Lifetimes
import GameScript.Proofs.Run.References

/-!
# Values to rely on

In a `Fine` memory no reference is stored, and only cells that have been made are held or named. There a value may be
`Storable`: it is no reference and names what has been made. Storable values stay so, whatever is done (`Onward`). A
reference can only be `Sound` for the moment: it can be followed now, since it is anchored or its object is alive.

Main statements: what a sound value stands for can be had, and is storable (`exists_resolve`); a name that is looked up
in a scope that is held gives a storable value that is alive (`yields_lookup`); what is put in place of a name or of a
sound reference leaves memory fine (`yields_write`).
-/

namespace GameScript

namespace Memory

/-- No reference is stored, and what is named has been made. -/
structure Sane (m : Memory) : Prop where
  closed : m.Closed m.made
  free : m.ReferenceFree

/-- A sane memory in which what is held has been made. -/
structure Fine (m : Memory) : Prop extends m.Sane where
  held : ∀ c ∈ m.held, c ∈ m.made

/-- A value that may be stored: it is no reference, and it names what has been made. -/
def Storable (m : Memory) (v : Value) : Prop := v.Inside m.made ∧ v.type ≠ .reference

/-- A value that can be used at once: it names what has been made, and a reference can be followed. -/
def Sound (m : Memory) (v : Value) : Prop :=
  v.Inside m.made ∧ ∀ r, v = .reference r → r.anchored = true ∨ m.isAlive (.object r.object) = true

/-- A value that may be stored, an object only while it is alive. -/
def Living (m : Memory) (v : Value) : Prop := m.Storable v ∧ ∀ c, v.cell? = some c → m.isAlive c = true

/-- What has been made before is there still, memory is fine, and the same is held. -/
structure Onward (m m' : Memory) : Prop where
  fine : m'.Fine
  held : m'.held = m.held
  made : m.made ⊆ m'.made

end Memory

/-- An answer that is as it should be, or a refusal with a basic error. -/
def Yields {α : Type} (P : α → Prop) (x : Except RuntimeError α) : Prop :=
  Refuses RuntimeError.Basic x ∧ ∀ a, x = .ok a → P a

theorem yields_of_eq_ok {α : Type} {P : α → Prop} {x : Except RuntimeError α} {a : α} (hx : x = .ok a) (h : P a) :
    Yields P x := by
  subst hx
  refine ⟨refuses_ok a, ?_⟩
  rintro _ ⟨⟩
  exact h

/-- A target that can be used at once. -/
def Target.Sound (m : Memory) : Target → Prop
  | .property r => m.Sound (.reference r)
  | _ => True

namespace Memory

variable {m m' : Memory} {v : Value} {s : ScopeId} {o : ObjectId} {key name : String} {c : Cell}

theorem Fine.intact (h : m.Fine) : m.Intact := ⟨h.closed, h.held⟩

theorem Onward.refl (h : m.Fine) : m.Onward m := ⟨h, rfl, le_rfl⟩

theorem Onward.trans {m₁ m₂ : Memory} (h : m.Onward m₁) (h' : m₁.Onward m₂) : m.Onward m₂ :=
  ⟨h'.fine, h'.held.trans h.held, h.made.trans h'.made⟩

theorem Storable.mono (h : m.Storable v) (hm : m.made ⊆ m'.made) : m'.Storable v := ⟨fun c hc => hm (h.1 c hc), h.2⟩

theorem Storable.sound (h : m.Storable v) : m.Sound v := ⟨h.1, fun _ hr => absurd (hr ▸ rfl) h.2⟩

theorem Storable.cells_subset {vs : List Value} (h : ∀ v ∈ vs, m.Storable v) : ∀ c ∈ Value.cells vs, c ∈ m.made := by
  intro c hc
  obtain ⟨v, hv, hcell⟩ := List.mem_filterMap.1 hc
  exact (h v hv).1 c (Value.lead?_of_cell? hcell)

theorem Storable.cell_subset (h : m.Storable v) : ∀ c ∈ Value.cells [v], c ∈ m.made :=
  Storable.cells_subset fun _ hu => List.mem_singleton.1 hu ▸ h

theorem storable_of_isScalar (h : v.IsScalar) : m.Storable v := by
  cases v <;> first | exact h.elim | exact ⟨fun _ hc => (by cases hc), (by simp [Value.type])⟩

theorem Sound.target {r : Reference} (h : m.Sound (.reference r)) : m.target r = .ok r.object := by
  rw [Memory.target, if_pos]
  simpa using h.2 r rfl

theorem Fine.holding (h : m.Fine) {cells : List Cell} (hc : ∀ c ∈ cells, c ∈ m.made) : (m.holding cells).Fine :=
  ⟨⟨h.closed, h.free.bindings, h.free.properties⟩, fun c hmem => (List.mem_append.1 hmem).elim (hc c) (h.held c)⟩

/-! ## Names -/

theorem isAlive_of_mem_chain (h : m.Intact) (hs : m.isAlive (.scope s) = true) {t : ScopeId} (ht : t ∈ m.chain s) :
    m.isAlive (.scope t) = true :=
  mem_chain (P := fun t => m.isAlive (.scope t) = true)
    (fun _ hs _ hp => h.isAlive_of_mem_holds hs (List.mem_append_left _ (by simp [hp]))) hs ht

/-- What a name is bound to, and the living scope that binds it. -/
theorem Intact.exists_binding (h : m.Intact) (hs : m.isAlive (.scope s) = true) (hv : m.lookup s name = .ok v) :
    ∃ t, m.isAlive (.scope t) = true ∧ (m.scope t).bindings.get? name = some v := by
  unfold lookup at hv
  split at hv
  · rename_i u hu
    cases hv
    obtain ⟨t, ht, hb⟩ := List.exists_of_findSome?_eq_some hu
    exact ⟨t, isAlive_of_mem_chain h hs ht, hb⟩
  · cases hv

/-- What a name is bound to lives with the scope that binds it. -/
theorem Intact.isAlive_of_lookup (h : m.Intact) (hs : m.isAlive (.scope s) = true) (hv : m.lookup s name = .ok v)
    (hc : v.cell? = some c) : m.isAlive c = true := by
  obtain ⟨t, halive, hb⟩ := h.exists_binding hs hv
  have hbinding := List.mem_map_of_mem (f := Prod.snd) (Entries.mem_of_get? hb)
  exact h.isAlive_of_mem_holds halive (List.mem_append_right _ (List.mem_filterMap.2 ⟨v, hbinding, hc⟩))

theorem Intact.inside_lookup (h : m.Intact) (hs : m.isAlive (.scope s) = true) (hv : m.lookup s name = .ok v) :
    v.Inside m.made := by
  obtain ⟨t, halive, hb⟩ := h.exists_binding hs hv
  exact h.closed.inside_binding (h.mem_made_of_isAlive halive) hb

theorem yields_lookup (name : String) (h : m.Fine) (hs : .scope s ∈ m.held) : Yields m.Living (m.lookup s name) := by
  refine ⟨refuses_lookup m s name, fun v hv => ?_⟩
  have hscope := h.intact.isAlive_of_mem_held hs
  obtain ⟨t, -, hb⟩ := h.intact.exists_binding hscope hv
  exact ⟨⟨h.intact.inside_lookup hscope hv, h.free.bindings t _ (Entries.mem_of_get? hb)⟩,
    fun c hc => h.intact.isAlive_of_lookup hscope hv hc⟩

theorem storable_getD_property? (h : m.Fine) (ho : .object o ∈ m.made) :
    m.Storable ((m.property? o key).getD .undefined) := by
  cases hp : m.property? o key with
  | none => exact storable_of_isScalar trivial
  | some v => exact ⟨h.closed.inside_property ho hp, h.free.properties o _ (Entries.mem_of_get? hp)⟩

/-- What a sound reference names can be read. -/
theorem exists_read (h : m.Fine) {r : Reference} (hr : m.Sound (.reference r)) :
    ∃ u, m.read r = .ok u ∧ m.Storable u := by
  refine ⟨(m.property? r.object r.key).getD .undefined, ?_, storable_getD_property? h (hr.1 _ rfl)⟩
  rw [read, hr.target]
  rfl

/-- The object that a property holds is held by the object of the property. -/
theorem mem_holds_of_read {r : Reference} (h : m.read r = .ok (.object o)) :
    .object o ∈ m.holds (.object r.object) := by
  have hread := eq_of_read h
  cases hp : m.property? r.object r.key with
  | none =>
    rw [hp] at hread
    cases hread
  | some v =>
    rw [hp] at hread
    obtain rfl : v = .object o := hread
    exact List.mem_filterMap.2 ⟨_, List.mem_map_of_mem (f := Prod.snd) (Entries.mem_of_get? hp), rfl⟩

/-- What a sound value stands for can be had. -/
theorem exists_resolve (h : m.Fine) (hv : m.Sound v) : ∃ u, m.resolve v = .ok u ∧ m.Storable u := by
  cases v with
  | reference r => exact exists_read h hv
  | _ => exact ⟨_, rfl, hv.1, by simp [Value.type]⟩

theorem yields_read (h : m.Fine) (hs : .scope s ∈ m.held) {t : Target} (ht : t.Sound m) :
    Yields m.Storable (t.read m s) := by
  cases t with
  | declare name => exact ⟨refuses_error trivial, fun _ h => by cases h⟩
  | existing name =>
    obtain ⟨hrefuses, hliving⟩ := yields_lookup name h hs
    show Yields m.Storable (m.lookup s name >>= m.resolve)
    cases hv : m.lookup s name with
    | ok v =>
      obtain ⟨u, hu, hstorable⟩ := exists_resolve h (hliving v hv).1.sound
      exact yields_of_eq_ok hu hstorable
    | error e => exact ⟨refuses_error (hrefuses e hv), fun _ h => by cases h⟩
  | property r =>
    obtain ⟨u, hu, hstorable⟩ := exists_read h ht
    exact yields_of_eq_ok hu hstorable

/-! ## Changes -/

theorem made_setProperty : (m.setProperty o key v).made = m.made := by
  ext c
  cases c with
  | object p => exact hasObject_setProperty
  | _ => rfl

theorem made_bind : (m.bind s name v).made = m.made := by
  ext c
  cases c with
  | scope t => exact hasScope_bind
  | _ => rfl

theorem made_newObject : (m.newObject []).2.made = insert (.object (m.newObject []).1) m.made := by
  ext c
  rcases c with ⟨⟨i⟩⟩ | ⟨⟨i⟩⟩ | ⟨⟨i⟩⟩ <;> simp [made, Has, HasObject, HasScope, HasClosure, newObject]
  omega

theorem made_newScope {parent : Option ScopeId} :
    (m.newScope parent).2.made = insert (.scope (m.newScope parent).1) m.made := by
  ext c
  rcases c with ⟨⟨i⟩⟩ | ⟨⟨i⟩⟩ | ⟨⟨i⟩⟩ <;> simp [made, Has, HasObject, HasScope, HasClosure, newScope]
  omega

theorem made_newClosure {f : Closure} : (m.newClosure f).2.made = insert (.closure (m.newClosure f).1) m.made := by
  ext c
  rcases c with ⟨⟨i⟩⟩ | ⟨⟨i⟩⟩ | ⟨⟨i⟩⟩ <;> simp [made, Has, HasObject, HasScope, HasClosure, newClosure]
  omega

theorem Fine.setProperty (h : m.Fine) (hv : m.Storable v) : m.Onward (m.setProperty o key v) := by
  refine ⟨⟨⟨?_, h.free.setProperty hv.2⟩, ?_⟩, rfl, made_setProperty.ge⟩ <;> rw [made_setProperty]
  · exact h.closed.setProperty hv.1
  · exact h.held

theorem Fine.bind (h : m.Fine) (hv : m.Storable v) : m.Onward (m.bind s name v) := by
  refine ⟨⟨⟨?_, h.free.bind hv.2⟩, ?_⟩, rfl, made_bind.ge⟩ <;> rw [made_bind]
  · exact h.closed.bind hv.1
  · exact h.held

theorem Fine.newObject (h : m.Fine) :
    m.Onward (m.newObject []).2 ∧ .object (m.newObject []).1 ∈ (m.newObject []).2.made := by
  refine ⟨⟨⟨⟨?_, h.free.newObject⟩, ?_⟩, rfl, ?_⟩, ?_⟩ <;> rw [made_newObject]
  · exact h.closed.newObject
  · exact fun c hc => .inr (h.held c hc)
  · exact Set.subset_insert _ _
  · exact Set.mem_insert _ _

theorem Fine.newScope (h : m.Fine) (hs : .scope s ∈ m.made) :
    m.Onward (m.newScope (some s)).2 ∧ .scope (m.newScope (some s)).1 ∈ (m.newScope (some s)).2.made := by
  refine ⟨⟨⟨⟨?_, h.free.newScope _⟩, ?_⟩, rfl, ?_⟩, ?_⟩ <;> rw [made_newScope]
  · exact h.closed.newScope hs
  · exact fun c hc => .inr (h.held c hc)
  · exact Set.subset_insert _ _
  · exact Set.mem_insert _ _

theorem Fine.newClosure (h : m.Fine) {f : Closure} (hs : .scope f.scope ∈ m.made) :
    m.Onward (m.newClosure f).2 ∧ .closure (m.newClosure f).1 ∈ (m.newClosure f).2.made := by
  refine ⟨⟨⟨⟨?_, h.free.bindings, h.free.properties⟩, ?_⟩, rfl, ?_⟩, ?_⟩ <;> rw [made_newClosure]
  · exact h.closed.newClosure hs
  · exact fun c hc => .inr (h.held c hc)
  · exact Set.subset_insert _ _
  · exact Set.mem_insert _ _

theorem yields_write (h : m.Fine) {t : Target} (ht : t.Sound m) (hv : m.Storable v) :
    Yields m.Onward (t.write v s m) := by
  cases t with
  | declare name =>
    refine ⟨refuses_declare m s name v, fun n hn => ?_⟩
    obtain ⟨-, rfl⟩ := declare_eq_ok_iff.1 hn
    exact h.bind hv
  | existing name =>
    refine ⟨refuses_update m s name v, fun n hn => ?_⟩
    obtain ⟨t, -, rfl⟩ := update_eq_ok_iff.1 hn
    exact h.bind hv
  | property r =>
    have hwrite : m.write r v = .ok (m.setProperty r.object r.key v) := by
      rw [write, Sound.target ht]
      rfl
    exact yields_of_eq_ok hwrite (h.setProperty hv)

theorem onward_declareAll (h : m.Fine) {bindings : List (String × Value)} (hb : ∀ b ∈ bindings, m.Storable b.2)
    (hdone : m.declareAll s bindings = .ok m') : m.Onward m' := by
  induction bindings generalizing m with
  | nil =>
    cases hdone
    exact .refl h
  | cons b rest ih =>
    obtain ⟨n, hn, hrest⟩ := exists_of_bind_eq_ok hdone
    obtain ⟨-, rfl⟩ := declare_eq_ok_iff.1 hn
    have hbind : m.Onward (m.bind s b.1 b.2) := h.bind (hb b List.mem_cons_self)
    exact hbind.trans (ih hbind.fine (fun c hc => (hb c (List.mem_cons_of_mem _ hc)).mono hbind.made) hrest)

/-- The scope of a call is new, and binds the arguments. -/
theorem yields_newFunctionScope (h : m.Fine) (hs : .scope s ∈ m.made) (parameters : List String) {args : List Value}
    (hargs : ∀ v ∈ args, m.Storable v) :
    Yields (fun r => m.Onward r.2 ∧ .scope r.1 ∈ r.2.made) (m.newFunctionScope s parameters args) := by
  refine ⟨refuses_newFunctionScope m s parameters args, fun ⟨t, m'⟩ hr => ?_⟩
  unfold newFunctionScope at hr
  split at hr
  · obtain ⟨n, hn, hrest⟩ := exists_of_bind_eq_ok hr
    cases hrest
    obtain ⟨hnew, ht⟩ := h.newScope hs
    have hbound := onward_declareAll hnew.fine
      (fun b hb => (hargs b.2 (List.of_mem_zip hb).2).mono hnew.made) hn
    exact ⟨hnew.trans hbound, hbound.made ht⟩
  · cases hr

end Memory

end GameScript
