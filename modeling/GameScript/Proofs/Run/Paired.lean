import GameScript.Proofs.Run.Matching

/-!
# The same done in memories that match

Where two memories match and the same is done in both, with values, scopes and references that match, the outcomes
match (`Agrees`): what is looked up or read is a value that matches, or both times the same error, and what is written
or made leaves memories that match (`Matched.targetRead`, `Matched.targetWrite`, `Matched.newFunctionScope` and their
sisters). Operators do the same on values that match, because a link is one-to-one (`Value.Matches.applyBinary_eq`).
-/

namespace GameScript

/-! ## Outcomes -/

/-- Answers that are related, or the same error twice. -/
def Agrees {α β : Type} (Q : α → β → Prop) : Except RuntimeError α → Except RuntimeError β → Prop
  | .ok a, .ok b => Q a b
  | .error e, .error f => e = f
  | _, _ => False

theorem Agrees.bind {α β γ δ : Type} {Q : α → β → Prop} {S : γ → δ → Prop} {x : Except RuntimeError α}
    {y : Except RuntimeError β} {f : α → Except RuntimeError γ} {g : β → Except RuntimeError δ} (h : Agrees Q x y)
    (hf : ∀ a b, Q a b → Agrees S (f a) (g b)) : Agrees S (x >>= f) (y >>= g) := by
  rcases x with e | a <;> rcases y with e' | b
  · exact h
  · exact h.elim
  · exact h.elim
  · exact hf a b h

theorem Agrees.imp {α β : Type} {Q S : α → β → Prop} {x : Except RuntimeError α} {y : Except RuntimeError β}
    (h : Agrees Q x y) (hqs : ∀ a b, Q a b → S a b) : Agrees S x y := by
  rcases x with e | a <;> rcases y with e' | b
  · exact h
  · exact h.elim
  · exact h.elim
  · exact hqs a b h

theorem Entries.matches_zip {R : Link} {vs ws : List Value} (names : List String)
    (h : List.Forall₂ (Value.Matches R) vs ws) : Entries.Matches R (names.zip vs) (names.zip ws) := by
  induction h generalizing names with
  | nil => cases names <;> exact .nil
  | cons hvw _ ih =>
    cases names with
    | nil => exact .nil
    | cons name names => exact .cons ⟨rfl, hvw⟩ (ih names)

theorem Value.Matches.inside {R : Link} {K L : Set Cell} {v w : Value} (h : v.Matches R w)
    (hmade : ∀ c d, R c d → c ∈ K ∧ d ∈ L) : v.Inside K ∧ w.Inside L := by
  have hlead := h.lead?
  constructor
  · intro c hc
    rw [hc] at hlead
    generalize w.lead? = l at hlead
    cases hlead with
    | some h => exact (hmade _ _ h).1
  · intro d hd
    rw [hd] at hlead
    generalize v.lead? = l at hlead
    cases hlead with
    | some h => exact (hmade _ _ h).2

/-- Targets that are the same name, or properties that match. -/
inductive Target.Matches (R : Link) : Target → Target → Prop
  | declare (name : String) : Target.Matches R (.declare name) (.declare name)
  | existing (name : String) : Target.Matches R (.existing name) (.existing name)
  | property {r r' : Reference} (h : r.Matches R r') : Target.Matches R (.property r) (.property r')

theorem Target.Matches.mono {R S : Link} {u u' : Target} (h : u.Matches R u') (hle : R ≤ S) : u.Matches S u' := by
  cases h with
  | declare name => exact .declare name
  | existing name => exact .existing name
  | property h => exact .property (h.mono hle)

/-! ## Operations on memory -/

namespace Pairing

section Operations

variable {x : Pairing} {o p : ObjectId} {s t : ScopeId} {v w : Value} {r r' : Reference} {u u' : Target}

variable (hx : x.Matched)

include hx

theorem Matched.inside (h : v.Matches x.link w) : v.Inside x.left.made ∧ w.Inside x.right.made := h.inside hx.made

theorem Matched.properties (h : x.link (.object o) (.object p)) :
    (x.left.properties o).Matches x.link (x.right.properties p) := by
  cases hx.content _ _ h with
  | object h => exact h

theorem Matched.property? (h : x.link (.object o) (.object p)) (key : String) :
    Option.Rel (Value.Matches x.link) (x.left.property? o key) (x.right.property? p key) :=
  Entries.Matches.get? (hx.properties h) key

theorem Matched.bindings (h : x.link (.scope s) (.scope t)) :
    (x.left.scope s).bindings.Matches x.link (x.right.scope t).bindings := by
  cases hx.content _ _ h with
  | scope h => exact h

theorem Matched.parent (h : x.link (.scope s) (.scope t)) :
    Option.Rel (fun p q => x.link (.scope p) (.scope q)) (x.left.scope s).parent (x.right.scope t).parent := by
  cases hx.content _ _ h with
  | scope _ h => exact h

theorem Matched.depth_eq (h : x.link (.scope s) (.scope t)) : (x.left.scope s).depth = (x.right.scope t).depth := by
  cases hx.content _ _ h with
  | scope _ _ h => exact h

/-- Chains of scopes that match have matching scopes. -/
theorem Matched.chain (h : x.link (.scope s) (.scope t)) :
    List.Forall₂ (fun s t => x.link (.scope s) (.scope t)) (x.left.chain s) (x.right.chain t) := by
  suffices key : ∀ bound s t, x.link (.scope s) (.scope t) →
      List.Forall₂ (fun s t => x.link (.scope s) (.scope t)) (x.left.chainUpTo bound s) (x.right.chainUpTo bound t) by
    rw [Memory.chain, Memory.chain, hx.depth_eq h]
    exact key _ s t h
  intro bound
  induction bound with
  | zero => exact fun _ _ _ => .nil
  | succ bound ih =>
    intro s t h
    have hparent := hx.parent h
    unfold Memory.chainUpTo
    generalize (x.left.scope s).parent = p, (x.right.scope t).parent = q at hparent
    cases hparent with
    | none => exact .cons h .nil
    | some hpq => exact .cons h (ih _ _ hpq)

theorem Matched.hasLocal_eq (h : x.link (.scope s) (.scope t)) (name : String) :
    x.left.hasLocal s name = x.right.hasLocal t name := by
  have hget := Entries.Matches.get? (hx.bindings h) name
  unfold Memory.hasLocal Entries.has
  generalize (x.left.scope s).bindings.get? name = v, (x.right.scope t).bindings.get? name = w at hget
  cases hget <;> rfl

theorem Matched.lookup (h : x.link (.scope s) (.scope t)) (name : String) :
    Agrees (Value.Matches x.link) (x.left.lookup s name) (x.right.lookup t name) := by
  have hfind : Option.Rel (Value.Matches x.link)
      ((x.left.chain s).findSome? fun s => (x.left.scope s).bindings.get? name)
      ((x.right.chain t).findSome? fun t => (x.right.scope t).bindings.get? name) := by
    have hchain := hx.chain h
    generalize x.left.chain s = ss, x.right.chain t = ts at hchain
    induction hchain with
    | nil => exact .none
    | @cons s t _ _ hst _ ih =>
      have hget := Entries.Matches.get? (hx.bindings hst) name
      rw [List.findSome?_cons, List.findSome?_cons]
      generalize (x.left.scope s).bindings.get? name = v, (x.right.scope t).bindings.get? name = w at hget
      cases hget with
      | none => exact ih
      | some hvw => exact .some hvw
  unfold Memory.lookup
  generalize (x.left.chain s).findSome? _ = v, (x.right.chain t).findSome? _ = w at hfind
  cases hfind with
  | none => exact rfl
  | some hvw => exact hvw

theorem Matched.binder? (h : x.link (.scope s) (.scope t)) (name : String) :
    Option.Rel (fun s t => x.link (.scope s) (.scope t)) (x.left.binder? s name) (x.right.binder? t name) := by
  unfold Memory.binder?
  have hchain := hx.chain h
  generalize x.left.chain s = ss, x.right.chain t = ts at hchain
  induction hchain with
  | nil => exact .none
  | @cons s t _ _ hst _ ih =>
    rw [List.find?_cons, List.find?_cons, hx.hasLocal_eq hst]
    split
    · exact .some hst
    · exact ih

theorem Matched.target (h : r.Matches x.link r') :
    Agrees (fun o p => x.link (.object o) (.object p)) (x.left.target r) (x.right.target r') := by
  unfold Memory.target
  rw [h.anchored, Bool.eq_iff_iff.2 (hx.isAlive_iff h.object), h.key]
  split
  · exact h.object
  · exact rfl

theorem Matched.read (h : r.Matches x.link r') :
    Agrees (Value.Matches x.link) (x.left.read r) (x.right.read r') := by
  refine (hx.target h).bind fun o p hop => ?_
  have hproperty := hx.property? hop r.key
  rw [← h.key]
  generalize Memory.property? _ o _ = v, Memory.property? _ p _ = w at hproperty
  cases hproperty with
  | none => exact .same rfl
  | some hvw => exact hvw

theorem Matched.resolve (h : v.Matches x.link w) :
    Agrees (Value.Matches x.link) (x.left.resolve v) (x.right.resolve w) := by
  cases h with
  | @same v h => cases v <;> first | exact .same rfl | cases h
  | object h => exact .object h
  | closure h => exact .closure h
  | reference h => exact hx.read h

theorem Matched.targetRead (h : x.link (.scope s) (.scope t)) (hu : u.Matches x.link u') :
    Agrees (Value.Matches x.link) (u.read x.left s) (u'.read x.right t) := by
  cases hu with
  | declare name => exact rfl
  | existing name => exact (hx.lookup h name).bind fun _ _ hvw => hx.resolve hvw
  | property hr => exact hx.read hr

/-! ### Changes -/

theorem Matched.setProperty (h : x.link (.object o) (.object p)) (key : String) (hvw : v.Matches x.link w) :
    x.Becomes ⟨x.left.setProperty o key v, x.right.setProperty p key w, x.link⟩ := by
  obtain ⟨hv, hw⟩ := hx.inside hvw
  obtain ⟨ho, hp⟩ := hx.made _ _ h
  refine hx.change h (Memory.changed_setProperty hx.intactLeft hv) (Memory.changed_setProperty hx.intactRight hw) ?_
  rw [Memory.content, Memory.content, Memory.properties_setProperty ho, Memory.properties_setProperty hp]
  exact .object (Entries.Matches.put (hx.properties h) key hvw)

theorem Matched.bind (h : x.link (.scope s) (.scope t)) (name : String) (hvw : v.Matches x.link w) :
    x.Becomes ⟨x.left.bind s name v, x.right.bind t name w, x.link⟩ := by
  obtain ⟨hv, hw⟩ := hx.inside hvw
  obtain ⟨hs, ht⟩ := hx.made _ _ h
  refine hx.change h (Memory.changed_bind hx.intactLeft hv) (Memory.changed_bind hx.intactRight hw) ?_
  rw [Memory.content, Memory.content, Memory.scope_bind hs, Memory.scope_bind ht]
  exact .scope (Entries.Matches.put (hx.bindings h) name hvw) (hx.parent h) (hx.depth_eq h)

theorem Matched.declare (h : x.link (.scope s) (.scope t)) (name : String) (hvw : v.Matches x.link w) :
    Agrees (fun m n => x.Becomes ⟨m, n, x.link⟩) (x.left.declare s name v) (x.right.declare t name w) := by
  unfold Memory.declare
  rw [hx.hasLocal_eq h]
  split
  · exact rfl
  · exact hx.bind h name hvw

theorem Matched.update (h : x.link (.scope s) (.scope t)) (name : String) (hvw : v.Matches x.link w) :
    Agrees (fun m n => x.Becomes ⟨m, n, x.link⟩) (x.left.update s name v) (x.right.update t name w) := by
  have hbinder := hx.binder? h name
  unfold Memory.update
  generalize Memory.binder? _ s name = b, Memory.binder? _ t name = b' at hbinder
  cases hbinder with
  | none => exact rfl
  | some hb => exact hx.bind hb name hvw

theorem Matched.write (h : r.Matches x.link r') (hvw : v.Matches x.link w) :
    Agrees (fun m n => x.Becomes ⟨m, n, x.link⟩) (x.left.write r v) (x.right.write r' w) := by
  refine (hx.target h).bind fun o p hop => ?_
  rw [← h.key]
  exact hx.setProperty hop r.key hvw

theorem Matched.targetWrite (h : x.link (.scope s) (.scope t)) (hu : u.Matches x.link u') (hvw : v.Matches x.link w) :
    Agrees (fun m n => x.Becomes ⟨m, n, x.link⟩) (u.write v s x.left) (u'.write w t x.right) := by
  cases hu with
  | declare name => exact hx.declare h name hvw
  | existing name => exact hx.update h name hvw
  | property hr => exact hx.write hr hvw

theorem Matched.newObject : ∃ R, x.Becomes ⟨(x.left.newObject []).2, (x.right.newObject []).2, R⟩ ∧
    R (.object (x.left.newObject []).1) (.object (x.right.newObject []).1) := by
  refine ⟨_, hx.add (Memory.added_newObject hx.intactLeft) (Memory.added_newObject hx.intactRight) ?_, .inl ⟨rfl, rfl⟩⟩
  rw [Memory.content, Memory.content, Memory.properties_newObject, Memory.properties_newObject]
  exact .object .nil

theorem Matched.newScope (h : x.link (.scope s) (.scope t)) :
    ∃ R, x.Becomes ⟨(x.left.newScope (some s)).2, (x.right.newScope (some t)).2, R⟩ ∧
      R (.scope (x.left.newScope (some s)).1) (.scope (x.right.newScope (some t)).1) := by
  obtain ⟨hs, ht⟩ := hx.made _ _ h
  refine ⟨_, hx.add (Memory.added_newScope hx.intactLeft hs) (Memory.added_newScope hx.intactRight ht) ?_,
    .inl ⟨rfl, rfl⟩⟩
  rw [Memory.content, Memory.content, Memory.scope_newScope, Memory.scope_newScope]
  exact .scope .nil (.some (.inr h)) (congrArg (· + 1) (hx.depth_eq h))

theorem Matched.newClosure {f g : Closure} (hparameters : f.parameters = g.parameters)
    (hbody : f.body.eraseSpans = g.body.eraseSpans) (h : x.link (.scope f.scope) (.scope g.scope)) :
    ∃ R, x.Becomes ⟨(x.left.newClosure f).2, (x.right.newClosure g).2, R⟩ ∧
      R (.closure (x.left.newClosure f).1) (.closure (x.right.newClosure g).1) := by
  obtain ⟨hf, hg⟩ := hx.made _ _ h
  refine ⟨_, hx.add (Memory.added_newClosure hx.intactLeft hf) (Memory.added_newClosure hx.intactRight hg) ?_,
    .inl ⟨rfl, rfl⟩⟩
  rw [Memory.content, Memory.content, Memory.closure_newClosure, Memory.closure_newClosure]
  exact .closure hparameters hbody (.inr h)

omit hx in
theorem Matched.declareAll {m n : Memory} {R : Link} (hx : Matched ⟨m, n, R⟩) (h : R (.scope s) (.scope t))
    {bs cs : Entries Value} (hbs : bs.Matches R cs) :
    Agrees (fun m' n' => Becomes ⟨m, n, R⟩ ⟨m', n', R⟩) (m.declareAll s bs) (n.declareAll t cs) := by
  induction hbs generalizing m n with
  | nil => exact hx.refl
  | @cons a b _ _ hab _ ih =>
    obtain ⟨name, v⟩ := a
    obtain ⟨name', w⟩ := b
    obtain ⟨rfl, hvw⟩ := hab
    refine (hx.declare h name hvw).bind fun m' n' hfirst => ?_
    exact (ih hfirst.matched).imp fun _ _ => hfirst.trans

/-- Function scopes that are made with matching arguments match, or none can be made for the same reason. -/
theorem Matched.newFunctionScope (h : x.link (.scope s) (.scope t)) (parameters : List String) {args args' : List Value}
    (hargs : List.Forall₂ (Value.Matches x.link) args args') :
    Agrees (fun a b => ∃ R, x.Becomes ⟨a.2, b.2, R⟩ ∧ R (.scope a.1) (.scope b.1))
      (x.left.newFunctionScope s parameters args) (x.right.newFunctionScope t parameters args') := by
  unfold Memory.newFunctionScope
  rw [hargs.length_eq]
  split
  · obtain ⟨R, hnew, hscope⟩ := hx.newScope h
    have hzip := Entries.matches_zip parameters (hargs.imp fun _ _ hvw => hvw.mono hnew.link)
    exact (hnew.matched.declareAll hscope hzip).bind fun m n hall => ⟨R, hnew.trans hall, hscope⟩
  · exact rfl

end Operations

end Pairing

/-! ## Operators -/

section Operators

variable {R : Link} {v v' w w' : Value}

/-- Values that match are equal to values that match, or are not, on both sides. -/
theorem Value.Matches.equals_eq (hR : Relator.BiUnique R) (h : v.Matches R w) (h' : v'.Matches R w') :
    v.equals v' = w.equals w' := by
  have hcell {c c' d d' : Cell} (hcd : R c d) (hcd' : R c' d') : c = c' ↔ d = d' :=
    ⟨fun he => hR.2 hcd (he ▸ hcd'), fun he => hR.1 hcd (he ▸ hcd')⟩
  cases h with
  | @same v hv =>
    cases h' with
    | same _ => rfl
    | object _ | closure _ | reference _ => cases v <;> first | rfl | cases hv
  | object hv =>
    cases h' with
    | @same v' hv' => cases v' <;> first | rfl | cases hv'
    | object hv' => simpa [Value.equals] using hcell hv hv'
    | closure _ | reference _ => rfl
  | closure hv =>
    cases h' with
    | @same v' hv' => cases v' <;> first | rfl | cases hv'
    | closure hv' => simpa [Value.equals] using hcell hv hv'
    | object _ | reference _ => rfl
  | @reference r r' hv =>
    cases h' with
    | @same v' hv' => cases v' <;> first | rfl | cases hv'
    | @reference q q' hv' =>
      have hobject : (r.object == q.object) = (r'.object == q'.object) := by
        rw [Bool.eq_iff_iff, beq_iff_eq, beq_iff_eq]
        simpa using hcell hv.object hv'.object
      rw [Value.equals, Value.equals, hobject, hv.key, hv'.key]
    | object _ | closure _ => rfl

theorem Value.Matches.applySame_eq (h : v.Matches R w) (h' : v'.Matches R w') (op : OperatorKind) :
    applySame op v v' = applySame op w w' := by
  cases h with
  | @same v _ =>
    cases h' with
    | same _ => rfl
    | object _ | closure _ | reference _ => cases v <;> rfl
  | object _ | closure _ | reference _ =>
    cases h' with
    | @same v' _ => cases v' <;> rfl
    | object _ | closure _ | reference _ => rfl

/-- An operator does the same on values that match. -/
theorem Value.Matches.applyBinary_eq (hR : Relator.BiUnique R) (h : v.Matches R w) (h' : v'.Matches R w')
    (op : OperatorKind) : applyBinary op v v' = applyBinary op w w' := by
  unfold applyBinary
  rw [h.equals_eq hR h', h.applySame_eq h' op, h.type_eq, h'.type_eq]

end Operators

end GameScript
