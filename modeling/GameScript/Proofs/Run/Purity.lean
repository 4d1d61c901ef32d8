import GameScript.Proofs.Run.Compound
import GameScript.Proofs.Run.Fresh
import GameScript.Proofs.Tree.Passive

/-!
# Expressions that neither call nor write

An expression that is `Passive` neither calls nor writes, outside the bodies of its functions. At two machines whose
memories have grown from one in the same way, evaluating it ends in the same way: with the same error, or with values
that are twins, and with memories that have grown in the same way (`Eval.Repeats`). This is shown part by part, from
what is looked up, read and made, and then by induction on the tree (`repeats_expression`).

A memory is a twin of itself, so one evaluation makes objects and closures and does nothing else. The memory that it
leaves is a twin of the one that it started from, so a second evaluation repeats the first.

Main statement: so it is for every passive expression that a text parses to (`passive_expressions_are_pure`).
-/

namespace GameScript

open Eval

variable {σ α β γ δ : Type}

/-! ## Machines and results -/

/-- Machines that differ in memory alone, and not in what is held there. -/
structure Machine.Spares (m k : Machine σ) : Prop where
  depth : k.depth = m.depth
  state : k.state = m.state
  held : k.memory.held = m.memory.held

theorem Machine.Spares.refl (m : Machine σ) : m.Spares m := ⟨rfl, rfl, rfl⟩

theorem Machine.Spares.trans {m k n : Machine σ} (h : m.Spares k) (h' : k.Spares n) : m.Spares n :=
  ⟨h'.depth.trans h.depth, h'.state.trans h.state, h'.held.trans h.held⟩

/-- Results that are related, or the same error at the same place. -/
inductive Again (Q : α → β → Prop) : Except RuntimeFault α → Except RuntimeFault β → Prop
  | ok {a : α} {b : β} (h : Q a b) : Again Q (.ok a) (.ok b)
  | error (f : RuntimeFault) : Again Q (.error f) (.error f)

theorem Again.imp {Q P : α → β → Prop} {x : Except RuntimeFault α} {y : Except RuntimeFault β} (h : Again Q x y)
    (hqp : ∀ a b, Q a b → P a b) : Again P x y := by
  cases h with
  | ok h => exact .ok (hqp _ _ h)
  | error f => exact .error f

/-- From machines with twin memories, computations have come to machines with twin memories and to results that are
related. -/
structure Memory.EndsAlike (m : Memory) (Q : Link → α → β → Prop) (S : Link) (k k' : Machine σ)
    (x : Except RuntimeFault α × Machine σ) (x' : Except RuntimeFault β × Machine σ) : Prop where
  twins : m.Twins S x.2.memory x'.2.memory
  left : k.Spares x.2
  right : k'.Spares x'.2
  result : Again (Q S) x.1 x'.1

/-- Computations that end alike from any two machines with twin memories, by a link that has grown. -/
def Eval.Repeats (m : Memory) (Q : Link → α → β → Prop) (R : Link) (ev : Eval σ α) (ev' : Eval σ β) : Prop :=
  ∀ S (k k' : Machine σ), R ≤ S → m.Twins S k.memory k'.memory → ∃ T, S ≤ T ∧ m.EndsAlike Q T k k' (ev k) (ev' k')

/-! ## Computations -/

section Computations

variable {m : Memory} {R : Link} {Q : Link → α → β → Prop} {span : Span}

theorem Eval.Repeats.bind {P : Link → γ → δ → Prop} {ev : Eval σ α} {ev' : Eval σ β} {f : α → Eval σ γ}
    {f' : β → Eval σ δ} (h : ev.Repeats m Q R ev')
    (hf : ∀ S a b, R ≤ S → Q S a b → (f a).Repeats m P S (f' b)) : (ev >>= f).Repeats m P R (ev' >>= f') := by
  intro S k k' hle htwins
  obtain ⟨T, hST, hev⟩ := h S k k' hle htwins
  rw [Eval.bind_apply, Eval.bind_apply]
  rcases hx : ev k with ⟨r, n⟩
  rcases hx' : ev' k' with ⟨r', n'⟩
  rw [hx, hx'] at hev
  obtain ⟨htwins, hleft, hright, hr⟩ := hev
  cases hr with
  | error f => exact ⟨T, hST, htwins, hleft, hright, .error f⟩
  | ok hab =>
    obtain ⟨U, hTU, hend⟩ := hf T _ _ (hle.trans hST) hab T n n' le_rfl htwins
    exact ⟨U, hST.trans hTU, hend.twins, hleft.trans hend.left, hright.trans hend.right, hend.result⟩

theorem Eval.Repeats.imp {P : Link → α → β → Prop} {ev : Eval σ α} {ev' : Eval σ β} (h : ev.Repeats m Q R ev')
    (hqp : ∀ S a b, Q S a b → P S a b) : ev.Repeats m P R ev' := by
  intro S k k' hle htwins
  obtain ⟨T, hST, hend⟩ := h S k k' hle htwins
  exact ⟨T, hST, hend.twins, hend.left, hend.right, hend.result.imp (hqp T)⟩

theorem repeats_pure {a : α} {b : β} (h : ∀ S, R ≤ S → Q S a b) : (pure a : Eval σ α).Repeats m Q R (pure b) :=
  fun S _ _ hle htwins => ⟨S, le_rfl, htwins, .refl _, .refl _, .ok (h S hle)⟩

theorem repeats_fail (e : RuntimeError) : (fail span e : Eval σ α).Repeats m Q R (fail span e : Eval σ β) :=
  fun S _ _ _ htwins => ⟨S, le_rfl, htwins, .refl _, .refl _, .error _⟩

/-- What is looked for in twin memories. -/
theorem repeats_look {look : Memory → Except RuntimeError α} {look' : Memory → Except RuntimeError β}
    (h : ∀ S k k', R ≤ S → m.Twins S k k' → Agrees (Q S) (look k) (look' k')) :
    (do Eval.lift span (look (← memory)) : Eval σ α).Repeats m Q R (do Eval.lift span (look' (← memory))) := by
  intro S k k' hle htwins
  have hlook := h S _ _ hle htwins
  show ∃ T, S ≤ T ∧ m.EndsAlike Q T k k' ((Eval.lift span (look k.memory) : Eval σ α) k)
    ((Eval.lift span (look' k'.memory) : Eval σ β) k')
  generalize look k.memory = x, look' k'.memory = y at hlook
  rcases x with e | a <;> rcases y with e' | b
  · obtain rfl : e = e' := hlook
    exact repeats_fail e S k k' hle htwins
  · exact hlook.elim
  · exact hlook.elim
  · exact ⟨S, le_rfl, htwins, .refl _, .refl _, .ok hlook⟩

/-- What is made in twin memories. -/
theorem repeats_create {make : Memory → α × Memory} {make' : Memory → β × Memory}
    (hheld : ∀ k, (make k).2.held = k.held) (hheld' : ∀ k, (make' k).2.held = k.held)
    (h : ∀ S k k', R ≤ S → m.Twins S k k' →
      ∃ T, S ≤ T ∧ m.Twins T (make k).2 (make' k').2 ∧ Q T (make k).1 (make' k').1) :
    (create make : Eval σ α).Repeats m Q R (create make') := by
  intro S k k' hle htwins
  obtain ⟨T, hST, hmade, hq⟩ := h S _ _ hle htwins
  exact ⟨T, hST, hmade, ⟨rfl, rfl, hheld _⟩, ⟨rfl, rfl, hheld' _⟩, .ok hq⟩

theorem repeats_newObject : (create (·.newObject []) : Eval σ ObjectId).Repeats m
    (fun S o p => S (.object o) (.object p) ∧ .object o ∉ m.made) R (create (·.newObject [])) :=
  repeats_create (fun _ => rfl) (fun _ => rfl) fun _ _ _ _ htwins => htwins.newObject

theorem repeats_newClosure {f : Closure} (hs : m.isAlive (.scope f.scope) = true) :
    (create (·.newClosure f) : Eval σ ClosureId).Repeats m
      (fun S c d => S (.closure c) (.closure d) ∧ .closure c ∉ m.made) R (create (·.newClosure f)) :=
  repeats_create (fun _ => rfl) (fun _ => rfl) fun _ _ _ _ htwins => htwins.newClosure hs

/-- Twins may be held during computations. -/
theorem Eval.Repeats.holding {ev : Eval σ α} {ev' : Eval σ β} {v w : Value} (h : ev.Repeats m Q R ev')
    (hv : v.Twin m R w) :
    (holding (Value.cells [v]) ev).Repeats m Q R (holding (Value.cells [w]) ev') := by
  intro S k k' hle htwins
  obtain ⟨T, hST, hend⟩ := h S { k with memory := k.memory.holding (Value.cells [v]) }
    { k' with memory := k'.memory.holding (Value.cells [w]) } hle (htwins.holding (hv.mono hle))
  rw [holding_apply, holding_apply]
  refine ⟨T, hST, htwins.released hend.twins ?_ ?_, ⟨hend.left.depth, hend.left.state, rfl⟩,
    ⟨hend.right.depth, hend.right.state, rfl⟩, hend.result⟩
  · exact hend.left.held ▸ List.subset_append_right _ _
  · exact hend.right.held ▸ List.subset_append_right _ _

variable {v w v' w' : Value}

theorem repeats_resolve (h : v.Twin m R w) :
    (resolve span v : Eval σ Value).Repeats m (Value.Twin m) R (resolve span w) :=
  repeats_look fun _ _ _ hle htwins => htwins.resolve (h.mono hle)

theorem repeats_lookup {scope : ScopeId} (hs : m.isAlive (.scope scope) = true) (name : String) :
    (do Eval.lift span ((← memory).lookup scope name) : Eval σ Value).Repeats m
      (fun S v w => v.Twin m S w ∧ v.Inside m.made) R (do Eval.lift span ((← memory).lookup scope name)) :=
  repeats_look fun _ _ _ _ htwins => htwins.lookup hs name

theorem repeats_applyBinary (h : v.Twin m R w) (h' : v'.Twin m R w') (op : OperatorKind) :
    (Eval.lift span (applyBinary op v v') : Eval σ Value).Repeats m (Value.Twin m) R
      (Eval.lift span (applyBinary op w w')) := by
  intro S k k' hle htwins
  rw [(h.mono hle).linked.applyBinary_eq htwins.unique (h'.mono hle).linked]
  cases hu : applyBinary op w w' with
  | error e => exact repeats_fail e S k k' hle htwins
  | ok u => exact repeats_pure (fun _ _ => ((plain_applyBinary op w w').2 u hu).twin) S k k' hle htwins

theorem repeats_negate (h : v.Twin m R w) :
    (negate span v : Eval σ Value).Repeats m (Value.Twin m) R (negate span w) := by
  cases h.linked with
  | same _ =>
    cases v with
    | bool b => exact repeats_pure fun _ _ => Value.IsScalar.twin trivial
    | _ => exact repeats_fail _
  | object _ | closure _ | reference _ => exact repeats_fail _

theorem repeats_setProperty {o p : ObjectId} (ho : R (.object o) (.object p)) (hnew : .object o ∉ m.made) (key : String)
    (h : v.Twin m R w) : (do setMemory ((← memory).setProperty o key v) : Eval σ Unit).Repeats m
      (fun _ _ _ => True) R (do setMemory ((← memory).setProperty p key w) : Eval σ Unit) :=
  fun S _ _ hle htwins => ⟨S, le_rfl, htwins.setProperty (hle _ _ ho) hnew key (h.mono hle), ⟨rfl, rfl, rfl⟩,
    ⟨rfl, rfl, rfl⟩, .ok trivial⟩

/-- The reference to a property of what a value stands for; an unanchored one is to what was there before. -/
theorem repeats_referenceIn (key : String) {anchored anchored' : Bool} (hanchored : anchored = anchored')
    (h : v.Twin m R w) (hinside : anchored = false → v.Inside m.made) : (do
      match ← resolve span v with
      | .object o => return ⟨o, key, anchored⟩
      | other => fail span (.notAnObject key other.type) : Eval σ Reference).Repeats m
      (fun S r q => (Value.reference r).Twin m S (.reference q)) R (do
      match ← resolve span w with
      | .object o => return ⟨o, key, anchored'⟩
      | other => fail span (.notAnObject key other.type)) := by
  refine Eval.Repeats.bind (repeats_look fun S k k' hle htwins => htwins.resolve_inside (h.mono hle)) ?_
  rintro S a b - ⟨⟨hlinked, hfits⟩, hold⟩
  cases hlinked with
  | @same a ha => cases a <;> first | exact repeats_fail _ | cases ha
  | @object o p hop =>
    refine repeats_pure fun T hle => ⟨.reference ⟨hle _ _ hop, rfl, hanchored⟩, hfits.reference fun hunanchored => ?_⟩
    exact hold (hinside hunanchored) _ rfl
  | closure _ | reference _ => exact repeats_fail _

theorem repeats_referenceTo (key : String) {named : Bool} (h : v.Twin m R w) (hnamed : named = true → v.Inside m.made) :
    (referenceTo span key named v : Eval σ Reference).Repeats m
      (fun S r q => (Value.reference r).Twin m S (.reference q)) R (referenceTo span key named w) := by
  have hplain (hnot : (!named) = false) : v.Inside m.made := hnamed (by simpa using hnot)
  obtain ⟨hlinked, hfits⟩ := h
  cases hlinked with
  | @reference r q hrq =>
    refine repeats_referenceIn key (congrArg (!named && ·) hrq.anchored) ⟨.reference hrq, hfits⟩ fun hunanchored => ?_
    rcases Bool.and_eq_false_iff.1 hunanchored with hnot | hfree
    · exact hplain hnot
    · exact hfits.inside_of_unanchored hfree
  | @same v hv =>
    cases v <;> first | exact repeats_referenceIn key rfl ⟨.same hv, hfits⟩ hplain | cases hv
  | object ho => exact repeats_referenceIn key rfl ⟨.object ho, hfits⟩ hplain
  | closure hf => exact repeats_referenceIn key rfl ⟨.closure hf, hfits⟩ hplain

end Computations

/-! ## Parts of an expression -/

section Parts

variable {m : Memory} {calls : Calls σ} {scope : ScopeId}

/-- From every link on, the evaluation of an operand repeats itself. -/
def Operand.Repeats (m : Memory) (calls : Calls σ) (scope : ScopeId) (a : Operand) : Prop :=
  ∀ R span, (a.eval calls scope span).Repeats m (Value.Twin m) R (a.eval calls scope span)

theorem Operand.Repeats.slot {a : Operand} (h : a.Repeats m calls scope) (R : Link) (span : Span) :
    (Operand.evalSlot calls scope span (some a)).Repeats m (Value.Twin m) R
      (Operand.evalSlot calls scope span (some a)) := by
  rw [Operand.evalSlot]
  exact (h R span).bind fun S v w _ hvw => repeats_resolve hvw

/-- What a name stands for was there before. -/
theorem Operand.Repeats.parent (hs : m.isAlive (.scope scope) = true) {a : Operand} (h : a.Repeats m calls scope)
    (R : Link) (span : Span) :
    (Operand.evalParent calls scope span (some a)).Repeats m
      (fun S x y => x.1.Twin m S y.1 ∧ x.2 = y.2 ∧ (x.2 = true → x.1.Inside m.made)) R
      (Operand.evalParent calls scope span (some a)) := by
  rw [Operand.evalParent]
  cases a with
  | var v =>
    obtain ⟨name, _ | _, place⟩ := v
    · rw [Operand.eval]
      refine (repeats_lookup hs name).bind ?_
      rintro S v w - ⟨hvw, hinside⟩
      exact repeats_pure fun T hle => ⟨hvw.mono hle, rfl, fun _ => hinside⟩
    · rw [Operand.eval]
      exact Eval.Repeats.bind (Q := fun _ _ _ => False) (repeats_fail _) fun _ _ _ _ hnone => hnone.elim
  | _ =>
    refine (h R span).bind fun S v w _ hvw => repeats_pure fun T hle => ⟨hvw.mono hle, rfl, fun hname => ?_⟩
    cases hname

/-- An expression of one of the passive forms repeats itself when its operands do. -/
theorem Expression.PassiveForm.repeats (hs : m.isAlive (.scope scope) = true) {e : Expression} (h : e.PassiveForm)
    (hleft : ∀ a ∈ e.left, a.Repeats m calls scope) (hright : ∀ a ∈ e.right, a.Repeats m calls scope) (R : Link) :
    (e.eval calls scope).Repeats m (Value.Twin m) R (e.eval calls scope) := by
  cases h with
  | leaf a span =>
    rw [eval_of_leaf]
    exact hleft a rfl R span
  | access parent key keyPlace opPlace span =>
    rw [eval_of_child rfl rfl, Expression.evalAccess]
    refine Eval.Repeats.bind (Q := fun S r q => (Value.reference r).Twin m S (.reference q)) ?_ fun S r q _ hrq =>
      repeats_pure fun T hle => hrq.mono hle
    refine (repeats_pure (Q := fun _ k k' => k = k') fun _ _ => rfl).bind ?_
    rintro S key _ - rfl
    refine ((hleft parent rfl).parent hs S span).bind ?_
    rintro T ⟨v, named⟩ ⟨w, _⟩ - ⟨hvw, rfl, hnamed⟩
    exact repeats_referenceTo key hvw hnamed
  | negation a opPlace span =>
    rw [eval_of_not rfl rfl]
    exact ((hright a rfl).slot R span).bind fun S v w _ hvw => repeats_negate hvw
  | operation a b op span harity hassign hchild =>
    rw [eval_of_operation rfl harity hassign hchild]
    · refine ((hleft a rfl).slot R span).bind fun S v w _ hvw => ?_
      refine (((hright b rfl).slot S span).holding hvw).bind fun T v' w' hle hvw' => ?_
      exact repeats_applyBinary (hvw.mono hle) hvw' op.kind
    · rw [Expression.checkShape_eq_none_iff]
      simp [Expression.WellShaped, Expression.binary, harity, Arity.takes]

end Parts

/-! ## Expressions -/

section Trees

variable {m : Memory} {calls : Calls σ} {scope : ScopeId}

open Node

mutual

theorem repeats_operand (hs : m.isAlive (.scope scope) = true) (a : Operand) (hc : (operand a).Canonical)
    (hp : (operand a).Passive) : a.Repeats m calls scope := by
  intro R span
  match a, hc, hp with
  | .value l, _, _ =>
    rw [Operand.eval]
    exact repeats_pure fun S _ => Value.IsScalar.twin (by cases l <;> trivial)
  | .var ⟨name, .declare, place⟩, _, _ =>
    rw [Operand.eval]
    exact repeats_fail _
  | .var ⟨name, .use, place⟩, _, _ =>
    rw [Operand.eval]
    exact (repeats_lookup hs name).imp fun _ _ _ h => h.1
  | .object ps, hc, hp =>
    rw [Operand.eval]
    refine repeats_newObject.bind ?_
    rintro S o p - ⟨ho, hnew⟩
    have hobject : (Value.object o).Twin m S (.object p) :=
      ⟨.object ho, Value.fits_of_new rfl fun c hc => Option.some.inj hc ▸ hnew⟩
    have hproperties := repeats_properties hs ps (fun q hq => hc.child (List.mem_map_of_mem hq))
      (fun q hq => hp.part (List.mem_map_of_mem hq)) S o p ho hnew
    exact (hproperties.holding hobject).bind fun T _ _ hle _ => repeats_pure fun U hle' => hobject.mono (hle.trans hle')
  | .block s, hc, _ => exact hc.proper.elim
  | .expression e, hc, hp =>
    rw [Operand.eval]
    exact repeats_expression hs e (hc.child (List.mem_singleton.2 rfl)) (hp.part (List.mem_singleton.2 rfl)) R
  | .function ps s, _, _ =>
    rw [Operand.eval]
    refine (repeats_newClosure hs).bind ?_
    rintro S f g - ⟨hf, hnew⟩
    have hclosure : (Value.closure f).Twin m S (.closure g) :=
      ⟨.closure hf, Value.fits_of_new rfl fun c hc => Option.some.inj hc ▸ hnew⟩
    exact repeats_pure fun T hle => hclosure.mono hle
  | .call callee es, _, hp => exact absurd trivial hp.idle
termination_by sizeOf a

/-- The properties of an object literal are written to the new object. -/
theorem repeats_properties (hs : m.isAlive (.scope scope) = true) (ps : List Property)
    (hc : ∀ q ∈ ps, (expression q.value).Canonical) (hp : ∀ q ∈ ps, (expression q.value).Passive) (R : Link)
    (o p : ObjectId) (ho : R (.object o) (.object p)) (hnew : .object o ∉ m.made) :
    (Property.evalAll calls scope o ps).Repeats m (fun _ _ _ => True) R (Property.evalAll calls scope p ps) := by
  match ps with
  | [] =>
    rw [Property.evalAll, Property.evalAll]
    exact repeats_pure fun _ _ => trivial
  | ⟨key, e⟩ :: rest =>
    rw [Property.evalAll, Property.evalAll]
    have hfirst := repeats_expression hs e (hc _ List.mem_cons_self) (hp _ List.mem_cons_self) R
    refine hfirst.bind fun S v w hRS hvw => (repeats_resolve hvw).bind fun T v w hST hvw => ?_
    have hle := hRS.trans hST
    rw [← bind_assoc (m := Eval σ), ← bind_assoc (m := Eval σ)]
    refine (repeats_setProperty (hle _ _ ho) hnew key hvw).bind fun U _ _ hTU _ => ?_
    exact repeats_properties hs rest (fun q hq => hc q (List.mem_cons_of_mem _ hq))
      (fun q hq => hp q (List.mem_cons_of_mem _ hq)) U o p (hle.trans hTU _ _ ho) hnew
termination_by sizeOf ps

theorem repeats_slot (hs : m.isAlive (.scope scope) = true) (a : Option Operand) :
    ∀ b ∈ a, (operand b).Canonical → (operand b).Passive → b.Repeats m calls scope := by
  match a with
  | none => exact nofun
  | some a =>
    rintro b ⟨⟩
    exact repeats_operand hs a
termination_by sizeOf a

theorem repeats_expression (hs : m.isAlive (.scope scope) = true) (e : Expression) (hc : (expression e).Canonical)
    (hp : (expression e).Passive) (R : Link) : (e.eval calls scope).Repeats m (Value.Twin m) R
      (e.eval calls scope) := by
  have hform := passiveForm_of_canonical hc hp
  match e, hc, hp, hform with
  | ⟨left, op, right, span⟩, hc, hp, hform =>
    have hchild {b : Operand} (hb : b ∈ left ∨ b ∈ right) : operand b ∈ children (expression ⟨left, op, right, span⟩) :=
      by simpa [children] using hb
    refine hform.repeats hs (fun b hb => ?_) (fun b hb => ?_) R
    · exact repeats_slot hs left b hb (hc.child (hchild (.inl hb))) (hp.part (hchild (.inl hb)))
    · exact repeats_slot hs right b hb (hc.child (hchild (.inr hb))) (hp.part (hchild (.inr hb)))
termination_by sizeOf e

end

end Trees

/-! ## Purity -/

/-- An expression in a program that a text parses to, or at the front of a list of tokens. -/
def Expression.Parsed (e : Expression) : Prop :=
  (Node.expression e).Parsed ∨ ∃ tokens, parseExpression tokens = .ok e

/-- Nothing is different in a machine but that there are new objects and new closures. -/
structure Machine.OnlyMakes (m k : Machine σ) : Prop extends m.Spares k where
  scopes : k.memory.scopes = m.memory.scopes
  made : m.memory.made ⊆ k.memory.made
  content : ∀ c ∈ m.memory.made, k.memory.content c = m.memory.content c
  isAlive : ∀ c ∈ m.memory.made, k.memory.isAlive c = m.memory.isAlive c

/-- A cell that was alive in a memory or has been made since. -/
structure Memory.Keepable (m k : Memory) (c : Cell) : Prop where
  made : c ∈ k.made
  isAlive : c ∈ m.made → m.isAlive c = true

/-- Evaluations have ended with the same error, or with values that are the same, as they are and as what they stand for,
but for the identities of cells that a memory does not have. -/
inductive Memory.Repeated (m : Memory) :
    Except RuntimeFault Value × Machine σ → Except RuntimeFault Value × Machine σ → Prop
  | error (f : RuntimeFault) (k k' : Machine σ) : Memory.Repeated m (.error f, k) (.error f, k')
  | ok {v w : Value} {k k' : Machine σ} (R : Link) (hsame : m.SameButFresh R k.memory k'.memory) (h : v.Matches R w)
      (hresolve : Agrees (Value.Matches R) (k.memory.resolve v) (k'.memory.resolve w)) :
      Memory.Repeated m (.ok v, k) (.ok w, k')

section Purity

variable {scope : ScopeId} {e : Expression} {m : Machine σ}

theorem Expression.Parsed.canonical (h : e.Parsed) : (Node.expression e).Canonical := by
  rcases h with ⟨source, p, hp, hwithin⟩ | ⟨tokens, htokens⟩
  · obtain ⟨tokens, htokens⟩ := exists_parseTokens hp
    exact (canonical_of_parseTokens htokens).within hwithin
  · have hsure := sure_expressionAtFront (Cursor.closed_ofTokens tokens)
    unfold parseExpression StateT.run' at htokens
    cases hx : expressionAtFront (Cursor.ofTokens tokens) with
    | ok r =>
      rw [hx] at htokens hsure
      cases htokens
      exact hsure
    | error e =>
      rw [hx] at htokens
      cases htokens

theorem Memory.EndsAlike.repeated {m : Memory} {S : Link} {k k' : Machine σ}
    {x x' : Except RuntimeFault Value × Machine σ} (h : m.EndsAlike (Value.Twin m) S k k' x x') : m.Repeated x x' := by
  obtain ⟨htwins, -, -, hresult⟩ := h
  obtain ⟨r, n⟩ := x
  obtain ⟨r', n'⟩ := x'
  cases hresult with
  | error f => exact .error f n n'
  | ok hvw => exact .ok S htwins.toSameButFresh hvw.linked ((htwins.resolve hvw).imp fun _ _ h => h.linked)

/-- Evaluating a parsed expression that neither calls nor writes, outside the bodies of its functions, makes objects and
closures and does nothing else, whether it comes to a value or fails. Evaluating it once more, while its value or
anything else is held that was alive or is new, fails with the same error or comes to the same value, but for the
identities of new objects and closures. -/
theorem passive_expressions_are_pure (calls : Calls σ) (hparsed : e.Parsed) (hpassive : (Node.expression e).Passive)
    (hm : m.memory.Intact) (hs : m.memory.isAlive (.scope scope) = true) :
    m.OnlyMakes (e.eval calls scope m).2 ∧
      (∀ v, (e.eval calls scope m).1 = .ok v →
        ∀ c ∈ Value.cells [v], m.memory.Keepable (e.eval calls scope m).2.memory c) ∧
      ∀ kept, (∀ c ∈ kept, m.memory.Keepable (e.eval calls scope m).2.memory c) →
        m.memory.Repeated (e.eval calls scope m) (e.eval calls scope { (e.eval calls scope m).2 with
          memory := (e.eval calls scope m).2.memory.holding kept }) := by
  have hrepeats (R : Link) : (e.eval calls scope).Repeats m.memory (Value.Twin m.memory) R (e.eval calls scope) :=
    repeats_expression hs e hparsed.canonical hpassive R
  have hself := Memory.Grown.refl hm
  obtain ⟨S, -, hfirst⟩ := hrepeats _ _ m m le_rfl (hself.twins hself)
  have hgrown := hfirst.twins.left
  refine ⟨⟨hfirst.left, hgrown.scopes, hgrown.made, hgrown.content, fun c hc => ?_⟩, fun v hv c hc => ?_,
    fun kept hkept => ?_⟩
  · exact Bool.eq_iff_iff.2 (hgrown.isAlive_iff hc)
  · have hresult := hfirst.result
    rw [hv] at hresult
    cases hresult with
    | ok hvw => exact ⟨(hfirst.twins.made_of_cells hvw).1 c hc, hvw.fits.isAlive hc⟩
  · obtain ⟨T, -, hsecond⟩ := hrepeats _ _ m { (e.eval calls scope m).2 with
      memory := (e.eval calls scope m).2.memory.holding kept } le_rfl
      (hself.twins (hgrown.holding (fun c hc => (hkept c hc).made) fun c hc => (hkept c hc).isAlive))
    exact hsecond.repeated

end Purity

/-- The expression of `{n: o}.n`. -/
def accessedLiteral : Expression :=
  let o : Expression := .leaf (.var ⟨"o", .use, ⟨4, 5⟩⟩) ⟨4, 5⟩
  .binary (.object [⟨"n", o⟩]) ⟨.child, ⟨6, 7⟩⟩ (.var ⟨"n", .use, ⟨7, 8⟩⟩) ⟨0, 8⟩

theorem passive_accessedLiteral : (Node.expression accessedLiteral).Passive := by
  have hname (name : String) (place : Span) : (Node.operand (.var ⟨name, .use, place⟩)).Passive :=
    Node.passive_iff.2 ⟨id, nofun⟩
  have hleaf : (Node.expression (.leaf (.var ⟨"o", .use, ⟨4, 5⟩⟩) ⟨4, 5⟩)).Passive :=
    Node.passive_iff.2 ⟨nofun, List.forall_mem_singleton.2 (hname _ _)⟩
  have hobject : (Node.operand (.object [⟨"n", .leaf (.var ⟨"o", .use, ⟨4, 5⟩⟩) ⟨4, 5⟩⟩])).Passive :=
    Node.passive_iff.2 ⟨id, List.forall_mem_singleton.2 hleaf⟩
  refine Node.passive_iff.2 ⟨?_, List.forall_mem_cons.2 ⟨hobject, List.forall_mem_singleton.2 (hname _ _)⟩⟩
  rintro ⟨k, ⟨⟩, hk⟩
  cases hk

theorem intact_counters : counters.memory.Intact := by
  refine ⟨fun c hc d hd => ?_, fun c hc => ?_⟩
  · rcases c with ⟨⟨_ | i⟩⟩ | ⟨⟨_ | i⟩⟩ | ⟨⟨i⟩⟩
    · cases hd
    · exact absurd hc (Nat.not_lt.2 (Nat.le_add_left 1 i))
    · obtain rfl := List.mem_singleton.1 hd
      exact Nat.one_pos
    · exact absurd hc (Nat.not_lt.2 (Nat.le_add_left 1 i))
    · exact absurd hc (Nat.not_lt_zero i)
  · obtain rfl := List.mem_singleton.1 hc
    exact Nat.one_pos

/-- It makes an object and is a property of it, and is so again while the object is held. -/
theorem passive_expressions_are_pure_literal :
    let first := accessedLiteral.eval (callsAt idleHost 5 0) ⟨0⟩ counters
    first.1 = .ok (.reference ⟨⟨1⟩, "n", true⟩) ∧ counters.OnlyMakes first.2 ∧
      counters.memory.Repeated first (accessedLiteral.eval (callsAt idleHost 5 0) ⟨0⟩
        { first.2 with memory := first.2.memory.holding [.object ⟨1⟩] }) := by
  have hparsed : accessedLiteral.Parsed := .inr ⟨(tokenize "{n: o}.n".toList).tokens, by cbv⟩
  have hvalue : (accessedLiteral.eval (callsAt idleHost 5 0) ⟨0⟩ counters).1 = .ok (.reference ⟨⟨1⟩, "n", true⟩) := rfl
  obtain ⟨hmakes, hkeepable, hrepeated⟩ := passive_expressions_are_pure (callsAt idleHost 5 0) hparsed
    passive_accessedLiteral intact_counters (intact_counters.isAlive_of_mem_held List.mem_cons_self)
  exact ⟨hvalue, hmakes, hrepeated _ (hkeepable _ hvalue)⟩

end GameScript
