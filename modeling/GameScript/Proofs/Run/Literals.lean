import GameScript.Proofs.Run.Operations
import GameScript.Proofs.Run.Settled

/-!
# Object literals

An object literal makes an empty object and writes its properties in turn. To nobody else is the object known meanwhile:
it is outside of the territory of all that is evaluated in between, which therefore leaves it alone
(`Building.eval`). So the literal does what assignments to the properties of the new object would do, one after
another, and in the end the object has what they put into it.

Main statement: `yieldsInTurn_literal`.
-/

namespace GameScript

open Eval

variable {σ : Type}

/-! ## Assignments in turn -/

/-- The value of a property of a literal. -/
def Property.eval (calls : Calls σ) (scope : ScopeId) (p : Property) : Eval σ Value := do
  resolve p.value.span (← p.value.eval calls scope)

/-- Assigns the value of a property to the property of an object that is named by a reference. -/
def Property.assign (calls : Calls σ) (scope : ScopeId) (o : ObjectId) (anchored : Bool) (p : Property) : Eval σ Value :=
  GameScript.assign scope p.value.span (p.eval calls scope) (pure (.property ⟨o, p.key, anchored⟩))

/-- Assigns properties one after another. -/
def Property.assignAll (calls : Calls σ) (scope : ScopeId) (o : ObjectId) (anchored : Bool) : List Property → Eval σ Unit
  | [] => return ()
  | p :: ps => do
    let _ ← p.assign calls scope o anchored
    assignAll calls scope o anchored ps

/-- The keys and the values of the assignments, in order, up to the first that fails. -/
def Property.assigned (calls : Calls σ) (scope : ScopeId) (o : ObjectId) (anchored : Bool) :
    List Property → Machine σ → List (String × Value)
  | [], _ => []
  | p :: ps, m =>
    match p.assign calls scope o anchored m with
    | (.ok v, m') => (p.key, v) :: assigned calls scope o anchored ps m'
    | (.error _, _) => []

/-- What the properties of a literal are evaluated in: an empty object has been made, and it is held. -/
def Machine.withNewObject (m : Machine σ) : Machine σ :=
  { m with memory := (m.memory.newObject []).2.holding [.object (m.memory.newObject []).1] }

/-! ## An object that nobody knows -/

/-- An object that is held is outside of what is reached from a scope and from what the host keeps. -/
structure Building (own : σ → List Value) (scope : ScopeId) (o : ObjectId) (m : Machine σ) : Prop where
  settled : ∃ K, Region own K m.memory m.state ∧ K ⊆ m.memory.made ∧ .scope scope ∈ K ∧ .object o ∉ K
  made : m.memory.HasObject o
  held : .object o ∈ m.memory.held

section Building

variable {own : σ → List Value} {host : Host σ} {limit : Nat} {scope : ScopeId} {o : ObjectId} {m : Machine σ}

/-- A cell outside of a closed set may be written to, whatever is written. -/
theorem Memory.Closed.setProperty_outside {m : Memory} {K : Set Cell} (h : m.Closed K) (ho : .object o ∉ K)
    (key : String) (v : Value) : (m.setProperty o key v).Closed K := by
  intro c hc d hd
  rcases Memory.mem_leads_setProperty hd with hd | ⟨rfl, -⟩
  · exact h c hc d hd
  · exact absurd hc ho

/-- A new object is outside of every territory of what there was. -/
theorem building_newObject (hm : m.Settled own scope) :
    Building own scope (m.memory.newObject []).1 m.withNewObject := by
  obtain ⟨K, hregion, hmade, hscope⟩ := hm
  refine ⟨⟨K, ⟨?_, hregion.own⟩, ?_, hscope, fun ho => ?_⟩, ?_, List.mem_cons_self⟩
  · exact fun c hc d hd => hregion.closed c hc d (Memory.mem_leads_newObject hd)
  · exact hmade.trans (Memory.made_newObject ▸ Set.subset_insert _ _)
  · exact absurd (hmade ho) (Nat.lt_irrefl _)
  · have hnew : .object (m.memory.newObject []).1 ∈ (m.memory.newObject []).2.made :=
      Memory.made_newObject ▸ Set.mem_insert _ _
    exact hnew

/-- A property is put into the object. -/
theorem Building.setProperty (h : Building own scope o m) (key : String) (v : Value) :
    Building own scope o { m with memory := m.memory.setProperty o key v } := by
  obtain ⟨⟨K, hregion, hK, hscope, ho⟩, hmade, hheld⟩ := h
  refine ⟨⟨K, ⟨hregion.closed.setProperty_outside ho key v, hregion.own⟩, ?_, hscope, ho⟩, ?_, hheld⟩
  · exact hK.trans Memory.made_setProperty.ge
  · exact Memory.hasObject_setProperty.2 hmade

variable (limit) (hhost : host.Settled own) (h : Building own scope o m)

include hhost h

/-- What is evaluated meanwhile leaves the object alone. -/
theorem Building.evalExpression (e : Expression) :
    Building own scope o (e.eval (callsAt host limit m.depth) scope m).2 ∧
      (e.eval (callsAt host limit m.depth) scope m).2.depth = m.depth ∧
      (e.eval (callsAt host limit m.depth) scope m).2.memory.properties o = m.memory.properties o := by
  obtain ⟨⟨K, hregion, hK, hscope, ho⟩, hmade, hheld⟩ := h
  have hrun := ((realizes_expression (realizesCalls_callsAt host limit m.depth) scope e) m rfl).1.finishes
  have hkeeps : (settlement own).Keeps ⟨m.memory, K⟩ (Plan.ask (.expression scope e)) (settlement own).value :=
    Discipline.keeps_askExpression hscope trivial
  obtain ⟨w, hle, hw, -⟩ := ((hkeeps m (hregion.settled hK)).runs (kept_settlement hhost limit _)).1 _ _ hrun
  have hgrown := Memory.Outgrows.trans hle hw.outgrows
  have hbalance : (Plan.ask (.expression scope e) m).Meets (balance (fun _ => True) m.depth)
      (Balanced (fun _ => True) m) := meets_ask rfl fun _ _ hdone => hdone
  obtain ⟨hdepth, hsame, -⟩ := hrun.of_meets_balance hbalance
  refine ⟨⟨⟨w.region, hw.toRegion, hw.made, hgrown.grows hscope, hgrown.not_mem hmade ho⟩, ?_, ?_⟩,
    hdepth, hgrown.properties o hmade ho⟩
  · exact hgrown.made (a := .object o) hmade
  · rw [hsame]
    exact hheld

/-- The same of the value of a property, which is resolved. -/
theorem Building.eval (p : Property) :
    Building own scope o (p.eval (callsAt host limit m.depth) scope m).2 ∧
      (p.eval (callsAt host limit m.depth) scope m).2.depth = m.depth ∧
      (p.eval (callsAt host limit m.depth) scope m).2.memory.properties o = m.memory.properties o := by
  have hvalue := h.evalExpression limit hhost p.value
  have hmachine : (p.eval (callsAt host limit m.depth) scope m).2 =
      (p.value.eval (callsAt host limit m.depth) scope m).2 := by
    rw [Property.eval, Eval.bind_apply]
    rcases p.value.eval (callsAt host limit m.depth) scope m with ⟨f | v, n⟩
    · rfl
    · show ((Eval.lift p.value.span (n.memory.resolve v) : Eval σ Value) n).2 = n
      cases n.memory.resolve v <;> rfl
  rwa [hmachine]

omit hhost h

/-! ## The new object -/

variable {calls : Calls σ} {p : Property} {ps : List Property}

/-- The properties of a literal are written as they are evaluated. -/
theorem evalAll_cons : Property.evalAll calls scope o (p :: ps) m =
    match p.eval calls scope m with
    | (.ok v, n) => Property.evalAll calls scope o ps { n with memory := n.memory.setProperty o p.key v }
    | (.error f, n) => (.error f, n) := by
  obtain ⟨key, e⟩ := p
  rw [Property.evalAll, Property.eval, Eval.bind_apply, Eval.bind_apply]
  rcases e.eval calls scope m with ⟨f | v, n⟩
  · rfl
  · dsimp only
    rw [Eval.bind_apply]
    rcases (resolve e.span v : Eval σ Value) n with ⟨f | u, n'⟩ <;> rfl

/-- What is put at a property is written there if the object is alive, while the value is held as well. -/
theorem holding_write {r : Reference} {v : Value} {span : Span}
    (hr : (m.memory.holding (Value.cells [v])).target r = .ok r.object) :
    (holding (Value.cells [v]) do
      let t ← pure (Target.property r)
      updateMemory span (t.write v scope) : Eval σ Unit) m =
      (.ok (), { m with memory := m.memory.setProperty r.object r.key v }) := by
  have hwrite : (m.memory.holding (Value.cells [v])).write r v =
      .ok ((m.memory.holding (Value.cells [v])).setProperty r.object r.key v) := by
    rw [Memory.write, hr]
    rfl
  have hupdate : (do
        let t ← pure (Target.property r)
        updateMemory span (t.write v scope) : Eval σ Unit) { m with memory := m.memory.holding (Value.cells [v]) } =
      (.ok (), { m with memory := (m.memory.holding (Value.cells [v])).setProperty r.object r.key v }) := by
    show (Eval.lift span ((m.memory.holding (Value.cells [v])).write r v) >>= setMemory : Eval σ Unit) _ = _
    rw [hwrite]
    rfl
  rw [holding_apply, hupdate]
  rfl

/-- An assignment to the object writes the value, for the object is alive. -/
theorem Building.assign (anchored : Bool) (hdone : Building own scope o (p.eval calls scope m).2) :
    p.assign calls scope o anchored m =
      match p.eval calls scope m with
      | (.ok v, n) => (.ok v, { n with memory := n.memory.setProperty o p.key v })
      | (.error f, n) => (.error f, n) := by
  rw [Property.assign, GameScript.assign, Eval.bind_apply]
  rcases hvalue : p.eval calls scope m with ⟨f | v, n⟩
  · rfl
  · rw [hvalue] at hdone
    have hsupported : (n.memory.holding (Value.cells [v])).Supported {.object o} := by
      rintro _ rfl
      exact ⟨hdone.made, .inl (List.mem_append_right _ hdone.held)⟩
    have htarget : (n.memory.holding (Value.cells [v])).target ⟨o, p.key, anchored⟩ = .ok o := by
      rw [Memory.target, if_pos (by simp [hsupported.isAlive rfl])]
    dsimp only
    rw [Eval.bind_apply, holding_write htarget]
    rfl

include hhost

/-- A literal in an object does what assignments would do, and what they put into it is there in the end. -/
theorem Building.evalAll {d : Nat} (h : Building own scope o m) (hd : m.depth = d) (anchored : Bool)
    (ps : List Property) :
    Property.evalAll (callsAt host limit d) scope o ps m =
        Property.assignAll (callsAt host limit d) scope o anchored ps m ∧
      ∀ m', Property.evalAll (callsAt host limit d) scope o ps m = (.ok (), m') →
        (Property.assigned (callsAt host limit d) scope o anchored ps m).map Prod.fst = ps.map (·.key) ∧
          m'.memory.properties o =
            (m.memory.properties o).putAll (Property.assigned (callsAt host limit d) scope o anchored ps m) := by
  induction ps generalizing m with
  | nil =>
    refine ⟨?_, fun m' hdone => ?_⟩
    · rw [Property.evalAll, Property.assignAll]
    · rw [Property.evalAll] at hdone
      cases hdone
      exact ⟨rfl, rfl⟩
  | cons p ps ih =>
    subst hd
    obtain ⟨hbuilding, hdepth, hsame⟩ := h.eval limit hhost p
    have hassign := hbuilding.assign anchored
    rw [evalAll_cons, Property.assignAll, Property.assigned, Eval.bind_apply, hassign]
    rcases hvalue : p.eval (callsAt host limit m.depth) scope m with ⟨f | v, n⟩
    · refine ⟨rfl, fun m' hdone => ?_⟩
      cases hdone
    · rw [hvalue] at hbuilding hdepth hsame
      dsimp only at hbuilding hdepth hsame ⊢
      have hput : (n.memory.setProperty o p.key v).properties o = (m.memory.properties o).put p.key v := by
        rw [Memory.properties_setProperty hbuilding.made, hsame]
      obtain ⟨hall, hentries⟩ := ih (hbuilding.setProperty p.key v) hdepth
      refine ⟨hall, fun m' hdone => ?_⟩
      obtain ⟨hkeys, hproperties⟩ := hentries m' hdone
      refine ⟨congrArg (p.key :: ·) hkeys, ?_⟩
      rw [hproperties, hput]
      rfl

end Building

/-! ## Literals -/

/-- Makes an empty object, and holds it while something is done to it. -/
def fillNewObject (act : ObjectId → Eval σ Unit) : Eval σ Value := do
  let o ← create (·.newObject [])
  holding [.object o] (act o)
  return .object o

theorem fillNewObject_apply (act : ObjectId → Eval σ Unit) (m : Machine σ) :
    fillNewObject act m =
      match act (m.memory.newObject []).1 m.withNewObject with
      | (.ok (), n) => (.ok (.object (m.memory.newObject []).1), { n with memory := { n.memory with held := m.memory.held } })
      | (.error f, n) => (.error f, { n with memory := { n.memory with held := m.memory.held } }) := by
  show (holding [.object (m.memory.newObject []).1] (act (m.memory.newObject []).1) >>= fun _ =>
    pure (.object (m.memory.newObject []).1) : Eval σ Value) { m with memory := (m.memory.newObject []).2 } = _
  rw [Eval.bind_apply, holding]
  rcases hdone : act (m.memory.newObject []).1 m.withNewObject with ⟨f | ⟨⟩, n⟩ <;>
    rw [Machine.withNewObject] at hdone <;> rw [hdone] <;> rfl

/-- An object literal that is evaluated does what assignments to a new object would do, one property after another. The
object has the keys of the literal, in the order in which they come first, and each has the value that was assigned to
it last. -/
structure YieldsInTurn (host : Host σ) (limit : Nat) (scope : ScopeId) (span : Span) (ps : List Property)
    (m : Machine σ) : Prop where
  assigns (anchored : Bool) : (Operand.object ps).eval (callsAt host limit m.depth) scope span m =
    fillNewObject (fun o => Property.assignAll (callsAt host limit m.depth) scope o anchored ps) m
  yields (anchored : Bool) (v : Value) (m' : Machine σ)
    (hdone : (Operand.object ps).eval (callsAt host limit m.depth) scope span m = (.ok v, m')) :
    ∃ o ws, v = .object o ∧ ¬m.memory.HasObject o ∧
      ws = Property.assigned (callsAt host limit m.depth) scope o anchored ps m.withNewObject ∧
      ws.map Prod.fst = ps.map (·.key) ∧ (m'.memory.properties o).keys = (ps.map (·.key)).eraseDups ∧
      ∀ key, m'.memory.property? o key = Entries.last? ws key

theorem yieldsInTurn_literal {own : σ → List Value} {host : Host σ} {limit : Nat} {scope : ScopeId} {span : Span}
    {ps : List Property} {m : Machine σ} (hhost : host.Settled own) (hm : m.Settled own scope) :
    YieldsInTurn host limit scope span ps m := by
  have hdepth : m.withNewObject.depth = m.depth := rfl
  have hall (anchored : Bool) := (building_newObject hm).evalAll limit hhost hdepth anchored ps
  have hliteral : (Operand.object ps).eval (callsAt host limit m.depth) scope span m =
      fillNewObject (fun o => Property.evalAll (callsAt host limit m.depth) scope o ps) m := by
    rw [Operand.eval, fillNewObject]
  refine ⟨fun anchored => ?_, fun anchored v m' hdone => ?_⟩
  · rw [hliteral, fillNewObject_apply, fillNewObject_apply, (hall anchored).1]
  · rw [hliteral, fillNewObject_apply] at hdone
    rcases hevaluated : Property.evalAll (callsAt host limit m.depth) scope (m.memory.newObject []).1 ps
      m.withNewObject with ⟨f | ⟨⟩, n⟩ <;> rw [hevaluated] at hdone <;> cases hdone
    obtain ⟨hkeys, hproperties⟩ := (hall anchored).2 n hevaluated
    have hempty : m.withNewObject.memory.properties (m.memory.newObject []).1 = [] := Memory.properties_newObject
    rw [hempty] at hproperties
    refine ⟨_, _, rfl, Nat.lt_irrefl _, rfl, hkeys, ?_, fun key => ?_⟩
    · rw [← hkeys, ← Entries.keys_putAll_nil]
      exact congrArg Entries.keys hproperties
    · show (n.memory.properties _).get? key = _
      rw [hproperties, Entries.get?_putAll]
      exact Option.or_none

end GameScript
