import GameScript.Proofs.Run.MirrorCourses
import GameScript.Proofs.Run.Outcomes

/-!
# What the functions do with nested trees

A function of the evaluator does for a tree what it does, in the innermost scope of the nest, for the tree with blocks
around the bodies of functions (`mirrors_expression`, `mirrors_operand`, `mirrors_statement` and their sisters). No name
that a tree declares is reserved there, and so it is for its parts, which declare some of the names (`Admits.left` and
its sisters). A block gets a scope of its own on both sides (`Mirrors.newScope`), and a function becomes a closure that
differs in blocks around its body.
-/

namespace GameScript

open Eval

variable {σ α β : Type}

/-! ## What the functions do -/

section Functions

variable {P : Span → Span → Prop} {w : Nesting} {s : ScopeId} {span span' : Span}

open Plan

theorem isName_eq_of_nests {a b : Operand} (h : a.Nests P b) : a.isName = b.isName := by cases h <;> rfl

theorem Nesting.Admits.left {e : Expression} (h : w.Admits s e.declares) :
    w.Admits s (Operand.declaresSlot e.left) := by
  refine h.of_subset fun name hname => ?_
  obtain ⟨left, op, right, place⟩ := e
  rw [Expression.declares]
  exact List.mem_append_left _ (List.mem_append_right _ hname)

theorem Nesting.Admits.right {e : Expression} (h : w.Admits s e.declares) :
    w.Admits s (Operand.declaresSlot e.right) := by
  refine h.of_subset fun name hname => ?_
  obtain ⟨left, op, right, place⟩ := e
  rw [Expression.declares]
  exact List.mem_append_right _ hname

theorem Nesting.Admits.written {e : Expression} (h : w.Admits s e.declares) :
    w.Admits s (Operand.declaresSlot e.written) := by
  unfold Expression.written
  split
  · exact h.left
  · exact h.right

theorem Expression.Nests.written {e f : Expression} (h : e.Nests P f) :
    Option.Rel (Operand.Nests P) e.written f.written := by
  unfold Expression.written
  rw [isSome_eq_of_nests h.left]
  split
  · exact h.left
  · exact h.right

theorem mirrors_slotValue {a b : Option Operand} (hs : w.Admits s (Operand.declaresSlot a))
    (h : Option.Rel (Operand.Nests P) a b) (hspan : P span span') :
    (slotValue s span a : Plan σ Value).Mirrors P Nesting.Fits w (slotValue (w.nest s).inner span' b) := by
  cases h with
  | none => exact (mirrors_fail hspan _).now
  | some h =>
    exact (mirrors_ask (k := .value) (.operand hs h hspan)).bind fun w₁ v _ hv => (mirrors_resolve hspan hv).now

theorem mirrors_parentValue {a b : Option Operand} (hs : w.Admits s (Operand.declaresSlot a))
    (h : Option.Rel (Operand.Nests P) a b) (hspan : P span span') :
    (parentValue s span a : Plan σ (Value × Bool)).Mirrors P (fun w p => p.1.Inside w.made) w
      (parentValue (w.nest s).inner span' b) := by
  cases h with
  | none => exact (mirrors_fail hspan _).now
  | some h =>
    refine (mirrors_ask (k := .value) (.operand hs h hspan)).bind fun w₁ v _ hv => ?_
    rw [isName_eq_of_nests h]
    exact Plan.mirrors_pure fun w₂ hle => Nesting.inside_mono hle hv

theorem mirrors_target {a b : Option Operand} {mayDeclare : Bool} (hs : w.Admits s (Operand.declaresSlot a))
    (hdeclare : mayDeclare = true → (Operand.declaredName a).Disjoint (w.nest s).names)
    (h : Option.Rel (Operand.Nests P) a b) (hspan : P span span') :
    (target s span mayDeclare a : Plan σ Target).Mirrors P (fun w u => u.Fits w s) w
      (target (w.nest s).inner span' mayDeclare b) := by
  cases h with
  | none => exact (mirrors_fail hspan _).now
  | some h =>
    cases h with
    | @var name role =>
      cases role with
      | use => exact Plan.mirrors_pure fun _ _ => trivial
      | declare =>
        cases mayDeclare with
        | true =>
          refine Plan.mirrors_pure fun w₁ hle => ?_
          have hfree : name ∉ (w.nest s).names := hdeclare rfl List.mem_cons_self
          show name ∉ (w₁.nest s).names
          rwa [Nesting.nest_eq hle hs.made]
        | false => exact (mirrors_fail hspan _).now
    | @expression e f h =>
      show Plan.Mirrors P _ w (if e.operator? = some .child then _ else _ : Plan σ Target)
        (if f.operator? = some .child then _ else _)
      rw [h.operator?_eq]
      split
      · exact (mirrors_ask (k := .reference) (.property hs h)).bind fun w₁ r _ hr =>
          Plan.mirrors_pure fun w₂ hle => hle.1 hr
      · exact (mirrors_fail hspan _).now
    | value _ | object _ | block _ _ | function _ _ _ | call _ _ => exact (mirrors_fail hspan _).now

theorem mirrors_values {before : List Value} {es fs : List Expression}
    (hs : w.Admits s (Expression.declaresAll es)) (h : List.Forall₂ (Expression.Nests P) es fs)
    (hbefore : ∀ v ∈ before, v.Inside w.made) :
    (values s before es : Plan σ (List Value)).Mirrors P (fun w vs => ∀ v ∈ vs, v.Inside w.made) w
      (values (w.nest s).inner before fs) := by
  induction h generalizing before w with
  | nil => exact Plan.mirrors_pure fun w₁ hle v hv => Nesting.inside_mono hle (hbefore v hv)
  | @cons e f es fs hef _ ih =>
    have hfirst : w.Admits s e.declares := hs.of_subset (List.subset_append_left _ _)
    have hrest : w.Admits s (Expression.declaresAll es) := hs.of_subset (List.subset_append_right _ _)
    refine (mirrors_ask (k := .value) (.expression hfirst hef)).bind fun w₁ v hle₁ hv => ?_
    refine (mirrors_resolve hef.span hv).now.bind fun w₂ v hle₂ hv => ?_
    have hle := hle₁.trans hle₂
    rw [← Nesting.nest_eq hle hs.made]
    refine (ih (hrest.mono hle) fun u hu => ?_).holding (Nesting.held_cell hv)
    rcases List.mem_append.1 hu with hu | hu
    · exact Nesting.inside_mono hle (hbefore u hu)
    · exact List.mem_singleton.1 hu ▸ hv

theorem mirrors_properties {o : ObjectId} {ps qs : List Property} (hs : w.Admits s (Property.declaresAll ps))
    (h : List.Forall₂ (Property.Nests P) ps qs) :
    (properties s o ps : Plan σ Unit).Mirrors P (fun _ _ => True) w (properties (w.nest s).inner o qs) := by
  induction h generalizing w with
  | nil => exact Plan.mirrors_pure fun _ _ => trivial
  | @cons p q ps qs hpq _ ih =>
    cases hpq with
    | @mk key e f hef =>
      have hfirst : w.Admits s e.declares := hs.of_subset (List.subset_append_left _ _)
      have hrest : w.Admits s (Property.declaresAll ps) := hs.of_subset (List.subset_append_right _ _)
      refine (mirrors_ask (k := .value) (.expression hfirst hef)).bind fun w₁ v hle₁ hv => ?_
      refine (mirrors_resolve hef.span hv).now.bind fun w₂ v hle₂ hv => ?_
      have hset : (do setMemory ((← memory).setProperty o key v) : Eval σ Unit).Mirrors P (fun _ _ => True) w₂
          (do setMemory ((← memory).setProperty o key v)) := fun w₃ m n hle₃ hmn =>
        ⟨w₃, le_rfl, ⟨hmn.memory.setProperty (Nesting.inside_mono hle₃ hv), hmn.depth, hmn.state⟩, .ok trivial⟩
      refine hset.now.bind fun w₃ _ hle₃ _ => ?_
      have hle := hle₁.trans (hle₂.trans hle₃)
      rw [← Nesting.nest_eq hle hs.made]
      exact ih (hrest.mono hle)

theorem mirrors_statements {body body' : List Statement} (hs : w.Admits s (Statement.declaresAll body))
    (h : List.Forall₂ (Statement.Nests P) body body') :
    (Plan.statements s body : Plan σ Flow).Mirrors P (Kind.Fits .flow) w
      (Plan.statements (w.nest s).inner body') := by
  induction h generalizing w with
  | nil => exact Plan.mirrors_pure fun _ _ => Value.IsScalar.inside (v := .undefined) trivial _
  | @cons x y rest rest' hxy _ ih =>
    have hfirst : w.Admits s x.body.declares := hs.of_subset (List.subset_append_left _ _)
    have hrest : w.Admits s (Statement.declaresAll rest) := hs.of_subset (List.subset_append_right _ _)
    refine (mirrors_ask (k := .flow) (.statement hfirst hxy)).bind fun w₁ flow hle hflow => ?_
    rw [← Nesting.nest_eq hle hs.made]
    cases flow with
    | completed => exact ih (hrest.mono hle)
    | returning v => exact Plan.mirrors_pure fun w₂ hle₂ => Nesting.inside_mono hle₂ hflow

/-- A scope in a scope, and a scope in the innermost one of its nest. -/
theorem Memory.Mirrors.newScope {m n : Memory} (h : m.Mirrors P w n) (hs : m.HasScope s) :
    (m.newScope (some s)).2.Mirrors P
      (w.extend (m.newScope (some s)).1 (.single (n.newScope (some (w.nest s).inner)).1))
      (n.newScope (some (w.nest s).inner)).2 := by
  have hle := w.le_extend (.single (n.newScope (some (w.nest s).inner)).1) (s := (m.newScope (some s)).1)
    (h.made ▸ Memory.not_hasScope_newScope (some s))
  refine h.opens (Memory.enters_newScope h.intactLeft h.rootedLeft hs)
    (Memory.enters_newScope h.intactRight h.rootedRight (h.hasScope_inner hs)) ?_ (h.held.mono hle)
  exact fun p hp => Option.some.inj hp ▸ hs

theorem mirrors_block {body body' : List Statement} (hs : .scope s ∈ w.made)
    (h : List.Forall₂ (Statement.Nests P) body body') : (do
    let inner ← now (create (·.newScope (some s)))
    Plan.holding [.scope inner] (ask (.statements inner body)) : Plan σ Flow).Mirrors P (Kind.Fits .flow) w (do
    let inner ← now (create (·.newScope (some (w.nest s).inner)))
    Plan.holding [.scope inner] (ask (.statements inner body'))) := by
  intro w₁ m n hle hmn
  have hmade := hmn.memory.hasScope (hle.1 hs)
  have hnew := hmn.memory.newScope hmade
  have hfresh : .scope (m.memory.newScope (some s)).1 ∉ w₁.made :=
    hmn.memory.made ▸ Memory.not_hasScope_newScope (some s)
  have hle₂ := w₁.le_extend (.single (n.memory.newScope (some (w₁.nest s).inner)).1) hfresh
  rw [← Nesting.nest_eq hle hs]
  generalize ht : n.memory.newScope (some (w₁.nest s).inner) = r at hnew hle₂
  generalize hu : m.memory.newScope (some s) = q at hnew hle₂
  have hinner : (w₁.extend q.1 (.single r.1)).nest q.1 = .single r.1 := Nesting.nest_extend_self _ _ _
  have hadmits : (w₁.extend q.1 (.single r.1)).Admits q.1 (Statement.declaresAll body) :=
    ⟨.inl rfl, by rw [hinner]; exact List.disjoint_nil_right _⟩
  have hask := Plan.mirrors_ask (σ := σ) (k := .flow) (.statements hadmits h)
  have hheld := Nesting.held_scope hadmits.made [r.1] (by rw [hinner]; exact List.mem_cons_self)
    (by rw [hinner]; exact fun t ht => ht)
  rw [hinner] at hask
  have hrun := hask.holding hheld _ { m with memory := q.2 } { n with memory := r.2 } le_rfl
    ⟨hnew, hmn.depth, hmn.state⟩
  have hplan (m : Machine σ) (s : ScopeId) (body : List Statement) : (do
      let inner ← now (create (·.newScope (some s)))
      Plan.holding [.scope inner] (ask (.statements inner body)) : Plan σ Flow) m =
        Plan.holding [.scope (m.memory.newScope (some s)).1] (ask (.statements (m.memory.newScope (some s)).1 body))
          { m with memory := (m.memory.newScope (some s)).2 } := rfl
  rw [hplan, hplan, ht, hu]
  exact hrun.from hle₂

theorem mirrors_expression {e f : Expression} (hs : w.Admits s e.declares) (h : e.Nests P f) :
    (Plan.expression s e : Plan σ Value).Mirrors P Nesting.Fits w (Plan.expression (w.nest s).inner f) := by
  have hspan := h.span
  unfold Plan.expression
  rw [h.checkShape_eq]
  cases f.checkShape with
  | some fault => exact (mirrors_fail hspan _).now
  | none =>
    have hnests := h
    cases h with
    | @mk left left' right right' op op' _ _ hleft hop hright _ =>
      rcases op with _ | ⟨kind, place⟩ <;> rcases op' with _ | ⟨kind', place'⟩ <;> cases hop
      · cases hleft with
        | none => exact (mirrors_fail hspan _).now
        | some h => exact mirrors_ask (k := .value) (.operand hs.left h hspan)
      · dsimp only
        split
        · exact mirrors_ask (k := .value) (.compound _ hs hnests)
        · cases kind with
          | ret => exact (mirrors_fail hspan _).now
          | assign => exact mirrors_ask (k := .value) (.assignment hs rfl hnests)
          | inc => exact mirrors_ask (k := .value) (.step .inc hs hnests)
          | dec => exact mirrors_ask (k := .value) (.step .dec hs hnests)
          | child =>
            refine (mirrors_ask (k := .reference) (.property hs hnests)).bind fun w₁ r _ hr => ?_
            refine Plan.mirrors_pure fun w₂ hle c hc => ?_
            cases hc
            exact hle.1 hr
          | not => exact (mirrors_slotValue hs.right hright hspan).bind fun w₁ v _ _ => (mirrors_negate hspan v).now
          | _ =>
            refine (mirrors_slotValue hs.left hleft hspan).bind fun w₁ a hle₁ ha => ?_
            rw [← Nesting.nest_eq hle₁ hs.made]
            have hb := (mirrors_slotValue (σ := σ) (hs.mono hle₁).right hright hspan).holding (Nesting.held_cell ha)
            exact hb.bind fun w₂ b _ _ => (mirrors_applyBinary hspan _ a b).now

theorem mirrors_operand {a b : Operand} (hs : w.Admits s a.declares) (h : a.Nests P b) (hspan : P span span') :
    (Plan.operand s span a : Plan σ Value).Mirrors P Nesting.Fits w (Plan.operand (w.nest s).inner span' b) := by
  have hnests := h
  cases h with
  | value literal => exact Plan.mirrors_pure fun w₁ _ => (isScalar_ofLiteral literal).inside w₁.made
  | @var name role place place' hplace =>
    cases role with
    | declare => exact (mirrors_fail hplace _).now
    | use =>
      refine (mirrors_look hplace fun w₁ m n hle hmn => ?_).now
      have hmade := hmn.hasScope (hle.1 hs.made)
      rw [← Nesting.nest_eq hle hs.made]
      exact ⟨hmn.lookup_eq name hmade, fun _ => hmn.inside_lookup hmade⟩
  | @object ps qs h =>
    have hnew : (create (·.newObject []) : Eval σ ObjectId).Mirrors P (fun w o => .object o ∈ w.made) w
        (create (·.newObject [])) := mirrors_create fun w₁ m n _ hmn =>
      ⟨hmn.newObject.1, _, w₁.le_add _, hmn.newObject.2, .inl rfl⟩
    refine hnew.now.bind fun w₁ o hle ho => ?_
    rw [← Nesting.nest_eq hle hs.made]
    have hvalue : (Value.object o).Inside w₁.made := by
      rintro c ⟨⟩
      exact ho
    refine ((mirrors_properties (hs.mono hle) h).holding (Nesting.held_cell hvalue)).bind fun w₂ _ hle₂ _ => ?_
    exact Plan.mirrors_pure fun w₃ hle₃ => Nesting.inside_mono (hle₂.trans hle₃) hvalue
  | block h hplace =>
    refine (mirrors_ask (k := .flow) (.block hs.made h)).bind fun w₁ flow _ _ => ?_
    cases flow with
    | completed => exact Plan.mirrors_pure fun w₂ _ => Value.IsScalar.inside (v := .undefined) trivial w₂.made
    | returning v => exact (mirrors_fail hplace _).now
  | expression h => exact mirrors_ask (k := .value) (.expression hs h)
  | @function parameters body body' place k t h hwraps hfree =>
    have hnew : (create (·.newClosure ⟨parameters, ⟨body, place⟩, s⟩) : Eval σ ClosureId).Mirrors P
        (fun w c => .closure c ∈ w.made) w (create (·.newClosure ⟨parameters, t, (w.nest s).inner⟩)) := by
      refine mirrors_create fun w₁ m n hle hmn => ?_
      have hclosure := hmn.newClosure (f := ⟨parameters, ⟨body, place⟩, s⟩) (g := ⟨parameters, t, (w.nest s).inner⟩)
        ⟨hnests, by rw [← Nesting.nest_eq hle hs.made]⟩ (hmn.hasScope (hle.1 hs.made))
      exact ⟨hclosure.1, _, w₁.le_add _, hclosure.2, .inl rfl⟩
    refine hnew.now.bind fun w₁ c _ hc => Plan.mirrors_pure fun w₂ hle d hd => ?_
    cases hd
    exact hle.1 hc
  | @call e f es fs hef hargs =>
    have hcallee : w.Admits s e.declares := hs.of_subset (List.subset_append_left _ _)
    have harguments : w.Admits s (Expression.declaresAll es) := hs.of_subset (List.subset_append_right _ _)
    refine (mirrors_ask (k := .value) (.expression hcallee hef)).bind fun w₁ v hle₁ hv => ?_
    refine (mirrors_resolve hef.span hv).now.bind fun w₂ v hle₂ hv => ?_
    have hle := hle₁.trans hle₂
    rw [← Nesting.nest_eq hle hs.made]
    have hvalues := mirrors_values (σ := σ) (harguments.mono hle) hargs (List.forall_mem_nil _)
    refine (hvalues.holding (Nesting.held_cell hv)).bind fun w₃ vs hle₃ hvs => ?_
    exact mirrors_ask (k := .value) (.invoke (Nesting.inside_mono hle₃ hv) hvs hspan)

theorem mirrors_statement {x y : Statement} (hs : w.Admits s x.body.declares) (h : x.Nests P y) :
    (Plan.statement s x : Plan σ Flow).Mirrors P (Kind.Fits .flow) w (Plan.statement (w.nest s).inner y) := by
  have hother {e f : Expression} (hs : w.Admits s e.declares) (h : e.Nests P f) : (do
      let _ ← ask (.expression s e)
      return .completed : Plan σ Flow).Mirrors P (Kind.Fits .flow) w (do
      let _ ← ask (.expression (w.nest s).inner f)
      return .completed) :=
    (mirrors_ask (k := .value) (.expression hs h)).bind fun w₁ _ _ _ =>
      Plan.mirrors_pure fun w₂ _ => Value.IsScalar.inside (v := .undefined) trivial w₂.made
  cases h with
  | mk h =>
    have hnests := h
    cases h with
    | @mk left left' right right' op op' place place' hleft hop hright hspan =>
      rcases op with _ | ⟨kind, _⟩ <;> rcases op' with _ | ⟨kind', _⟩ <;> cases hop
      · cases hleft with
        | none => exact hother hs hnests
        | some h =>
          cases h with
          | block hbody _ =>
            cases hright with
            | none => exact mirrors_ask (k := .flow) (.block hs.made hbody)
            | some _ => exact hother hs hnests
          | _ => exact hother hs hnests
      · by_cases hret : kind = .ret
        · subst hret
          cases hleft with
          | some h => cases h <;> exact hother hs hnests
          | none =>
            cases hright with
            | none => exact hother hs hnests
            | some h =>
              have hoperand : w.Admits s (Operand.declaresSlot (some _)) := hs.right
              refine (mirrors_ask (k := .value) (.operand hoperand h hspan)).bind fun w₁ v _ hv => ?_
              refine (mirrors_resolve hspan hv).now.bind fun w₂ v _ hv => ?_
              exact Plan.mirrors_pure fun w₃ hle => Nesting.inside_mono hle hv
        · cases hleft with
          | none => cases kind <;> first | exact absurd rfl hret | exact hother hs hnests
          | some h => cases h <;> exact hother hs hnests

theorem mirrors_assignment {e f : Expression} (hs : w.Admits s e.declares) (hop : e.operator? = some .assign)
    (h : e.Nests P f) :
    (Plan.assignment s e : Plan σ Value).Mirrors P Nesting.Fits w (Plan.assignment (w.nest s).inner f) := by
  have hname : (Operand.declaredName e.written).Disjoint (w.nest s).names := by
    refine fun name hname => hs.free ?_
    obtain ⟨left, op, right, place⟩ := e
    have hassign : op.map Operator.kind = some .assign := hop
    rw [Expression.declares, if_pos hassign]
    exact List.mem_append_left _ (List.mem_append_left _ hname)
  refine (mirrors_slotValue hs.right h.right h.span).bind fun w₁ v hle₁ hv => ?_
  rw [← Nesting.nest_eq hle₁ hs.made] at hname ⊢
  have hs₁ := hs.mono hle₁
  have hwrite : (do
      let u ← target s e.span true e.written
      now (updateMemory e.span (u.write v s)) : Plan σ Unit).Mirrors P (fun _ _ => True) w₁ (do
      let u ← target (w₁.nest s).inner f.span true f.written
      now (updateMemory f.span (u.write v (w₁.nest s).inner))) := by
    refine (mirrors_target hs₁.written (fun _ => hname) h.written h.span).bind fun w₂ u hle₂ hu => ?_
    rw [← Nesting.nest_eq hle₂ hs₁.made]
    exact (mirrors_write h.span (hle₂.1 hs₁.made) hu (Nesting.inside_mono hle₂ hv)).now
  refine (hwrite.holding (Nesting.held_cell hv)).bind fun w₂ _ hle₂ _ => ?_
  exact Plan.mirrors_pure fun w₃ hle₃ => Nesting.inside_mono (hle₂.trans hle₃) hv

theorem mirrors_compound {e f : Expression} (base : OperatorKind) (hs : w.Admits s e.declares) (h : e.Nests P f) :
    (Plan.compound s base e : Plan σ Value).Mirrors P Nesting.Fits w (Plan.compound (w.nest s).inner base f) := by
  refine (mirrors_slotValue hs.right h.right h.span).bind fun w₁ v hle₁ hv => ?_
  have hs₁ := hs.mono hle₁
  rw [← Nesting.nest_eq hle₁ hs.made]
  refine Plan.Mirrors.holding ?_ (Nesting.held_cell hv)
  refine (mirrors_target hs₁.written (fun h => by cases h) h.written h.span).bind fun w₂ u hle₂ hu => ?_
  have hs₂ := hs₁.mono hle₂
  rw [← Nesting.nest_eq hle₂ hs₁.made]
  refine (mirrors_read h.span hs₂.made hu).now.bind fun w₃ a hle₃ _ => ?_
  refine (mirrors_applyBinary h.span base a v).now.bind fun w₄ c hle₄ hc => ?_
  have hle := hle₃.trans hle₄
  rw [← Nesting.nest_eq hle hs₂.made]
  refine (mirrors_write h.span (hle.1 hs₂.made) (hu.mono hle hs₂.made) hc).now.bind fun w₅ _ hle₅ _ => ?_
  exact Plan.mirrors_pure fun w₆ hle₆ => Nesting.inside_mono (hle₅.trans hle₆) hc

theorem mirrors_step {e f : Expression} (op : OperatorKind) (hs : w.Admits s e.declares) (h : e.Nests P f) :
    (Plan.step s op e : Plan σ Value).Mirrors P Nesting.Fits w (Plan.step (w.nest s).inner op f) := by
  refine (mirrors_target hs.written (fun h => by cases h) h.written h.span).bind fun w₁ u hle hu => ?_
  have hnew : e.left.isNone = f.left.isNone := by
    rw [← Option.not_isSome, ← Option.not_isSome, isSome_eq_of_nests h.left]
  rw [← Nesting.nest_eq hle hs.made, hnew]
  exact (mirrors_stepBy h.span op _ (hle.1 hs.made) hu).now

theorem mirrors_property {e f : Expression} (hs : w.Admits s e.declares) (h : e.Nests P f) : (do
    let key ← now (memberName e.span e.right)
    let (parent, named) ← parentValue s e.span e.left
    now (referenceTo e.span key named parent) : Plan σ Reference).Mirrors P (Kind.Fits .reference) w (do
    let key ← now (memberName f.span f.right)
    let (parent, named) ← parentValue (w.nest s).inner f.span f.left
    now (referenceTo f.span key named parent)) := by
  refine (mirrors_memberName h.span h.right).now.bind fun w₁ key hle _ => ?_
  rw [← Nesting.nest_eq hle hs.made]
  refine (mirrors_parentValue (hs.mono hle).left h.left h.span).bind fun w₂ p _ hp => ?_
  exact (mirrors_referenceTo h.span key p.2 hp).now

end Functions

end GameScript
