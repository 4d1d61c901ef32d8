import GameScript.Proofs.Run.Alike
import GameScript.Proofs.Run.Paired

/-!
# Courses that match

What is done at one machine and what is done at another one match when, from machines that match, they end with values
that match or with the same error, at machines that match (`Eval.Matches`). Courses match when they ask for tasks that
match, at machines that match, and go on so wherever these have matching outcomes (`Course.Matches`). Tasks match when
they are the same but for places and for the scopes that they are done in, which match (`Task.Matches`).

Matching is carried from part to part: through a sequence (`Plan.Matches.bind`), while cells are held
(`Plan.Matches.holding`), and to a course that is like another one but for places (`Course.Matches.congr`).
-/

namespace GameScript

open Eval

variable {σ α β : Type}

/-! ## Machines -/

/-- Machines with memories that match by a link, and with states of the host that are related under it. -/
structure Machine.Matches (T : Link → σ → σ → Prop) (R : Link) (m n : Machine σ) : Prop where
  memory : Pairing.Matched ⟨m.memory, n.memory, R⟩
  depth : m.depth = n.depth
  state : T R m.state n.state

/-- Machines that match, with memories that those of a pairing have become. -/
structure Pairing.Attains (T : Link → σ → σ → Prop) (x : Pairing) (R : Link) (m n : Machine σ) : Prop where
  memory : x.Becomes ⟨m.memory, n.memory, R⟩
  depth : m.depth = n.depth
  state : T R m.state n.state

section Machines

variable {T : Link → σ → σ → Prop} {R S : Link} {x y : Pairing} {m n m' n' : Machine σ}

theorem Pairing.Attains.matches (h : x.Attains T R m n) : m.Matches T R n := ⟨h.memory.matched, h.depth, h.state⟩

theorem Machine.Matches.attains (h : m.Matches T R n) : Pairing.Attains T ⟨m.memory, n.memory, R⟩ R m n :=
  ⟨h.memory.refl, h.depth, h.state⟩

theorem Pairing.Attains.from (h : y.Attains T R m n) (hxy : x.Becomes y) : x.Attains T R m n :=
  ⟨hxy.trans h.memory, h.depth, h.state⟩

/-- Memories that have become others, with the link grown, under machines that match. -/
theorem Machine.Matches.become (hT : Monotone T) (h : m.Matches T R n) {k l : Memory}
    (hkl : Pairing.Becomes ⟨m.memory, n.memory, R⟩ ⟨k, l, S⟩) :
    Pairing.Attains T ⟨m.memory, n.memory, R⟩ S { m with memory := k } { n with memory := l } :=
  ⟨hkl, h.depth, hT hkl.link _ _ h.state⟩

end Machines

/-! ## Computations -/

/-- Computations that end with related outcomes at machines that match, from machines that match. -/
def Eval.Matches (T : Link → σ → σ → Prop) (Q : Link → α → α → Prop) (R : Link) (ev ev' : Eval σ α) : Prop :=
  ∀ S m n, R ≤ S → m.Matches T S n → ∃ S', Pairing.Attains T ⟨m.memory, n.memory, S⟩ S' (ev m).2 (ev' n).2 ∧
    Corresponds (Q S') (ev m).1 (ev' n).1

section Computations

variable {T : Link → σ → σ → Prop} {Q : Link → α → α → Prop} {R : Link} {span span' : Span}

theorem Eval.Matches.bind {P : Link → β → β → Prop} {ev ev' : Eval σ α} {f f' : α → Eval σ β}
    (h : ev.Matches T Q R ev') (hf : ∀ S a b, R ≤ S → Q S a b → (f a).Matches T P S (f' b)) :
    (ev >>= f).Matches T P R (ev' >>= f') := by
  intro S m n hle hmn
  obtain ⟨S₁, hm, hr⟩ := h S m n hle hmn
  rw [Eval.bind_apply, Eval.bind_apply]
  rcases hev : ev m with ⟨_ | a, m'⟩ <;> rcases hev' : ev' n with ⟨_ | b, n'⟩ <;> rw [hev, hev'] at hr hm
  · exact ⟨S₁, hm, hr⟩
  · exact hr.elim
  · exact hr.elim
  · obtain ⟨S₂, hm', hr'⟩ := hf S₁ a b (hle.trans hm.memory.link) hr S₁ m' n' le_rfl hm.matches
    exact ⟨S₂, hm'.from hm.memory, hr'⟩

theorem Eval.matches_pure {a b : α} (h : ∀ S, R ≤ S → Q S a b) : (pure a : Eval σ α).Matches T Q R (pure b) :=
  fun S _ _ hle hmn => ⟨S, hmn.attains, h S hle⟩

theorem matches_fail (e : RuntimeError) : (fail span e : Eval σ α).Matches T Q R (fail span' e) :=
  fun S _ _ _ hmn => ⟨S, hmn.attains, rfl⟩

/-- Answers that are related, or the same error, at machines that match. -/
theorem Machine.Matches.lift {m n : Machine σ} (hmn : m.Matches T R n) {x y : Except RuntimeError α}
    (h : Agrees (Q R) x y) : ∃ S, Pairing.Attains T ⟨m.memory, n.memory, R⟩ S
      (Eval.lift span x m : Except RuntimeFault α × Machine σ).2 (Eval.lift span' y n).2 ∧
        Corresponds (Q S) (Eval.lift span x m).1 (Eval.lift span' y n).1 := by
  rcases x with e | a <;> rcases y with e' | b
  · exact ⟨R, hmn.attains, h⟩
  · exact h.elim
  · exact h.elim
  · exact ⟨R, hmn.attains, h⟩

/-- Looking at memory. -/
theorem matches_look {look look' : Memory → Except RuntimeError α}
    (h : ∀ x : Pairing, x.Matched → R ≤ x.link → Agrees (Q x.link) (look x.left) (look' x.right)) :
    (do Eval.lift span (look (← memory)) : Eval σ α).Matches T Q R (do Eval.lift span' (look' (← memory))) :=
  fun S m n hle hmn => hmn.lift (h ⟨m.memory, n.memory, S⟩ hmn.memory hle)

theorem matches_lift (x : Except RuntimeError α) (h : ∀ S a, R ≤ S → x = .ok a → Q S a a) :
    (Eval.lift span x : Eval σ α).Matches T Q R (Eval.lift span' x) := by
  refine fun S m n hle hmn => hmn.lift ?_
  cases x with
  | ok a => exact h S a hle rfl
  | error e => exact rfl

variable (hT : Monotone T)

include hT

theorem matches_updateMemory {change change' : Memory → Except RuntimeError Memory}
    (h : ∀ x : Pairing, x.Matched → R ≤ x.link →
      Agrees (fun m n => x.Becomes ⟨m, n, x.link⟩) (change x.left) (change' x.right)) :
    (updateMemory span change : Eval σ Unit).Matches T (fun _ _ _ => True) R (updateMemory span' change') := by
  intro S m n hle hmn
  have hchange : Agrees (fun k l => Pairing.Becomes ⟨m.memory, n.memory, S⟩ ⟨k, l, S⟩) (change m.memory)
      (change' n.memory) := h ⟨m.memory, n.memory, S⟩ hmn.memory hle
  have hstep (span : Span) (change : Memory → Except RuntimeError Memory) (m : Machine σ) :
      updateMemory span change m = (Eval.lift span (change m.memory) >>= setMemory : Eval σ Unit) m := rfl
  rw [hstep, hstep]
  generalize change m.memory = a, change' n.memory = b at hchange
  rcases a with e | k <;> rcases b with e' | l
  · exact ⟨S, hmn.attains, hchange⟩
  · exact hchange.elim
  · exact hchange.elim
  · exact ⟨S, hmn.become hT hchange, trivial⟩

theorem matches_create {make make' : Memory → α × Memory}
    (h : ∀ x : Pairing, x.Matched → R ≤ x.link → ∃ S, x.Becomes ⟨(make x.left).2, (make' x.right).2, S⟩ ∧
      Q S (make x.left).1 (make' x.right).1) : (create make : Eval σ α).Matches T Q R (create make') := by
  intro S m n hle hmn
  obtain ⟨S', hnew, hq⟩ := h ⟨m.memory, n.memory, S⟩ hmn.memory hle
  exact ⟨S', hmn.become hT hnew, hq⟩

/-! ### Operations on values -/

variable {s t : ScopeId} {v w : Value} {u u' : Target}

omit hT in
theorem matches_resolve (h : v.Matches R w) :
    (resolve span v : Eval σ Value).Matches T Value.Matches R (resolve span' w) :=
  matches_look fun _ hx hle => hx.resolve (h.mono hle)

omit hT in
theorem matches_read (hs : R (.scope s) (.scope t)) (hu : u.Matches R u') :
    (do Eval.lift span (u.read (← memory) s) : Eval σ Value).Matches T Value.Matches R
      (do Eval.lift span' (u'.read (← memory) t)) :=
  matches_look fun _ hx hle => hx.targetRead (hle _ _ hs) (hu.mono hle)

theorem matches_write (hs : R (.scope s) (.scope t)) (hu : u.Matches R u') (h : v.Matches R w) :
    (updateMemory span (u.write v s) : Eval σ Unit).Matches T (fun _ _ _ => True) R
      (updateMemory span' (u'.write w t)) :=
  matches_updateMemory hT fun _ hx hle => hx.targetWrite (hle _ _ hs) (hu.mono hle) (h.mono hle)

omit hT in
theorem matches_negate (h : v.Matches R w) :
    (negate span v : Eval σ Value).Matches T Value.Matches R (negate span' w) := by
  cases h with
  | @same v _ =>
    cases v with
    | bool b => exact Eval.matches_pure fun _ _ => .same rfl
    | _ => exact matches_fail _
  | object _ | closure _ | reference _ => exact matches_fail _

omit hT in
theorem matches_memberName (a : Option Operand) :
    (memberName span a : Eval σ String).Matches T (fun _ => (· = ·)) R (memberName span a) := by
  unfold memberName
  split
  · exact Eval.matches_pure fun _ _ => rfl
  · exact matches_fail _

omit hT in
/-- The reference to a property of what a value stands for, anchored or not on both sides. -/
theorem matches_referenceIn (key : String) {anchored anchored' : Bool} (hanchored : anchored = anchored')
    (h : v.Matches R w) : (do
      match ← resolve span v with
      | .object o => return ⟨o, key, anchored⟩
      | other => fail span (.notAnObject key other.type) : Eval σ Reference).Matches T Reference.Matches R (do
      match ← resolve span' w with
      | .object o => return ⟨o, key, anchored'⟩
      | other => fail span' (.notAnObject key other.type)) := by
  refine (matches_resolve h).bind fun S a b _ hab => ?_
  cases hab with
  | same ha => cases a <;> first | exact matches_fail _ | cases ha
  | object ho => exact Eval.matches_pure fun S' hle => ⟨hle _ _ ho, rfl, hanchored⟩
  | closure _ | reference _ => exact matches_fail _

omit hT in
theorem matches_referenceTo (key : String) (named : Bool) (h : v.Matches R w) :
    (referenceTo span key named v : Eval σ Reference).Matches T Reference.Matches R
      (referenceTo span' key named w) := by
  cases h with
  | reference h => exact matches_referenceIn key (congrArg (!named && ·) h.anchored) (.reference h)
  | @same v hv => cases v <;> exact matches_referenceIn key rfl (.same hv)
  | object h => exact matches_referenceIn key rfl (.object h)
  | closure h => exact matches_referenceIn key rfl (.closure h)

omit hT in
theorem matches_applyBinary {v' w' : Value} (h : v.Matches R w) (h' : v'.Matches R w') (op : OperatorKind) :
    (Eval.lift span (applyBinary op v v') : Eval σ Value).Matches T Value.Matches R
      (Eval.lift span' (applyBinary op w w')) := by
  intro S m n hle hmn
  rw [(h.mono hle).applyBinary_eq hmn.memory.unique (h'.mono hle)]
  exact matches_lift _ (fun _ a _ ha => ((plain_applyBinary op w w').2 a ha).matches) S m n hle hmn

theorem matches_stepBy (op : OperatorKind) (new : Bool) (hs : R (.scope s) (.scope t)) (hu : u.Matches R u') :
    (stepBy op new s span (pure u) : Eval σ Value).Matches T Value.Matches R (stepBy op new t span' (pure u')) := by
  refine (Eval.matches_pure (Q := Target.Matches) fun _ hle => hu.mono hle).bind fun R₁ u u' hle₁ hu => ?_
  have hs₁ := hle₁ _ _ hs
  have htarget := hu
  cases hu with
  | @property r r' hr =>
    show Eval.Matches T _ R₁ (fail span (.typeError (.stepOfProperty op r.key)) : Eval σ Value)
      (fail span' (.typeError (.stepOfProperty op r'.key)))
    rw [hr.key]
    exact matches_fail _
  | declare name | existing name =>
    show Eval.Matches T _ R₁ (memory >>= fun k => Eval.lift span (Target.read k s _) >>= _ : Eval σ Value)
      (memory >>= fun k => Eval.lift span' (Target.read k t _) >>= _)
    rw [← bind_assoc (m := Eval σ), ← bind_assoc (m := Eval σ)]
    refine (matches_read hs₁ htarget).bind fun R₂ v w hle₂ hvw => ?_
    cases hvw with
    | same _ =>
      cases v with
      | int old =>
        have hscalar (k : Int) : ∀ v, checked op k = .ok v → v.IsScalar := (plain_checked k).2
        refine (matches_lift _ fun S v _ hv => (hscalar _ v hv).matches (R := S)).bind fun R₃ new new' hle₃ hnew => ?_
        have hle := hle₂.trans hle₃
        refine (matches_write hT (hle _ _ hs₁) (htarget.mono hle) hnew).bind fun R₄ _ _ hle₄ _ => ?_
        refine Eval.matches_pure fun S hS => ?_
        split
        · exact hnew.mono (hle₄.trans hS)
        · exact .same rfl
      | _ => exact matches_fail _
    | object _ | closure _ | reference _ => exact matches_fail _

end Computations

/-! ## Tasks -/

/-- Flows that go on in the same way, with values that match. -/
inductive Flow.Matches (R : Link) : Flow → Flow → Prop
  | completed : Flow.Matches R .completed .completed
  | returning {v w : Value} (h : v.Matches R w) : Flow.Matches R (.returning v) (.returning w)

theorem Flow.Matches.value {R : Link} {f f' : Flow} (h : f.Matches R f') : f.value.Matches R f'.value := by
  cases h with
  | completed => exact .same rfl
  | returning h => exact h

/-- Answers of a kind that match. -/
abbrev Kind.Matches : (k : Kind) → Link → k.Answer → k.Answer → Prop
  | .flow => Flow.Matches
  | .value => Value.Matches
  | .reference => Reference.Matches

/-- The same task in another scope. -/
def Task.inScope (t : ScopeId) : {k : Kind} → Task k → Task k
  | _, .statements _ body => .statements t body
  | _, .statement _ s => .statement t s
  | _, .block _ s => .block t s
  | _, .expression _ e => .expression t e
  | _, .operand _ span a => .operand t span a
  | _, .property _ e => .property t e
  | _, .assignment _ e => .assignment t e
  | _, .compound _ base e => .compound t base e
  | _, .step _ op e => .step t op e
  | _, .invoke callee args span => .invoke callee args span
  | _, .enter c args span => .enter c args span

/-- Tasks that are the same but for places, in scopes that match, and calls of values that match with arguments that
match. -/
inductive Task.Matches (R : Link) : {k : Kind} → Task k → Task k → Prop
  | tree {k : Kind} {task task' : Task k} {s t : ScopeId} (hscope : task.scope? = some s)
      (hs : R (.scope s) (.scope t)) (hplaces : (task.inScope t).eraseSpans = task'.eraseSpans) :
      Task.Matches R task task'
  | invoke {f g : Value} {args args' : List Value} {span span' : Span} (hf : f.Matches R g)
      (hargs : List.Forall₂ (Value.Matches R) args args') : Task.Matches R (.invoke f args span) (.invoke g args' span')
  | enter {c d : ClosureId} {args args' : List Value} {span span' : Span} (hc : R (.closure c) (.closure d))
      (hargs : List.Forall₂ (Value.Matches R) args args') : Task.Matches R (.enter c args span) (.enter d args' span')

section Tasks

variable {R S : Link} {k : Kind} {task task' task'' : Task k}

theorem Task.Matches.mono (h : task.Matches R task') (hle : R ≤ S) : task.Matches S task' := by
  have hargs {args args' : List Value} (h : List.Forall₂ (Value.Matches R) args args') :
      List.Forall₂ (Value.Matches S) args args' := h.imp fun _ _ hvw => hvw.mono hle
  cases h with
  | tree hscope hs hplaces => exact .tree hscope (hle _ _ hs) hplaces
  | invoke hf h => exact .invoke (hf.mono hle) (hargs h)
  | enter hc h => exact .enter (hle _ _ hc) (hargs h)

/-- Places make no difference. -/
theorem Task.Matches.congr (h : task.Matches R task') (h' : task'.eraseSpans = task''.eraseSpans) :
    task.Matches R task'' := by
  cases h with
  | tree hscope hs hplaces => exact .tree hscope hs (hplaces.trans h')
  | invoke hf hargs =>
    cases task'' <;> cases h'
    exact .invoke hf hargs
  | enter hc hargs =>
    cases task'' <;> cases h'
    exact .enter hc hargs

end Tasks

/-! ## Courses -/

/-- Courses that ask for tasks that match, at machines that match, and go on so when those have matching outcomes, till
they end with related outcomes. The memories of the machines have become of those of a pairing. -/
inductive Course.Matches (T : Link → σ → σ → Prop) (Q : Link → α → α → Prop) (x : Pairing) :
    Course σ α → Course σ α → Prop
  | ended {R : Link} {r s : Except RuntimeFault α} {m n : Machine σ} (hm : x.Attains T R m n)
      (hr : Corresponds (Q R) r s) : Course.Matches T Q x (.ended r m) (.ended s n)
  | asks {R : Link} {k : Kind} {task task' : Task k} {m n : Machine σ}
      {resume resume' : Except RuntimeFault k.Answer → Machine σ → Course σ α} (hm : x.Attains T R m n)
      (htask : task.Matches R task')
      (hrest : ∀ S r s m' n', Pairing.Attains T ⟨m.memory, n.memory, R⟩ S m' n' → Corresponds (k.Matches S) r s →
        Course.Matches T Q x (resume r m') (resume' s n')) :
      Course.Matches T Q x (.asks task m resume) (.asks task' n resume')

/-- Plans that make courses that match of machines that do. -/
def Plan.Matches (T : Link → σ → σ → Prop) (Q : Link → α → α → Prop) (R : Link) (act act' : Plan σ α) : Prop :=
  ∀ S m n, R ≤ S → m.Matches T S n → (act m).Matches T Q ⟨m.memory, n.memory, S⟩ (act' n)

section Courses

variable {T : Link → σ → σ → Prop} {Q : Link → α → α → Prop} {P : Link → β → β → Prop} {R : Link} {x y : Pairing}

/-- Outcomes that differ in places alone correspond to the same. -/
theorem Corresponds.congr {Q : α → α → Prop} {r s s' : Except RuntimeFault α} (h : Corresponds Q r s)
    (h' : Corresponds (· = ·) s s') : Corresponds Q r s' := by
  cases r <;> cases s <;> cases s' <;> first | exact h' ▸ h | exact Eq.trans h h' | exact h.elim | exact h'.elim

theorem Course.Matches.from {c c' : Course σ α} (h : c.Matches T Q y c') (hxy : x.Becomes y) : c.Matches T Q x c' := by
  induction h with
  | ended hm hr => exact .ended (hm.from hxy) hr
  | asks hm htask _ ih => exact .asks (hm.from hxy) htask ih

theorem Course.Matches.andThen {c c' : Course σ α} {next next' : Except RuntimeFault α → Machine σ → Course σ β}
    (h : c.Matches T Q x c') (hnext : ∀ S r s m n, x.Attains T S m n → Corresponds (Q S) r s →
      (next r m).Matches T P x (next' s n)) : (c.andThen next).Matches T P x (c'.andThen next') := by
  induction h with
  | ended hm hr => exact hnext _ _ _ _ _ hm hr
  | asks hm htask _ ih => exact .asks hm htask ih

/-- A course that is like one that matches but for places matches. -/
theorem Course.Matches.congr {c c' c'' : Course σ α} (h : c.Matches T Q x c') (h' : c'.Alike (· = ·) c'') :
    c.Matches T Q x c'' := by
  have hcongr {R : Link} {m n n' : Machine σ} (hm : x.Attains T R m n) (hn : n.Alike n') : x.Attains T R m n' :=
    ⟨hm.memory.congr (.refl _) hn.memory, hm.depth.trans hn.depth, hn.state ▸ hm.state⟩
  induction h generalizing c'' with
  | ended hm hr =>
    cases h' with
    | ended hr' hm' =>
      exact .ended (hcongr hm hm') (hr.congr hr')
  | asks hm htask _ ih =>
    cases h' with
    | asks htask' hm' hrest' =>
      refine .asks (hcongr hm hm') (htask.congr htask') fun S r s k l hkl hr => ?_
      have hpair := hm.matches.attains.memory.congr (.refl _) hm'.memory
      exact ih S r s k l (hkl.from hpair) hr (hrest' s s l l (.refl s) (.refl l))

theorem Eval.Matches.now {ev ev' : Eval σ α} (h : ev.Matches T Q R ev') :
    (Plan.now ev).Matches T Q R (Plan.now ev') := by
  intro S m n hle hmn
  obtain ⟨S', hm, hr⟩ := h S m n hle hmn
  exact .ended hm hr

theorem Plan.matches_pure {a b : α} (h : ∀ S, R ≤ S → Q S a b) : (pure a : Plan σ α).Matches T Q R (pure b) :=
  fun S _ _ hle hmn => .ended hmn.attains (h S hle)

theorem Plan.matches_ask {k : Kind} {task task' : Task k} (h : task.Matches R task') :
    (Plan.ask task : Plan σ k.Answer).Matches T k.Matches R (Plan.ask task') :=
  fun _ _ _ hle hmn => .asks hmn.attains (h.mono hle) fun _ _ _ _ _ hm hr => .ended hm hr

theorem Plan.Matches.bind {act act' : Plan σ α} {f f' : α → Plan σ β} (h : act.Matches T Q R act')
    (hf : ∀ S a b, R ≤ S → Q S a b → (f a).Matches T P S (f' b)) : (act >>= f).Matches T P R (act' >>= f') := by
  refine fun S m n hle hmn => (h S m n hle hmn).andThen fun S' r s m' n' hm hr => ?_
  rcases r with f | a <;> rcases s with g | b
  · exact .ended hm hr
  · exact hr.elim
  · exact hr.elim
  · exact (hf S' a b (hle.trans hm.memory.link) hr S' m' n' le_rfl hm.matches).from hm.memory

/-- What is done while cells are held that match. -/
theorem Plan.Matches.holding {act act' : Plan σ α} (h : act.Matches T Q R act') {cs ds : List Cell}
    (hcells : List.Forall₂ R cs ds) : (act.holding cs).Matches T Q R (act'.holding ds) := by
  intro S m n hle hmn
  obtain ⟨hheld, -⟩ := hmn.memory.holding (hcells.imp hle)
  have hmn' : Machine.Matches T S { m with memory := m.memory.holding cs } { n with memory := n.memory.holding ds } :=
    ⟨hheld.matched, hmn.depth, hmn.state⟩
  refine ((h S _ _ hle hmn').from hheld).andThen fun S' r s m' n' hm hr => ?_
  exact .ended ⟨hm.memory.released hmn.memory, hm.depth, hm.state⟩ hr

theorem Plan.Matches.deeper {act act' : Plan σ α} (h : act.Matches T Q R act') :
    act.deeper.Matches T Q R act'.deeper := by
  intro S m n hle hmn
  have hmn' : Machine.Matches T S { m with depth := m.depth + 1 } { n with depth := n.depth + 1 } :=
    ⟨hmn.memory, congrArg (· + 1) hmn.depth, hmn.state⟩
  refine (h S _ _ hle hmn').andThen fun S' r s m' n' hm hr => ?_
  exact .ended ⟨hm.memory, congrArg (· - 1) hm.depth, hm.state⟩ hr

theorem Plan.Matches.attempt {act act' : Plan σ α} (h : act.Matches T Q R act') :
    act.attempt.Matches T (fun S => Corresponds (Q S)) R act'.attempt :=
  fun S m n hle hmn => Course.Matches.andThen (h S m n hle hmn) fun _ _ _ _ _ hm hr => .ended hm hr

/-- A plan that is like one that matches but for places matches. -/
theorem Plan.Matches.congr {act act' act'' : Plan σ α} (h : act.Matches T Q R act') (h' : act'.Alike (· = ·) act'') :
    act.Matches T Q R act'' := fun S m n hle hmn => (h S m n hle hmn).congr (h' n n (.refl n))

end Courses

end GameScript
