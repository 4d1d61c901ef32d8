import GameScript.Proofs.Run.MirrorChanges
import GameScript.Proofs.Run.Pieces

/-!
# Statements in blocks

A block is done by making a scope in the one around it and running its statements there. So what is done with statements
in `k` nested blocks is what is done with them in the innermost of `k` new scopes, while the scopes are held
(`follows_runInside`): to one course there is another one that ends alike with the same calls of functions of the host
(`Course.Follows`).

A `return` leaves all blocks around it. `Statement.UpTo` relates statements to some of them, up to a place at any depth
of blocks. Where those end with a return, all of them do, with the same value and the same machine: what stands behind
the place in any of the blocks is not run (`UpTo.decides`). In a call this return is the answer
(`callWithin_of_returning`).
-/

namespace GameScript

open Eval

variable {σ α β : Type}

theorem Course.andThen_ended (c : Course σ α) : c.andThen .ended = c := by
  induction c with
  | ended r m => rfl
  | asks task m resume ih => exact congrArg (Course.asks task m) (funext fun r => funext fun m => ih r m)

/-! ## Courses that do what others do -/

section Follows

variable (host : Host σ) (limit : Nat)

/-- However the first course ends, the second one ends so too, with the same calls of functions of the host. -/
def Course.Follows (c c' : Course σ α) : Prop :=
  ∀ r m, Finishes host limit c r m →
    Finishes host limit c' r m ∧ ∀ log, c.MakesCalls host limit log → c'.MakesCalls host limit log

variable {host limit} {c c' : Course σ α} {next : Except RuntimeFault α → Machine σ → Course σ β}

theorem Course.Follows.refl (c : Course σ α) : c.Follows host limit c := fun _ _ h => ⟨h, fun _ h => h⟩

theorem Course.Follows.trans {c'' : Course σ α} (h : c.Follows host limit c') (h' : c'.Follows host limit c'') :
    c.Follows host limit c'' := fun r m hrun =>
  ⟨(h' r m (h r m hrun).1).1, fun log hlog => (h' r m (h r m hrun).1).2 log ((h r m hrun).2 log hlog)⟩

theorem finishes_andThen_iff {r : Except RuntimeFault β} {m : Machine σ} :
    Finishes host limit (c.andThen next) r m ↔
      ∃ a k, Finishes host limit c a k ∧ Finishes host limit (next a k) r m := by
  induction c with
  | ended a k =>
    constructor
    · exact fun h => ⟨a, k, .ended a k, h⟩
    · rintro ⟨_, _, ⟨⟩, h⟩
      exact h
  | asks task k resume ih =>
    constructor
    · rintro (_ | ⟨hdone, hrest⟩)
      obtain ⟨a, l, hfirst, hnext⟩ := (ih _ _).1 hrest
      exact ⟨a, l, .asks hdone hfirst, hnext⟩
    · rintro ⟨a, l, _ | ⟨hdone, hrest⟩, hnext⟩
      exact .asks hdone ((ih _ _).2 ⟨a, l, hrest, hnext⟩)

/-- The calls of two courses, one behind the other, are those of the first and then those of the second. -/
theorem makesCalls_andThen_iff {a : Except RuntimeFault α} {k : Machine σ} (h : Finishes host limit c a k)
    {log : List (NativeId × List Value)} : (c.andThen next).MakesCalls host limit log ↔
      ∃ first rest, c.MakesCalls host limit first ∧ (next a k).MakesCalls host limit rest ∧ log = first ++ rest := by
  induction h generalizing log with
  | ended a k =>
    constructor
    · exact fun h => ⟨[], log, .ended a k, h, rfl⟩
    · rintro ⟨_, rest, ⟨⟩, h, rfl⟩
      exact h
  | asks hdone hrest _ ih =>
    constructor
    · rintro (_ | ⟨hdone', hbelow, hcalls⟩)
      obtain ⟨rfl, rfl⟩ := hdone.unique hdone'
      obtain ⟨first, rest, hfirst, hnext, rfl⟩ := ih.1 hcalls
      exact ⟨_, rest, .asks hdone hbelow hfirst, hnext, by simp only [List.append_assoc]⟩
    · rintro ⟨_, rest, _ | ⟨hdone', hbelow, hcalls⟩, hnext, rfl⟩
      obtain ⟨rfl, rfl⟩ := hdone.unique hdone'
      rw [List.append_assoc]
      exact .asks hdone hbelow (ih.2 ⟨_, rest, hcalls, hnext, rfl⟩)

theorem Course.Follows.andThen (h : c.Follows host limit c') :
    (c.andThen next).Follows host limit (c'.andThen next) := by
  intro r m hrun
  obtain ⟨a, k, hfirst, hnext⟩ := finishes_andThen_iff.1 hrun
  obtain ⟨hfirst', hcalls⟩ := h a k hfirst
  refine ⟨finishes_andThen_iff.2 ⟨a, k, hfirst', hnext⟩, fun log hlog => ?_⟩
  obtain ⟨first, rest, hlogFirst, hlogRest, rfl⟩ := (makesCalls_andThen_iff hfirst).1 hlog
  exact (makesCalls_andThen_iff hfirst').2 ⟨first, rest, hcalls _ hlogFirst, hlogRest, rfl⟩

/-- A course that asks for one task alone does what the task does. -/
theorem follows_asks {k : Kind} {task : Task k} {m : Machine σ} {c : Course σ k.Answer}
    (resume : Except RuntimeFault k.Answer → Machine σ → Course σ β) (hcalls : task.hostCalls = [])
    (h : c.Follows host limit (task.plan host limit m)) :
    (c.andThen resume).Follows host limit (.asks task m resume) := by
  intro r n hrun
  obtain ⟨a, l, hfirst, hnext⟩ := finishes_andThen_iff.1 hrun
  obtain ⟨hdone, hbelow⟩ := h a l hfirst
  refine ⟨.asks hdone hnext, fun log hlog => ?_⟩
  obtain ⟨first, rest, hlogFirst, hlogRest, rfl⟩ := (makesCalls_andThen_iff hfirst).1 hlog
  have hasks := Course.MakesCalls.asks hdone (hbelow _ hlogFirst) hlogRest
  rwa [hcalls, List.nil_append] at hasks

theorem Course.Follows.body {act act' : Plan σ Flow} {m : Machine σ}
    (h : (act { m with depth := m.depth + 1 }).Follows host limit (act' { m with depth := m.depth + 1 })) :
    (act.body m).Follows host limit (act'.body m) := h.andThen.andThen

end Follows

/-! ## Blocks around the body of a function -/

/-- Runs statements inside `k` blocks in the innermost scope of a nest, while the scopes of all blocks are held. -/
def Plan.runInside (k : Nat) (body : List Statement) (b : Nest) : Plan σ Flow := fun m =>
  .asks (.statements ((m.memory.holding [.scope b.inner]).intoBlocks b k).1.inner body)
    { m with memory := ((m.memory.holding [.scope b.inner]).intoBlocks b k).2 } fun result n =>
      .ended result { n with memory := { n.memory with held := m.memory.held } }

section Blocks

variable {host : Host σ} {limit k : Nat} {body : List Statement} {s : Scope}

theorem statements_singleton (t : ScopeId) (x : Statement) :
    (Plan.statements t [x] : Plan σ Flow) = Plan.ask (.statement t x) := by
  refine funext fun m => congrArg (Course.asks (.statement t x) m) (funext fun r => funext fun n => ?_)
  rcases r with e | _ | v <;> rfl

variable (host limit)

theorem follows_ask {k : Kind} (task : Task k) (hcalls : task.hostCalls = []) {c : Course σ k.Answer} {m : Machine σ}
    (h : c.Follows host limit (task.plan host limit m)) : c.Follows host limit (Plan.ask task m) := by
  have hasks : (c.andThen .ended).Follows host limit (.asks task m .ended) := follows_asks _ hcalls h
  rwa [Course.andThen_ended] at hasks

/-- Statements of which a block is the only one do what the block does. -/
theorem follows_statement (s : Scope) (t : ScopeId) (inner outer : Span) (m : Machine σ) :
    ((Task.block t s).plan host limit m).Follows host limit
      ((Task.statements t [s.statement inner outer]).plan host limit m) := by
  show Course.Follows _ _ _ (Plan.statements t [s.statement inner outer] m)
  rw [statements_singleton]
  exact follows_ask host limit (.statement t (s.statement inner outer)) rfl
    (follows_ask host limit (.block t s) rfl (.refl _))

/-- What is run inside blocks is what is run in a scope that the blocks make up, by induction on their number. -/
theorem follows_runInside (h : Scope.Wraps k body s) (b : Nest) (m : Machine σ) :
    (Plan.runInside k body b m).Follows host limit
      (Plan.holding [.scope b.inner] (Plan.ask (.statements b.inner s.body)) m) := by
  induction h generalizing b m with
  | bare => exact .refl _
  | @block k body s inner outer span _ ih =>
    have hblock := follows_statement host limit s b.inner inner outer
      { m with memory := m.memory.holding [.scope b.inner] }
    have hinside := (ih (b.deepen _) { m with memory := _ }).trans hblock
    exact follows_asks (k := .flow)
      (fun r n => .ended r { n with memory := { n.memory with held := m.memory.held } }) rfl hinside

end Blocks

/-! ## Returns through blocks -/

/-- Statements and those of them up to a place, at any depth of blocks: what stands behind the place is left out of
every block around it. -/
inductive Statement.UpTo : List Statement → List Statement → Prop
  | here (xs behind : List Statement) : Statement.UpTo xs (xs ++ behind)
  | inside (before behind : List Statement) (inner outer span : Span) {xs ys : List Statement}
      (h : Statement.UpTo xs ys) :
      Statement.UpTo (before ++ [Scope.statement ⟨xs, span⟩ inner outer])
        (before ++ Scope.statement ⟨ys, span⟩ inner outer :: behind)

/-- Wherever the first computation ends with a return, the second one does, with the same value and the same machine. -/
def Eval.Decides (ev ev' : Eval σ Flow) : Prop :=
  ∀ m v n, ev m = (.ok (.returning v), n) → ev' m = (.ok (.returning v), n)

section Returns

variable {ev ev' : Eval σ Flow} {calls : Calls σ} {scope : ScopeId} {xs ys : List Statement}

theorem Eval.Decides.refl (ev : Eval σ Flow) : ev.Decides ev := fun _ _ _ h => h

theorem Eval.Decides.trans {ev'' : Eval σ Flow} (h : ev.Decides ev') (h' : ev'.Decides ev'') : ev.Decides ev'' :=
  fun m v n hrun => h' m v n (h m v n hrun)

theorem Eval.decides_bind (ev : Eval σ α) {f g : α → Eval σ Flow} (h : ∀ a, (f a).Decides (g a)) :
    (ev >>= f).Decides (ev >>= g) := by
  intro m v n hrun
  rw [Eval.bind_apply] at hrun ⊢
  rcases hev : ev m with ⟨e | a, k⟩
  · rw [hev] at hrun
    cases hrun
  · rw [hev] at hrun
    exact h a k v n hrun

theorem Eval.Decides.holding (h : ev.Decides ev') (cs : List Cell) :
    (Eval.holding cs ev).Decides (Eval.holding cs ev') := by
  intro m v n hrun
  unfold Eval.holding at hrun ⊢
  rcases hev : ev { m with memory := m.memory.holding cs } with ⟨r, k⟩
  rw [hev] at hrun
  cases hrun
  rw [h _ _ _ hev]

theorem Eval.Decides.deeper (h : ev.Decides ev') : (Eval.deeper ev).Decides (Eval.deeper ev') := by
  intro m v n hrun
  unfold Eval.deeper at hrun ⊢
  rcases hev : ev { m with depth := m.depth + 1 } with ⟨r, k⟩
  rw [hev] at hrun
  cases hrun
  rw [h _ _ _ hev]

theorem execAll_singleton (x : Statement) : Statement.execAll calls scope [x] = x.exec calls scope := by
  funext m
  rw [Statement.execAll, Eval.bind_apply]
  rcases x.exec calls scope m with ⟨e | _ | v, k⟩
  · rfl
  · rw [Statement.execAll]
    rfl
  · rfl

/-- What stands behind a return is not run. -/
theorem decides_append (xs behind : List Statement) :
    (Statement.execAll calls scope xs).Decides (Statement.execAll calls scope (xs ++ behind)) := by
  induction xs with
  | nil =>
    intro m v n hrun
    rw [Statement.execAll] at hrun
    cases hrun
  | cons x xs ih =>
    rw [List.cons_append, Statement.execAll, Statement.execAll]
    refine Eval.decides_bind _ fun flow => ?_
    cases flow with
    | completed => exact ih
    | returning v => exact .refl _

theorem Eval.Decides.after (before : List Statement)
    (h : (Statement.execAll calls scope xs).Decides (Statement.execAll calls scope ys)) :
    (Statement.execAll calls scope (before ++ xs)).Decides (Statement.execAll calls scope (before ++ ys)) := by
  induction before with
  | nil => exact h
  | cons x before ih =>
    rw [List.cons_append, List.cons_append, Statement.execAll, Statement.execAll]
    refine Eval.decides_bind _ fun flow => ?_
    cases flow with
    | completed => exact ih
    | returning v => exact .refl _

/-- A return leaves the block that it stands in. -/
theorem decides_block (inner outer span : Span)
    (h : ∀ scope, (Statement.execAll calls scope xs).Decides (Statement.execAll calls scope ys)) :
    (Statement.execAll calls scope [Scope.statement ⟨xs, span⟩ inner outer]).Decides
      (Statement.execAll calls scope [Scope.statement ⟨ys, span⟩ inner outer]) := by
  rw [execAll_singleton, execAll_singleton]
  unfold Scope.statement
  rw [Statement.exec, Statement.exec, Scope.execInside, Scope.execInside]
  exact Eval.decides_bind _ fun t => (h t).holding [.scope t]

/-- A return leaves every block around it at once, by induction on the depth of blocks. -/
theorem Statement.UpTo.decides (h : Statement.UpTo xs ys) :
    (Statement.execAll calls scope xs).Decides (Statement.execAll calls scope ys) := by
  induction h generalizing scope with
  | here xs behind => exact decides_append xs behind
  | @inside before behind inner outer span _ ys _ ih =>
    rw [List.append_cons before (Scope.statement ⟨ys, span⟩ inner outer) behind]
    exact ((decides_block inner outer span fun _ => ih).after before).trans (decides_append _ behind)

/-- What the call of a closure does, with some statements for its body. -/
def callWith (host : Host σ) (refuse : Span → Eval σ Value) (room : Nat) (body : List Statement) (c : ClosureId)
    (arguments : List Value) (span : Span) : Eval σ Flow := do
  let f := (← memory).closure c
  let (scope, m) ← lift span ((← memory).newFunctionScope f.scope f.parameters arguments)
  setMemory m
  deeper (holding [.scope scope] (Statement.execAll ⟨host, callWithin host refuse room⟩ scope body))

theorem decides_callWith (h : Statement.UpTo xs ys) (host : Host σ) (refuse : Span → Eval σ Value) (room : Nat)
    (c : ClosureId) (args : List Value) (span : Span) :
    (callWith host refuse room xs c args span).Decides (callWith host refuse room ys c args span) := by
  unfold callWith
  refine Eval.decides_bind _ fun k => Eval.decides_bind _ fun l => Eval.decides_bind _ fun r => ?_
  exact Eval.decides_bind _ fun _ => (h.decides.holding _).deeper

theorem exec_eq (x : Scope) : x.exec calls scope = Statement.execAll calls scope x.body := by
  obtain ⟨body, place⟩ := x
  rw [Scope.exec]

theorem callWithin_succ (host : Host σ) (refuse : Span → Eval σ Value) (room : Nat) (c : ClosureId) (args : List Value)
    (span : Span) (m : Machine σ) : callWithin host refuse (room + 1) c args span m =
      (do return (← callWith host refuse room (m.memory.closure c).body.body c args span).value : Eval σ Value) m := by
  have hwithin : callWithin host refuse (room + 1) c args span m =
      (lift span (m.memory.newFunctionScope (m.memory.closure c).scope (m.memory.closure c).parameters args) >>=
        fun r => do
          setMemory r.2
          let flow ← deeper (holding [.scope r.1]
            (Scope.exec ⟨host, callWithin host refuse room⟩ r.1 (m.memory.closure c).body))
          return flow.value : Eval σ Value) m := rfl
  have hwith (body : List Statement) : callWith host refuse room body c args span m =
      (lift span (m.memory.newFunctionScope (m.memory.closure c).scope (m.memory.closure c).parameters args) >>=
        fun r => do
          setMemory r.2
          deeper (holding [.scope r.1] (Statement.execAll ⟨host, callWithin host refuse room⟩ r.1 body)) :
            Eval σ Flow) m := rfl
  rw [hwithin, Eval.bind_apply (callWith _ _ _ _ _ _ _), hwith]
  cases m.memory.newFunctionScope _ _ _ with
  | error e => rfl
  | ok r =>
    simp only [exec_eq]
    exact Eval.bind_apply (deeper (holding [.scope r.1] _)) _ { m with memory := r.2 }

/-- Where the statements of a function up to some place end with a return, the call ends at once with the value. -/
theorem callWithin_of_returning {host : Host σ} {refuse : Span → Eval σ Value} {room : Nat} {c : ClosureId}
    {args : List Value} {span : Span} {m n : Machine σ} {v : Value}
    (h : Statement.UpTo xs (m.memory.closure c).body.body)
    (hrun : callWith host refuse room xs c args span m = (.ok (.returning v), n)) :
    callWithin host refuse (room + 1) c args span m = (.ok v, n) := by
  rw [callWithin_succ, Eval.bind_apply, decides_callWith h host refuse room c args span m v n hrun]
  rfl

end Returns

end GameScript
